import AuctionGate.Telemetry.Journal

/-!
# Log filters

A filter is a list of directives, written between commas. A directive is a level of detail, or the
beginning of a source's name with a level, or without one for all detail. Of the directives whose
source fits a line, the longest decides, and of equally long ones the last; a line that none fits is
not shown. A filter without directives shows errors.
-/

namespace AuctionGate

structure Directive where
  /-- What the source's name begins with; none fits every source. -/
  source : Option String
  detail : Nat
  deriving DecidableEq, Repr

namespace Directive

def details : List (String × Nat) :=
  [("off", 0), ("error", 1), ("warn", 2), ("info", 3), ("debug", 4), ("trace", 5)]

def allDetail : Nat := 5

/-- A level by its name in any case, or by its number. -/
def detail? (s : String) : Option Nat :=
  match details.find? fun (name, n) => name = s.toLower || toString n = s with
  | some (_, n) => some n
  | none => none

def isSourceChar (c : Char) : Bool := c.isAlphanum || ['_', ':', '-'].contains c

def parse? (s : String) : Option Directive :=
  match detail? s with
  | some n => some ⟨none, n⟩
  | none =>
    let source := s.toList.takeWhile isSourceChar
    if source.isEmpty then none
    else
      match s.toList.drop source.length with
      | [] | ['='] => some ⟨some (String.ofList source), allDetail⟩
      | '=' :: level => (detail? (String.ofList level)).map (⟨some (String.ofList source), ·⟩)
      | _ => none

def fits (d : Directive) (source : String) : Bool :=
  d.source.all fun s => s.toList.isPrefixOf source.toList

/-- Longer beginnings weigh more, and any more than none. -/
def weight (d : Directive) : Nat := (d.source.map (·.length + 1)).getD 0

end Directive

structure Filter where
  directives : List Directive
  deriving DecidableEq, Repr

namespace Filter

def informative : Filter := ⟨[⟨none, Level.info.detail⟩]⟩

def parse? (s : String) : Option Filter := do
  let ds ← ((s.splitOn ",").filter (· ≠ "")).mapM Directive.parse?
  some (if ds.isEmpty then ⟨[⟨none, Level.error.detail⟩]⟩ else ⟨ds⟩)

/-- The filter that is written, or else what informs. -/
def ofText (s : Option String) : Filter := (s.bind parse?).getD informative

/-- The directive that decides about a source. -/
def directive? (f : Filter) (source : String) : Option Directive :=
  (f.directives.filter (·.fits source)).foldl (fun best d =>
    if best.all (·.weight ≤ d.weight) then some d else best) none

def shows (f : Filter) (l : Line) : Bool :=
  (f.directive? l.source.name).any (l.level.detail ≤ ·.detail)

end Filter

end AuctionGate
