import AuctionGate.Text.Hex

/-!
# IP addresses

An IPv4 address is written with one to four numbers between dots, of which the last fills all
octets that are left; a number is hexadecimal after `0x` and octal after `0`. An IPv6 address has
eight groups of hexadecimal digits; `::` stands once for the zero groups left out, and the last two
groups may be written as four decimal numbers between dots.
-/

namespace AuctionGate.Net

inductive Ip where
  | v4 (n : Nat)
  | v6 (groups : List Nat)
  deriving DecidableEq, Repr

/-- The parts of a text between separators. -/
def splitOn (sep : Char) : List Char → List (List Char)
  | [] => [[]]
  | c :: cs =>
    if c = sep then [] :: splitOn sep cs
    else
      match splitOn sep cs with
      | p :: ps => (c :: p) :: ps
      | [] => [[c]]

/-- The digits of a base as a number; none for an empty text or another character. -/
def number? (base : Nat) (cs : List Char) : Option Nat :=
  if cs.isEmpty then none
  else
    cs.foldlM (fun n c =>
      (Hex.digit? c).bind fun d => if d < base then some (n * base + d) else none) 0

namespace Ip

/-- A number of an IPv4 address. -/
def part? : List Char → Option Nat
  | '0' :: x :: cs => if x = 'x' ∨ x = 'X' then number? 16 cs else number? 8 (x :: cs)
  | cs => number? 10 cs

/-- The address that numbers make; the last one fills all octets that are left. -/
def ofParts? (parts : List Nat) : Option Nat := do
  let lead := parts.dropLast
  let last ← parts.getLast?
  if 3 < lead.length ∨ lead.any (255 < ·) ∨ 1 <<< (8 * (4 - lead.length)) ≤ last then none
  else some (lead.zipIdx.foldl (fun n (p, i) => n + (p <<< (8 * (3 - i)))) last)

def v4? (cs : List Char) : Option Nat := ((splitOn '.' cs).mapM part?).bind ofParts?

/-- Four decimal numbers without leading zeros. -/
def dotted? (cs : List Char) : Option (Nat × Nat) := do
  let parts ← (splitOn '.' cs).mapM fun p =>
    if 1 < p.length ∧ p.head? = some '0' then none else (number? 10 p).filter (· < 256)
  match parts with
  | [a, b, c, d] => some (a * 256 + b, c * 256 + d)
  | _ => none

def group? (cs : List Char) : Option Nat :=
  if 4 < cs.length then none else number? 16 cs

/-- Groups between colons, the last of which may be dotted. -/
def groups? : List (List Char) → Option (List Nat)
  | [] => some []
  | [p] => if '.' ∈ p then (dotted? p).map fun (a, b) => [a, b] else (group? p).map ([·])
  | p :: ps => do
    let g ← group? p
    let gs ← groups? ps
    some (g :: gs)

/-- The text before and after the first `::`. -/
def splitGap : List Char → Option (List Char × List Char)
  | ':' :: ':' :: cs => some ([], cs)
  | c :: cs => (splitGap cs).map fun (a, b) => (c :: a, b)
  | [] => none

def side? (cs : List Char) : Option (List Nat) :=
  if cs.isEmpty then some [] else groups? (splitOn ':' cs)

def v6? (cs : List Char) : Option (List Nat) :=
  match splitGap cs with
  | none => (side? cs).filter (·.length = 8)
  | some (a, b) => do
    if '.' ∈ a then none
    let head ← side? a
    let tail ← side? b
    if 7 < head.length + tail.length then none
    else some (head ++ List.replicate (8 - head.length - tail.length) 0 ++ tail)

/-- The longest run of zero groups, at least two long, the first of several: start and length. -/
def zeroRun (groups : List Nat) : Option (Nat × Nat) :=
  let runs := (List.range groups.length).map fun i =>
    (i, ((groups.drop i).takeWhile (· = 0)).length)
  runs.foldl (fun best (i, n) =>
    match best with
    | some (_, m) => if m < n then some (i, n) else best
    | none => if 2 ≤ n then some (i, n) else none) none

def write : Ip → String
  | .v4 n => ".".intercalate ([n >>> 24, (n >>> 16) % 256, (n >>> 8) % 256, n % 256].map toString)
  | .v6 groups =>
    let side (gs : List Nat) := ":".intercalate (gs.map Hex.lower)
    match zeroRun groups with
    | none => "[" ++ side groups ++ "]"
    | some (i, n) => "[" ++ side (groups.take i) ++ "::" ++ side (groups.drop (i + n)) ++ "]"

end Ip

end AuctionGate.Net
