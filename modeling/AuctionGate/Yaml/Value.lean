import AuctionGate.Yaml.Node
import AuctionGate.Yaml.Number

/-!
# Values in YAML documents

A reader asks a node for what it needs. A text is any scalar as it is written; a number is a plain
scalar; a value that may be missing is missing where a plain scalar is empty or null; an empty
value does for a collection without members.

A reader that does not know what it needs gathers `Content`, in which plain scalars have become
null, flags, numbers or texts. Aliases are followed, but only so deep and so often.
-/

namespace AuctionGate.Yaml

def isNull (s : String) : Bool := ["null", "Null", "NULL", "~"].contains s

def flag? (s : String) : Option Bool :=
  if ["true", "True", "TRUE"].contains s then some true
  else if ["false", "False", "FALSE"].contains s then some false
  else none

def coreTag (name : String) : Option String := some ("tag:yaml.org,2002:" ++ name)

namespace Document

variable (d : Document)

def text? (n : Node) : Option String :=
  match d.resolve? n with
  | some (.scalar _ _ text) => some text
  | _ => none

/-- A whole number below `bound`, written plain, or as a literal block tagged as a number. -/
def natBelow? (bound : Nat) (n : Node) : Option Nat :=
  match d.resolve? n with
  | some (.scalar tag style text) =>
    if style = .plain ∨ (style = .literal ∧ tag = coreTag "int") then
      (unsigned? text).filter (· < bound)
    else none
  | _ => none

/-- A value that may be missing. -/
def optional? {α : Type} (f : Node → Option α) (n : Node) : Option (Option α) :=
  match d.resolve? n with
  | some (.scalar tag .plain text) =>
    if tag = coreTag "null" then if isNull text then some none else none
    else if tag.isNone && (text.isEmpty || isNull text) then some none
    else (f n).map some
  | some _ => (f n).map some
  | none => none

/-- The members of a mapping whose names are texts. -/
def members? (n : Node) : Option (List (String × Node)) :=
  match d.resolve? n with
  | some (.map _ entries) => entries.mapM fun (k, v) => (d.text? k).map fun k => (k, v)
  | some (.scalar _ .plain "") => some []
  | _ => none

def items? {α : Type} (f : Node → Option α) (n : Node) : Option (List α) :=
  match d.resolve? n with
  | some (.seq _ items) => items.mapM f
  | some (.scalar _ .plain "") => some []
  | _ => none

end Document

/-- The nodes under a name. -/
def under (name : String) (ms : List (String × Node)) : List Node :=
  (ms.filter (·.1 = name)).map (·.2)

/-- The member of a name, which has to be there once. -/
def required? {α : Type} (ms : List (String × Node)) (name : String) (f : Node → Option α) :
    Option α :=
  match under name ms with
  | [n] => f n
  | _ => none

/-- The member of a name, which may be there once. -/
def defaulted? {α : Type} (ms : List (String × Node)) (name : String) (f : Node → Option α)
    (default : α) : Option α :=
  match under name ms with
  | [] => some default
  | [n] => f n
  | _ => none

/-! ### Content -/

inductive Content where
  | null
  | flag (b : Bool)
  | whole (n : Int)
  | float
  | text (s : String)
  | seq (items : List Content)
  | map (entries : List (Content × Content))

namespace Content

/-- A whole number counts within 64 bits, and none may lie between 64 and 128. -/
inductive Width where
  | word
  | wide
  | none
  deriving DecidableEq

def widthOf (n : Int) : Width :=
  let word : Int := UInt64.size
  if -(word / 2) ≤ n ∧ n < word then .word
  else if -(word * word / 2) ≤ n ∧ n < word * word then .wide
  else .none

/-- What a plain scalar without tag stands for. -/
def ofPlain? (s : String) : Option Content :=
  if s.isEmpty || isNull s then some .null
  else
    match flag? s, whole? s with
    | some b, _ => some (.flag b)
    | none, some n =>
      match widthOf n with
      | .word => some (.whole n)
      | .wide => none
      | .none => some (if isFloat s then .float else .text s)
    | none, none => some (if !isPadded s && isFloat s then .float else .text s)

/-- What a scalar stands for. -/
def ofScalar? (tag : Option String) (style : Style) (s : String) : Option Content :=
  match tag with
  | none => if style = .plain then ofPlain? s else some (.text s)
  | some t =>
    if tag = coreTag "bool" then (flag? s).map .flag
    else if tag = coreTag "int" then
      (whole? s).bind fun n => if widthOf n = .word then some (.whole n) else none
    else if tag = coreTag "float" then if isFloat s then some .float else none
    else if tag = coreTag "null" then if isNull s then some .null else none
    else if t.startsWith "!" then none
    else some (.text s)

/-- A collection may have any tag but one of its own. -/
def isOwnTag (tag : Option String) : Bool := tag.any fun t => t.startsWith "!" && t ≠ "!"

/-- Gathers the content of a node at most `depth` collections deep. The state counts the aliases
that may still be followed. -/
def gather (d : Document) : Nat → Nat → Node → StateT Nat Option Content
  | 0, _, _ => fun _ => none
  | fuel + 1, depth, n => do
    match n with
    | .alias number =>
      match ← get, d.target? number with
      | jumps + 1, some n => do
        set jumps
        gather d fuel depth n
      | _, _ => fun _ => none
    | .scalar tag style written => fun s => (ofScalar? tag style written).map fun c => (c, s)
    | .seq tag items =>
      if isOwnTag tag || depth = 0 then fun _ => none
      else return .seq (← items.mapM (gather d fuel (depth - 1)))
    | .map tag entries =>
      if isOwnTag tag || depth = 0 then fun _ => none
      else return .map (← entries.mapM fun (k, v) => do
        return (← gather d fuel (depth - 1) k, ← gather d fuel (depth - 1) v))

/-- Collections may be nested this deep in a document. -/
def maxDepth : Nat := 128

/-- The contents of nodes `around` collections deep. -/
def gatherAll? (d : Document) (around : Nat) (ns : List (String × Node)) :
    Option (List (String × Content)) :=
  let depth := maxDepth - around
  let all : StateT Nat Option (List (String × Content)) := ns.mapM fun (k, n) => do
    return (k, ← gather d (2 * depth + 2) depth n)
  (all.run (100 * d.events)).map (·.1)

def text? : Content → Option String
  | text s => some s
  | _ => none

def natBelow? (bound : Nat) : Content → Option Nat
  | whole n => if 0 ≤ n ∧ n < bound then some n.toNat else none
  | _ => none

def items? {α : Type} (f : Content → Option α) : Content → Option (List α)
  | seq items => items.mapM f
  | _ => none

end Content

end AuctionGate.Yaml
