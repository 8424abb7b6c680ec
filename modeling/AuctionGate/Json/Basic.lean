import AuctionGate.Decimal.Shortest

/-!
# JSON values

A value's object is a list of named members. `Json.normal` puts every object's members in the
order of their names and keeps the last of those with one name; `insertMember` does so for one
member, and leaves a list sorted that was.
-/

namespace AuctionGate

/-- A number is a whole number of 64 bits, signed or not, or a double. -/
inductive Json.Number where
  | int (n : Int)
  | float (x : Float)

inductive Json where
  | null
  | bool (b : Bool)
  | num (n : Json.Number)
  | str (s : String)
  | arr (items : List Json)
  | obj (members : List (String × Json))

namespace Json

instance : Inhabited Json := ⟨.null⟩

def nat (n : Nat) : Json := .num (.int n)

def ofOption {α : Type} (f : α → Json) : Option α → Json
  | some a => f a
  | none => .null

def strings (l : List String) : Json := .arr (l.map .str)

abbrev Members := List (String × Json)

def insertMember (name : String) (v : Json) : Members → Members
  | [] => [(name, v)]
  | (k, w) :: rest =>
    if name < k then (name, v) :: (k, w) :: rest
    else if name = k then (name, v) :: rest
    else (k, w) :: insertMember name v rest

/-- Members in the order of their names, the last of each name kept. -/
def sortMembers (ms : Members) : Members :=
  ms.foldl (fun acc m => insertMember m.1 m.2 acc) []

mutual

def normal : Json → Json
  | .arr items => .arr (normalItems items)
  | .obj members => .obj (sortMembers (normalMembers members))
  | v => v

def normalItems : List Json → List Json
  | [] => []
  | v :: rest => normal v :: normalItems rest

def normalMembers : List (String × Json) → List (String × Json)
  | [] => []
  | (name, v) :: rest => (name, normal v) :: normalMembers rest

end

/-- The last member of a name. -/
def Members.find? (ms : Members) (name : String) : Option Json :=
  (ms.reverse.find? (·.1 == name)).map (·.2)

def member? (v : Json) (name : String) : Option Json :=
  match v with
  | .obj ms => Members.find? ms name
  | _ => none

def str? : Json → Option String
  | .str s => some s
  | _ => none

def nat? : Json → Option Nat
  | .num (.int n) => if 0 ≤ n then some n.toNat else none
  | _ => none

/-- A whole number below `bound`. -/
def natBelow? (v : Json) (bound : Nat) : Option Nat :=
  v.nat?.filter (· < bound)

def float? : Json → Option Float
  | .num (.int n) =>
    let x := n.natAbs.toUInt64.toFloat
    some (if n < 0 then -x else x)
  | .num (.float x) => some x
  | _ => none

def items? : Json → Option (List Json)
  | .arr items => some items
  | _ => none

end Json

end AuctionGate
