import AuctionGate.Json.Basic
import AuctionGate.Text.Hex

/-!
# Reading JSON

A document is read in two steps. `Tree.read` finds its shape and keeps all that is written:
repeated names, and leaves that are well formed but have no value, a string with a lone surrogate
or with octets that are not UTF-8, and a number beyond the doubles. `Tree.value?` gives the value,
refuses such a leaf, and refuses arrays and objects nested deeper than it is told. What a reader of
one kind of object ignores is never given a value, so nothing in it is refused.
-/

namespace AuctionGate.Json

inductive Tree where
  | null
  | bool (b : Bool)
  | num (n : Option Number)
  | str (s : Option String)
  | arr (items : List Tree)
  | obj (members : List (Option String × Tree))

/-- Arrays and objects may be nested this deep. -/
def maxDepth : Nat := 127

namespace Tree

mutual

/-- The value of a tree at most `depth` arrays and objects deep. -/
def value? : Nat → Tree → Option Json
  | _, .null => some .null
  | _, .bool b => some (.bool b)
  | _, .num n => n.map .num
  | _, .str s => s.map .str
  | 0, .arr _ => none
  | 0, .obj _ => none
  | depth + 1, .arr items => (values? depth items).map .arr
  | depth + 1, .obj members => (memberValues? depth members).map fun ms => .obj (sortMembers ms)

def values? : Nat → List Tree → Option (List Json)
  | _, [] => some []
  | depth, t :: rest => do
    let v ← value? depth t
    let vs ← values? depth rest
    some (v :: vs)

def memberValues? : Nat → List (Option String × Tree) → Option Members
  | _, [] => some []
  | depth, (name, t) :: rest => do
    let name ← name
    let v ← value? depth t
    let ms ← memberValues? depth rest
    some ((name, v) :: ms)

end

mutual

/-- A value as it would be read. -/
def ofJson : Json → Tree
  | .null => .null
  | .bool b => .bool b
  | .num n => .num (some n)
  | .str s => .str (some s)
  | .arr items => .arr (ofItems items)
  | .obj members => .obj (ofMembers members)

def ofItems : List Json → List Tree
  | [] => []
  | v :: rest => ofJson v :: ofItems rest

def ofMembers : List (String × Json) → List (Option String × Tree)
  | [] => []
  | (name, v) :: rest => (some name, ofJson v) :: ofMembers rest

end

/-- The trees written under a name. -/
def under (name : String) : List (Option String × Tree) → List Tree
  | [] => []
  | (k, t) :: rest => if k = some name then t :: under name rest else under name rest

/-- Some name is written twice. -/
def repeats (names : List String) (members : List (Option String × Tree)) : Bool :=
  names.any fun name => 1 < (under name members).length

end Tree

/-! ### Numbers -/

private def isDigit (b : UInt8) : Bool := 0x30 ≤ b && b ≤ 0x39

private def digitsOf (bs : Octets) : List Nat × Octets :=
  ((bs.takeWhile isDigit).map fun b => b.toNat - 48, bs.dropWhile isDigit)

/-- Digits gathered into 64 bits: the first that does not fit is left out, with all after it. -/
structure Gathered where
  significand : Nat
  exponent : Int
  full : Bool

/-- Digits before the point: each one left out counts as a zero. -/
def Gathered.whole (g : Gathered) (d : Nat) : Gathered :=
  if g.full || UInt64.size ≤ g.significand * 10 + d then
    { g with exponent := g.exponent + 1, full := true }
  else { g with significand := g.significand * 10 + d }

/-- Digits after the point: each one taken lowers the exponent. -/
def Gathered.fraction (g : Gathered) (d : Nat) : Gathered :=
  if g.full || UInt64.size ≤ g.significand * 10 + d then { g with full := true }
  else { g with significand := g.significand * 10 + d, exponent := g.exponent - 1 }

/-- `f · 10 ^ exponent`, by one multiplication or by divisions of at most 308 places each. -/
def scale (f : Float) (exponent : Int) : Nat → Option Float
  | 0 => some f
  | fuel + 1 =>
    if exponent.natAbs ≤ 308 then
      let pow := Float.ofScientific 1 false exponent.natAbs
      if 0 ≤ exponent then
        let x := f * pow
        if x.isInf then none else some x
      else some (f / pow)
    else if f == 0.0 then some f
    else if 0 ≤ exponent then none
    else scale (f / Float.ofScientific 1 false 308) (exponent + 308) fuel

private def clamp (e : Int) : Int := max (-2147483648) (min 2147483647 e)

private def signed (negative : Bool) (f : Float) : Float := if negative then -f else f

/-- The double that a decimal is read as; `none` beyond the doubles. -/
def floatOf (negative : Bool) (g : Gathered) (exponent : Option (Bool × Nat)) : Option Float :=
  match exponent with
  | none => (scale g.significand.toUInt64.toFloat g.exponent 5).map (signed negative)
  | some (down, e) =>
    if 2147483647 < e then
      if g.significand ≠ 0 ∧ !down then none else some (signed negative 0.0)
    else
      let total := clamp (if down then g.exponent - e else g.exponent + e)
      (scale g.significand.toUInt64.toFloat total 5).map (signed negative)

/-- A number without point and exponent stays whole as long as 64 bits hold it. -/
def wholeOf (negative : Bool) (n : Nat) (g : Gathered) : Option Number :=
  if n < UInt64.size then
    if negative then
      if n = 0 ∨ UInt64.size / 2 < n then some (.float (-n.toUInt64.toFloat))
      else some (.int (-(n : Int)))
    else some (.int n)
  else (floatOf negative g none).map .float

/-- Reads a number, without its sign. -/
def readUnsigned (negative : Bool) (bs : Octets) : Option (Option Number × Octets) :=
  let (whole, bs) := digitsOf bs
  if whole.isEmpty || (whole.head? = some 0 && 1 < whole.length) then none
  else
    let g := whole.foldl Gathered.whole ⟨0, 0, false⟩
    let fraction : Option (Option (List Nat) × Octets) :=
      match bs with
      | 0x2E :: rest =>
        let (ds, rest) := digitsOf rest
        if ds.isEmpty then none else some (some ds, rest)
      | _ => some (none, bs)
    fraction.bind fun (ds, bs) =>
      let exponent : Option (Option (Bool × Nat) × Octets) :=
        match bs with
        | e :: rest =>
          if e = 0x65 || e = 0x45 then
            let (down, rest) := match rest with
              | 0x2B :: r => (false, r)
              | 0x2D :: r => (true, r)
              | r => (false, r)
            let (es, rest) := digitsOf rest
            if es.isEmpty then none
            else some (some (down, es.foldl (fun n d => n * 10 + d) 0), rest)
          else some (none, bs)
        | [] => some (none, bs)
      exponent.map fun (e, bs) =>
        match ds, e with
        | none, none => (wholeOf negative (whole.foldl (fun n d => n * 10 + d) 0) g, bs)
        | _, _ =>
          let g := (ds.getD []).foldl Gathered.fraction { g with full := false }
          ((floatOf negative g e).map .float, bs)

/-! ### Strings -/

private def hexDigit (b : UInt8) : Option Nat := Hex.digit? (Char.ofNat b.toNat)

private def hexUnit : Octets → Option (Nat × Octets)
  | a :: b :: c :: d :: rest => do
    let a ← hexDigit a
    let b ← hexDigit b
    let c ← hexDigit c
    let d ← hexDigit d
    some (((a * 16 + b) * 16 + c) * 16 + d, rest)
  | _ => none

/-- The trailing surrogate written next, if one is. -/
private def trailing : Octets → Option (Nat × Octets)
  | 0x5C :: 0x75 :: rest =>
    (hexUnit rest).bind fun (n, rest) => if 0xDC00 ≤ n ∧ n < 0xE000 then some (n, rest) else none
  | _ => none

private def escapes : List (UInt8 × UInt8) :=
  [(0x22, 0x22), (0x5C, 0x5C), (0x2F, 0x2F), (0x62, 0x08), (0x66, 0x0C), (0x6E, 0x0A),
    (0x72, 0x0D), (0x74, 0x09)]

/-- Reads a string up to its closing quote. `sound` turns false at a lone surrogate. -/
def readString : Nat → Octets → Bool → Octets → Option (Option String × Octets)
  | 0, _, _, _ => none
  | fuel + 1, acc, sound, bs =>
    match bs with
    | [] => none
    | 0x22 :: rest => some (if sound then Utf8.decode? acc.reverse else none, rest)
    | 0x5C :: rest =>
      match rest with
      | 0x75 :: rest =>
        match hexUnit rest with
        | none => none
        | some (n, rest) =>
          if n < 0xD800 ∨ 0xE000 ≤ n then
            readString fuel ((String.utf8EncodeChar (Char.ofNat n)).reverse ++ acc) sound rest
          else
            match if n < 0xDC00 then trailing rest else none with
            | some (low, rest) =>
              let c := Char.ofNat (0x10000 + (n - 0xD800) * 0x400 + (low - 0xDC00))
              readString fuel ((String.utf8EncodeChar c).reverse ++ acc) sound rest
            | none => readString fuel acc false rest
      | e :: rest =>
        match escapes.find? (·.1 == e) with
        | some (_, b) => readString fuel (b :: acc) sound rest
        | none => none
      | [] => none
    | b :: rest => if b < 0x20 then none else readString fuel (b :: acc) sound rest

/-! ### Documents -/

def skipBlanks : Octets → Octets
  | [] => []
  | b :: bs =>
    if b = 0x20 || b = 0x0A || b = 0x0D || b = 0x09 then skipBlanks bs else b :: bs

private def word (w : List UInt8) (bs : Octets) : Option Octets :=
  if bs.take w.length = w then some (bs.drop w.length) else none

namespace Tree

mutual

def readTree : Nat → Octets → Option (Tree × Octets)
  | 0, _ => none
  | fuel + 1, bs =>
    match bs with
    | [] => none
    | b :: rest =>
      if b = 0x7B then
        match skipBlanks rest with
        | 0x7D :: rest => some (.obj [], rest)
        | rest => (readMembers fuel rest).map fun (ms, rest) => (.obj ms, rest)
      else if b = 0x5B then
        match skipBlanks rest with
        | 0x5D :: rest => some (.arr [], rest)
        | rest => (readItems fuel rest).map fun (ts, rest) => (.arr ts, rest)
      else if b = 0x22 then
        (readString rest.length.succ [] true rest).map fun (s, rest) => (.str s, rest)
      else if b = 0x2D then
        (readUnsigned true rest).map fun (n, rest) => (.num n, rest)
      else if isDigit b then
        (readUnsigned false bs).map fun (n, rest) => (.num n, rest)
      else if b = 0x6E then
        (word [0x75, 0x6C, 0x6C] rest).map fun rest => (.null, rest)
      else if b = 0x74 then
        (word [0x72, 0x75, 0x65] rest).map fun rest => (.bool true, rest)
      else if b = 0x66 then
        (word [0x61, 0x6C, 0x73, 0x65] rest).map fun rest => (.bool false, rest)
      else none

/-- The items of an array and its closing bracket. -/
def readItems : Nat → Octets → Option (List Tree × Octets)
  | 0, _ => none
  | fuel + 1, bs =>
    (readTree fuel (skipBlanks bs)).bind fun (t, rest) =>
      match skipBlanks rest with
      | 0x2C :: rest => (readItems fuel rest).map fun (ts, rest) => (t :: ts, rest)
      | 0x5D :: rest => some ([t], rest)
      | _ => none

/-- The members of an object and its closing brace. -/
def readMembers : Nat → Octets → Option (List (Option String × Tree) × Octets)
  | 0, _ => none
  | fuel + 1, bs =>
    match skipBlanks bs with
    | 0x22 :: rest =>
      (readString rest.length.succ [] true rest).bind fun (name, rest) =>
        match skipBlanks rest with
        | 0x3A :: rest =>
          (readTree fuel (skipBlanks rest)).bind fun (t, rest) =>
            match skipBlanks rest with
            | 0x2C :: rest => (readMembers fuel rest).map fun (ms, rest) => ((name, t) :: ms, rest)
            | 0x7D :: rest => some ([(name, t)], rest)
            | _ => none
        | _ => none
    | _ => none

end

/-- Reads one document that fills the whole text. -/
def read (bs : Octets) : Option Tree :=
  (readTree bs.length.succ (skipBlanks bs)).bind fun (t, rest) =>
    if (skipBlanks rest).isEmpty then some t else none

end Tree

/-- The value of a document. -/
def read (bs : Octets) : Option Json :=
  (Tree.read bs).bind (Tree.value? maxDepth)

end AuctionGate.Json
