import AuctionGate.Decimal.Shortest
import AuctionGate.Net.Ip
import AuctionGate.Text.Hex

/-!
# Numbers in YAML

A whole number is decimal without leading zeros, or hexadecimal, octal or binary behind `0x`, `0o`
or `0b`, with a sign in front. A number with a point or an exponent counts as one only as long as
it is finite.
-/

namespace AuctionGate.Yaml

/-- The digits behind a mark for the base, or decimal digits. -/
def unsignedDigits? (cs : List Char) : Option Nat :=
  match cs with
  | '0' :: 'x' :: ds => Net.number? 16 ds
  | '0' :: 'o' :: ds => Net.number? 8 ds
  | '0' :: 'b' :: ds => Net.number? 2 ds
  | ['0'] => some 0
  | '0' :: _ => none
  | ds => Net.number? 10 ds

/-- A number without minus sign. -/
def unsigned? (s : String) : Option Nat :=
  match s.toList with
  | '+' :: cs => unsignedDigits? cs
  | cs => unsignedDigits? cs

/-- A number behind a minus sign, without it. -/
def negative? (s : String) : Option Nat :=
  match s.toList with
  | '-' :: cs => unsignedDigits? cs
  | _ => none

def whole? (s : String) : Option Int :=
  match unsigned? s with
  | some n => some n
  | none => (negative? s).map fun n => -(n : Int)

/-- Digits alone, of which the first is a superfluous zero, make up a text. -/
def isPadded (s : String) : Bool :=
  let cs := match s.toList with
    | '+' :: cs => cs
    | '-' :: cs => cs
    | cs => cs
  1 < cs.length && cs.head? = some '0' && cs.all Char.isDigit

/-- The value of decimal digits. -/
private def decimalValue (ds : List Char) : Nat := ds.foldl (fun n d => n * 10 + (d.toNat - 48)) 0

/-- `m · 10 ^ e` rounds to a finite double. -/
def isFinite (m : Nat) (e : Int) : Bool :=
  let places : Int := (Nat.toDigits 10 m).length + e
  if m = 0 || places < 300 then true
  else if 310 < places then false
  else
    m * Decimal.pow10 e.toNat
      < (Decimal.pow2 1024 - Decimal.pow2 970) * Decimal.pow10 (-e).toNat

/-- A finite number in digits, with a point or an exponent or both or neither. -/
def isDecimal (cs : List Char) : Bool :=
  let cs := match cs with
    | '-' :: cs => cs
    | '+' :: cs => cs
    | cs => cs
  let whole := cs.takeWhile Char.isDigit
  let rest := cs.dropWhile Char.isDigit
  let (fraction, rest) := match rest with
    | '.' :: rest => (rest.takeWhile Char.isDigit, rest.dropWhile Char.isDigit)
    | rest => ([], rest)
  let exponent : Option Int := match rest with
    | [] => some 0
    | e :: rest =>
      if e = 'e' ∨ e = 'E' then
        match rest with
        | '-' :: ds => (Net.number? 10 ds).map fun n => -(n : Int)
        | '+' :: ds => (Net.number? 10 ds).map fun n => (n : Int)
        | ds => (Net.number? 10 ds).map fun n => (n : Int)
      else none
  match exponent with
  | none => false
  | some e =>
    !(whole.isEmpty && fraction.isEmpty)
      && isFinite (decimalValue (whole ++ fraction)) (e - fraction.length)

/-- A number that is not whole: infinite, not a number, or finite. -/
def isFloat (s : String) : Bool :=
  [".inf", ".Inf", ".INF", "+.inf", "+.Inf", "+.INF", "-.inf", "-.Inf", "-.INF", ".nan", ".NaN",
    ".NAN"].contains s
    || match s.toList with
      | '+' :: '+' :: _ => false
      | '+' :: '-' :: _ => false
      | '+' :: cs => isDecimal cs
      | cs => isDecimal cs

end AuctionGate.Yaml
