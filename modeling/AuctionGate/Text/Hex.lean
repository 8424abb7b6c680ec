import AuctionGate.Text.Utf8

/-!
# Hexadecimal

Digits of either case, and octets written as pairs of them.
-/

namespace AuctionGate.Hex

def digit? (c : Char) : Option Nat :=
  if '0' ≤ c ∧ c ≤ '9' then some (c.toNat - 48)
  else if 'a' ≤ c ∧ c ≤ 'f' then some (c.toNat - 87)
  else if 'A' ≤ c ∧ c ≤ 'F' then some (c.toNat - 55)
  else none

/-- The lower-case digits of a number, without leading zeros. -/
def lower (n : Nat) : String :=
  String.ofList (Nat.toDigits 16 n)

/-- Two upper-case digits for an octet. -/
def upperPair (b : UInt8) : List Char :=
  let one (n : Nat) : Char := if n < 10 then Char.ofNat (48 + n) else Char.ofNat (55 + n)
  [one (b.toNat / 16), one (b.toNat % 16)]

def decodePairs? : List Char → Option Octets
  | [] => some []
  | [_] => none
  | a :: b :: rest => do
    let high ← digit? a
    let low ← digit? b
    let tail ← decodePairs? rest
    some (UInt8.ofNat (high * 16 + low) :: tail)

end AuctionGate.Hex
