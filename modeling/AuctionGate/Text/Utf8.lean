/-!
# UTF-8

Octets read as text. `decode?` refuses a sequence that is not UTF-8; `decodeLossy` puts U+FFFD in
place of each maximal part that no further octet can complete, and reads on from the first octet
after that part.
-/

namespace AuctionGate

abbrev Octets := List UInt8

namespace Utf8

/-- A character begun: its bits so far, the octets it still owes, and the bounds of the next. -/
structure Pending where
  bits : Nat
  owed : Nat
  low : UInt8
  high : UInt8

/-- What an octet means between characters. -/
inductive Lead where
  | whole (c : Char)
  | begun (p : Pending)
  | refused

def lead (b : UInt8) : Lead :=
  if b < 0x80 then .whole (Char.ofNat b.toNat)
  else if b < 0xC2 then .refused
  else if b < 0xE0 then .begun ⟨b.toNat - 0xC0, 1, 0x80, 0xBF⟩
  else if b = 0xE0 then .begun ⟨0, 2, 0xA0, 0xBF⟩
  else if b = 0xED then .begun ⟨0xD, 2, 0x80, 0x9F⟩
  else if b < 0xF0 then .begun ⟨b.toNat - 0xE0, 2, 0x80, 0xBF⟩
  else if b = 0xF0 then .begun ⟨0, 3, 0x90, 0xBF⟩
  else if b < 0xF4 then .begun ⟨b.toNat - 0xF0, 3, 0x80, 0xBF⟩
  else if b = 0xF4 then .begun ⟨4, 3, 0x80, 0x8F⟩
  else .refused

/-- The characters of an octet sequence, with `none` for each part that is not one. -/
def items : Option Pending → Octets → List (Option Char)
  | none, [] => []
  | some _, [] => [none]
  | none, b :: bs =>
    match lead b with
    | .whole c => some c :: items none bs
    | .begun p => items (some p) bs
    | .refused => none :: items none bs
  | some p, b :: bs =>
    if p.low ≤ b ∧ b ≤ p.high then
      let bits := p.bits * 64 + (b.toNat - 0x80)
      if p.owed ≤ 1 then some (Char.ofNat bits) :: items none bs
      else items (some ⟨bits, p.owed - 1, 0x80, 0xBF⟩) bs
    else
      match lead b with
      | .whole c => none :: some c :: items none bs
      | .begun p => none :: items (some p) bs
      | .refused => none :: none :: items none bs

def decode? (bs : Octets) : Option String :=
  ((items none bs).mapM id).map String.ofList

def decodeLossy (bs : Octets) : String :=
  String.ofList ((items none bs).map (·.getD '\uFFFD'))

def encode (s : String) : Octets :=
  s.toList.flatMap String.utf8EncodeChar

end Utf8

end AuctionGate
