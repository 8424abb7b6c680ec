import AuctionGate.Json.Basic
import AuctionGate.Text.Hex

/-!
# Writing JSON

One line without blanks. A double is written with the fewest digits that read back, and always
with a point or an exponent, so that it stays apart from a whole number.
-/

namespace AuctionGate.Json

/-- Positional from `10 ^ -5` up to `10 ^ 16`. -/
def floatLayout : Decimal.Layout := ⟨-5, 16⟩

def writeFloat (x : Float) : String :=
  if x.isNaN || x.isInf then "null"
  else
    let bits := x.toBits
    let sign := if bits.toNat / Decimal.pow2 63 = 1 then "-" else ""
    match Decimal.ofBits bits with
    | none => sign ++ "0.0"
    | some (m, e, atPower) => sign ++ floatLayout.write (Decimal.shortest m e atPower)

def Number.write : Number → String
  | .int n => toString n
  | .float x => writeFloat x

/-- A character inside quotes. -/
def escape (c : Char) : List Char :=
  if c = '"' then ['\\', '"']
  else if c = '\\' then ['\\', '\\']
  else if c = '\n' then ['\\', 'n']
  else if c = '\r' then ['\\', 'r']
  else if c = '\t' then ['\\', 't']
  else if c.toNat < 0x20 then
    ['\\', 'u', '0', '0'] ++ Hex.upperPair (UInt8.ofNat c.toNat)
  else [c]

def writeString (s : String) : String :=
  String.ofList ('"' :: s.toList.flatMap escape ++ ['"'])

mutual

def write : Json → String
  | .null => "null"
  | .bool true => "true"
  | .bool false => "false"
  | .num n => n.write
  | .str s => writeString s
  | .arr items => "[" ++ ",".intercalate (writeItems items) ++ "]"
  | .obj members => "\x7b" ++ ",".intercalate (writeMembers members) ++ "\x7d"

def writeItems : List Json → List String
  | [] => []
  | v :: rest => write v :: writeItems rest

def writeMembers : List (String × Json) → List String
  | [] => []
  | (name, v) :: rest => (writeString name ++ ":" ++ write v) :: writeMembers rest

end

end AuctionGate.Json
