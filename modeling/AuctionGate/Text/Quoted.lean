import AuctionGate.Text.Hex
import AuctionGate.Text.Shapeless

/-!
# Quoted text

A text between quotes, for a reader of logs: backslash escapes for quotes, backslashes, line ends,
tabs and NUL, and code points in braces for characters without a shape of their own.
-/

namespace AuctionGate.Text

def quoteChar (c : Char) : List Char :=
  if c = '"' then ['\\', '"']
  else if c = '\\' then ['\\', '\\']
  else if c = '\n' then ['\\', 'n']
  else if c = '\r' then ['\\', 'r']
  else if c = '\t' then ['\\', 't']
  else if c.toNat = 0 then ['\\', '0']
  else if isShapeless c then ['\\', 'u', '\x7b'] ++ Nat.toDigits 16 c.toNat ++ ['\x7d']
  else [c]

def quote (s : String) : String :=
  String.ofList ('"' :: s.toList.flatMap quoteChar ++ ['"'])

end AuctionGate.Text
