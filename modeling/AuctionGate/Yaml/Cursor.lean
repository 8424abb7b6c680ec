/-!
# Places in a YAML text

A cursor is the text still to be read, with the place of its first character. Columns and lines
count from zero.
-/

namespace AuctionGate.Yaml

def isBlank (c : Char) : Bool := c = ' ' || c = '\t'

/-- Line feed, carriage return, and the three breaks beyond ASCII. -/
def isBreak (c : Char) : Bool :=
  c = '\n' || c = '\r' || c.toNat = 0x85 || c.toNat = 0x2028 || c.toNat = 0x2029

def isGap (c : Char) : Bool := isBlank c || isBreak c

/-- A blank, a break, or the end of the text. -/
def endsWord (c : Option Char) : Bool := c.all isGap

/-- A break, or the end of the text. -/
def endsLine (c : Option Char) : Bool := c.all isBreak

/-- Letters, digits, hyphen and underscore make up names. -/
def isNameChar (c : Char) : Bool := c.isAlphanum || c = '-' || c = '_'

/-- Characters that a text may hold: no controls but the tab and the breaks. -/
def isTextChar (c : Char) : Bool :=
  let n := c.toNat
  n = 0x09 || n = 0x0A || n = 0x0D || (0x20 ≤ n && n ≤ 0x7E) || n = 0x85
    || (0xA0 ≤ n && n ≤ 0xFFFD) || 0x10000 ≤ n

structure Cursor where
  rest : List Char
  index : Nat := 0
  line : Nat := 0
  column : Nat := 0
  deriving DecidableEq, Repr

namespace Cursor

def head? (c : Cursor) : Option Char := c.rest.head?

def skip (c : Cursor) (n : Nat) : Cursor :=
  { c with rest := c.rest.drop n, index := c.index + n, column := c.column + n }

/-- The characters up to the first without a property, and the cursor there. -/
def takeWhile (p : Char → Bool) (c : Cursor) : List Char × Cursor :=
  let run := c.rest.takeWhile p
  (run, c.skip run.length)

def dropWhile (p : Char → Bool) (c : Cursor) : Cursor := (c.takeWhile p).2

/-- The break that stands here as it counts in a scalar, and the cursor behind it. -/
def readBreak (c : Cursor) : List Char × Cursor :=
  match c.rest with
  | '\r' :: '\n' :: rest => (['\n'], ⟨rest, c.index + 2, c.line + 1, 0⟩)
  | b :: rest =>
    if isBreak b then
      (if 0x2028 ≤ b.toNat then [b] else ['\n'], ⟨rest, c.index + 1, c.line + 1, 0⟩)
    else ([], c)
  | [] => ([], c)

/-- A line of three equal marks starts here. -/
def atMarks (m : Char) (c : Cursor) : Bool :=
  c.column = 0 && c.rest.take 3 = [m, m, m] && endsWord c.rest[3]?

/-- A document starts or ends here. -/
def atDocumentMark (c : Cursor) : Bool := c.atMarks '-' || c.atMarks '.'

/-- Behind the rest of the line, which may hold a comment. -/
def skipComment (c : Cursor) : Cursor :=
  if c.head? = some '#' then c.dropWhile fun ch => !isBreak ch else c

end Cursor

end AuctionGate.Yaml
