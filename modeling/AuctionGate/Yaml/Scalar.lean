import AuctionGate.Text.Hex
import AuctionGate.Yaml.Cursor

/-!
# Scalars

A scalar is plain, quoted once or twice, or a block. The words of a plain or quoted scalar may
stand on several lines: one line break between them counts as a space, and of several breaks the
first does not count. A literal block keeps its line breaks; a folded block folds those between
two lines without leading blanks.
-/

namespace AuctionGate.Yaml

inductive Style where
  | plain
  | singleQuoted
  | doubleQuoted
  | literal
  | folded
  deriving DecidableEq, Repr

/-! ### Gaps between words -/

/-- The blanks before any break, or the breaks. -/
structure Gap where
  blanks : List Char := []
  broken : Bool := false
  first : List Char := []
  further : List Char := []

/-- What a gap between two words counts as. -/
def Gap.fold (g : Gap) : List Char :=
  if !g.broken then g.blanks
  else if g.first = ['\n'] then
    if g.further.isEmpty then [' '] else g.further
  else g.first ++ g.further

/-- The gap that starts here. Behind a break no tab may stand left of column `indent`. -/
def readGap (indent : Nat) : Nat → Gap → Cursor → Option (Gap × Cursor)
  | 0, _, _ => none
  | fuel + 1, g, c =>
    match c.head? with
    | none => some (g, c)
    | some ch =>
      if isBlank ch then
        if !g.broken then readGap indent fuel { g with blanks := g.blanks ++ [ch] } (c.skip 1)
        else if ch = '\t' ∧ c.column < indent then none
        else readGap indent fuel g (c.skip 1)
      else if isBreak ch then
        let (b, c) := c.readBreak
        if g.broken then readGap indent fuel { g with further := g.further ++ b } c
        else readGap indent fuel { broken := true, first := b } c
      else some (g, c)

/-! ### Plain scalars -/

def isFlowMark (c : Char) : Bool := [',', '[', ']', '\x7b', '\x7d'].contains c

/-- The word that starts here. Inside brackets and braces it ends before each of these and before
a comma, and no colon may stand directly before one. -/
def plainWord (flow : Bool) : Nat → List Char → Cursor → Option (List Char × Cursor)
  | 0, _, _ => none
  | fuel + 1, acc, c =>
    match c.rest with
    | [] => some (acc.reverse, c)
    | ch :: rest =>
      if isGap ch then some (acc.reverse, c)
      else if flow && ch = ':' && rest.head?.any fun n => isFlowMark n || n = '?' then none
      else if (ch = ':' && endsWord rest.head?) || (flow && isFlowMark ch) then
        some (acc.reverse, c)
      else plainWord flow fuel (ch :: acc) (c.skip 1)

/-- The rest of a plain scalar after a gap. The flag tells whether it ends behind a break. -/
def plainFrom (flow : Bool) (indent : Nat) : Nat → List Char → Gap → Cursor →
    Option (List Char × Bool × Cursor)
  | 0, _, _, _ => none
  | fuel + 1, text, gap, c =>
    if c.atDocumentMark || c.head? = some '#' then some (text, gap.broken, c)
    else do
      let (word, c) ← plainWord flow (c.rest.length + 1) [] c
      if word.isEmpty then some (text, gap.broken, c)
      else
        let text := text ++ gap.fold ++ word
        if c.head?.any isGap then
          let (gap, c) ← readGap indent (c.rest.length + 1) {} c
          if !flow && c.column < indent then some (text, gap.broken, c)
          else plainFrom flow indent fuel text gap c
        else some (text, false, c)

def readPlain (flow : Bool) (indent : Nat) (c : Cursor) : Option (List Char × Bool × Cursor) :=
  plainFrom flow indent (c.rest.length + 1) [] {} c

/-! ### Quoted scalars -/

/-- What one character behind a backslash stands for. -/
def shortEscapes : List (Char × Nat) :=
  [('0', 0), ('a', 7), ('b', 8), ('t', 9), ('\t', 9), ('n', 10), ('v', 11), ('f', 12), ('r', 13),
    ('e', 0x1B), (' ', 0x20), ('"', 0x22), ('/', 0x2F), ('\\', 0x5C), ('N', 0x85), ('_', 0xA0),
    ('L', 0x2028), ('P', 0x2029)]

/-- How many hexadecimal digits follow a character behind a backslash. -/
def longEscapes : List (Char × Nat) := [('x', 2), ('u', 4), ('U', 8)]

/-- The character escaped behind a backslash, and the length of the escape without it. -/
def readEscape? : List Char → Option (Char × Nat)
  | [] => none
  | e :: rest =>
    match shortEscapes.find? (·.1 = e), longEscapes.find? (·.1 = e) with
    | some (_, n), _ => some (Char.ofNat n, 1)
    | none, some (_, digits) => do
      let ds := rest.take digits
      if ds.length < digits then none
      let n ← ds.foldlM (fun n d => (Hex.digit? d).map (n * 16 + ·)) 0
      if n.isValidChar then some (Char.ofNat n, digits + 1) else none
    | none, none => none

/-- The word that starts here, and whether an escaped line break ends it. -/
def quotedWord (single : Bool) : Nat → List Char → Cursor → Option (List Char × Bool × Cursor)
  | 0, _, _ => none
  | fuel + 1, acc, c =>
    match c.rest with
    | [] => some (acc.reverse, false, c)
    | ch :: rest =>
      if isGap ch then some (acc.reverse, false, c)
      else if single then
        if ch = '\'' then
          if rest.head? = some '\'' then quotedWord single fuel ('\'' :: acc) (c.skip 2)
          else some (acc.reverse, false, c)
        else quotedWord single fuel (ch :: acc) (c.skip 1)
      else if ch = '"' then some (acc.reverse, false, c)
      else if ch = '\\' then
        if rest.head?.any isBreak then some (acc.reverse, true, (c.skip 1).readBreak.2)
        else
          match readEscape? rest with
          | some (e, n) => quotedWord single fuel (e :: acc) (c.skip (n + 1))
          | none => none
      else quotedWord single fuel (ch :: acc) (c.skip 1)

def quotedFrom (single : Bool) : Nat → List Char → Cursor → Option (List Char × Cursor)
  | 0, _, _ => none
  | fuel + 1, text, c =>
    if c.atDocumentMark || c.rest.isEmpty then none
    else do
      let (word, escaped, c) ← quotedWord single (c.rest.length + 1) [] c
      let text := text ++ word
      if c.head? = some (if single then '\'' else '"') then some (text, c.skip 1)
      else
        let (gap, c) ← readGap 0 (c.rest.length + 1) { broken := escaped } c
        quotedFrom single fuel (text ++ gap.fold) c

/-- Reads a quoted scalar, with the cursor on its opening quote. -/
def readQuoted (single : Bool) (c : Cursor) : Option (List Char × Cursor) :=
  quotedFrom single (c.rest.length + 1) [] (c.skip 1)

/-! ### Block scalars -/

inductive Chomping where
  | strip
  | clip
  | keep
  deriving DecidableEq, Repr

def chomping? : Option Char → Option Chomping
  | some '+' => some .keep
  | some '-' => some .strip
  | _ => none

/-- The indentation that a digit asks for; zero if there is none. A written zero is refused. -/
def increment? (c : Cursor) : Option (Nat × Cursor) :=
  match c.head? with
  | some d =>
    if d = '0' then none
    else if d.isDigit then some (d.toNat - 48, c.skip 1)
    else some (0, c)
  | none => some (0, c)

/-- The chomping and the increment of a block, in either order. -/
def blockHeader? (c : Cursor) : Option (Chomping × Nat × Cursor) :=
  match chomping? c.head? with
  | some ch => (increment? (c.skip 1)).map fun (n, c) => (ch, n, c)
  | none => do
    let (n, c') ← increment? c
    match if n = 0 then none else chomping? c'.head? with
    | some ch => some (ch, n, c'.skip 1)
    | none => some (.clip, n, c')

/-- Empty lines with their indentation, of which zero stands for one not yet known: the breaks,
and the widest column. -/
def blockBreaks (indent : Nat) : Nat → List Char → Nat → Cursor →
    Option (List Char × Nat × Cursor)
  | 0, _, _, _ => none
  | fuel + 1, breaks, widest, c =>
    let spaces := (c.takeWhile (· = ' ')).1.length
    let c := c.skip (if indent = 0 then spaces else min spaces (indent - c.column))
    let widest := max widest c.column
    if c.head? = some '\t' ∧ (indent = 0 ∨ c.column < indent) then none
    else if c.head?.any isBreak then
      let (b, c) := c.readBreak
      blockBreaks indent fuel (breaks ++ b) widest c
    else some (breaks, widest, c)

/-- The lines of a block: its text, the last break, and the breaks of the empty lines after it. -/
def blockLines (folded : Bool) (indent : Nat) : Nat → List Char → List Char → List Char → Bool →
    Cursor → Option (List Char × List Char × List Char × Cursor)
  | 0, _, _, _, _, _ => none
  | fuel + 1, text, last, empty, afterBlank, c =>
    if c.column = indent ∧ !c.rest.isEmpty then do
      let blank := c.head?.any isBlank
      let join :=
        if folded && last = ['\n'] && !afterBlank && !blank then
          if empty.isEmpty then [' '] else []
        else last
      let (line, c) := c.takeWhile fun ch => !isBreak ch
      let (last, c) := c.readBreak
      let text := text ++ join ++ empty ++ line
      let (empty, _, c) ← blockBreaks indent (c.rest.length + 1) [] 0 c
      blockLines folded indent fuel text last empty blank c
    else some (text, last, empty, c)

/-- Reads a block scalar inside a block indented by `outer`, with the cursor on its mark. -/
def readBlock (folded : Bool) (outer : Int) (c : Cursor) : Option (List Char × Cursor) := do
  let (chomping, increment, c) ← blockHeader? (c.skip 1)
  let c := (c.dropWhile isBlank).skipComment
  if !endsLine c.head? then none
  let (_, c) := c.readBreak
  let asked := if increment = 0 then 0 else (max outer 0).toNat + increment
  let (empty, widest, c) ← blockBreaks asked (c.rest.length + 1) [] 0 c
  let indent := if asked = 0 then max (max widest (outer + 1).toNat) 1 else asked
  let (text, last, empty, c) ← blockLines folded indent (c.rest.length + 1) [] [] empty false c
  some (match chomping with
    | .strip => text
    | .clip => text ++ last
    | .keep => text ++ last ++ empty, c)

end AuctionGate.Yaml
