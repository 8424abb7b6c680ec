import AuctionGate.Yaml.Scalar

/-!
# Tokens of YAML

Blocks are made of indentation: a column further to the right than the block around it opens a
block, and a column further to the left closes all blocks it lies left of. A mapping key needs no
mark of its own, so every token that may turn out to be one is remembered; when a colon follows on
the same line and within 1024 characters, the key mark is put in front of it.
-/

namespace AuctionGate.Yaml

inductive Token where
  | version (major minor : Nat)
  | tagHandle (handle stem : String)
  | documentStart
  | documentEnd
  | blockSequence
  | blockMapping
  | blockEnd
  | flowSequence
  | flowSequenceEnd
  | flowMapping
  | flowMappingEnd
  | blockEntry
  | flowEntry
  | key
  | value
  | alias (name : String)
  | anchor (name : String)
  | tag (handle suffix : String)
  | scalar (style : Style) (text : String)
  deriving DecidableEq, Repr

/-- A token that may turn out to be a mapping key. -/
structure KeyCandidate where
  /-- It stands where only a key may stand. -/
  required : Bool
  /-- How many tokens came before it. -/
  number : Nat
  index : Nat
  line : Nat
  column : Nat

/-- How far the reading of a text has come. -/
structure TokenReader where
  cursor : Cursor
  tokens : Array Token := #[]
  /-- The candidate here, and those of the brackets and braces around. -/
  candidate : Option KeyCandidate := none
  outer : List (Option KeyCandidate) := []
  /-- The column of the innermost block, and those of the blocks around. -/
  indent : Int := -1
  indents : List Int := []
  keyAllowed : Bool := true

namespace TokenReader

def inFlow (s : TokenReader) : Bool := !s.outer.isEmpty

def emit (s : TokenReader) (t : Token) : TokenReader := { s with tokens := s.tokens.push t }

/-- Skips a mark and emits its token. -/
def mark (s : TokenReader) (length : Nat) (t : Token) : TokenReader :=
  { s with cursor := s.cursor.skip length, tokens := s.tokens.push t }

def insertAt (s : TokenReader) (i : Nat) (t : Token) : TokenReader :=
  { s with tokens := s.tokens.insertIdxIfInBounds i t }

/-! ### Candidates for keys -/

def isStale (c : Cursor) (k : KeyCandidate) : Bool := k.line < c.line || k.index + 1024 < c.index

/-- Forgets a candidate, which must not be one that has to be a key. -/
def forget (k : Option KeyCandidate) : Option (Option KeyCandidate) :=
  if k.any (·.required) then none else some none

def forgetIfStale (c : Cursor) (k : Option KeyCandidate) : Option (Option KeyCandidate) :=
  if k.any (isStale c) then forget k else some k

def dropStale (s : TokenReader) : Option TokenReader := do
  let candidate ← forgetIfStale s.cursor s.candidate
  let outer ← s.outer.mapM (forgetIfStale s.cursor)
  some { s with candidate, outer }

def dropCandidate (s : TokenReader) : Option TokenReader :=
  (forget s.candidate).map fun candidate => { s with candidate }

/-- The next token may be a key, if one may stand here. -/
def saveCandidate (s : TokenReader) : Option TokenReader :=
  if !s.keyAllowed then some s
  else
    s.dropCandidate.map fun s =>
      { s with
        candidate := some
          { required := !s.inFlow && s.indent = s.cursor.column
            number := s.tokens.size
            index := s.cursor.index
            line := s.cursor.line
            column := s.cursor.column } }

/-! ### Indentation -/

/-- Opens a block at a column right of the block around, with its token at place `at?`. -/
def openBlock (s : TokenReader) (column : Nat) (at? : Option Nat) (t : Token) : TokenReader :=
  if s.inFlow || (column : Int) ≤ s.indent then s
  else
    let s := { s with indents := s.indent :: s.indents, indent := column }
    match at? with
    | some i => s.insertAt i t
    | none => s.emit t

/-- Closes the blocks of a list of columns, innermost first, that lie right of `column`. -/
def closeAll (column : Int) (s : TokenReader) : List Int → TokenReader
  | [] => s
  | i :: rest =>
    if column < s.indent then
      closeAll column { s.emit .blockEnd with indent := i, indents := rest } rest
    else s

def closeBlocks (s : TokenReader) (column : Int) : TokenReader :=
  if s.inFlow then s else s.closeAll column s.indents

/-! ### Blanks and comments -/

/-- Skips blanks, comments and breaks. A tab is no indentation where a key may stand. -/
def skipGaps : Nat → TokenReader → TokenReader
  | 0, s => s
  | fuel + 1, s =>
    let c := s.cursor
    let c := if c.column = 0 && c.head? = some '\uFEFF' then c.skip 1 else c
    let c := c.dropWhile fun ch => ch = ' ' || (ch = '\t' && (s.inFlow || !s.keyAllowed))
    let c := c.skipComment
    if c.head?.any isBreak then
      skipGaps fuel { s with cursor := c.readBreak.2, keyAllowed := s.keyAllowed || !s.inFlow }
    else { s with cursor := c }

/-! ### Directives, anchors and tags -/

def readName (c : Cursor) : String × Cursor :=
  let (name, c) := c.takeWhile isNameChar
  (String.ofList name, c)

/-- Behind blanks and a comment to the end of a directive's line. -/
def finishLine (c : Cursor) : Option Cursor :=
  let c := (c.dropWhile isBlank).skipComment
  if endsLine c.head? then some c.readBreak.2 else none

def readNumber (c : Cursor) : Option (Nat × Cursor) :=
  let (ds, c) := c.takeWhile Char.isDigit
  if ds.isEmpty || 9 < ds.length then none
  else some (ds.foldl (fun n d => n * 10 + (d.toNat - 48)) 0, c)

def readHexPair : List Char → Option UInt8
  | a :: b :: _ => do some (UInt8.ofNat ((← Hex.digit? a) * 16 + (← Hex.digit? b)))
  | _ => none

def isUriMark (c : Char) : Bool :=
  [';', '/', '?', ':', '@', '&', '=', '+', '$', '.', '!', '~', '*', '\'', '(', ')'].contains c

/-- The octets of a tag's URI, in which other octets stand as pairs of digits behind percent
signs. A tag between angle brackets may also hold brackets and commas. -/
def readUri (verbatim : Bool) : Nat → Octets → Cursor → Option (Octets × Cursor)
  | 0, _, _ => none
  | fuel + 1, acc, c =>
    match c.rest with
    | [] => some (acc, c)
    | ch :: rest =>
      if ch = '%' then
        match readHexPair rest with
        | some b => readUri verbatim fuel (acc ++ [b]) (c.skip 3)
        | none => none
      else if isNameChar ch || isUriMark ch || (verbatim && [',', '[', ']'].contains ch) then
        readUri verbatim fuel (acc ++ Utf8.encode (String.singleton ch)) (c.skip 1)
      else some (acc, c)

/-- A URI that is not empty, behind text that was read already. -/
def readTagUri (verbatim : Bool) (before : String) (c : Cursor) : Option (String × Cursor) := do
  let (octets, c') ← readUri verbatim (c.rest.length + 1) [] c
  if octets.isEmpty && before.isEmpty then none
  else
    let text ← Utf8.decode? octets
    some ((before.drop 1).toString ++ text, c')

/-- A handle: an exclamation mark, or a name between two. -/
def readHandle (c : Cursor) : Option (String × Cursor) :=
  if c.head? ≠ some '!' then none
  else
    let (name, c) := readName (c.skip 1)
    if c.head? = some '!' then some ("!" ++ name ++ "!", c.skip 1) else some ("!" ++ name, c)

def readDirective (c : Cursor) : Option (Token × Cursor) := do
  let (name, c) := readName (c.skip 1)
  if name.isEmpty || !endsWord c.head? then none
  else
    let c := c.dropWhile isBlank
    if name = "YAML" then
      let (major, c) ← readNumber c
      if c.head? ≠ some '.' then none
      else
        let (minor, c) ← readNumber (c.skip 1)
        some (.version major minor, ← finishLine c)
    else if name = "TAG" then
      let (handle, c) ← readHandle c
      if handle ≠ "!" && !(1 < handle.length && handle.endsWith "!") then none
      else if !c.head?.any isBlank then none
      else
        let (stem, c) ← readTagUri true "" (c.dropWhile isBlank)
        if !endsWord c.head? then none
        else some (.tagHandle handle stem, ← finishLine c)
    else none

/-- The name of an anchor or an alias. -/
def readReference (c : Cursor) : Option (String × Cursor) :=
  let (name, c) := readName (c.skip 1)
  let ends := endsWord c.head? || c.head?.any fun ch =>
    ['?', ':', ',', ']', '\x7d', '%', '@', '\x60'].contains ch
  if name.isEmpty || !ends then none else some (name, c)

def readTag (flow : Bool) (c : Cursor) : Option (Token × Cursor) := do
  let (token, c) ←
    if c.rest[1]? = some '<' then do
      let (uri, c) ← readTagUri true "" (c.skip 2)
      if c.head? = some '>' then some (Token.tag "" uri, c.skip 1) else none
    else do
      let (handle, c) ← readHandle c
      if 1 < handle.length && handle.endsWith "!" then
        let (suffix, c) ← readTagUri false "" c
        some (Token.tag handle suffix, c)
      else
        let (suffix, c) ← readTagUri false handle c
        some (if suffix.isEmpty then Token.tag "" "!" else Token.tag "!" suffix, c)
  if endsWord c.head? || (flow && c.head? = some ',') then some (token, c) else none

/-! ### One token -/

def takeDirective (s : TokenReader) : Option TokenReader := do
  let s ← (s.closeBlocks (-1)).dropCandidate
  let (token, cursor) ← readDirective s.cursor
  some { s.emit token with cursor, keyAllowed := false }

def takeDocumentMark (s : TokenReader) (t : Token) : Option TokenReader := do
  let s ← (s.closeBlocks (-1)).dropCandidate
  some { s.mark 3 t with keyAllowed := false }

def takeFlowStart (s : TokenReader) (t : Token) : Option TokenReader := do
  let s ← s.saveCandidate
  some { s.mark 1 t with outer := s.candidate :: s.outer, candidate := none, keyAllowed := true }

def takeFlowEnd (s : TokenReader) (t : Token) : Option TokenReader := do
  let s ← s.dropCandidate
  let s := match s.outer with
    | [] => s
    | k :: outer => { s with candidate := k, outer }
  some { s.mark 1 t with keyAllowed := false }

def takeFlowEntry (s : TokenReader) : Option TokenReader := do
  let s ← s.dropCandidate
  some { s.mark 1 .flowEntry with keyAllowed := true }

/-- A mark that opens a block must stand where a key may stand. -/
def openBlockHere (s : TokenReader) (t : Token) : Option TokenReader :=
  if s.inFlow then some s
  else if !s.keyAllowed then none
  else some (s.openBlock s.cursor.column none t)

def takeBlockEntry (s : TokenReader) : Option TokenReader := do
  let s ← (← s.openBlockHere .blockSequence).dropCandidate
  some { s.mark 1 .blockEntry with keyAllowed := true }

def takeKey (s : TokenReader) : Option TokenReader := do
  let s ← (← s.openBlockHere .blockMapping).dropCandidate
  some { s.mark 1 .key with keyAllowed := !s.inFlow }

def takeValue (s : TokenReader) : Option TokenReader :=
  match s.candidate with
  | some k =>
    let s := (s.insertAt k.number .key).openBlock k.column (some k.number) .blockMapping
    some { s.mark 1 .value with candidate := none, keyAllowed := false }
  | none =>
    (s.openBlockHere .blockMapping).map fun s =>
      { s.mark 1 .value with keyAllowed := !s.inFlow }

/-- A token that may be a key, and behind which none may start. -/
def takeNode (s : TokenReader) (read : Cursor → Option (Token × Cursor)) :
    Option TokenReader := do
  let s ← s.saveCandidate
  let (token, cursor) ← read s.cursor
  some { s.emit token with cursor, keyAllowed := false }

def takePlain (s : TokenReader) : Option TokenReader := do
  let s ← s.saveCandidate
  let (text, broken, cursor) ← readPlain s.inFlow (s.indent + 1).toNat s.cursor
  some { s.emit (.scalar .plain (String.ofList text)) with cursor, keyAllowed := broken }

def takeBlock (s : TokenReader) (folded : Bool) : Option TokenReader := do
  let s ← s.dropCandidate
  let (text, cursor) ← readBlock folded s.indent s.cursor
  let style : Style := if folded then .folded else .literal
  some { s.emit (.scalar style (String.ofList text)) with cursor, keyAllowed := true }

def takeQuoted (s : TokenReader) (single : Bool) : Option TokenReader :=
  let style : Style := if single then .singleQuoted else .doubleQuoted
  s.takeNode fun c => (readQuoted single c).map fun (text, c) =>
    (.scalar style (String.ofList text), c)

/-- Characters that no plain scalar starts with. -/
def isIndicator (c : Char) : Bool :=
  ['-', '?', ':', ',', '[', ']', '\x7b', '\x7d', '#', '&', '*', '!', '|', '>', '\'', '"', '%', '@',
    '\x60'].contains c

/-- The token that starts with a character, before the rest of the text. -/
def takeAt (s : TokenReader) (ch : Char) (next : Option Char) : Option TokenReader :=
  let flow := s.inFlow
  if s.cursor.column = 0 && ch = '%' then s.takeDirective
  else if s.cursor.atMarks '-' then s.takeDocumentMark .documentStart
  else if s.cursor.atMarks '.' then s.takeDocumentMark .documentEnd
  else if ch = '[' then s.takeFlowStart .flowSequence
  else if ch = '\x7b' then s.takeFlowStart .flowMapping
  else if ch = ']' then s.takeFlowEnd .flowSequenceEnd
  else if ch = '\x7d' then s.takeFlowEnd .flowMappingEnd
  else if ch = ',' then s.takeFlowEntry
  else if ch = '-' && endsWord next then s.takeBlockEntry
  else if ch = '?' && (flow || endsWord next) then s.takeKey
  else if ch = ':' && (flow || endsWord next) then s.takeValue
  else if ch = '*' then
    s.takeNode fun c => (readReference c).map fun (name, c) => (.alias name, c)
  else if ch = '&' then
    s.takeNode fun c => (readReference c).map fun (name, c) => (.anchor name, c)
  else if ch = '!' then s.takeNode (readTag flow)
  else if ch = '|' && !flow then s.takeBlock false
  else if ch = '>' && !flow then s.takeBlock true
  else if ch = '\'' then s.takeQuoted true
  else if ch = '"' then s.takeQuoted false
  else if (!isGap ch && !isIndicator ch) || (ch = '-' && !next.any isBlank)
      || (!flow && (ch = '?' || ch = ':') && !endsWord next) then s.takePlain
  else none

/-- Closes all blocks at the end of the text. -/
def finish (s : TokenReader) : Option TokenReader := (s.closeBlocks (-1)).dropCandidate

def run : Nat → TokenReader → Option (List Token)
  | 0, _ => none
  | fuel + 1, s => do
    let s ← (skipGaps (s.cursor.rest.length + 1) s).dropStale
    let s := s.closeBlocks s.cursor.column
    match s.cursor.rest with
    | [] => s.finish.map (·.tokens.toList)
    | ch :: rest => run fuel (← s.takeAt ch rest.head?)

end TokenReader

/-- The tokens of a text; none if it has a character that no text holds. -/
def Token.scan (text : List Char) : Option (List Token) :=
  if text.all isTextChar then TokenReader.run (text.length + 1) { cursor := ⟨text, 0, 0, 0⟩ }
  else none

end AuctionGate.Yaml
