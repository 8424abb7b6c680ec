import AuctionGate.Yaml.Token

/-!
# Documents of YAML

A document is a tree of scalars, sequences and mappings. A node with an anchor may be referred to
further on, and an alias refers to a node by number; the table of anchored nodes comes with the
tree. A text holds at most one document.
-/

namespace AuctionGate.Yaml

inductive Node where
  | scalar (tag : Option String) (style : Style) (text : String)
  | seq (tag : Option String) (items : List Node)
  | map (tag : Option String) (entries : List (Node × Node))
  | alias (number : Nat)

instance : Inhabited Node := ⟨.scalar none .plain ""⟩

/-- A value that is not written. -/
def Node.empty : Node := default

/-- A node that has an anchor; of two with one number the one that starts later counts. -/
structure Anchored where
  number : Nat
  /-- How many tokens were left where it starts. -/
  left : Nat
  node : Node

structure Document where
  /-- None if there is not even an empty value. -/
  root : Option Node
  anchored : List Anchored := []
  /-- How many scalars, aliases, and starts and ends of collections there are. -/
  events : Nat := 0

namespace Document

def target? (d : Document) (number : Nat) : Option Node :=
  let hits := d.anchored.filter (·.number = number)
  (hits.foldl (fun (best : Option Anchored) a =>
    match best with
    | some b => if a.left ≤ b.left then some a else best
    | none => some a) none).map (·.node)

/-- The node itself, or the one that an alias refers to. -/
def resolve? (d : Document) : Node → Option Node
  | .alias n => d.target? n
  | n => some n

end Document

/-- How far the building of a tree has come. -/
structure TreeBuilder where
  tokens : List Token
  handles : List (String × String) := []
  /-- The number that each anchor has now. -/
  names : List (String × Nat) := []
  anchored : List Anchored := []
  events : Nat := 0

namespace TreeBuilder

abbrev Build := StateT TreeBuilder Option

def peek : Build (Option Token) := do return (← get).tokens.head?

def advance : Build Unit := modify fun s => { s with tokens := s.tokens.drop 1 }

def fail {α : Type} : Build α := fun _ => none

def count (n : Nat) : Build Unit := modify fun s => { s with events := s.events + n }

def empty : Build Node := do
  count 1
  return .empty

def refer (name : String) : Build Node := do
  match (← get).names.lookup name with
  | some number => do
    count 1
    return .alias number
  | none => fail

/-- Gives an anchor the next number. -/
def define (name : String) : Build Nat := do
  let s ← get
  let number := s.names.length
  let names := s.names.filter (·.1 ≠ name)
  set { s with names := (name, number) :: names }
  return number

/-- Anchor and tag, in either order. -/
def readProperties : Build (Option String × Option (String × String)) := do
  match ← peek with
  | some (.anchor a) => do
    advance
    match ← peek with
    | some (.tag h s) => do
      advance
      return (some a, some (h, s))
    | _ => return (some a, none)
  | some (.tag h s) => do
    advance
    match ← peek with
    | some (.anchor a) => do
      advance
      return (some a, some (h, s))
    | _ => return (none, some (h, s))
  | _ => return (none, none)

/-- The whole tag; its handle has to be known. -/
def resolveTag : Option (String × String) → Build (Option String)
  | none => return none
  | some (handle, suffix) => do
    if handle.isEmpty then return some suffix
    else
      match (← get).handles.lookup handle with
      | some stem => return some (stem ++ suffix)
      | none => fail

/-- A scalar tagged by a lone exclamation mark is as good as untagged. -/
def scalarTag (tag : Option String) : Option String := if tag = some "!" then none else tag

/-- None of these tokens starts a node. -/
def endsBlockNode (t : Option Token) : Bool :=
  [some Token.key, some .value, some .blockEnd].contains t

mutual

/-- One node. A sequence may stand at the column of the key it belongs to. -/
def node (block indentless : Bool) : Nat → Build Node
  | 0 => fail
  | fuel + 1 => do
    match ← peek with
    | some (.alias name) => do
      advance
      refer name
    | _ => do
      let left := (← get).tokens.length
      let (anchor, tag) ← readProperties
      let tag ← resolveTag tag
      let number ← match anchor with
        | some name => do pure (some (← define name))
        | none => pure none
      let n ← content block indentless (anchor.isSome || tag.isSome) tag fuel
      match number with
      | some number => do
        modify fun s => { s with anchored := ⟨number, left, n⟩ :: s.anchored }
        return n
      | none => return n

/-- A node behind its properties. -/
def content (block indentless hasProperties : Bool) (tag : Option String) : Nat → Build Node
  | 0 => fail
  | fuel + 1 => do
    match ← peek with
    | some (.scalar style text) => do
      advance
      count 1
      return .scalar (scalarTag tag) style text
    | some .flowSequence => do
      advance
      count 2
      return .seq tag (← flowItems true fuel)
    | some .flowMapping => do
      advance
      count 2
      return .map tag (← flowEntries true fuel)
    | t =>
      if t = some .blockEntry && indentless then do
        count 2
        return .seq tag (← indentlessItems fuel)
      else if t = some .blockSequence && block then do
        advance
        count 2
        return .seq tag (← blockItems fuel)
      else if t = some .blockMapping && block then do
        advance
        count 2
        return .map tag (← blockEntries fuel)
      else if hasProperties then do
        count 1
        return .scalar (scalarTag tag) .plain ""
      else fail

def blockItems : Nat → Build (List Node)
  | 0 => fail
  | fuel + 1 => do
    match ← peek with
    | some .blockEntry => do
      advance
      let t ← peek
      let item ← if t = some .blockEntry || t = some .blockEnd then empty
        else node true false fuel
      return item :: (← blockItems fuel)
    | some .blockEnd => do
      advance
      return []
    | _ => fail

def indentlessItems : Nat → Build (List Node)
  | 0 => fail
  | fuel + 1 => do
    match ← peek with
    | some .blockEntry => do
      advance
      let t ← peek
      let item ← if t = some .blockEntry || endsBlockNode t then empty
        else node true false fuel
      return item :: (← indentlessItems fuel)
    | _ => return []

/-- A key or a value of a block mapping. -/
def blockPart : Nat → Build Node
  | 0 => fail
  | fuel + 1 => do
    advance
    if endsBlockNode (← peek) then empty else node true true fuel

def blockEntries : Nat → Build (List (Node × Node))
  | 0 => fail
  | fuel + 1 => do
    match ← peek with
    | some .key => do
      let key ← blockPart fuel
      let value ← if (← peek) = some .value then blockPart fuel else empty
      return (key, value) :: (← blockEntries fuel)
    | some .blockEnd => do
      advance
      return []
    | _ => fail

/-- A single pair in a flow sequence, behind its key mark. -/
def flowPair : Nat → Build Node
  | 0 => fail
  | fuel + 1 => do
    count 2
    let t ← peek
    let key ← if [some Token.value, some .flowEntry, some .flowSequenceEnd].contains t then do
        advance
        empty
      else node false false fuel
    if (← peek) = some .value then do
      advance
      let t ← peek
      let value ← if t = some .flowEntry || t = some .flowSequenceEnd then empty
        else node false false fuel
      return .map none [(key, value)]
    else return .map none [(key, ← empty)]

def flowItems (first : Bool) : Nat → Build (List Node)
  | 0 => fail
  | fuel + 1 => do
    if (← peek) = some .flowSequenceEnd then do
      advance
      return []
    else do
      if !first then
        if (← peek) = some .flowEntry then advance else fail
      match ← peek with
      | some .key => do
        advance
        let item ← flowPair fuel
        return item :: (← flowItems false fuel)
      | some .flowSequenceEnd => do
        advance
        return []
      | _ => do
        let item ← node false false fuel
        return item :: (← flowItems false fuel)

/-- The value of a flow mapping's entry. -/
def flowValue : Nat → Build Node
  | 0 => fail
  | fuel + 1 => do
    if (← peek) = some .value then do
      advance
      let t ← peek
      if t = some .flowEntry || t = some .flowMappingEnd then empty else node false false fuel
    else empty

def flowEntries (first : Bool) : Nat → Build (List (Node × Node))
  | 0 => fail
  | fuel + 1 => do
    if (← peek) = some .flowMappingEnd then do
      advance
      return []
    else do
      if !first then
        if (← peek) = some .flowEntry then advance else fail
      match ← peek with
      | some .key => do
        advance
        let t ← peek
        let key ← if [some Token.value, some .flowEntry, some .flowMappingEnd].contains t then empty
          else node false false fuel
        let value ← flowValue fuel
        return (key, value) :: (← flowEntries false fuel)
      | some .flowMappingEnd => do
        advance
        return []
      | _ => do
        let key ← node false false fuel
        return (key, ← empty) :: (← flowEntries false fuel)

end

/-! ### Documents -/

def standardHandles : List (String × String) := [("!", "!"), ("!!", "tag:yaml.org,2002:")]

/-- The directives before a document: whether a version was named, and the handles. -/
def directives : Bool → List (String × String) → List Token →
    Option (List (String × String) × List Token)
  | seen, handles, .version major minor :: rest =>
    if seen || major ≠ 1 || (minor ≠ 1 && minor ≠ 2) then none else directives true handles rest
  | seen, handles, .tagHandle handle stem :: rest =>
    if (handles.lookup handle).isSome then none
    else directives seen ((handle, stem) :: handles) rest
  | _, handles, rest => some (handles, rest)

def startsNoContent : Option Token → Bool
  | none => true
  | some (.version ..) | some (.tagHandle ..) | some .documentStart | some .documentEnd => true
  | _ => false

/-- The only document of a list of tokens. -/
def document? (tokens : List Token) : Option Document := do
  let fuel := 2 * tokens.length + 4
  let (handles, rest) ← directives false [] tokens
  match rest with
  | [] => if tokens.isEmpty then some { root := none } else none
  | first :: after =>
    let start : TreeBuilder := { tokens := rest, handles := handles ++ standardHandles }
    let (root, s) ←
      if first = .documentStart then
        let start := { start with tokens := after }
        if startsNoContent after.head? then empty.run start
        else (node true false fuel).run start
      else if rest.length < tokens.length then none
      else (node true false fuel).run start
    if s.tokens.all (· = .documentEnd) then some ⟨some root, s.anchored, s.events⟩ else none

end TreeBuilder

/-- Reads a text that holds at most one document. -/
def Document.read (text : Octets) : Option Document := do
  let text ← Utf8.decode? text
  TreeBuilder.document? (← Token.scan text.toList)

end AuctionGate.Yaml
