import AuctionGate.Text.Utf8

/-!
# Request URIs

A URI is absolute, a path with a query, an authority alone, or `*`. A fragment is dropped. It is
written with a slash for the empty path of an absolute URI, and with the schemes `http` and
`https` in lower case; everything else is written as it was read.
-/

namespace AuctionGate.Http

structure Uri where
  scheme : Option String
  authority : Option String
  path : String
  query : Option String
  deriving DecidableEq, Repr

namespace Uri

/-- URIs are at most this many octets long. -/
def maxLength : Nat := 65534

def isSchemeChar (c : Char) : Bool := c.isAlphanum || ['+', '-', '.', '~'].contains c

def isUriChar (c : Char) : Bool :=
  c.isAlphanum || ['!', '#', '$', '&', '\'', '(', ')', '*', '+', ',', '-', '.', '/', ':', ';', '=',
    '?', '@', '[', ']', '_', '~'].contains c

/-- Characters of a path; double quotes and braces are let through for senders that put JSON
into it. -/
def isPathChar (c : Char) : Bool :=
  let n := c.toNat
  n = 0x21 || (0x24 ≤ n && n ≤ 0x3B) || n = 0x3D || (0x40 ≤ n && n ≤ 0x5F) || (0x61 ≤ n && n ≤ 0x7E)
    || n = 0x22 || 0x7F ≤ n

def isQueryChar (c : Char) : Bool :=
  let n := c.toNat
  n = 0x21 || (0x24 ≤ n && n ≤ 0x3B) || n = 0x3D || 0x3F ≤ n

/-- The scheme before `://`, and what follows. -/
def splitScheme (cs : List Char) : Option (List Char) × List Char :=
  let scheme := cs.takeWhile isSchemeChar
  match cs.dropWhile isSchemeChar with
  | ':' :: '/' :: '/' :: rest => (some scheme, rest)
  | _ => (none, cs)

/-- How far the reading of an authority has come. -/
structure Scan where
  colons : Nat := 0
  opened : Bool := false
  shut : Bool := false
  percent : Bool := false
  atSign : Bool := false

def Scan.step (s : Scan) (c : Char) : Option Scan :=
  if c = ':' then
    if 8 ≤ s.colons then none else some { s with colons := s.colons + 1, atSign := false }
  else if c = '[' then
    if s.percent || s.opened then none else some { s with opened := true, atSign := false }
  else if c = ']' then
    if !s.opened || s.shut then none
    else some { s with shut := true, colons := 0, percent := false, atSign := false }
  else if c = '@' then some { s with colons := 0, percent := false, atSign := true }
  else if c = '%' then some { s with percent := true, atSign := false }
  else if isUriChar c then some { s with atSign := false }
  else none

/-- Brackets come in a pair, at most one colon is left for the port, nothing ends in an at sign,
and no percent sign stands in the host. -/
def Scan.sound (s : Scan) : Bool :=
  s.opened == s.shut && s.colons ≤ 1 && !s.atSign && !s.percent

/-- An authority, which ends before a slash, a question mark or a hash, and what follows. -/
def splitAuthority? (cs : List Char) : Option (List Char × List Char) :=
  let inside (c : Char) : Bool := !(c == '/' || c == '?' || c == '#')
  let a := cs.takeWhile inside
  match a.foldlM Scan.step {} with
  | some s => if s.sound then some (a, cs.dropWhile inside) else none
  | none => none

/-- A path with its query, without fragment. -/
def pathAndQuery? (cs : List Char) : Option (List Char × Option (List Char)) :=
  let path := cs.takeWhile fun c => !(c == '?' || c == '#')
  if !path.all isPathChar then none
  else
    match cs.dropWhile fun c => !(c == '?' || c == '#') with
    | '?' :: rest =>
      let query := rest.takeWhile (· ≠ '#')
      if query.all isQueryChar then some (path, some query) else none
    | _ => some (path, none)

/-- Schemes of the web are known in any case. -/
def schemeName (cs : List Char) : String :=
  let s := String.ofList cs
  if ["http", "https"].contains s.toLower then s.toLower else s

def ofAuthority? (cs : List Char) : Option Uri :=
  match splitAuthority? cs with
  | some (a, []) => some ⟨none, some (String.ofList a), "", none⟩
  | _ => none

def parse? (s : String) : Option Uri :=
  let cs := s.toList
  if maxLength < s.utf8ByteSize then none
  else if cs = ['*'] then some ⟨none, none, "*", none⟩
  else if cs.head? = some '/' then
    (pathAndQuery? cs).map fun (p, q) => ⟨none, none, String.ofList p, q.map String.ofList⟩
  else if cs.isEmpty then none
  else
    match splitScheme cs with
    | (none, _) => ofAuthority? cs
    | (some scheme, rest) =>
      if 64 < scheme.length then none
      else do
        let (a, rest) ← splitAuthority? rest
        if a.isEmpty then none
        let (p, q) ← pathAndQuery? rest
        some ⟨some (schemeName scheme), some (String.ofList a), String.ofList p,
          q.map String.ofList⟩

def write (u : Uri) : String :=
  let scheme := match u.scheme with
    | some s => s ++ ":" ++ "//"
    | none => ""
  let path := if u.path = "" ∧ u.scheme.isSome then "/" else u.path
  let query := match u.query with
    | some q => "?" ++ q
    | none => ""
  scheme ++ u.authority.getD "" ++ path ++ query

end Uri

end AuctionGate.Http
