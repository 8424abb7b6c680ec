import AuctionGate.Net.SocketAddress

/-!
# URLs

A URL says at which host and port of which scheme something is, and as what. The URL of a lookup is
of the scheme `http`, on a configured address. That is read by the rules of URLs: the port is
digits alone, an IPv6 address stands in brackets and names no scope, and a host whose last label is
a number is an IPv4 address. A path is cut at slashes of either kind; single-dot segments go, and a
double-dot segment takes its forerunner with it.
-/

namespace AuctionGate.Net

inductive Scheme where
  | http
  | https
  deriving DecidableEq, Repr

def Scheme.name : Scheme → String
  | http => "http"
  | https => "https"

structure Url where
  scheme : Scheme := .http
  host : Host
  /-- None where it is the port of the scheme. -/
  port : Option Nat
  segments : List String
  query : Option String
  deriving DecidableEq, Repr

namespace Url

def portOf? (cs : List Char) : Option (Option Nat) :=
  if cs.isEmpty then some none
  else (SocketAddress.digitPort? cs).map fun p => if p = 80 then none else some p

/-- The labels of a domain; none follows a dot at the end. -/
def labels (name : List Char) : List (List Char) :=
  let ls := splitOn '.' name
  if 1 < ls.length ∧ ls.getLast? = some [] then ls.dropLast else ls

/-- A number of an IPv4 address in a URL; it is zero if nothing follows the mark of a base. -/
def part? (cs : List Char) : Option Nat :=
  if cs = ['0', 'x'] ∨ cs = ['0', 'X'] then some 0 else Ip.part? cs

def isNumber (label : List Char) : Bool :=
  !label.isEmpty && label.all Char.isDigit || (part? label).isSome

/-- A host outside brackets. -/
def host? (rules : DomainRules) (cs : List Char) : Option Host :=
  if cs.isEmpty then none
  else
    ((rules.written? cs).filter (!·.isEmpty)).bind fun name =>
      if (labels name).getLast?.any isNumber then
        (((labels name).mapM part?).bind Ip.ofParts?).map fun n => .ip (.v4 n)
      else some (.domain (String.ofList name))

/-- A host and its port after `http://`. -/
def authority? (rules : DomainRules) : List Char → Option (Host × Option Nat)
  | '[' :: cs => do
    let ip ← Ip.v6? (cs.takeWhile (· ≠ ']'))
    match cs.dropWhile (· ≠ ']') with
    | [']'] => some (.ip (.v6 ip), none)
    | ']' :: ':' :: p => (portOf? p).map fun port => (.ip (.v6 ip), port)
    | _ => none
  | cs => do
    let host ← host? rules (cs.takeWhile (· ≠ ':'))
    let port ← portOf? ((cs.dropWhile (· ≠ ':')).drop 1)
    some (host, port)

private def percent (b : UInt8) : List Char := '%' :: Hex.upperPair b

private def inPath (b : UInt8) : Bool :=
  let c := Char.ofNat b.toNat
  0x20 < b && b < 0x7F && !([' ', '"', '#', '<', '>', '?', '\x60', '\x7b', '\x7d'].contains c)

def encodePath (s : String) : String :=
  String.ofList ((Utf8.encode s).flatMap fun b =>
    if inPath b then [Char.ofNat b.toNat] else percent b)

private def inForm (b : UInt8) : Bool :=
  let c := Char.ofNat b.toNat
  b < 0x80 && (c.isAlphanum || ['*', '-', '.', '_'].contains c)

/-- A value of a form: a blank becomes a plus sign. -/
def encodeForm (s : String) : String :=
  String.ofList ((Utf8.encode s).flatMap fun b =>
    if b = 0x20 then ['+'] else if inForm b then [Char.ofNat b.toNat] else percent b)

private def isSingleDot (s : String) : Bool :=
  [".", "%2e", "%2E"].contains s

private def isDoubleDot (s : String) : Bool :=
  ["..", ".%2e", ".%2E", "%2e.", "%2E.", "%2e%2e", "%2e%2E", "%2E%2e", "%2E%2E"].contains s

/-- Adds the parts of a path to the segments so far; the last part names the file. -/
def addSegments (acc : List String) : List String → List String
  | [] => acc
  | [s] =>
    if isDoubleDot s then acc.dropLast ++ [""]
    else if isSingleDot s then acc ++ [""]
    else acc ++ [s]
  | s :: rest =>
    if isDoubleDot s then addSegments acc.dropLast rest
    else if isSingleDot s then addSegments acc rest
    else addSegments (acc ++ [s]) rest

def segmentsOf (path : String) : List String :=
  let cs := (path.toList.filter fun c => !(['\t', '\n', '\r'].contains c)).map fun c =>
    if c = '\\' then '/' else c
  let cs := match cs with
    | '/' :: rest => rest
    | cs => cs
  addSegments [] ((splitOn '/' cs).map fun s => encodePath (String.ofList s))

/-- The URL at which a service on an address is asked about `ip`. -/
def lookup? (rules : DomainRules) (address path ip : String) : Option Url :=
  (authority? rules address.toList).map fun (host, port) =>
    { host, port, segments := segmentsOf path, query := some ("ip=" ++ encodeForm ip) }

/-- Where a URL leads, whatever is asked for there. -/
def origin (u : Url) : String :=
  let port := match u.port with
    | none => ""
    | some p => ":" ++ toString p
  u.scheme.name ++ ":" ++ "//" ++ u.host.write ++ port

def write (u : Url) : String :=
  let query := match u.query with
    | none => ""
    | some q => "?" ++ q
  u.origin ++ "/" ++ "/".intercalate u.segments ++ query

end Url

end AuctionGate.Net
