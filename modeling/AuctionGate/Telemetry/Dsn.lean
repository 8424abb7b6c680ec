import AuctionGate.Net.Url

/-!
# Addresses for error reports

Errors are reported to a URL of the web that names the reporter before the host and a project in
its path. Without any text nothing is reported.
-/

namespace AuctionGate.Dsn

/-- Blanks and control characters at either end do not count, nor do line ends and tabs. -/
def strip (cs : List Char) : List Char :=
  let blank (c : Char) : Bool := c.toNat ≤ 0x20
  ((cs.dropWhile blank).reverse.dropWhile blank).reverse.filter fun c =>
    !(['\t', '\n', '\r'].contains c)

def isSlash (c : Char) : Bool := c = '/' || c = '\\'

/-- What follows the scheme `http` or `https` and its slashes, of which there may be any number. -/
def afterScheme? (cs : List Char) : Option (List Char) :=
  match cs.span (· ≠ ':') with
  | (scheme, ':' :: rest) =>
    if ["http", "https"].contains (String.ofList scheme).toLower then some (rest.dropWhile isSlash)
    else none
  | _ => none

/-- Characters that no name of a host holds. -/
def isBarred (c : Char) : Bool :=
  c.toNat ≤ 0x20 || c.toNat = 0x7F || ['"', '#', '%', '/', ':', '<', '>', '?', '@', '[', '\\', ']',
    '^', '\x60', '\x7b', '|', '\x7d'].contains c

/-- A name whose last part is a number has to be an IPv4 address. -/
def isNumeric (host : List Char) : Bool :=
  let parts := Net.splitOn '.' host
  let parts := if parts.getLast? = some [] then parts.dropLast else parts
  parts.getLast?.any fun p => !p.isEmpty && (p.all Char.isDigit || (Net.Ip.part? p).isSome)

def isHostName (host : List Char) : Bool :=
  !host.isEmpty && !host.any isBarred && (!isNumeric host || (Net.Ip.v4? host).isSome)

/-- A host with a port or without. -/
def isHost : List Char → Bool
  | '[' :: cs =>
    (Net.Ip.v6? (cs.takeWhile (· ≠ ']'))).isSome &&
      match cs.dropWhile (· ≠ ']') with
      | [']'] => true
      | ']' :: ':' :: p => (Net.Url.portOf? p).isSome
      | _ => false
  | cs =>
    isHostName (cs.takeWhile (· ≠ ':')) &&
      (Net.Url.portOf? ((cs.dropWhile (· ≠ ':')).drop 1)).isSome

/-- The reporter before the host is not empty. -/
def isAuthority (cs : List Char) : Bool :=
  match Net.SocketAddress.splitLast '@' cs with
  | some (reporter, host) => !(reporter.takeWhile (· ≠ ':')).isEmpty && isHost host
  | none => false

/-- A project is any segment of the path that is not empty. -/
def namesProject (path : List Char) : Bool :=
  (Net.Url.segmentsOf (String.ofList path)).any (· ≠ "")

def isSound (s : String) : Bool :=
  s = "" ||
    match afterScheme? (strip s.toList) with
    | none => false
    | some cs =>
      let inAuthority (c : Char) : Bool := !(isSlash c || c = '?' || c = '#')
      isAuthority (cs.takeWhile inAuthority) &&
        namesProject ((cs.dropWhile inAuthority).takeWhile fun c => !(c = '?' || c = '#'))

end AuctionGate.Dsn
