import AuctionGate.Net.Ip

/-!
# Hosts

A host is told by its IP address or by its name. Which addresses a name has is known to a name
service, and how a URL writes a name is up to the rules of domain names. Both are given from
outside. Of a name service it is only used that it knows names of hosts, and of the rules only that
they put a plain name, made of letters, digits, hyphens and underscores, into lower case.
-/

namespace AuctionGate.Net

inductive Host where
  | ip (ip : Ip)
  | domain (name : String)
  deriving DecidableEq, Repr

def Host.write : Host → String
  | ip a => a.write
  | domain name => name

/-- A character of a host name is visible, and cuts neither an address nor a URL. -/
def isHostChar (c : Char) : Bool :=
  ' ' < c && c ≠ '\x7f' && !(['/', '\\', '?', '#', '@', ':', '[', ']'].contains c)

structure NameService where
  /-- The addresses of the host with a name, or why there are none. -/
  answer : String → Except String (List Ip)
  isName : ∀ name ips, answer name = .ok ips → name.toList ≠ [] ∧ name.toList.all isHostChar = true

/-- A name service that knows no host. -/
def NameService.unknowing : NameService where
  answer _ := .error "failed to lookup address information: Name or service not known"
  isName _ _ h := nomatch h

/-- A label of a plain name; one that begins with `xn--` is the encoding of another. -/
def isPlainLabel (label : List Char) : Bool :=
  !label.isEmpty && label.all (fun c => c.isAlphanum || c = '-' || c = '_')
    && (label.take 4).map Char.toLower ≠ ['x', 'n', '-', '-']

def isPlain (name : List Char) : Bool := (splitOn '.' name).all isPlainLabel

structure DomainRules where
  /-- A name as a URL writes it; none if it is refused. -/
  written? : List Char → Option (List Char)
  plain : ∀ name, isPlain name = true → written? name = some (name.map Char.toLower)

/-- The rules that refuse every name but the plain ones. -/
def DomainRules.plainOnly : DomainRules where
  written? name := if isPlain name then some (name.map Char.toLower) else none
  plain _ h := if_pos h

end AuctionGate.Net
