import AuctionGate.Http.Uri

/-!
# Requests and responses

Methods and the names of headers are tokens; names are read in lower case. The value of a header
holds no control character but the tab.
-/

namespace AuctionGate.Http

def isTokenChar (c : Char) : Bool :=
  c.isAlphanum || ['!', '#', '$', '%', '&', '\'', '*', '+', '-', '.', '^', '_', '\x60', '|',
    '~'].contains c

structure Method where
  name : String
  deriving DecidableEq, Repr

def Method.parse? (s : String) : Option Method :=
  if s.isEmpty || !s.toList.all isTokenChar then none else some ⟨s⟩

structure Header where
  /-- In lower case. -/
  name : String
  value : Octets
  deriving DecidableEq, Repr

namespace Header

def maxNameLength : Nat := 65535

def name? (s : String) : Option String :=
  if s.isEmpty || !s.toList.all isTokenChar || maxNameLength < s.utf8ByteSize then none
  else some s.toLower

def isValueOctet (b : UInt8) : Bool := b = 0x09 || (0x20 ≤ b && b ≠ 0x7F)

def value? (v : Octets) : Option Octets := if v.all isValueOctet then some v else none

def parse? (name value : String) : Option Header := do
  let name ← name? name
  let value ← value? (Utf8.encode value)
  some ⟨name, value⟩

/-- Sorted by name; headers of one name stay in their order. -/
def sort (hs : List Header) : List Header := hs.mergeSort fun a b => a.name ≤ b.name

end Header

structure Request where
  method : Method
  uri : Uri
  headers : List Header
  body : Octets
  deriving DecidableEq, Repr

/-- Statuses have three digits. -/
def status? (n : Nat) : Option Nat := if 100 ≤ n ∧ n ≤ 999 then some n else none

structure Response where
  status : Nat
  headers : List Header
  body : Octets
  deriving DecidableEq, Repr

end AuctionGate.Http
