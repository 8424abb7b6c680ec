import AuctionGate.Net.Host

/-!
# Socket addresses

A socket address is an IP address and a port. It is written as a host and a port with a colon
between them. The port follows the last colon, may have leading zeros and one plus sign, and is
below 65536. A host that is no IP address is the name of one. An IPv6 address may stand in
brackets, with digits alone for its port, and may name a scope after a percent sign.
-/

namespace AuctionGate.Net

/-- A host and a port, as written. -/
structure Endpoint where
  host : Host
  port : Nat
  deriving DecidableEq, Repr

structure SocketAddress where
  ip : Ip
  port : Nat
  deriving DecidableEq, Repr

namespace SocketAddress

inductive Fault where
  /-- There is no colon. -/
  | noPort
  | badPort
  /-- The name service has no answer, and says why. -/
  | unknownHost (reason : String)
  /-- The name service answers with no address at all. -/
  | noRecords
  deriving DecidableEq, Repr

def Fault.message : Fault → String
  | noPort => "invalid socket address"
  | badPort => "invalid port value"
  | unknownHost reason => reason
  | noRecords => "no records found"

/-- The text before and after the last separator. -/
def splitLast (sep : Char) (cs : List Char) : Option (List Char × List Char) :=
  let tail := cs.reverse.takeWhile (· ≠ sep)
  if tail.length = cs.length then none
  else some (cs.take (cs.length - tail.length - 1), tail.reverse)

def digitPort? (cs : List Char) : Option Nat :=
  (number? 10 cs).filter (· < 65536)

def port? : List Char → Option Nat
  | '+' :: cs => digitPort? cs
  | cs => digitPort? cs

/-- An IPv6 address, with a scope or without. -/
def scoped? (cs : List Char) : Option (List Nat) :=
  let scope := cs.dropWhile (· ≠ '%')
  if scope.isEmpty then Ip.v6? cs
  else ((number? 10 (scope.drop 1)).filter (· < UInt32.size)).bind fun _ =>
    Ip.v6? (cs.takeWhile (· ≠ '%'))

/-- An IPv6 address in brackets, and its port. -/
def bracketed? : List Char → Option Endpoint
  | '[' :: cs => do
    let ip ← scoped? (cs.takeWhile (· ≠ ']'))
    match cs.dropWhile (· ≠ ']') with
    | ']' :: ':' :: p => (digitPort? p).map fun port => ⟨.ip (.v6 ip), port⟩
    | _ => none
  | _ => none

def ip? (cs : List Char) : Option Ip :=
  match Ip.v4? cs with
  | some n => some (.v4 n)
  | none => (scoped? cs).map .v6

def host (cs : List Char) : Host :=
  match ip? cs with
  | some ip => .ip ip
  | none => .domain (String.ofList cs)

/-- Reads an address; that needs no name service. -/
def read (text : String) : Except Fault Endpoint :=
  let cs := text.toList
  match bracketed? cs with
  | some e => .ok e
  | none =>
    match splitLast ':' cs with
    | none => .error .noPort
    | some (h, p) =>
      match port? p with
      | none => .error .badPort
      | some port => .ok ⟨host h, port⟩

/-- The socket addresses of what is written; there is at least one. -/
def resolve (names : NameService) (text : String) : Except Fault (List SocketAddress) :=
  match read text with
  | .error f => .error f
  | .ok ⟨.ip ip, port⟩ => .ok [⟨ip, port⟩]
  | .ok ⟨.domain name, port⟩ =>
    match names.answer name with
    | .error reason => .error (.unknownHost reason)
    | .ok [] => .error .noRecords
    | .ok ips => .ok (ips.map (⟨·, port⟩))

end SocketAddress

end AuctionGate.Net
