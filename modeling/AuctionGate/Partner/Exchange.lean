import AuctionGate.Partner.Call

/-!
# Exchanges

An exchange is a connection, then the head of a response, then its body in chunks up to its end. A
`Timeline` says when the peer does each of these, what fails instead, and where it falls silent.

An exchange is all or nothing within its timeout: a response comes whole, and whatever is still
awaited at the timeout is cut.
-/

namespace AuctionGate

/-- One error in a chain of causes. -/
structure Cause where
  text : String
  /-- An input or output operation timed out. -/
  timedOut : Bool := false
  deriving DecidableEq, Repr

/-- What fails in an exchange; a chain of causes starts with the outermost. -/
inductive ExchangeFault where
  | connection (causes : List Cause)
  | head (causes : List Cause)
  | body (cause : Cause)
  deriving DecidableEq, Repr

namespace ExchangeFault

def message : ExchangeFault → String
  | connection causes => ": ".intercalate ("client error (Connect)" :: causes.map (·.text))
  | head causes => ": ".intercalate ("client error (SendRequest)" :: causes.map (·.text))
  | body cause => "Failed to read response body: " ++ cause.text

/-- Only a connection can time out by itself. -/
def kind : ExchangeFault → TransportFailure.Kind
  | connection causes => if causes.any (·.timedOut) then .connectTimeout else .other
  | head _ | body _ => .other

def failure (f : ExchangeFault) : TransportFailure := ⟨f.kind, f.message⟩

end ExchangeFault

/-- What comes next and how long after what came before; none if nothing comes any more. -/
abbrev Coming (α : Type) := Option (Nat × α)

/-- What a peer does in an exchange. -/
structure Timeline where
  connection : Coming (Except (List Cause) Unit)
  /-- The status and the headers of the response. -/
  head : Coming (Except (List Cause) (Nat × List Http.Header)) := none
  chunks : List (Nat × Octets) := []
  /-- The end of the body, or its failure. -/
  ending : Coming (Except Cause Unit) := none

namespace Timeline

/-- The peer never does anything. -/
def silent : Timeline := { connection := none }

/-- The connection fails at once. -/
def refused (causes : List Cause) : Timeline := { connection := some (0, .error causes) }

def connectTimeoutCauses : List Cause :=
  [⟨"tcp connect error", false⟩, ⟨"deadline has elapsed", true⟩]

/-- The peer as seen by one who waits only so long for a connection. -/
def connectWithin (limit : Option Nat) (t : Timeline) : Timeline :=
  match limit with
  | none => t
  | some l =>
    if t.connection.any (·.1 ≤ l) then t
    else { t with connection := some (l, .error connectTimeoutCauses) }

end Timeline

namespace Exchange

/-- What comes next with its time, unless the timeout comes before it. -/
def await {α : Type} (timeout spent : Nat) (next : Coming α) : Coming α :=
  (next.map fun (delay, x) => (spent + delay, x)).filter (·.1 ≤ timeout)

/-- An outcome with the time at which it is there. -/
abbrev Settlement := Outcome × Nat

def cut (timeout : Nat) : Settlement := (.timeout, timeout)

def failed (f : ExchangeFault) (time : Nat) : Settlement := (.failure f.failure, time)

/-- Reads the chunks to come, after `received`. -/
def readBody (timeout : Nat) (ending : Coming (Except Cause Unit)) (status : Nat)
    (headers : List Http.Header) (spent : Nat) (received : Octets) :
    List (Nat × Octets) → Settlement
  | [] =>
    match await timeout spent ending with
    | none => cut timeout
    | some (t, .error cause) => failed (.body cause) t
    | some (t, .ok ()) => (.response ⟨status, headers, received⟩, t)
  | chunk :: chunks =>
    match await timeout spent (some chunk) with
    | none => cut timeout
    | some (t, octets) => readBody timeout ending status headers t (received ++ octets) chunks

def readHead (timeout : Nat) (peer : Timeline) (spent : Nat) : Settlement :=
  match await timeout spent peer.head with
  | none => cut timeout
  | some (t, .error causes) => failed (.head causes) t
  | some (t, .ok (status, headers)) =>
    readBody timeout peer.ending status headers t [] peer.chunks

def execute (peer : Timeline) (timeout : Nat) : Settlement :=
  match await timeout 0 peer.connection with
  | none => cut timeout
  | some (t, .error causes) => failed (.connection causes) t
  | some (t, .ok ()) => readHead timeout peer t

end Exchange

end AuctionGate
