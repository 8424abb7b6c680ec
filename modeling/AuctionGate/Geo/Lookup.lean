import AuctionGate.Breaker.Watch
import AuctionGate.Geo.Info
import AuctionGate.Net.Url

/-!
# Geolocation lookups

A lookup draws a live instance from the pool and asks it under its breaker. The pool observes the
breakers, so an instance that keeps failing is out of rotation until its breaker is half open.

Whatever ends a lookup before the breaker leaves everything as it was. Any other lookup asks one
breaker, takes at most the timeout, and gives one sample of its duration. An answer may send the
lookup on to a URL of its choice, on whatever host; what comes of that is put down to the instance
that was drawn.
-/

namespace AuctionGate

inductive LookupFault where
  | noAddress
  | circuitOpen (address : String)
  | timeout
  | request
  | badStatus (status : Nat)
  | decode
  | invalidUrl
  deriving DecidableEq

def LookupFault.message : LookupFault → String
  | noAddress => "no geolocation address available"
  | circuitOpen a => "open circuit for " ++ a
  | timeout => "geolocation lookup timed out"
  | request => "geolocation request failed"
  | badStatus n => "geolocation service responded with status " ++ toString n
  | decode => "could not decode geolocation response"
  | invalidUrl => "invalid geolocation url"

/-- Where a response sends the asker. -/
inductive Location where
  | url (u : Net.Url)
  /-- A place that is not asked over HTTP. -/
  | foreign

/-- What becomes of a request. -/
inductive Answer where
  /-- No connection comes about. -/
  | refused
  /-- The connection ends without a response. -/
  | closed
  /-- A response, with or without a place to look further, of which the body may be cut off. -/
  | response (status : Nat) (location : Option Location) (body : Octets) (complete : Bool)

/-- The answer to each request of a lookup, by its number, and after how long it is there. -/
abbrev Instance := Nat → Nat × Answer

/-- How a lookup's requests went. -/
structure Fetch where
  elapsed : Nat
  /-- The URLs of the requests that got through, in their order. -/
  asked : List Net.Url
  result : Except LookupFault GeoInfo

namespace Fetch

def maxRedirects : Nat := 10

def isRedirect (status : Nat) : Bool := [301, 302, 303, 307, 308].contains status

/-- Where a response is followed to. -/
def next? (status : Nat) (location : Option Location) : Option Location :=
  if isRedirect status then location else none

/-- The result of a response that is not followed further. -/
def resultOf (status : Nat) (body : Octets) (complete : Bool) : Except LookupFault GeoInfo :=
  if status ≠ 200 then .error (.badStatus status)
  else if !complete then .error .decode
  else
    match GeoInfo.read body with
    | some info => .ok info
    | none => .error .decode

/-- The requests from the `n`-th on, `spent` after the start, as long as redirects are left. Who
answers a request is up to the origin of its URL. -/
def run (peers : String → Instance) (timeout : Nat) : Nat → Nat → Nat → Net.Url → Fetch
  | redirects, n, spent, url =>
    let (delay, answer) := peers url.origin n
    let arrival := spent + delay
    if timeout < arrival then ⟨timeout, [url], .error .timeout⟩
    else
      match answer with
      | .refused => ⟨arrival, [], .error .request⟩
      | .closed => ⟨arrival, [url], .error .request⟩
      | .response status location body complete =>
        match next? status location with
        | none => ⟨arrival, [url], resultOf status body complete⟩
        | some .foreign => ⟨arrival, [url], .error .request⟩
        | some (.url next) =>
          match redirects with
          | 0 => ⟨arrival, [url], .error .request⟩
          | redirects + 1 =>
            let rest := run peers timeout redirects (n + 1) arrival next
            { rest with asked := url :: rest.asked }

end Fetch

/-- A lookup that was let through to an instance. -/
structure Inquiry where
  address : String
  permit : Breaker.Permit
  start : Nat
  url : Net.Url
  timeout : Nat

/-- A finished lookup. -/
structure Lookup where
  result : Except LookupFault GeoInfo
  /-- The URLs of the requests that got through, in their order. -/
  asked : List Net.Url := []

/-- How many requests got through. -/
def Lookup.requests (l : Lookup) : Nat := l.asked.length

/-- The first URL that was asked. -/
def Lookup.url (l : Lookup) : Option Net.Url := l.asked.head?

/-- A client of a geolocation service. -/
structure Geolocation where
  watch : Watch
  rules : Net.DomainRules
  path : String
  timeout : Nat

namespace Geolocation

def ofPool (pool : Pool) (config : Breaker.Config) (path : String) (timeout : Nat)
    (rules : Net.DomainRules := .plainOnly) : Geolocation :=
  { watch :=
      { registry := { config, observers := [.pool], pool := some pool }
        journal := [.poolReady pool.name pool.configured.length] }
    rules, path, timeout }

def live (g : Geolocation) : List String := (g.watch.registry.pool.map (·.live)).getD []

/-- The address that a draw picks. -/
def drawn? (g : Geolocation) (draw : Nat) : Option String :=
  g.watch.registry.pool.bind (·.draw? draw)

def note (g : Geolocation) (os : List Occurrence) : Geolocation :=
  { g with watch := { g.watch with journal := g.watch.journal.note os } }

/-- What the journal is told when a lookup that came to the breaker ends. -/
def told (address : String) (ok : Bool) (elapsed : Nat) : List Occurrence :=
  .lookupFinished ok elapsed :: if ok then [] else [.lookupFailed address]

/-- The timeout of a lookup whose caller has `budget` left. -/
def effectiveTimeout (g : Geolocation) (budget : Option Nat) : Nat :=
  match budget with
  | some b => min b g.timeout
  | none => g.timeout

/-- Draws an instance and asks its breaker; `draw` picks among those that are live. -/
def start (g : Geolocation) (ip : String) (budget : Option Nat) (draw : Nat) :
    Geolocation × Except LookupFault Inquiry :=
  let timeout := g.effectiveTimeout budget
  if timeout = 0 then (g, .error .timeout)
  else
    match g.drawn? draw with
    | none => (g, .error .noAddress)
    | some address =>
      match Net.Url.lookup? g.rules address g.path ip with
      | none => (g, .error .invalidUrl)
      | some url =>
        match g.watch.allow address with
        | (watch, some permit) =>
          ({ g with watch }, .ok ⟨address, permit, watch.now, url, timeout⟩)
        | (watch, none) =>
          ({ g with watch }.note (told address false 0), .error (.circuitOpen address))

/-- A lookup ends with a result. -/
def finish (g : Geolocation) (i : Inquiry) (ok : Bool) : Geolocation :=
  { g with watch := g.watch.settle i.address i.permit ok }.note
    (told i.address ok (g.watch.now - i.start))

/-- A lookup is given up, which counts as a failure of the instance. -/
def abandon (g : Geolocation) (i : Inquiry) : Geolocation :=
  { g with watch := g.watch.settle i.address i.permit false }

/-- Looks an address up; time passes until there is an answer or the timeout is over. -/
def lookup (g : Geolocation) (peers : String → Instance) (ip : String) (budget : Option Nat)
    (draw : Nat) : Geolocation × Lookup :=
  match g.start ip budget draw with
  | (g, .error fault) => (g, { result := .error fault })
  | (g, .ok i) =>
    let fetch := Fetch.run peers i.timeout Fetch.maxRedirects 0 0 i.url
    let g := { g with watch := g.watch.advance fetch.elapsed }
    (g.finish i fetch.result.isOk, ⟨fetch.result, fetch.asked⟩)

end Geolocation

end AuctionGate
