import AuctionGate.Dispatch.Flight

/-!
# Scripted partners

For rehearsals: a transport that reacts by a script, with a list of replies for each URI, and an
adapter with given calls that reads its bids from JSON.
-/

namespace AuctionGate

structure Reply where
  delay : Nat
  /-- It comes even after the timeout that the transport was handed. -/
  ignoresTimeout : Bool
  ending : Ending

/-- Replies by the URI as it is written. -/
abbrev Script := List (String × List Reply)

namespace Script

/-- The reply to the request after `n` others to its URI; the last one repeats. -/
def reply? (s : Script) (uri : String) (n : Nat) : Option Reply :=
  (s.find? (·.1 = uri)).bind fun (_, replies) =>
    match replies[n]? with
    | some r => some r
    | none => replies.getLast?

def transport (s : Script) : Transport := fun earlier request timeout =>
  let uri := request.uri.write
  match s.reply? uri (earlier.filter (·.uri.write = uri)).length with
  | none => ⟨some 0, .outcome (.failure ⟨.other, "no reply scripted for " ++ uri⟩)⟩
  | some r =>
    if timeout < r.delay ∧ !r.ignoresTimeout then ⟨some timeout, .outcome .timeout⟩
    else ⟨some r.delay, r.ending⟩

end Script

namespace Rehearsal

/-- The kind of an error by its name, which may be written as an object with a null. -/
def kindOf? : Json → Option PartnerError.Kind
  | .str s => PartnerError.Kind.ofName? s
  | .obj [(s, .null)] => PartnerError.Kind.ofName? s
  | _ => none

def textIn (v : Json) (name : String) : String := ((v.member? name).bind Json.str?).getD ""

def idsIn? (v : Json) (name : String) : Option (List String) :=
  ((v.member? name).bind Json.items?).map (·.filterMap Json.str?)

def error? (v : Json) : Option PartnerError := do
  let kind ← (v.member? "kind").bind kindOf?
  some ⟨textIn v "message", kind, (idsIn? v "imps").map IdSet.ofList⟩

def bodyError? : Json → Option PartnerError
  | .str s => some ⟨s, .badServerResponse, none⟩
  | v => error? v

def bids? (depth : Nat) : List Json.Tree → Option (List Bid)
  | [] => some []
  | [.arr ts] => ts.mapM (Bid.ofTree? depth)
  | _ => none

def errors? (depth : Nat) : List Json.Tree → Option (List PartnerError)
  | [] => some []
  | [.arr ts] => ts.mapM fun t => (t.value? depth).bind bodyError?
  | _ => none

def parts? (depth : Nat) (bids errors : List Json.Tree) :
    Option (List Bid × List PartnerError) := do
  some (← bids? depth bids, ← errors? depth errors)

/-- A body is an object with bids and errors, or a list of the two; either may be missing. -/
def body? : Json.Tree → Option (List Bid × List PartnerError)
  | .obj ms => parts? (Json.maxDepth - 2) (Json.Tree.under "bids" ms) (Json.Tree.under "errors" ms)
  | .arr ts =>
    if 2 < ts.length then none else parts? (Json.maxDepth - 2) (ts.take 1) (ts.drop 1)
  | _ => none

def read (r : Http.Response) : List Bid × List PartnerError :=
  ((Json.Tree.read r.body).bind body?).getD
    ([], [⟨"Bad response body", .badServerResponse, none⟩])

def adapter (name : String) (calls : List Call) (buildErrors : List PartnerError) : Adapter :=
  ⟨name, fun _ => (calls, buildErrors), fun _ r => read r⟩

end Rehearsal

end AuctionGate
