import AuctionGate.Auction.IdSet
import AuctionGate.Json.Reader

/-!
# Auction requests

An auction request has an id and a list of impressions, each with an id of its own. All other
members, of the request and of each impression, are kept as they came and written back.
-/

namespace AuctionGate

/-- One slot of an auction. -/
structure Impression where
  id : String
  extra : Json.Members

structure Auction where
  id : String
  impressions : List Impression
  extra : Json.Members

namespace Json.Tree

/-- The members of an object other than those named, with their values. -/
def extraValues? (depth : Nat) (names : List String) (ms : List (Option String × Tree)) :
    Option Members :=
  (memberValues? depth (ms.filter fun (k, _) => !(k.any names.contains))).map sortMembers

/-- The text written once under a name. -/
def textUnder? (name : String) (ms : List (Option String × Tree)) : Option String :=
  match under name ms with
  | [.str s] => s
  | _ => none

end Json.Tree

namespace Impression

/-- Reads an impression that lies at most `depth` containers deep. -/
def ofTree? : Nat → Json.Tree → Option Impression
  | depth + 1, .obj ms => do
    let id ← Json.Tree.textUnder? "id" ms
    let extra ← Json.Tree.extraValues? depth ["id"] ms
    some ⟨id, extra⟩
  | _, _ => none

def toJson (i : Impression) : Json := .obj (("id", .str i.id) :: i.extra)

end Impression

namespace Auction

def ofTree? : Nat → Json.Tree → Option Auction
  | depth + 2, .obj ms => do
    let id ← Json.Tree.textUnder? "id" ms
    let impressions ← match Json.Tree.under "imp" ms with
      | [.arr ts] => ts.mapM (Impression.ofTree? depth)
      | _ => none
    let extra ← Json.Tree.extraValues? (depth + 1) ["id", "imp"] ms
    some ⟨id, impressions, extra⟩
  | _, _ => none

def read (text : Octets) : Option Auction :=
  (Json.Tree.read text).bind (ofTree? Json.maxDepth)

def toJson (a : Auction) : Json :=
  .obj (("id", .str a.id) :: ("imp", .arr (a.impressions.map Impression.toJson)) :: a.extra)

def impressionIds (a : Auction) : IdSet := .ofList (a.impressions.map Impression.id)

end Auction

end AuctionGate
