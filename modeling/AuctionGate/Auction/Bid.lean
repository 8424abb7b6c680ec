import AuctionGate.Auction.Request

/-!
# Bids

A bid names the impression it is for and a price. Its markup and its deal may be missing or null,
which is the same and is not written. All other members are kept and written back.
-/

namespace AuctionGate

structure Bid where
  id : String
  impressionId : String
  price : Float
  markup : Option String
  dealId : Option String
  extra : Json.Members

namespace Bid

def names : List String := ["id", "impid", "price", "adm", "dealid"]

/-- A text that may be missing or null. -/
def optional? (name : String) (ms : List (Option String × Json.Tree)) : Option (Option String) :=
  match Json.Tree.under name ms with
  | [] => some none
  | [.null] => some none
  | [.str s] => s.map some
  | _ => none

def price? (ms : List (Option String × Json.Tree)) : Option Float :=
  match Json.Tree.under "price" ms with
  | [.num n] => n.bind fun n => Json.float? (.num n)
  | _ => none

def ofTree? : Nat → Json.Tree → Option Bid
  | depth + 1, .obj ms => do
    let id ← Json.Tree.textUnder? "id" ms
    let impressionId ← Json.Tree.textUnder? "impid" ms
    let price ← price? ms
    let markup ← optional? "adm" ms
    let dealId ← optional? "dealid" ms
    let extra ← Json.Tree.extraValues? depth names ms
    some ⟨id, impressionId, price, markup, dealId, extra⟩
  | _, _ => none

def read (text : Octets) : Option Bid :=
  (Json.Tree.read text).bind (ofTree? Json.maxDepth)

def toJson (b : Bid) : Json :=
  .obj ([("id", .str b.id), ("impid", .str b.impressionId), ("price", .num (.float b.price))]
    ++ (b.markup.map fun s => ("adm", Json.str s)).toList
    ++ (b.dealId.map fun s => ("dealid", Json.str s)).toList ++ b.extra)

end Bid

end AuctionGate
