import AuctionGate.Json.Reader

/-!
# Locations

What a geolocation service says of an IP address: an object of which each member may be missing or
null, or a list of exactly the five values. Other members are ignored, whatever they hold.
-/

namespace AuctionGate

structure GeoInfo where
  country : Option String := none
  region : Option String := none
  city : Option String := none
  lat : Option Float := none
  lon : Option Float := none

namespace GeoInfo

def names : List String := ["country", "region", "city", "lat", "lon"]

def text? : Option Json.Tree → Option (Option String)
  | none => some none
  | some .null => some none
  | some (.str s) => s.map some
  | _ => none

def degrees? : Option Json.Tree → Option (Option Float)
  | none => some none
  | some .null => some none
  | some (.num n) => n.bind fun n => (Json.float? (.num n)).map some
  | _ => none

def make? (country region city lat lon : Option Json.Tree) : Option GeoInfo := do
  some ⟨← text? country, ← text? region, ← text? city, ← degrees? lat, ← degrees? lon⟩

def ofTree? : Json.Tree → Option GeoInfo
  | .obj ms =>
    if ms.any (·.1.isNone) || Json.Tree.repeats names ms then none
    else
      let member (name : String) := (Json.Tree.under name ms).head?
      make? (member "country") (member "region") (member "city") (member "lat") (member "lon")
  | .arr [country, region, city, lat, lon] => make? country region city lat lon
  | _ => none

def read (text : Octets) : Option GeoInfo := (Json.Tree.read text).bind ofTree?

end GeoInfo

end AuctionGate
