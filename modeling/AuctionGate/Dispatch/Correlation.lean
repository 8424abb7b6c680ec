import AuctionGate.Partner.Error

/-!
# Who is to blame

The errors of one dispatch come in three categories, in this order: what went wrong when the calls
were built, the calls that failed, and what went wrong when answers were read. Each category is
put down to a part of the requested impressions: those on no call, those on a call that failed,
and those that were sent, on no failed call, and got no bid. The three parts are disjoint.
-/

namespace AuctionGate

/-- What correlation knows of one call. -/
structure CallReport where
  impressionIds : List String
  error : Option PartnerError

namespace CallReport

def failed (r : CallReport) : Bool := r.error.isSome

/-- Some call carries an impression. -/
def sent (calls : List CallReport) (id : String) : Bool :=
  calls.any fun c => c.impressionIds.contains id

end CallReport

namespace Correlation

variable (requested : IdSet) (calls : List CallReport) (bidFor : List String)

def unsent : IdSet := requested.filter fun id => !CallReport.sent calls id

def failed : IdSet := requested.filter fun id => CallReport.sent (calls.filter (·.failed)) id

def silent : IdSet :=
  requested.filter fun id =>
    CallReport.sent calls id && !CallReport.sent (calls.filter (·.failed)) id
      && !bidFor.contains id

/-- All errors of a dispatch, each with the tag of its category. -/
def correlate (buildErrors readErrors : List PartnerError) : List PartnerError :=
  buildErrors.map (·.tagged (unsent requested calls))
    ++ (calls.filterMap (·.error)).map (·.tagged (failed requested calls))
    ++ readErrors.map (·.tagged (silent requested calls bidFor))

end Correlation

end AuctionGate
