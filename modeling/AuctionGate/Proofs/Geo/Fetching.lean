import AuctionGate.Geo.Lookup
import Mathlib.Tactic.SplitIfs

/-!
# How a location is fetched

A fetch asks at a URL, and goes on wherever the answer sends it, whoever is there. It brings a
location exactly if an answer that is not followed further has one and all answers up to it are
there in time.
-/

namespace AuctionGate

variable {peers : String → Instance} {timeout redirects n spent time : Nat} {url next : Net.Url}
  {info : GeoInfo} {asked : List Net.Url}

/-- The URL at which an answer has the asker look further. -/
def Answer.sendsTo? : Answer → Option Net.Url
  | .response status location _ _ =>
    match Fetch.next? status location with
    | some (.url next) => some next
    | _ => none
  | _ => none

/-- A complete answer with status 200 that holds a location. -/
def Answer.Locates (info : GeoInfo) : Answer → Prop
  | .response status _ body complete =>
    status = 200 ∧ complete = true ∧ GeoInfo.read body = some info
  | _ => False

namespace Fetch

/-- The answers lead from the `n`-th request, at `url`, to the `k`-th. -/
inductive Leads (peers : String → Instance) : Nat → Net.Url → Nat → Net.Url → Prop
  | here {n : Nat} {url : Net.Url} : Leads peers n url n url
  | further {n k : Nat} {url next u : Net.Url}
      (sends : (peers url.origin n).2.sendsTo? = some next) (rest : Leads peers (n + 1) next k u) :
      Leads peers n url k u

/-- A location is there in time, after at most so many answers that send the asker on. -/
inductive Brings (peers : String → Instance) (info : GeoInfo) :
    Nat → Nat → Net.Url → Nat → Prop
  | here {redirects n : Nat} {url : Net.Url} {time : Nat} (inTime : (peers url.origin n).1 ≤ time)
      (locates : (peers url.origin n).2.Locates info) : Brings peers info redirects n url time
  | further {redirects n : Nat} {url next : Net.Url} {time : Nat}
      (inTime : (peers url.origin n).1 ≤ time)
      (sends : (peers url.origin n).2.sendsTo? = some next)
      (rest : Brings peers info redirects (n + 1) next (time - (peers url.origin n).1)) :
      Brings peers info (redirects + 1) n url time

theorem resultOf_ok_iff {status : Nat} (location : Option Location) {body : Octets}
    {complete : Bool} :
    resultOf status body complete = .ok info
      ↔ (Answer.response status location body complete).Locates info := by
  simp only [resultOf, Answer.Locates]
  split_ifs with hs hc
  · exact iff_of_false nofun fun h => hs h.1
  · exact iff_of_false nofun fun h => by simp [h.2.1] at hc
  · have hs : status = 200 := by simpa using hs
    have hc : complete = true := by simpa using hc
    cases GeoInfo.read body <;> simp [hs, hc]

/-- An answer that is followed further has no location itself. -/
theorem not_locates_of_next {status : Nat} {location : Option Location} {body : Octets}
    {complete : Bool} (h : (next? status location).isSome) :
    ¬ (Answer.response status location body complete).Locates info := by
  rintro ⟨rfl, -⟩
  cases h

theorem brings_inTime (h : Brings peers info redirects n url time) :
    (peers url.origin n).1 ≤ time := by
  cases h with
  | here inTime | further inTime => exact inTime

/-- Where the asker is not sent on, there is a location now or never. -/
theorem brings_now (h : (peers url.origin n).2.sendsTo? = none) :
    Brings peers info redirects n url time
      ↔ (peers url.origin n).1 ≤ time ∧ (peers url.origin n).2.Locates info := by
  constructor
  · rintro (⟨inTime, locates⟩ | ⟨-, sends, -⟩)
    · exact ⟨inTime, locates⟩
    · rw [h] at sends
      cases sends
  · exact fun ⟨inTime, locates⟩ => .here inTime locates

theorem brings_further (h : (peers url.origin n).2.sendsTo? = some next)
    (hnot : ¬ (peers url.origin n).2.Locates info) :
    Brings peers info (redirects + 1) n url time
      ↔ (peers url.origin n).1 ≤ time
        ∧ Brings peers info redirects (n + 1) next (time - (peers url.origin n).1) := by
  constructor
  · rintro (⟨-, locates⟩ | ⟨inTime, sends, rest⟩)
    · exact absurd locates hnot
    · obtain rfl := Option.some.inj (h.symm.trans sends)
      exact ⟨inTime, rest⟩
  · exact fun ⟨inTime, rest⟩ => .further inTime h rest

/-- A fetch has a location exactly if it is brought in the time that is left. -/
theorem run_ok_iff (peers : String → Instance) (timeout redirects n spent : Nat) (url : Net.Url)
    (info : GeoInfo) :
    (run peers timeout redirects n spent url).result = .ok info
      ↔ spent ≤ timeout ∧ Brings peers info redirects n url (timeout - spent) := by
  fun_induction run peers timeout redirects n spent url with
  | case1 _ n spent url delay answer heq arrival late =>
    refine iff_of_false nofun fun ⟨_, brings⟩ => ?_
    have := brings_inTime brings
    simp only [heq] at this
    omega
  | case2 _ n spent url delay arrival _ heq | case3 _ n spent url delay arrival _ heq =>
    refine iff_of_false nofun fun ⟨_, brings⟩ => ?_
    rw [brings_now (by rw [heq]; rfl), heq] at brings
    exact brings.2
  | case4 _ n spent url delay arrival inTime status location body complete hnext heq =>
    rw [brings_now (by simp [heq, Answer.sendsTo?, hnext]), heq, resultOf_ok_iff location]
    simp only [arrival] at inTime
    constructor
    · exact fun h => ⟨by omega, by omega, h⟩
    · exact fun h => h.2.2
  | case5 _ n spent url delay arrival _ status location body complete hnext heq =>
    refine iff_of_false nofun fun ⟨_, brings⟩ => ?_
    rw [brings_now (by simp [heq, Answer.sendsTo?, hnext]), heq] at brings
    exact not_locates_of_next (by simp [hnext]) brings.2
  | case6 n spent url delay arrival _ status location body complete next hnext heq =>
    refine iff_of_false nofun fun ⟨_, brings⟩ => ?_
    cases brings with
    | here _ locates =>
      rw [heq] at locates
      exact not_locates_of_next (by simp [hnext]) locates
  | case7 n spent url delay arrival inTime status location body complete next hnext redirects rest
      heq ih =>
    have sends : (peers url.origin n).2.sendsTo? = some next := by
      simp [heq, Answer.sendsTo?, hnext]
    have hnot : ¬ (peers url.origin n).2.Locates info := by
      rw [heq]
      exact not_locates_of_next (by simp [hnext])
    rw [brings_further sends hnot, heq, show timeout - spent - delay = timeout - arrival by omega]
    simp only [arrival] at inTime
    constructor
    · intro h
      exact ⟨by omega, by omega, (ih.1 h).2⟩
    · intro h
      exact ih.2 ⟨by omega, h.2.2⟩

theorem run_elapsed (peers : String → Instance) (timeout redirects n spent : Nat)
    (url : Net.Url) : (run peers timeout redirects n spent url).elapsed ≤ timeout := by
  fun_induction run peers timeout redirects n spent url with
  | case1 => exact Nat.le_refl _
  | case2 | case3 | case4 | case5 | case6 => simp only; omega
  | case7 => assumption

theorem leads_head {i : Nat} {u : Net.Url} (h : [url][i]? = some u) :
    Leads peers n url (n + i) u := by
  rcases i with _ | i
  · exact Option.some.inj h ▸ .here
  · cases h

/-- Where nobody sends the asker on, there is no other request. -/
theorem eq_of_leads {k : Nat} {u : Net.Url} (hnot : (peers url.origin n).2.sendsTo? = none)
    (h : Leads peers n url k u) : k = n ∧ u = url := by
  cases h with
  | here => exact ⟨rfl, rfl⟩
  | further sends =>
    rw [hnot] at sends
    cases sends

/-- Each request is at the URL to which the answers before it lead, and there are not many. -/
theorem run_asked (peers : String → Instance) (timeout redirects n spent : Nat) (url : Net.Url) :
    (∀ i u, (run peers timeout redirects n spent url).asked[i]? = some u →
        Leads peers n url (n + i) u)
      ∧ (run peers timeout redirects n spent url).asked.length ≤ redirects + 1 := by
  fun_induction run peers timeout redirects n spent url with
  | case1 | case3 | case4 | case5 | case6 => exact ⟨fun _ _ => leads_head, by simp⟩
  | case2 => exact ⟨nofun, Nat.zero_le _⟩
  | case7 n spent url delay arrival _ status location body complete next hnext redirects rest heq
      ih =>
    have sends : (peers url.origin n).2.sendsTo? = some next := by
      simp [heq, Answer.sendsTo?, hnext]
    refine ⟨fun i u hi => ?_, Nat.succ_le_succ ih.2⟩
    rcases i with _ | i
    · exact Option.some.inj hi ▸ .here
    · have hrest := ih.1 i u hi
      rw [Nat.add_assoc, Nat.add_comm 1] at hrest
      exact .further sends hrest

/-- Only those to whom the answers lead have a say. -/
theorem run_congr {peers peers' : String → Instance} {n : Nat} {url : Net.Url}
    (h : ∀ k u, Leads peers n url k u → peers' u.origin k = peers u.origin k)
    (timeout redirects spent : Nat) :
    run peers' timeout redirects n spent url = run peers timeout redirects n spent url := by
  induction redirects generalizing n spent url with
  | zero => rw [run, run, h n url .here]
  | succ redirects ih =>
    rw [run, run, h n url .here]
    rcases hp : peers url.origin n with ⟨delay, _ | _ | ⟨status, location, body, complete⟩⟩
    · rfl
    · rfl
    · rcases hnext : next? status location with _ | next | _
      · simp only [hnext]
      · have sends : (peers url.origin n).2.sendsTo? = some next := by
          simp [hp, Answer.sendsTo?, hnext]
        simp only [hnext, ih fun k u hk => h k u (.further sends hk)]
      · simp only [hnext]

end Fetch

end AuctionGate
