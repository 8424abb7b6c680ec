import AuctionGate.Proofs.Breaker.Agreement
import AuctionGate.Proofs.Breaker.Bank

/-!
# Strangers

A registry has one clock, one list of observers and maybe one pool for all of its keys. Still what
happens to other keys is not seen by a key: if all of that had not been done, every call of the key
would have got the same answer, its breaker would have been the same after every step, the
observers would have heard the same of it at the same times, and its address would have been in
rotation at the same times (`seen_remaining`).
-/

namespace AuctionGate

open Breaker

/-- What is done with a registry on a clock, and with the pool among its observers. -/
inductive Use where
  | get (key : String)
  | act (a : Act)
  | refresh
  deriving DecidableEq, Repr

/-- What is seen of one key: the answer if leave was asked for, its breaker, what the observers have
heard of it, and whether the address is in rotation. -/
structure Scene where
  leave : Option Permit
  breaker : Breaker
  notices : List Notice
  live : Option Bool
  deriving DecidableEq, Repr

namespace Watch

def use (w : Watch) : Use → Watch × Option Permit
  | .get key => (w.get key, none)
  | .act a => w.act a
  | .refresh => (w.poolTurn Pool.refresh, none)

/-- The key of the call that comes back first under a name. -/
def keyOf? (w : Watch) (id : String) : Option String := (w.calls.find? (·.id = id)).map (·.key)

/-- The key that a step is for. Time and refreshes are for all. -/
def target? (w : Watch) : Use → Option String
  | .get key => some key
  | .act (.begin key _) => some key
  | .act (.finish id _) => w.keyOf? id
  | .act (.drop id) => w.keyOf? id
  | .act (.advance _) => none
  | .refresh => none

def scene (w : Watch) (key : String) (leave : Option Permit) : Scene where
  leave
  breaker := w.registry.breaker key
  notices := w.registry.notices.filter (·.key = key)
  live := w.registry.pool.map (key ∈ ·.live)

/-- What is seen of a key after each step. -/
def seen (key : String) : Watch → List Use → List Scene
  | _, [] => []
  | w, u :: us => (w.use u).1.scene key (w.use u).2 :: (w.use u).1.seen key us

/-- The steps of a run that are not for another key, each with what is seen after it. -/
def remaining (key : String) : Watch → List Use → List (Use × Scene)
  | _, [] => []
  | w, u :: us =>
    if (w.target? u).all (· = key) then
      (u, (w.use u).1.scene key (w.use u).2) :: (w.use u).1.remaining key us
    else (w.use u).1.remaining key us

/-- The second has of the first what belongs to one key, and no calls of others. -/
structure Shares (key : String) (w w' : Watch) : Prop where
  registry : w.registry.Agree (· = key) w'.registry
  now : w.now = w'.now
  timers : w.timers.keep (·.1 = key) = w'.timers.keep (·.1 = key)
  calls : w.calls.filter (·.key = key) = w'.calls

variable {key k id : String} {w w' : Watch} {u : Use} {us : List Use} {limit : Nat}
  {succeeded : Bool}

section Hold

theorem Shares.hold (h : Shares key w w') {t t' : Registry.Turn}
    (hr : t.registry.Agree (· = key) t'.registry)
    (he : (Watch.edit t).Alike (·.1 = key) (Watch.edit t')) :
    Shares key (w.hold t) (w'.hold t') :=
  { h with registry := hr, timers := Agenda.keep_edit h.timers he }

theorem Shares.hold_left (h : Shares key w w') {t : Registry.Turn}
    (hr : t.registry.Agree (· = key) w'.registry) (he : (Watch.edit t).Alike (·.1 = key) {}) :
    Shares key (w.hold t) w' where
  registry := hr
  now := h.now
  timers := by
    have hkeep := Agenda.keep_edit h.timers he
    rwa [Agenda.edit_nil] at hkeep
  calls := h.calls

end Hold

section Calls

theorem Shares.breaker (h : Shares key w w') : w.registry.breaker key = w'.registry.breaker key :=
  h.registry.breaker (decide_eq_true rfl)

theorem Shares.allow (h : Shares key w w') :
    Shares key (w.allow key).1 (w'.allow key).1 ∧ (w.allow key).2 = (w'.allow key).2 := by
  have hallow (hk : decide (key = key) = true) := h.registry.allow hk
  refine ⟨{ h with registry := (hallow (decide_eq_true rfl)).1, timers := ?_ },
    (hallow (decide_eq_true rfl)).2⟩
  simp only [Watch.allow, Watch.hold, edit_allow]
  exact h.timers

theorem Shares.allow_left (h : Shares key w w') (hk : k ≠ key) : Shares key (w.allow k).1 w' := by
  refine { h with registry := h.registry.allow_left (decide_eq_false hk), timers := ?_ }
  simp only [Watch.allow, Watch.hold, edit_allow]
  exact h.timers

theorem Shares.begin (h : Shares key w w') (id : String) :
    Shares key (w.begin key id).1 (w'.begin key id).1 := by
  obtain ⟨hs, hleave⟩ := h.allow
  rcases hp : (w.allow key).2 with _ | p
  · rw [begin_of_none hp, begin_of_none (hleave.symm.trans hp)]
    exact hs
  · rw [begin_of_some hp, begin_of_some (hleave.symm.trans hp)]
    refine { hs with calls := ?_ }
    simp only [List.filter_append, hs.calls]
    simp

theorem Shares.begin_left (h : Shares key w w') (hk : k ≠ key) (id : String) :
    Shares key (w.begin k id).1 w' := by
  have hs := h.allow_left hk
  rcases hp : (w.allow k).2 with _ | p
  · rw [begin_of_none hp]
    exact hs
  · rw [begin_of_some hp]
    refine { hs with calls := ?_ }
    simp only [List.filter_append, hs.calls]
    simp [hk]

theorem Shares.settle (h : Shares key w w') (p : Permit) (succeeded : Bool) :
    Shares key (w.settle key p succeeded) (w'.settle key p succeeded) := by
  refine h.hold ?_ ?_
  · rw [h.now]
    exact h.registry.settle (decide_eq_true rfl) ..
  · simp only [Registry.settle, h.breaker, h.registry.config, h.now]
    exact Registry.carry_alike ..

theorem Shares.settle_left (h : Shares key w w') (hk : k ≠ key) (p : Permit) :
    Shares key (w.settle k p succeeded) w' :=
  h.hold_left (h.registry.carry_left (decide_eq_false hk))
    (Registry.carry_alike_left (· = key) (decide_eq_false hk))

/-- The call that comes back first under a name stands behind calls of other names. -/
theorem split_of_find {calls : List InFlight} {f : InFlight}
    (h : calls.find? (·.id = id) = some f) :
    ∃ before after, calls = before ++ f :: after ∧ calls.eraseP (·.id = id) = before ++ after
      ∧ f.id = id ∧ ∀ g ∈ before, g.id ≠ id := by
  obtain ⟨hp, before, after, rfl, hne⟩ := List.find?_eq_some_iff_append.1 h
  refine ⟨before, after, rfl, ?_, by simpa using hp, fun g hg => by simpa using hne g hg⟩
  rw [List.eraseP_append_right _ (fun g hg => by simpa using hne g hg),
    List.eraseP_cons_of_pos (by exact hp)]

theorem find_of_split {calls before after : List InFlight} {f : InFlight}
    (h : calls = before ++ f :: after) (hf : f.id = id) (hne : ∀ g ∈ before, g.id ≠ id) :
    calls.find? (·.id = id) = some f ∧ calls.eraseP (·.id = id) = before ++ after := by
  have hfind : calls.find? (·.id = id) = some f :=
    List.find?_eq_some_iff_append.2 ⟨by simpa using hf, before, after, h, by simpa using hne⟩
  refine ⟨hfind, ?_⟩
  rw [h, List.eraseP_append_right _ (by simpa using hne),
    List.eraseP_cons_of_pos (by simpa using hf)]

theorem finish_of_none (h : w.calls.find? (·.id = id) = none) :
    (w.finish? id succeeded).getD w = w := by
  simp only [finish?, h, Option.map_none, Option.getD_none]

theorem finish_of_some {f : InFlight} (h : w.calls.find? (·.id = id) = some f) :
    (w.finish? id succeeded).getD w
      = { w with calls := w.calls.eraseP (·.id = id) }.settle f.key f.permit succeeded := by
  simp only [finish?, h, Option.map_some, Option.getD_some]

theorem Shares.finish (h : Shares key w w') (hid : (w.keyOf? id).all (· = key))
    (succeeded : Bool) :
    Shares key ((w.finish? id succeeded).getD w) ((w'.finish? id succeeded).getD w') := by
  rcases hfind : w.calls.find? (·.id = id) with _ | f
  · have hfind' : w'.calls.find? (·.id = id) = none := by
      rw [List.find?_eq_none] at hfind ⊢
      rw [← h.calls]
      exact fun g hg => hfind g (List.mem_filter.1 hg).1
    rw [finish_of_none hfind, finish_of_none hfind']
    exact h
  · obtain ⟨before, after, hcalls, herase, hfid, hne⟩ := split_of_find hfind
    obtain rfl : f.key = key := by simpa [keyOf?, hfind] using hid
    have hcalls' :
        w'.calls = before.filter (·.key = f.key) ++ f :: after.filter (·.key = f.key) := by
      rw [← h.calls, hcalls, List.filter_append, List.filter_cons_of_pos (by simp)]
    -- no call of that name stands before it among those of its key either
    obtain ⟨hfind', herase'⟩ :=
      find_of_split hcalls' hfid fun g hg => hne g (List.mem_filter.1 hg).1
    have hs : Shares f.key { w with calls := w.calls.eraseP (·.id = id) }
        { w' with calls := w'.calls.eraseP (·.id = id) } := by
      refine { h with calls := ?_ }
      rw [herase, herase', List.filter_append]
    rw [finish_of_some hfind, finish_of_some hfind']
    exact hs.settle ..

theorem Shares.finish_left (h : Shares key w w') (hid : (w.keyOf? id).all (· = key) = false) :
    Shares key ((w.finish? id succeeded).getD w) w' := by
  unfold keyOf? at hid
  rcases hfind : w.calls.find? (·.id = id) with _ | f <;> rw [hfind] at hid
  · cases hid
  · obtain ⟨before, after, hcalls, herase, -⟩ := split_of_find hfind
    have hne : f.key ≠ key := by simpa using hid
    have hs : Shares key { w with calls := w.calls.eraseP (·.id = id) } w' := by
      refine { h with calls := ?_ }
      rw [herase, ← h.calls, hcalls, List.filter_append, List.filter_append,
        List.filter_cons_of_neg (by simpa using hne)]
    rw [finish_of_some hfind]
    exact hs.settle_left hne _

end Calls

section Time

theorem clears_elapse (w : Watch) (limit : Nat) :
    Agenda.Clears ring limit w.timers (w.registry, w.journal) (w.elapse limit).timers
      ((w.elapse limit).registry, (w.elapse limit).journal) := by
  refine Agenda.runSteps_clears _ _ _ (Agenda.runSteps_done (fun hpop => ?_) _ _ _ (by omega))
  rw [edit_ring]
  exact Agenda.pop?_length hpop

theorem Shares.elapse (h : Shares key w w') (limit : Nat) :
    Shares key (w.elapse limit) (w'.elapse limit) := by
  obtain ⟨htimers, hregistry⟩ := (Registry.ring_separate (· = key)).clears
    (w.clears_elapse limit) (w'.clears_elapse limit) h.timers h.registry
  exact ⟨hregistry, rfl, htimers, h.calls⟩

end Time

section Runs

theorem edit_get (a : Agenda (String × Timer)) (r : Registry) (k : String) :
    a.edit (Watch.edit (r.get k)) = a := by
  obtain ⟨breakers, told, ht⟩ := r.get_turn k
  exact edit_idle a (by rw [ht]) (by rw [ht])

theorem Shares.get (h : Shares key w w') : Shares key (w.get key) (w'.get key) := by
  refine { h with registry := h.registry.get (decide_eq_true rfl), timers := ?_ }
  simp only [Watch.get, Watch.hold, edit_get]
  exact h.timers

theorem Shares.get_left (h : Shares key w w') (hk : k ≠ key) : Shares key (w.get k) w' := by
  refine { h with registry := h.registry.get_left (decide_eq_false hk), timers := ?_ }
  simp only [Watch.get, Watch.hold, edit_get]
  exact h.timers

theorem Shares.refresh (h : Shares key w w') :
    Shares key (w.poolTurn Pool.refresh) (w'.poolTurn Pool.refresh) := by
  have hidle (w : Watch) :
      w.timers.edit (Watch.edit (w.registry.poolTurn Pool.refresh)) = w.timers := by
    unfold Registry.poolTurn
    split <;> exact edit_idle _ rfl rfl
  refine { h with registry := h.registry.poolTurn Pool.Alike.refresh, timers := ?_ }
  simp only [Watch.poolTurn, Watch.hold, hidle]
  exact h.timers

/-- A step for one key, or for all, does the same with and without the others. -/
theorem Shares.use (h : Shares key w w') (hu : (w.target? u).all (· = key)) :
    Shares key (w.use u).1 (w'.use u).1 ∧ (w.use u).2 = (w'.use u).2 := by
  rcases u with k | (⟨k, id⟩ | ⟨id, succeeded⟩ | id | ms) | _
  · obtain rfl : k = key := by simpa [target?] using hu
    exact ⟨h.get, rfl⟩
  · obtain rfl : k = key := by simpa [target?] using hu
    exact ⟨h.begin id, h.allow.2⟩
  · exact ⟨h.finish hu succeeded, rfl⟩
  · exact ⟨h.finish hu false, rfl⟩
  · refine ⟨?_, rfl⟩
    show Shares key (w.elapse (w.now + ms)) (w'.elapse (w'.now + ms))
    rw [← h.now]
    exact h.elapse _
  · exact ⟨h.refresh, rfl⟩

theorem Shares.use_left (h : Shares key w w') (hu : (w.target? u).all (· = key) = false) :
    Shares key (w.use u).1 w' := by
  rcases u with k | (⟨k, id⟩ | ⟨id, succeeded⟩ | id | ms) | _
  · exact h.get_left (by simpa [target?] using hu)
  · exact h.begin_left (by simpa [target?] using hu) id
  · exact h.finish_left hu
  · exact h.finish_left hu
  · cases hu
  · cases hu

theorem Shares.scene (h : Shares key w w') (leave : Option Permit) :
    w.scene key leave = w'.scene key leave := by
  have hlive : w.registry.pool.map (fun p => decide (key ∈ p.live))
      = w'.registry.pool.map fun p => decide (key ∈ p.live) := by
    rcases h.registry.pools with ⟨hp, hp'⟩ | ⟨p, p', hp, hp', hpp⟩
    · rw [hp, hp']
    · have hmem : key ∈ p.live ↔ key ∈ p'.live := hpp.mem_live (decide_eq_true rfl)
      simp only [hp, hp', Option.map_some, hmem]
  rw [Watch.scene, Watch.scene, h.breaker, h.registry.notices, hlive]

theorem Shares.seen (us : List Use) (h : Shares key w w') :
    w'.seen key ((w.remaining key us).map (·.1)) = (w.remaining key us).map (·.2) := by
  induction us generalizing w w' with
  | nil => rfl
  | cons u us ih =>
    rw [remaining]
    split_ifs with hu
    · obtain ⟨hnext, hleave⟩ := h.use hu
      simp only [List.map_cons, Watch.seen, ih hnext, hleave, hnext.scene]
    · exact ih (h.use_left (by simpa using hu))

/-- Whatever is done with a registry and the pool among its observers, one key sees the same of it
if what is done for other keys is left out. -/
theorem seen_remaining (config : Config) (observers : List Observer) (pool : Option Pool)
    (key : String) (us : List Use) :
    let w : Watch := { registry := { config, observers, pool } }
    w.seen key ((w.remaining key us).map (·.1)) = (w.remaining key us).map (·.2) :=
  Shares.seen us ⟨.refl _ _, rfl, rfl, rfl⟩

/-- A key does not see the order of drawing, which is not the same without the others. -/
example :
    let w : Watch := { registry := {
      config := ⟨1, 1000, 100⟩, observers := [.pool]
      pool := some (.ofAddresses "p" ["a:1", "b:1", "c:1"]) } }
    let us : List Use := [.act (.begin "a:1" "x"), .act (.begin "b:1" "y"), .act (.drop "x"),
      .act (.advance 100), .act (.finish "y" true)]
    (us.foldl (fun w u => (w.use u).1) w).registry.pool.map (·.live) = some ["c:1", "b:1", "a:1"]
      ∧ w.remaining "b:1" us = [(.act (.begin "b:1" "y"), ⟨some ⟨false⟩, {}, [], some true⟩),
        (.act (.advance 100), ⟨none, {}, [], some true⟩),
        (.act (.finish "y" true), ⟨none, { epoch := 1 }, [], some true⟩)] := by
  decide

end Runs

end Watch

end AuctionGate
