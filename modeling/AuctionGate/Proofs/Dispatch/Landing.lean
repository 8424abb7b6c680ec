import AuctionGate.Proofs.Agenda
import AuctionGate.Proofs.Dispatch.Issue
import AuctionGate.Proofs.Dispatch.Launch

/-!
# How dispatches land

Errands that are done side by side are launched one after the other, and then they land in the
order in which they end (`dispatchAll_eq`). While they land the transport is sent nothing, and the
calls that are still out when their dispatch ends are cancelled (`land_eq`).
-/

namespace AuctionGate

section Max

theorem le_foldl_max : ∀ (l : List Nat) (n : Nat), n ≤ l.foldl max n ∧ ∀ m ∈ l, m ≤ l.foldl max n
  | [], n => by simp
  | m :: l, n => by
    obtain ⟨hn, hl⟩ := le_foldl_max l (max n m)
    simp only [List.foldl_cons, List.forall_mem_cons]
    exact ⟨by omega, by omega, hl⟩

theorem foldl_max_mem : ∀ (l : List Nat) (n : Nat), l.foldl max n = n ∨ l.foldl max n ∈ l
  | [], n => by simp
  | m :: l, n => by
    rw [List.foldl_cons]
    rcases foldl_max_mem l (max n m) with h | h
    · rw [h, List.mem_cons]
      omega
    · exact .inr (List.mem_cons_of_mem m h)

end Max

namespace Flight

/-- The calls that are cancelled, in their order. -/
def aborts (f : Flight) : List Aborted :=
  f.unfinished.map fun x => ⟨f.finish, x.2.index, x.1.request⟩

/-- The leaves of the calls that are cancelled. -/
def cancelled (f : Flight) : List Leave := f.unfinished.filterMap (·.2.leave)

theorem cancelled_of_unfinished {f : Flight} (h : f.unfinished = []) : f.cancelled = [] := by
  rw [cancelled, h, List.filterMap_nil]

theorem mem_airborne_of_unfinished {f : Flight} {x : Call × Airborne} (h : x ∈ f.unfinished) :
    x.2 ∈ f.airborne ∧ f.finish < x.2.finish :=
  ⟨(List.of_mem_zip (List.mem_filter.1 h).1).2, of_decide_eq_true (List.mem_filter.1 h).2⟩

theorem time_of_aborts {f : Flight} {x : Aborted} (h : x ∈ f.aborts) : x.time = f.finish := by
  obtain ⟨y, -, rfl⟩ := List.mem_map.1 h
  rfl

/-- Where each call has gone up those cancelled are all that are still out. -/
theorem unfinished_airborne {f : Flight} (h : f.airborne.length = f.calls.length) :
    f.unfinished.map (·.2) = f.airborne.filter (f.finish < ·.finish) := by
  have hair : (f.calls.zip f.airborne).map (·.2) = f.airborne := List.map_snd_zip h.le
  conv_rhs => rw [← hair, List.filter_map]
  rfl

theorem unfinished_nil {f : Flight} (h : f.calls = []) : f.unfinished = [] := by
  rw [unfinished, h]
  rfl

/-- Where every call comes back in time none is cancelled. -/
theorem unfinished_eq_nil {f : Flight} (h : ∀ a ∈ f.airborne, a.finish ≤ f.finish) :
    f.unfinished = [] :=
  List.eq_nil_iff_forall_not_mem.2 fun _ hx =>
    Nat.not_le.2 (mem_airborne_of_unfinished hx).2 (h _ (mem_airborne_of_unfinished hx).1)

theorem finish_trans (f g h : Flight) (hfg : decide (f.finish ≤ g.finish) = true)
    (hgh : decide (g.finish ≤ h.finish) = true) : decide (f.finish ≤ h.finish) = true :=
  decide_eq_true (Nat.le_trans (of_decide_eq_true hfg) (of_decide_eq_true hgh))

theorem finish_total (f g : Flight) :
    (decide (f.finish ≤ g.finish) || decide (g.finish ≤ f.finish)) = true := by
  simpa using Nat.le_total f.finish g.finish

theorem pairwise_finish (fs : List Flight) :
    (fs.mergeSort fun f g => f.finish ≤ g.finish).Pairwise fun f g => f.finish ≤ g.finish :=
  (List.pairwise_mergeSort finish_trans finish_total fs).imp of_decide_eq_true

end Flight

namespace Dispatcher

variable {d : Dispatcher} {es : List Errand}

theorem elapse_of_ahead {limit : Nat} (h : ∀ x ∈ d.agenda.entries, limit < x.1) :
    d.elapse limit = { d with now := limit } := by
  simp only [elapse, Agenda.run_of_ahead h]

theorem foldl_giveBack_now (time : Nat) : ∀ (ls : List Leave) (d : Dispatcher),
    (ls.foldl (fun d l => d.giveBack time l false) d).now = d.now
  | [], _ => rfl
  | _ :: ls, _ => (foldl_giveBack_now time ls _).trans (giveBack_now ..)

theorem foldl_giveBack_sent (time : Nat) : ∀ (ls : List Leave) (d : Dispatcher),
    (ls.foldl (fun d l => d.giveBack time l false) d).sent = d.sent
  | [], _ => rfl
  | _ :: ls, _ => (foldl_giveBack_sent time ls _).trans (giveBack_sent ..)

/-- What has been cancelled does not matter to those who give leaves back. -/
theorem foldl_giveBack_aborting (time : Nat) (aborted : List Aborted) : ∀ (ls : List Leave)
    (d : Dispatcher), ls.foldl (fun d l => d.giveBack time l false) { d with aborted }
      = { ls.foldl (fun d l => d.giveBack time l false) d with aborted }
  | [], _ => rfl
  | l :: ls, d => by
    have hfirst : { d with aborted }.giveBack time l false
        = { d.giveBack time l false with aborted } := by
      simp only [giveBack]
      split <;> rfl
    rw [List.foldl_cons, hfirst]
    exact foldl_giveBack_aborting time aborted ls _

theorem foldl_cancel (time : Nat) : ∀ (xs : List (Call × Airborne)) (d : Dispatcher),
    xs.foldl (fun d x => d.cancel time x.1 x.2) d
      = { (xs.filterMap (·.2.leave)).foldl (fun d l => d.giveBack time l false) d with
          aborted := (xs.map fun x => ⟨time, x.2.index, x.1.request⟩).reverse ++ d.aborted }
  | [], _ => rfl
  | x :: xs, d => by
    rw [List.foldl_cons, foldl_cancel time xs, List.map_cons, List.reverse_cons, List.append_assoc]
    cases hleave : x.2.leave with
    | none =>
      simp only [List.filterMap_cons, cancel, hleave, foldl_giveBack_aborting]
      rfl
    | some l =>
      simp only [List.filterMap_cons, List.foldl_cons, cancel, hleave, foldl_giveBack_aborting,
        giveBack_aborted]
      rfl

/-- A flight that lands gives back the leaves of the calls it cancels, each of which is noted. -/
theorem land_eq (d : Dispatcher) (f : Flight) :
    d.land f
      = let left := f.cancelled.foldl (fun d l => d.giveBack f.finish l false) (d.elapse f.finish)
        { left with
            journal := left.journal.note f.told
            aborted := f.aborts.reverse ++ d.aborted } := by
  rw [land, foldl_cancel]
  rfl

theorem land_now (d : Dispatcher) (f : Flight) : (d.land f).now = f.finish := by
  rw [land_eq]
  exact foldl_giveBack_now f.finish f.cancelled _

theorem land_sent (d : Dispatcher) (f : Flight) : (d.land f).sent = d.sent := by
  rw [land_eq]
  exact foldl_giveBack_sent f.finish f.cancelled _

theorem foldl_land_sent : ∀ (fs : List Flight) (d : Dispatcher), (fs.foldl land d).sent = d.sent
  | [], _ => rfl
  | f :: fs, d => (foldl_land_sent fs _).trans (land_sent d f)

theorem land_aborted (d : Dispatcher) (f : Flight) :
    (d.land f).aborted = f.aborts.reverse ++ d.aborted := by
  rw [land_eq]

theorem foldl_land_aborted : ∀ (fs : List Flight) (d : Dispatcher),
    (fs.foldl land d).aborted = (fs.flatMap (·.aborts)).reverse ++ d.aborted
  | [], _ => rfl
  | f :: fs, d => by
    rw [List.foldl_cons, foldl_land_aborted fs, land_aborted, List.flatMap_cons,
      List.reverse_append, List.append_assoc]

theorem foldl_land_now : ∀ (fs : List Flight) (d : Dispatcher),
    (fs.foldl land d).now = d.now ∨ ∃ f ∈ fs, (fs.foldl land d).now = f.finish
  | [], _ => .inl rfl
  | f :: fs, d => by
    rw [List.foldl_cons]
    rcases foldl_land_now fs (d.land f) with h | ⟨g, hg, h⟩
    · exact .inr ⟨f, List.mem_cons_self, h.trans (land_now d f)⟩
    · exact .inr ⟨g, List.mem_cons_of_mem f hg, h⟩

/-- The ends of calls are entered behind the entries that were there before. -/
def enrol (known entries returns : List (Nat × Job)) : List (Nat × Job) :=
  entries.filter (known.contains ·) ++ returns ++ entries.filter fun x => !known.contains x

theorem enrol_known {known entries : List (Nat × Job)} (h : ∀ x ∈ entries, x ∈ known)
    (returns : List (Nat × Job)) : enrol known entries returns = entries ++ returns := by
  have hall : entries.filter (known.contains ·) = entries :=
    List.filter_eq_self.2 fun x hx => by simpa using h x hx
  have hnone : entries.filter (fun x => !known.contains x) = [] :=
    List.filter_eq_nil_iff.2 fun x hx => by simpa using h x hx
  rw [enrol, hall, hnone, List.append_nil]

/-- The dispatcher that launches errands, of which the journal knows those without calls. -/
def ready (d : Dispatcher) (es : List Errand) : Dispatcher :=
  { d with journal := d.journal.note (es.flatMap Errand.toldIfEmpty) }

theorem peers_ready (d : Dispatcher) (es : List Errand) : Peers d (d.ready es) := Peers.note d _

/-- What a dispatcher has in hand when it has issued the calls of its errands. -/
def aloft (d : Dispatcher) (es : List Errand) : Dispatcher :=
  let launched := (d.ready es).launchAll es
  { launched.1 with agenda :=
      ⟨enrol d.agenda.entries launched.1.agenda.entries (launched.2.flatMap (·.returns))⟩ }

/-- The flights in the order in which they end, but those without calls. -/
def landings (d : Dispatcher) (es : List Errand) : List Flight :=
  ((d.launchAll es).2.filter fun f => !f.calls.isEmpty).mergeSort fun f g => f.finish ≤ g.finish

theorem dispatchAll_eq (d : Dispatcher) (es : List Errand) :
    (d.dispatchAll es).1
      = let landed := (d.landings es).foldl land (d.aloft es)
        landed.elapse landed.now := by
  rw [landings, ← (d.peers_ready es).launchAll es]
  simp only [dispatchAll, List.partition_eq_filter_filter]
  rfl

theorem mem_landings {f : Flight} (h : f ∈ d.landings es) : f ∈ (d.launchAll es).2 :=
  (List.mem_filter.1 (List.mem_mergeSort.1 h)).1

/-- Nothing is sent once the calls have been issued. -/
theorem dispatchAll_sent (d : Dispatcher) (es : List Errand) :
    (d.dispatchAll es).1.sent = (d.launchAll es).1.sent := by
  rw [dispatchAll_eq]
  calc ((d.landings es).foldl land (d.aloft es)).sent
      = (d.aloft es).sent := foldl_land_sent _ _
    _ = (d.launchAll es).1.sent :=
        ((d.peers_ready es).after_launchAll es).sent

/-- What is cancelled are the calls that each dispatch leaves behind. -/
theorem dispatchAll_aborted (d : Dispatcher) (es : List Errand) :
    (d.dispatchAll es).1.aborted = ((d.landings es).flatMap (·.aborts)).reverse ++ d.aborted := by
  rw [dispatchAll_eq]
  exact (foldl_land_aborted ..).trans (congrArg _ (launchAll_aborted es (d.ready es)))

theorem aloft_now (d : Dispatcher) (es : List Errand) : (d.aloft es).now = d.now :=
  launchAll_now es _

end Dispatcher

end AuctionGate
