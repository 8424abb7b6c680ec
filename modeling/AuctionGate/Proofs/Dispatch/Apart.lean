import AuctionGate.Proofs.Breaker.Agreement
import AuctionGate.Proofs.Dispatch.Balance

/-!
# Dispatchers that agree on some hosts

Two dispatchers agree on some hosts if their breakers do, the same of their jobs are entered for
these hosts in the same order, and the same has been sent to them (`Dispatcher.Agree`). The
transport has to keep hosts apart (`Transport.Local`).

An errand to these hosts goes up alike from both (`Agree.launch`), and an errand to other hosts
changes nothing of it (`Agree.launch_left`). The same holds of time that passes: what falls due for
other hosts is not seen (`Agree.elapse`), nor is it seen in how many steps the time passes
(`elapse_elapse`).
-/

namespace AuctionGate

open Dispatcher (hostKey)

/-- The host at whose breaker a job is done. -/
def Job.key : Job → String
  | timer key _ => key
  | giveBack l _ => l.key

/-- A transport reacts to a request as it would had it been sent only what went to that host. -/
def Transport.Local (transport : Transport) : Prop :=
  ∀ (earlier earlier' : List Http.Request) (r : Http.Request) (timeout : Nat),
    earlier.filter (hostKey · = hostKey r) = earlier'.filter (hostKey · = hostKey r) →
      transport earlier r timeout = transport earlier' r timeout

namespace Errand

def hosts (e : Errand) : List String :=
  (e.adapter.build e.auction).1.map fun c => hostKey c.request

/-- No host is called by both. -/
def Apart (e e' : Errand) : Prop := ∀ k ∈ e.hosts, k ∉ e'.hosts

instance (e e' : Errand) : Decidable (e.Apart e') :=
  inferInstanceAs (Decidable (∀ k ∈ e.hosts, k ∉ e'.hosts))

/-- None of the hosts is called. -/
def Foreign (own : String → Bool) (e : Errand) : Prop := ∀ k ∈ e.hosts, own k = false

end Errand

namespace Dispatcher

variable {own : String → Bool} {d d' d'' : Dispatcher} {q : Http.Request} {deadline : Deadline}
  {i : Nat} {c : Call} {e : Errand} {es : List Errand} {limit limit' : Nat}

section Guards

def GuardsAgree (own : String → Bool) : Option Registry → Option Registry → Prop :=
  Option.Rel (Registry.Agree own)

variable {g g' g'' : Option Registry}

theorem GuardsAgree.cases (h : GuardsAgree own g g') : g = none ∧ g' = none
    ∨ ∃ r r', g = some r ∧ g' = some r' ∧ r.Agree own r' := by
  rcases h with h | -
  · exact .inr ⟨_, _, rfl, rfl, h⟩
  · exact .inl ⟨rfl, rfl⟩

theorem GuardsAgree.refl (own : String → Bool) : ∀ g : Option Registry, GuardsAgree own g g
  | none => .none
  | some r => .some (.refl own r)

theorem GuardsAgree.symm (h : GuardsAgree own g g') : GuardsAgree own g' g := by
  rcases h.cases with ⟨rfl, rfl⟩ | ⟨r, r', rfl, rfl, hr⟩
  · exact .none
  · exact .some hr.symm

theorem GuardsAgree.trans (h : GuardsAgree own g g') (h' : GuardsAgree own g' g'') :
    GuardsAgree own g g'' := by
  rcases h.cases with ⟨rfl, rfl⟩ | ⟨r, r', rfl, rfl, hr⟩
  · exact h'
  · rcases h'.cases with ⟨h0, -⟩ | ⟨r₁, r₂, h1, rfl, hr'⟩
    · cases h0
    · cases h1
      exact .some (hr.trans hr')

theorem GuardsAgree.find? (h : GuardsAgree own g g') {key : String} (hk : own key = true) :
    g.map (·.find? key) = g'.map (·.find? key) := by
  rcases h.cases with ⟨rfl, rfl⟩ | ⟨r, r', rfl, rfl, hr⟩
  · rfl
  · exact congrArg some (hr.find key hk)

end Guards

/-- What there is of some hosts is the same in both. -/
structure Agree (own : String → Bool) (d d' : Dispatcher) : Prop where
  apart : d.transport.Local
  transport : d.transport = d'.transport
  guard : GuardsAgree own d.guard d'.guard
  now : d.now = d'.now
  agenda : d.agenda.keep (own ·.key) = d'.agenda.keep (own ·.key)
  sent : d.sent.filter (own <| hostKey ·.request) = d'.sent.filter (own <| hostKey ·.request)

theorem Agree.refl (own : String → Bool) (h : d.transport.Local) : d.Agree own d :=
  ⟨h, rfl, .refl own _, rfl, rfl, rfl⟩

theorem Agree.symm (h : d.Agree own d') : d'.Agree own d where
  apart := h.transport ▸ h.apart
  transport := h.transport.symm
  guard := h.guard.symm
  now := h.now.symm
  agenda := h.agenda.symm
  sent := h.sent.symm

theorem Agree.trans (h : d.Agree own d') (h' : d'.Agree own d'') : d.Agree own d'' where
  apart := h.apart
  transport := h.transport.trans h'.transport
  guard := h.guard.trans h'.guard
  now := h.now.trans h'.now
  agenda := h.agenda.trans h'.agenda
  sent := h.sent.trans h'.sent

section Turns

variable {t t' : Registry.Turn} {r : Registry} {key : String} {now : Nat} {st : Breaker.Step}

theorem edit_settle_agree {r' : Registry} (h : r.Agree own r') (hk : own key = true) (now : Nat)
    (p : Breaker.Permit) (succeeded : Bool) :
    edit (r.settle now key p succeeded) = edit (r'.settle now key p succeeded) := by
  rw [Registry.settle, Registry.settle, h.breaker hk, h.config]
  rfl

theorem edit_fire_agree {r' : Registry} (h : r.Agree own r') (hk : own key = true) (now : Nat)
    (u : Breaker.Timer) : edit (r.fire now key u) = edit (r'.fire now key u) := by
  rw [Registry.fire, Registry.fire, h.breaker hk]
  rfl

/-- A step for one host leaves the jobs for the others. -/
theorem edit_carry_alike (hk : own key = false) :
    (edit (r.carry now key st)).Alike (own ·.key) {} where
  strikes j hj := by
    cases j with
    | timer k u =>
      have hne : k ≠ key := Registry.ne_of_own hk hj
      simp only [edit, Registry.carry_stopped, Job.timerKey?]
      split_ifs <;> simp [hne]
    | giveBack l succeeded =>
      simp only [edit, Registry.carry_stopped, Job.timerKey?]
      split_ifs <;> simp
  enters := by
    rw [List.filter_nil, List.filter_eq_nil_iff]
    intro x hx
    obtain ⟨u, hu, rfl⟩ := List.mem_map.1 hx
    rw [Registry.carry_started, Option.mem_toList, Option.map_eq_some_iff] at hu
    obtain ⟨_, -, rfl⟩ := hu
    simp [Job.key, hk]

theorem edit_allow (r : Registry) (key : String) : edit (r.allow key).1 = {} := by
  obtain ⟨breakers, told, ht⟩ := r.allow_turn key
  simp [edit, ht]

theorem Agree.hold (h : d.Agree own d') (ht : t.registry.Agree own t'.registry)
    (hedit : (edit t).Alike (own ·.key) (edit t')) : (d.hold t).Agree own (d'.hold t') where
  apart := h.apart
  transport := h.transport
  guard := .some ht
  now := h.now
  agenda := Agenda.keep_edit h.agenda hedit
  sent := h.sent

theorem Agree.hold_left (h : d.Agree own d') (ht : GuardsAgree own (some t.registry) d'.guard)
    (hedit : (edit t).Alike (own ·.key) {}) : (d.hold t).Agree own d' where
  apart := h.apart
  transport := h.transport
  guard := ht
  now := h.now
  agenda := (Agenda.keep_edit h.agenda hedit).trans (by rw [Agenda.edit_nil])
  sent := h.sent

end Turns

section Operations

theorem Agree.ask (h : d.Agree own d') (hq : own (hostKey q) = true) :
    (d.ask q).1.Agree own (d'.ask q).1 ∧ (d.ask q).2 = (d'.ask q).2 := by
  rcases h.guard.cases with ⟨hg, hg'⟩ | ⟨r, r', hg, hg', hr⟩
  · rw [ask_unguarded hg, ask_unguarded hg']
    exact ⟨h, rfl⟩
  · obtain ⟨hturn, hanswer⟩ := hr.allow hq
    simp only [Dispatcher.ask, hg, hg', hanswer, and_true]
    exact h.hold hturn (by rw [edit_allow, edit_allow]; exact .refl _ _)

theorem Agree.ask_left (h : d.Agree own d') (hq : own (hostKey q) = false) :
    (d.ask q).1.Agree own d' := by
  rcases h.guard.cases with ⟨hg, hg'⟩ | ⟨r, r', hg, hg', hr⟩
  · rw [ask_unguarded hg]
    exact h
  · simp only [Dispatcher.ask, hg]
    exact h.hold_left (hg' ▸ .some (hr.allow_left hq)) (by rw [edit_allow]; exact .refl _ _)

theorem Agree.giveBack_left (h : d.Agree own d') {l : Leave} (hl : own l.key = false) (time : Nat)
    (succeeded : Bool) : (d.giveBack time l succeeded).Agree own d' := by
  rcases h.guard.cases with ⟨hg, hg'⟩ | ⟨r, r', hg, hg', hr⟩
  · simp only [Dispatcher.giveBack, hg]
    exact h
  · simp only [Dispatcher.giveBack, hg]
    exact h.hold_left (hg' ▸ .some (hr.carry_left hl)) (edit_carry_alike hl)

theorem Agree.giveBack (h : d.Agree own d') (time : Nat) (l : Leave) (succeeded : Bool) :
    (d.giveBack time l succeeded).Agree own (d'.giveBack time l succeeded) := by
  cases hl : own l.key with
  -- a leave of another host is given back unseen on either side
  | false => exact ((h.giveBack_left hl time succeeded).symm.giveBack_left hl time succeeded).symm
  | true =>
    rcases h.guard.cases with ⟨hg, hg'⟩ | ⟨r, r', hg, hg', hr⟩
    · simp only [Dispatcher.giveBack, hg, hg']
      exact h
    · simp only [Dispatcher.giveBack, hg, hg']
      exact h.hold (hr.settle hl ..) (edit_settle_agree hr hl .. ▸ .refl _ _)

end Operations

section Issue

theorem Agree.reaction (h : d.Agree own d') (hc : own (hostKey c.request) = true)
    (deadline : Deadline) : d.reaction deadline c = d'.reaction deadline c := by
  -- what was sent to this host is among what was sent to the own ones
  have hhost (sent : List Sent) : (sent.map (·.request)).filter (hostKey · = hostKey c.request)
      = ((sent.filter (own <| hostKey ·.request)).filter
          (hostKey ·.request = hostKey c.request)).map (·.request) := by
    rw [List.filter_map, List.filter_filter]
    refine congrArg _ (List.filter_congr fun s _ => ?_)
    by_cases hs : hostKey s.request = hostKey c.request <;> simp [hs, hc]
  rw [Dispatcher.reaction, Dispatcher.reaction, ← h.transport, ← h.now]
  refine h.apart _ _ _ _ ?_
  rw [hhost, hhost, h.sent]

theorem Agree.back (h : d.Agree own d') (hc : own (hostKey c.request) = true)
    (deadline : Deadline) : d.back deadline c = d'.back deadline c := by
  rw [Dispatcher.back, Dispatcher.back, h.reaction hc, h.now]

theorem Agree.handOver (h : d.Agree own d') (hc : own (hostKey c.request) = true)
    (deadline : Deadline) : (d.handOver deadline c).Agree own (d'.handOver deadline c) := by
  have hask := (h.ask hc).1
  refine ⟨hask.apart, hask.transport, hask.guard, hask.now, hask.agenda, ?_⟩
  simp only [Dispatcher.handOver, handed, h.now, List.filter_cons, h.sent]

theorem Agree.handOver_left (h : d.Agree own d') (hc : own (hostKey c.request) = false)
    (deadline : Deadline) : (d.handOver deadline c).Agree own d' := by
  have hask := h.ask_left hc
  refine ⟨hask.apart, hask.transport, hask.guard, hask.now, hask.agenda, ?_⟩
  rw [Dispatcher.handOver, List.filter_cons_of_neg (by simp [handed, hc])]
  exact h.sent

theorem Agree.issue (h : d.Agree own d') (hc : own (hostKey c.request) = true)
    (deadline : Deadline) (i : Nat) :
    (d.issue deadline i c).1.Agree own (d'.issue deadline i c).1
      ∧ (d.issue deadline i c).2 = (d'.issue deadline i c).2 := by
  obtain ⟨hask, hanswer⟩ := h.ask hc
  have hover := h.handOver hc deadline
  have hback := h.back hc deadline
  rcases d.issue_cases deadline c with hlt | ⟨hlt, hask' | ⟨l, hask', h0⟩ | ⟨leave, hask', h0⟩⟩
  · rw [issue_spent hlt, issue_spent (h.now ▸ hlt)]
    exact ⟨h, by rw [h.now]⟩
  · rw [issue_vetoed hlt hask', issue_vetoed (h.now ▸ hlt) (hanswer ▸ hask')]
    exact ⟨hask, by rw [h.now]⟩
  · rw [issue_at_once hlt hask' h0, issue_at_once (h.now ▸ hlt) (hanswer ▸ hask') (hback ▸ h0),
      ← hback, ← h.now]
    exact ⟨hover.giveBack _ _ _, rfl⟩
  · rw [issue_out hlt hask' h0, issue_out (h.now ▸ hlt) (hanswer ▸ hask') (hback ▸ h0),
      ← hback, ← h.now]
    exact ⟨hover, rfl⟩

theorem Agree.issue_left (h : d.Agree own d') (hc : own (hostKey c.request) = false)
    (deadline : Deadline) (i : Nat) : (d.issue deadline i c).1.Agree own d' := by
  rcases d.issue_cases deadline c with hlt | ⟨hlt, hask | ⟨l, hask, h0⟩ | ⟨leave, hask, h0⟩⟩
  · rw [issue_spent hlt]
    exact h
  · rw [issue_vetoed hlt hask]
    exact h.ask_left hc
  · rw [issue_at_once hlt hask h0]
    exact (h.handOver_left hc deadline).giveBack_left (by rw [ask_key hask, hc]) _ _
  · rw [issue_out hlt hask h0]
    exact h.handOver_left hc deadline

theorem Agree.issueAll (deadline : Deadline) : ∀ (cs : List Call) {d d' : Dispatcher} (i : Nat),
    (∀ c ∈ cs, own (hostKey c.request) = true) → d.Agree own d' →
      (d.issueAll deadline i cs).1.Agree own (d'.issueAll deadline i cs).1
        ∧ (d.issueAll deadline i cs).2 = (d'.issueAll deadline i cs).2
  | [], _, _, _, _, h => ⟨h, rfl⟩
  | c :: cs, _, _, i, hcs, h => by
    obtain ⟨hc, hcs⟩ := List.forall_mem_cons.1 hcs
    obtain ⟨hfirst, hair⟩ := h.issue hc deadline i
    obtain ⟨hrest, hairs⟩ := Agree.issueAll deadline cs (i + 1) hcs hfirst
    exact ⟨hrest, congrArg₂ List.cons hair hairs⟩

theorem Agree.issueAll_left (deadline : Deadline) : ∀ (cs : List Call) {d d' : Dispatcher}
    (i : Nat), (∀ c ∈ cs, own (hostKey c.request) = false) → d.Agree own d' →
      (d.issueAll deadline i cs).1.Agree own d'
  | [], _, _, _, _, h => h
  | c :: cs, _, _, i, hcs, h => by
    obtain ⟨hc, hcs⟩ := List.forall_mem_cons.1 hcs
    exact Agree.issueAll_left deadline cs (i + 1) hcs (h.issue_left hc deadline i)

end Issue

section Launch

theorem Agree.launch (h : d.Agree own d') (he : ∀ k ∈ e.hosts, own k = true) :
    (d.launch e).1.Agree own (d'.launch e).1 ∧ (d.launch e).2 = (d'.launch e).2 := by
  obtain ⟨hissued, hair⟩ := Agree.issueAll e.deadline (e.adapter.build e.auction).1 0
    (fun c hc => he _ (List.mem_map_of_mem hc)) h
  refine ⟨hissued, ?_⟩
  simp only [Dispatcher.launch, h.now, hair]

theorem Agree.launch_left (h : d.Agree own d') (he : e.Foreign own) :
    (d.launch e).1.Agree own d' :=
  Agree.issueAll_left e.deadline _ 0 (fun _ hc => he _ (List.mem_map_of_mem hc)) h

theorem Agree.launchAll_left : ∀ (es : List Errand) {d d' : Dispatcher},
    (∀ e ∈ es, e.Foreign own) → d.Agree own d' → (d.launchAll es).1.Agree own d'
  | [], _, _, _, h => h
  | _ :: es, _, _, hes, h =>
    Agree.launchAll_left es (List.forall_mem_cons.1 hes).2
      (h.launch_left (List.forall_mem_cons.1 hes).1)

end Launch

section Time

/-- Jobs for some hosts do the same to guards that agree on them, and the jobs for all other hosts
do nothing to that. -/
theorem work_separate (own : String → Bool) :
    Agenda.Separate work (own ·.key) fun s s' => GuardsAgree own s.1 s'.1 where
  symm h := h.symm
  acts {due j s s'} hj h := by
    rcases h.cases with ⟨hg, hg'⟩ | ⟨r, r', hg, hg', hr⟩
    · simp only [work, hg, hg']
      exact ⟨.none, .refl _ _⟩
    · cases j with
      | timer key u =>
        simp only [work, hg, hg']
        exact ⟨.some (hr.fire hj ..), edit_fire_agree hr hj .. ▸ .refl _ _⟩
      | giveBack l succeeded =>
        simp only [work, hg, hg']
        exact ⟨.some (hr.settle hj ..), edit_settle_agree hr hj .. ▸ .refl _ _⟩
  spares {due j s s'} hj h := by
    rcases h.cases with ⟨hg, hg'⟩ | ⟨r, r', hg, hg', hr⟩
    · simp only [work, hg, hg']
      exact ⟨.none, .refl _ _⟩
    · cases j with
      | timer key u =>
        simp only [work, hg, hg']
        exact ⟨.some (hr.carry_left hj), edit_carry_alike hj⟩
      | giveBack l succeeded =>
        simp only [work, hg, hg']
        exact ⟨.some (hr.carry_left hj), edit_carry_alike hj⟩

theorem elapse_clears (d : Dispatcher) (limit : Nat) :
    Agenda.Clears work limit d.agenda (d.guard, d.journal) (d.elapse limit).agenda
      ((d.elapse limit).guard, (d.elapse limit).journal) :=
  Agenda.runSteps_clears _ _ _ (Agenda.pop?_of_ahead (d.elapse_done limit))

/-- It makes no difference in how many steps time passes. -/
theorem elapse_elapse (d : Dispatcher) (h : limit ≤ limit') :
    (d.elapse limit).elapse limit' = d.elapse limit' := by
  have hstaged := (d.elapse_clears limit).trans h ((d.elapse limit).elapse_clears limit')
  obtain ⟨hagenda, hstate⟩ := hstaged.unique (d.elapse_clears limit')
  obtain ⟨hguard, hjournal⟩ := Prod.mk.inj hstate
  -- apart from the clock, time changes nothing else
  calc (d.elapse limit).elapse limit'
      = { d with
          agenda := ((d.elapse limit).elapse limit').agenda
          guard := ((d.elapse limit).elapse limit').guard
          journal := ((d.elapse limit).elapse limit').journal
          now := limit' } := rfl
    _ = d.elapse limit' := by
        rw [hagenda, hguard, hjournal]
        rfl

theorem Agree.elapse (h : d.Agree own d') (limit : Nat) :
    (d.elapse limit).Agree own (d'.elapse limit) := by
  obtain ⟨hagenda, hguard⟩ := (work_separate own).clears (d.elapse_clears limit)
    (d'.elapse_clears limit) h.agenda h.guard
  exact ⟨h.apart, h.transport, hguard, rfl, hagenda, h.sent⟩

end Time

end Dispatcher

end AuctionGate
