import AuctionGate.Pool.Resolve
import AuctionGate.Proofs.Pool.Membership
import AuctionGate.Proofs.Telemetry.Ledger
import Mathlib.Data.Finset.Basic
import Mathlib.Data.Finset.Dedup
import Mathlib.Data.List.Induction

/-!
# A pool through any operations

Addresses are taken out of rotation and put back, breakers open and half open, and now and then
the whole pool is refreshed. Taking an address out moves the last one into its place, so after a
while the order says nothing any more. But the live addresses are those that a set would hold,
each once; the gauge reads how many they are, and so does the account of what was taken out and
put back since the last refresh (`run_operations`).
-/

namespace AuctionGate

namespace Pool

inductive Operation where
  | remove (a : String)
  | add (a : String)
  | refresh
  /-- The breaker of an address changes. -/
  | hear (a : String) (t : Breaker.Transition)
  deriving DecidableEq

def perform (p : Pool) : Operation → Turn
  | .remove a => p.remove a
  | .add a => p.add a
  | .refresh => p.refresh
  | .hear a t => p.hear a t

namespace Operation

/-- What an operation makes of a set of live addresses. -/
def follow (configured live : Finset String) : Operation → Finset String
  | remove a => live.erase a
  | add a => if a ∈ configured then insert a live else live
  | refresh => configured
  | hear a .opened => live.erase a
  | hear a .halfOpened => if a ∈ configured then insert a live else live
  | hear _ .closed => live

def takesOut : Operation → Bool
  | remove _ => true
  | hear _ .opened => true
  | _ => false

def putsBack : Operation → Bool
  | add _ => true
  | hear _ .halfOpened => true
  | _ => false

end Operation

/-- A pool after operations. -/
def after (p : Pool) (os : List Operation) : Pool := os.foldl (fun p o => (p.perform o).pool) p

/-- Operations with their answers. -/
def answers (p : Pool) : List Operation → List (Operation × Bool)
  | [] => []
  | o :: os => (o, (p.perform o).answer) :: answers (p.perform o).pool os

/-- What came after the last refresh, the latest first. -/
def sinceRefresh (log : List (Operation × Bool)) : List (Operation × Bool) :=
  log.reverse.takeWhile (·.1 ≠ .refresh)

/-- How many addresses were taken out since the last refresh. -/
def removals (log : List (Operation × Bool)) : Nat :=
  (sinceRefresh log).countP fun x => x.1.takesOut && x.2

/-- How many addresses were put back since the last refresh. -/
def additions (log : List (Operation × Bool)) : Nat :=
  (sinceRefresh log).countP fun x => x.1.putsBack && x.2

/-- The gauge of a pool. -/
def gauge (name : String) : Series := ⟨.poolLive, [("pool", name)]⟩

/-- An operation leaves everything as it is and answers false, or takes out an address that was
live, or puts back one that was not, or refreshes the pool. -/
inductive Effect (p : Pool) (o : Operation) : Turn → Prop
  | still {told : List Occurrence} (untouched : ∀ x ∈ told, x.touches = [])
      (other : o ≠ .refresh)
      (set : o.follow p.configured.toFinset p.live.toFinset = p.live.toFinset) :
      Effect p o ⟨p, false, told⟩
  | out {a : String} (takesOut : o.takesOut = true) (live : a ∈ p.live)
      (set : o.follow p.configured.toFinset p.live.toFinset = p.live.toFinset.erase a) :
      Effect p o ⟨{ p with live := swapRemove a p.live }, true,
        [.addressRemoved p.name a (swapRemove a p.live).length]⟩
  | back {a : String} (putsBack : o.putsBack = true) (configured : a ∈ p.configured)
      (out : a ∉ p.live)
      (set : o.follow p.configured.toFinset p.live.toFinset = insert a p.live.toFinset) :
      Effect p o ⟨{ p with live := p.live ++ [a] }, true,
        [.addressAdded p.name a (p.live ++ [a]).length]⟩
  | refreshed (refresh : o = .refresh) : Effect p o p.refresh

end Pool

namespace Rotation

/-- Does an operation on the pool, if it has an owner. -/
def operate (r : Rotation) (o : Pool.Operation) : Rotation :=
  ((r.turn? (·.perform o)).map (·.2)).getD r

def run (r : Rotation) (os : List Pool.Operation) : Rotation := os.foldl operate r

end Rotation

namespace Pool

variable {p : Pool} {o : Operation} {t : Turn} {a : String} {os : List Operation}
  {log : List (Operation × Bool)}

section Effects

theorem effect_remove (h : o.takesOut = true)
    (hset : o.follow p.configured.toFinset p.live.toFinset = p.live.toFinset.erase a) :
    Effect p o (p.remove a) := by
  unfold remove
  split_ifs with ha
  · exact .out h ha hset
  · refine .still nofun ?_ (hset.trans (Finset.erase_eq_of_notMem (by simpa using ha)))
    rintro rfl
    cases h

theorem effect_add (h : o.putsBack = true)
    (hset : o.follow p.configured.toFinset p.live.toFinset
      = if a ∈ p.configured.toFinset then insert a p.live.toFinset else p.live.toFinset) :
    Effect p o (p.add a) := by
  have hne : o ≠ .refresh := by
    rintro rfl
    cases h
  simp only [List.mem_toFinset] at hset
  unfold add
  split_ifs with ha hl
  · rw [if_pos ha] at hset
    exact .still nofun hne (hset.trans (Finset.insert_eq_of_mem (List.mem_toFinset.2 hl)))
  · rw [if_pos ha] at hset
    exact .back h ha hl hset
  · rw [if_neg ha] at hset
    exact .still (by simp [Occurrence.touches]) hne hset

theorem effect_perform (p : Pool) (o : Operation) : Effect p o (p.perform o) := by
  cases o with
  | remove a => exact effect_remove rfl rfl
  | add a => exact effect_add rfl rfl
  | refresh => exact .refreshed rfl
  | hear a t =>
    cases t with
    | opened => exact effect_remove rfl rfl
    | halfOpened => exact effect_add rfl rfl
    | closed => exact .still nofun nofun rfl

theorem Effect.name (h : Effect p o t) : t.pool.name = p.name := by
  cases h <;> rfl

theorem Effect.configured (h : Effect p o t) : t.pool.configured = p.configured := by
  cases h <;> rfl

theorem Effect.kept (h : Effect p o t) (hp : p.Kept) : t.pool.Kept := by
  cases h with
  | still => exact hp
  | out _ _ _ =>
    exact ⟨hp.configured, nodup_swapRemove hp.live, fun b hb =>
      hp.subset ((mem_swapRemove hp.live).1 hb).2⟩
  | back _ hc ha _ =>
    refine ⟨hp.configured, nodup_concat hp.live ha, fun b hb => ?_⟩
    rcases List.mem_append.1 hb with hb | hb
    · exact hp.subset hb
    · rwa [List.mem_singleton.1 hb]
  | refreshed => exact hp.refresh

/-- The live addresses are those that a set would hold. -/
theorem Effect.live (h : Effect p o t) (hp : p.Kept) :
    t.pool.live.toFinset = o.follow p.configured.toFinset p.live.toFinset := by
  cases h with
  | still _ _ hset => exact hset.symm
  | out _ _ hset =>
    rw [hset]
    ext b
    rw [List.mem_toFinset, mem_swapRemove hp.live, Finset.mem_erase, List.mem_toFinset]
  | back _ _ _ hset =>
    rw [hset]
    ext b
    rw [List.mem_toFinset, List.mem_append, List.mem_singleton, Finset.mem_insert,
      List.mem_toFinset, or_comm]
  | refreshed h =>
    rw [h]
    rfl

theorem read?_gauge (name : String) (l : Ledger) (n : Nat) :
    Ledger.read? (l.touch (gauge name) (.set n)) (gauge name) = some (.level n) := by
  rw [Ledger.read?_touch, if_pos rfl]
  rfl

/-- Whatever changes the number of live addresses sets the gauge to it last. -/
theorem Effect.gauge {l : Ledger} (h : Effect p o t)
    (hl : l.read? (gauge p.name) = some (.level p.live.length)) :
    Ledger.read? ((t.told.flatMap Occurrence.touches).foldl (fun l x => l.touch x.1 x.2) l)
      (Pool.gauge p.name) = some (.level t.pool.live.length) := by
  cases h with
  | still hnone =>
    rw [List.flatMap_eq_nil_iff.2 hnone]
    exact hl
  | out => exact read?_gauge ..
  | back => exact read?_gauge ..
  | refreshed => exact read?_gauge ..

end Effects

section Accounts

theorem ne_refresh_of_takesOut (h : o.takesOut = true) : o ≠ .refresh := by
  rintro rfl
  cases h

theorem ne_refresh_of_putsBack (h : o.putsBack = true) : o ≠ .refresh := by
  rintro rfl
  cases h

/-- No operation goes both ways. -/
theorem putsBack_of_takesOut (h : o.takesOut = true) : o.putsBack = false := by
  cases o with
  | remove a => rfl
  | hear a t =>
    cases t with
    | opened => rfl
    | _ => cases h
  | _ => cases h

theorem after_snoc (p : Pool) (os : List Operation) (o : Operation) :
    p.after (os ++ [o]) = ((p.after os).perform o).pool := List.foldl_concat ..

theorem answers_snoc : ∀ (os : List Operation) (p : Pool) (o : Operation),
    p.answers (os ++ [o]) = p.answers os ++ [(o, ((p.after os).perform o).answer)]
  | [], _, _ => rfl
  | o' :: os, p, o => congrArg _ (answers_snoc os (p.perform o').pool o)

theorem sinceRefresh_snoc (hne : o ≠ .refresh) (answer : Bool) :
    sinceRefresh (log ++ [(o, answer)]) = (o, answer) :: sinceRefresh log := by
  rw [sinceRefresh, List.reverse_append, List.reverse_singleton, List.singleton_append,
    List.takeWhile_cons_of_pos (by simpa using hne)]
  rfl

theorem sinceRefresh_refresh (answer : Bool) : sinceRefresh (log ++ [(.refresh, answer)]) = [] := by
  rw [sinceRefresh, List.reverse_append, List.reverse_singleton, List.singleton_append,
    List.takeWhile_cons_of_neg (by simp)]

theorem swapRemove_length (h : a ∈ p.live) : (swapRemove a p.live).length + 1 = p.live.length := by
  have hpos := List.length_pos_of_mem h
  rw [(swapRemove_perm a p.live).length_eq, List.length_erase_of_mem h]
  omega

/-- What is out of rotation is what was taken out and not put back since the last refresh. -/
theorem Effect.balance (h : Effect p o t)
    (hp : p.live.length + removals log = p.configured.length + additions log) :
    t.pool.live.length + removals (log ++ [(o, t.answer)])
      = t.pool.configured.length + additions (log ++ [(o, t.answer)]) := by
  unfold removals additions at hp ⊢
  cases h with
  | still _ hne => simpa [sinceRefresh_snoc hne] using hp
  | out h ha =>
    have hlen := swapRemove_length ha
    rw [sinceRefresh_snoc (ne_refresh_of_takesOut h), List.countP_cons_of_pos (by simp [h]),
      List.countP_cons_of_neg (by simp [putsBack_of_takesOut h])]
    simp only
    omega
  | back h _ ha =>
    have hout : ¬ o.takesOut = true := fun h' => by
      rw [putsBack_of_takesOut h'] at h
      cases h
    rw [sinceRefresh_snoc (ne_refresh_of_putsBack h), List.countP_cons_of_neg (by simp [hout]),
      List.countP_cons_of_pos (by simp [h])]
    simp only [List.length_append, List.length_singleton]
    omega
  | refreshed h =>
    rw [h, sinceRefresh_refresh]
    rfl

end Accounts

section Answers

theorem answer_remove : (p.remove a).answer = true ↔ a ∈ p.live := by
  unfold remove
  split_ifs with ha
  · exact iff_of_true rfl ha
  · exact iff_of_false nofun ha

theorem answer_add : (p.add a).answer = true ↔ a ∈ p.configured ∧ a ∉ p.live := by
  unfold add
  split_ifs with hc ha
  · exact iff_of_false nofun fun h => h.2 ha
  · exact iff_of_true rfl ⟨hc, ha⟩
  · exact iff_of_false nofun fun h => hc h.1

/-- An operation that answers false changes nothing, and no metric. -/
theorem Effect.of_false (h : Effect p o t) (hf : t.answer = false) :
    t.pool = p ∧ ∀ x ∈ t.told, x.touches = [] := by
  cases h with
  | still h => exact ⟨rfl, h⟩
  | _ => cases hf

end Answers

end Pool

namespace Rotation

open Pool

/-- What holds of a pool of these addresses after operations. -/
structure Stands (r : Rotation) (name : String) (addresses : List String)
    (os : List Operation) (p : Pool) : Prop where
  pool : r.pool = some p
  named : p.name = name
  configured : p.configured = dedup addresses
  kept : p.Kept
  reached : p = (Pool.ofAddresses name addresses).after os
  live : p.live.toFinset
    = os.foldl (Operation.follow addresses.toFinset) addresses.toFinset
  gauge : r.journal.ledger.read? (gauge name) = some (.level p.live.length)
  balance : p.live.length + removals ((Pool.ofAddresses name addresses).answers os)
    = p.configured.length + additions ((Pool.ofAddresses name addresses).answers os)

variable {r : Rotation} {name : String} {addresses : List String} {os : List Operation} {p : Pool}

theorem toFinset_dedup (l : List String) : (dedup l).toFinset = l.toFinset := by
  ext a
  rw [List.mem_toFinset, List.mem_toFinset, mem_dedup]

theorem turned_pool (h : r.pool = some p) (t : Turn) : (r.turned t).pool = some t.pool := by
  obtain ⟨k, hk, -⟩ := Option.map_eq_some_iff.1 h
  rw [pool, turned, hk]
  rfl

theorem turn?_of_pool (h : r.pool = some p) (f : Pool → Turn) :
    r.turn? f = some ((f p).answer, r.turned (f p)) := by
  rw [turn?, h, Option.map_some]

theorem operate_of_pool (h : r.pool = some p) (o : Operation) :
    r.operate o = r.turned (p.perform o) := by
  rw [operate, turn?_of_pool h, Option.map_some, Option.getD_some]

theorem Stands.operate (h : r.Stands name addresses os p) (o : Operation) :
    (r.operate o).Stands name addresses (os ++ [o]) (p.perform o).pool := by
  have heffect := effect_perform p o
  have hset : p.configured.toFinset = addresses.toFinset := by
    rw [h.configured, toFinset_dedup]
  rw [operate_of_pool h.pool]
  refine ⟨turned_pool h.pool _, heffect.name.trans h.named, heffect.configured.trans h.configured,
    heffect.kept h.kept, ?_, ?_, ?_, ?_⟩
  · rw [after_snoc, ← h.reached]
  · rw [heffect.live h.kept, List.foldl_concat, ← h.live, hset]
  · rw [turned, Journal.ledger_note, ← h.named]
    exact heffect.gauge (h.named ▸ h.gauge)
  · rw [answers_snoc, ← h.reached]
    exact heffect.balance h.balance

theorem stands_ofPool (name : String) (addresses : List String) :
    (ofPool (.ofAddresses name addresses)).Stands name addresses []
      (.ofAddresses name addresses) :=
  ⟨rfl, rfl, rfl, kept_ofAddresses .., rfl, toFinset_dedup addresses,
    read?_gauge name [] _, rfl⟩

theorem stands_run (name : String) (addresses : List String) (os : List Operation) :
    ∃ p, ((ofPool (.ofAddresses name addresses)).run os).Stands name addresses os p := by
  induction os using List.reverseRecOn with
  | nil => exact ⟨_, stands_ofPool name addresses⟩
  | append_singleton os o ih =>
    obtain ⟨p, hp⟩ := ih
    refine ⟨(p.perform o).pool, ?_⟩
    rw [run, List.foldl_concat]
    exact hp.operate o

/-- A pool with addresses, made of those and operated on. -/
structure Represents (r : Rotation) (name : String) (addresses : List String)
    (os : List Operation) (p : Pool) : Prop where
  pool : r.pool = some p
  named : p.name = name
  configured : p.configured = dedup addresses
  nodup : p.live.Nodup
  subset : p.live ⊆ addresses
  /-- The live addresses are those that a set would hold. -/
  live : p.live.toFinset = os.foldl (Operation.follow addresses.toFinset) addresses.toFinset
  remove_iff : ∀ a, (p.remove a).answer = true ↔ a ∈ p.live
  add_iff : ∀ a, (p.add a).answer = true ↔ a ∈ addresses ∧ a ∉ p.live
  /-- An operation that answers false changes neither the pool nor any metric. -/
  refused : ∀ o r', r.turn? (·.perform o) = some (false, r') →
    r'.pool = r.pool ∧ r'.journal.ledger = r.journal.ledger
  gauge : r.journal.ledger.read? (gauge name) = some (.level p.live.length)
  /-- What is out was taken out and not put back since the last refresh. -/
  balance : p.live.length + removals ((Pool.ofAddresses name addresses).answers os)
    = (dedup addresses).length + additions ((Pool.ofAddresses name addresses).answers os)
  refreshed : os.getLast? = some .refresh → p.live = dedup addresses

theorem Stands.represents (h : r.Stands name addresses os p) :
    r.Represents name addresses os p where
  pool := h.pool
  named := h.named
  configured := h.configured
  nodup := h.kept.live
  subset a ha := mem_dedup.1 (h.configured ▸ h.kept.subset ha)
  live := h.live
  remove_iff _ := answer_remove
  add_iff a := answer_add.trans (and_congr_left' (by rw [h.configured, mem_dedup]))
  refused o r' hr := by
    rw [turn?_of_pool h.pool, Option.some.injEq, Prod.mk.injEq] at hr
    obtain ⟨hanswer, rfl⟩ := hr
    obtain ⟨hpool, htold⟩ := (effect_perform p o).of_false hanswer
    refine ⟨(turned_pool h.pool _).trans ((congrArg some hpool).trans h.pool.symm), ?_⟩
    rw [turned, Journal.ledger_note, List.flatMap_eq_nil_iff.2 htold, List.foldl_nil]
  gauge := h.gauge
  balance := h.configured ▸ h.balance
  refreshed hlast := by
    obtain ⟨os', rfl⟩ := List.getLast?_eq_some_iff.1 hlast
    rw [← h.configured, h.reached, after_snoc]
    rfl

/-- A pool that is made of addresses holds each of them once, and whatever is done to it its live
addresses are those that a set would hold. Taking an address out is answered by whether it was
live, putting one back by whether it is configured and was not live; an operation that answers
false changes neither the pool nor any metric. The gauge reads the number of live addresses, which
is that of all of them but those taken out and not put back since the last refresh. A refresh
brings them all back in their own order. -/
theorem run_operations (name : String) (addresses : List String) (os : List Operation) :
    let p₀ := Pool.ofAddresses name addresses
    (∀ names p, Pool.resolve name addresses names = .ok p → p = p₀)
      ∧ ∃ p, ((ofPool p₀).run os).Represents name addresses os p := by
  intro p₀
  obtain ⟨p, hp⟩ := stands_run name addresses os
  refine ⟨fun names q hq => ?_, p, hp.represents⟩
  unfold Pool.resolve at hq
  split_ifs at hq
  split at hq
  · cases hq
  · exact (Except.ok.inj hq).symm

/-- The first of four addresses is taken out, so the last one stands first; an address that is not
configured is ignored. -/
theorem run_operations_swapped :
    let addresses := ["10.0.0.1:80", "10.0.0.2:80", "10.0.0.1:80", "10.0.0.3:80", "10.0.0.4:80"]
    let os : List Operation :=
      [.remove "10.0.0.2:80", .refresh, .hear "10.0.0.1:80" .opened, .remove "10.0.0.1:80",
        .add "10.0.0.9:80"]
    Pool.resolve "p" addresses = .ok (.ofAddresses "p" addresses)
      ∧ ∃ p, ((ofPool (.ofAddresses "p" addresses)).run os).pool = some p
        ∧ p.live = ["10.0.0.4:80", "10.0.0.2:80", "10.0.0.3:80"]
        ∧ ((ofPool (.ofAddresses "p" addresses)).run os).journal.ledger.read? (gauge "p")
          = some (.level 3)
        ∧ 3 + removals ((Pool.ofAddresses "p" addresses).answers os)
          = 4 + additions ((Pool.ofAddresses "p" addresses).answers os) := by
  intro addresses os
  have hresolve : Pool.resolve "p" addresses = .ok (.ofAddresses "p" addresses) := by
    decide +kernel
  obtain ⟨-, p, hp⟩ := run_operations "p" addresses os
  have hpool : ((ofPool (.ofAddresses "p" addresses)).run os).pool.map (·.live)
      = some ["10.0.0.4:80", "10.0.0.2:80", "10.0.0.3:80"] := by
    decide +kernel
  have hlive : p.live = ["10.0.0.4:80", "10.0.0.2:80", "10.0.0.3:80"] := by
    rw [hp.pool] at hpool
    exact Option.some.inj hpool
  have hlength : (dedup addresses).length = 4 := by decide +kernel
  have hgauge := hp.gauge
  have hbalance := hp.balance
  rw [hlive] at hgauge
  rw [hlive, hlength] at hbalance
  exact ⟨hresolve, p, hp.pool, hlive, hgauge, hbalance⟩

end Rotation

end AuctionGate
