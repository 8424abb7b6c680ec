import AuctionGate.Proofs.Breaker.Agreement
import AuctionGate.Proofs.Pool.Following
import Mathlib.Data.Finset.Card

/-!
# Gets at the same time

Many clients get breakers of one registry at the same time. A get looks for the breaker of its key,
and if there is none, it comes back to enter one unless there is one by then. In between others may
enter the breaker, use it and even open it.

A crowd tells breakers apart by the order in which they were made, so two of one key would be seen.
There are none: all gets of a key return the one breaker that was made for it, which is changed by
what is done to it and by nothing else (`run_single`). To the registry it is as if every get had
been done at once when it came back (`Grows.registry`).
-/

namespace AuctionGate

open Breaker

inductive Deed where
  | allow
  | settle (now : Nat) (p : Permit) (succeeded : Bool)
  | fire (now : Nat) (t : Timer)
  deriving DecidableEq

/-- The same done to the breaker of a key. -/
def Deed.on (key : String) : Deed → Registry.Move
  | allow => .allow key
  | settle now p succeeded => .settle now key p succeeded
  | fire now t => .fire now key t

/-- A breaker with what it was made of. -/
structure Installed where
  key : String
  config : Breaker.Config
  observers : List Observer
  breaker : Breaker := {}
  deriving DecidableEq

/-- What a get returned: the number of a breaker, in the order in which they were made. -/
structure Handle where
  client : Nat
  key : String
  made : Nat
  deriving DecidableEq

structure Crowd where
  config : Breaker.Config
  observers : List Observer
  pool : Option Pool
  notices : List Notice := []
  /-- Every breaker that was ever made. -/
  instances : List Installed := []
  /-- The number of the breaker under each key. -/
  entries : List (String × Nat) := []
  /-- The gets that have missed, each with its client. -/
  missed : List (Nat × String) := []
  returned : List Handle := []

namespace Crowd

inductive Event where
  /-- A client looks for the breaker of a key. -/
  | look (client : Nat) (key : String)
  /-- A client that has missed comes back. -/
  | enter (client : Nat)
  | operate (made : Nat) (deed : Deed)
  deriving DecidableEq

def len (s : Crowd) : Nat := s.entries.length

def number? (s : Crowd) (key : String) : Option Nat := (s.entries.find? (·.1 = key)).map (·.2)

def give (s : Crowd) (client : Nat) (key : String) (made : Nat) : Crowd :=
  { s with returned := s.returned ++ [⟨client, key, made⟩] }

def make (s : Crowd) (key : String) : Crowd :=
  { s with
    instances := s.instances ++ [{ key, config := s.config, observers := s.observers }]
    entries := s.entries ++ [(key, s.instances.length)] }

/-- Returns the breaker of a key, which is made and entered if there is none. -/
def entryOrInsert (s : Crowd) (client : Nat) (key : String) : Crowd :=
  match s.number? key with
  | some i => s.give client key i
  | none => (s.make key).give client key s.instances.length

/-- A registry with one breaker, and with the observers of that breaker. -/
def alone (s : Crowd) (x : Installed) : Registry where
  config := x.config
  observers := x.observers
  breakers := [(x.key, x.breaker)]
  pool := s.pool
  notices := s.notices

def operate (s : Crowd) (i : Nat) (x : Installed) (d : Deed) : Crowd :=
  let r := (s.alone x).move (d.on x.key)
  { s with
    instances := s.instances.set i { x with breaker := r.breaker x.key }
    pool := r.pool
    notices := r.notices }

def step (s : Crowd) : Event → Crowd
  | .look client key =>
    match s.number? key with
    | some i => s.give client key i
    | none => { s with missed := s.missed ++ [(client, key)] }
  | .enter client =>
    match s.missed.find? (·.1 = client) with
    | none => s
    | some (_, key) =>
      { s with missed := s.missed.eraseP (·.1 = client) }.entryOrInsert client key
  | .operate i d =>
    match s.instances[i]? with
    | none => s
    | some x => s.operate i x d

def run (s : Crowd) (es : List Event) : Crowd := es.foldl step s

def registry (s : Crowd) : Registry where
  config := s.config
  observers := s.observers
  breakers := s.entries.filterMap fun (key, i) => s.instances[i]?.map fun x => (key, x.breaker)
  pool := s.pool
  notices := s.notices

/-- What an event is to the registry. Looking for a breaker is nothing. -/
def move? (s : Crowd) : Event → Option Registry.Move
  | .look .. => none
  | .enter client => (s.missed.find? (·.1 = client)).map fun m => .get m.2
  | .operate i d => s.instances[i]?.map fun x => d.on x.key

def moves : Crowd → List Event → List Registry.Move
  | _, [] => []
  | s, e :: es => (s.move? e).toList ++ (s.step e).moves es

end Crowd

def Deed.step (c : Config) (b : Breaker) : Deed → Step
  | allow => { breaker := Registry.asked b }
  | settle _ p succeeded => b.settle c p succeeded
  | fire _ t => b.fire t

def Deed.time : Deed → Nat
  | allow => 0
  | settle now .. => now
  | fire now _ => now

namespace Crowd

def deed? (s : Crowd) (i : Nat) : Event → Option Deed
  | .operate j d => if j = i ∧ i < s.instances.length then some d else none
  | _ => none

/-- What is done to a breaker, if it is not made yet from when it is made. -/
def deeds (i : Nat) : Crowd → List Event → List Deed
  | _, [] => []
  | s, e :: es => (s.deed? i e).toList ++ (s.step e).deeds i es

/-- A breaker after all that was done to it. -/
def after (c : Config) (b : Breaker) (ds : List Deed) : Breaker :=
  ds.foldl (fun b d => (d.step c b).breaker) b

/-- Under each key is the one breaker that was ever made for it, and every get returned that. -/
structure Orderly (s : Crowd) : Prop where
  entries : s.entries = (s.instances.map (·.key)).zipIdx
  keys : (s.instances.map (·.key)).Nodup
  made : ∀ x ∈ s.instances, x.config = s.config ∧ x.observers = s.observers
  handles : ∀ h ∈ s.returned, s.number? h.key = some h.made
  returned : ∀ x ∈ s.instances, ∃ h ∈ s.returned, h.key = x.key

variable {s : Crowd} {i j : Nat} {x : Installed} {d : Deed} {e : Event} {es : List Event}
  {key k : String} {client : Nat}

section Find

variable {β : Type} {l : List (String × β)} {v : β}

/-- Where every key stands once, the entry of a key is found. -/
theorem find_iff_mem (hn : (l.map (·.1)).Nodup) :
    (l.find? (·.1 = key)).map (·.2) = some v ↔ (key, v) ∈ l := by
  constructor
  · intro h
    obtain ⟨⟨k, v'⟩, hfind, rfl⟩ := Option.map_eq_some_iff.1 h
    have hk : k = key := by simpa using List.find?_some hfind
    exact hk ▸ List.mem_of_find?_eq_some hfind
  · intro h
    obtain ⟨e, he⟩ := Option.isSome_iff_exists.1
      (List.find?_isSome.2 ⟨(key, v), h, by simp⟩ : (l.find? (·.1 = key)).isSome)
    have hk : e.1 = key := by simpa using List.find?_some he
    have heq := List.inj_on_of_nodup_map hn (List.mem_of_find?_eq_some he) h hk
    rw [he, heq, Option.map_some]

end Find

section Entries

theorem map_zipIdx_fst {α β : Type} (f : α → β) (l : List α) :
    l.zipIdx.map (fun e => f e.1) = l.map f := by
  conv_rhs => rw [← List.zipIdx_map_fst 0 l, List.map_map]
  rfl

theorem Orderly.entries_keys (ho : s.Orderly) : s.entries.map (·.1) = s.instances.map (·.key) := by
  rw [ho.entries, List.zipIdx_map_fst]

theorem Orderly.entry_iff (ho : s.Orderly) :
    s.number? key = some i ↔ ∃ x, s.instances[i]? = some x ∧ x.key = key := by
  rw [number?, find_iff_mem (by rw [ho.entries_keys]; exact ho.keys), ho.entries,
    List.mem_zipIdx_iff_getElem?, List.getElem?_map, Option.map_eq_some_iff]

theorem Orderly.entry_none (ho : s.Orderly) (h : s.number? key = none) :
    ∀ x ∈ s.instances, x.key ≠ key := by
  rintro x hx rfl
  obtain ⟨i, hi⟩ := List.mem_iff_getElem?.1 hx
  have hsome := ho.entry_iff.2 ⟨x, hi, rfl⟩
  rw [h] at hsome
  cases hsome

theorem Orderly.breakers (ho : s.Orderly) :
    s.registry.breakers = s.instances.map fun x => (x.key, x.breaker) := by
  have hfound : ∀ e ∈ s.instances.zipIdx,
      (s.instances[e.2]?.map fun x => (e.1.key, x.breaker)) = some (e.1.key, e.1.breaker) := by
    intro e he
    rw [List.mem_zipIdx_iff_getElem?.1 he, Option.map_some]
  simp only [registry, ho.entries, List.zipIdx_map, List.filterMap_map, Function.comp_def,
    Prod.map_fst, Prod.map_snd, id_eq]
  rw [List.filterMap_congr hfound, List.filterMap_eq_map']
  exact map_zipIdx_fst (fun x => (x.key, x.breaker)) s.instances

theorem Orderly.find? (ho : s.Orderly) (h : s.instances[i]? = some x) :
    s.registry.find? x.key = some x.breaker := by
  have hn : (s.registry.breakers.map (·.1)).Nodup := by
    rw [ho.breakers, List.map_map]
    exact ho.keys
  rw [Registry.find?, find_iff_mem hn, ho.breakers]
  exact List.mem_map_of_mem (List.mem_of_getElem? h)

theorem Orderly.find?_none (ho : s.Orderly) (h : s.number? key = none) :
    s.registry.find? key = none := by
  rw [Registry.find?, Option.map_eq_none_iff, List.find?_eq_none, ho.breakers]
  intro e he
  obtain ⟨x, hx, rfl⟩ := List.mem_map.1 he
  simpa using ho.entry_none h x hx

end Entries

section Operate

variable {r : Registry} {bs : List (String × Breaker)} {now : Nat} {st : Step} {t : Transition}
  {b : Breaker}

theorem hear_with (o : Observer × Nat) :
    (({ r with breakers := bs } : Registry).hear now key t o).registry
      = { (r.hear now key t o).registry with breakers := bs } := by
  rcases o with ⟨_ | _ | _, i⟩
  · rcases r with ⟨_, _, _, _ | p, _⟩ <;> rfl
  · rfl
  · rfl

theorem hearAll_with : ∀ (os : List (Observer × Nat)) (r : Registry),
    (Registry.hearAll now key t os { r with breakers := bs }).registry
      = { (Registry.hearAll now key t os r).registry with breakers := bs }
  | [], _ => rfl
  | o :: os, r => by
    simp only [Registry.hearAll, hear_with]
    exact hearAll_with os _

/-- What a step tells does not depend on the breakers of other keys. -/
theorem carry_with : (({ r with breakers := bs } : Registry).carry now key st).registry
    = { (r.carry now key st).registry with
        breakers := (({ r with breakers := bs } : Registry).put key st.breaker).breakers } := by
  have hput : ({ r with breakers := bs } : Registry).put key st.breaker
      = { r.put key st.breaker with
          breakers := (({ r with breakers := bs } : Registry).put key st.breaker).breakers } := rfl
  unfold Registry.carry Registry.announce
  cases st.change with
  | none => rfl
  | some c =>
    cases ht : c.transition? with
    | none => simp only [ht]; rfl
    | some t =>
      simp only [ht]
      rw [hput]
      exact hearAll_with ..

theorem put_same (hn : (r.breakers.map (·.1)).Nodup) (h : r.find? key = some b) :
    r.put key b = r := by
  have hmem := (find_iff_mem hn).1 h
  have hsame : (r.put key b).breakers = r.breakers := by
    conv_rhs => rw [← List.map_id r.breakers]
    refine List.map_congr_left fun e he => ?_
    obtain ⟨k, c⟩ := e
    by_cases hk : k = key
    · subst hk
      rw [List.inj_on_of_nodup_map hn he hmem rfl]
      simp
    · simp [hk]
  calc r.put key b = { r with breakers := (r.put key b).breakers } := rfl
    _ = r := by rw [hsame]

/-- Whatever is done to a breaker that is there, it makes a step. -/
theorem move_on (hn : (r.breakers.map (·.1)).Nodup) (h : r.find? key = some b) (d : Deed) :
    r.move (d.on key) = (r.carry d.time key (d.step r.config b)).registry := by
  have hknows : r.Knows key := by rw [Registry.Knows, h]; rfl
  have hb : r.breaker key = b := by rw [Registry.breaker, h]; rfl
  cases d with
  | allow =>
    show (r.allow key).1.registry = r.put key (Registry.asked b)
    rcases hp : b.allow with _ | ⟨p, b'⟩
    · rw [Registry.allow_of_none (hb ▸ hp), Registry.get_of_knows hknows, Registry.asked, hp]
      exact (put_same hn h).symm
    · rw [Registry.allow_of_some (hb ▸ hp), Registry.get_of_knows hknows, Registry.asked, hp]
      rfl
  | settle now p succeeded =>
    simp only [Deed.on, Registry.move, if_pos hknows, Registry.settle, hb]
    rfl
  | fire now t =>
    simp only [Deed.on, Registry.move, if_pos hknows, Registry.fire, hb]
    rfl

theorem Orderly.alone_eq (ho : s.Orderly) (hx : x ∈ s.instances) :
    s.alone x = { s.registry with breakers := [(x.key, x.breaker)] } := by
  obtain ⟨hc, hobs⟩ := ho.made x hx
  rw [alone, hc, hobs]
  rfl

/-- What is done to a breaker changes it by a step, as it would change it in the registry. -/
theorem Orderly.operate_eq (ho : s.Orderly) (h : s.instances[i]? = some x) (d : Deed) :
    let st := d.step s.config x.breaker
    let r := (s.registry.carry d.time x.key st).registry
    s.operate i x d = { s with
      instances := s.instances.set i { x with breaker := st.breaker }
      pool := r.pool
      notices := r.notices } := by
  intro st r
  have hfind : (s.alone x).find? x.key = some x.breaker := by simp [alone, Registry.find?]
  have hmove : (s.alone x).move (d.on x.key) = { r with breakers := [(x.key, st.breaker)] } := by
    rw [move_on (by simp [alone]) hfind, ho.alone_eq (List.mem_of_getElem? h), carry_with]
    simp [Registry.put, st, r, registry]
  simp only [operate, hmove]
  simp [Registry.breaker, Registry.find?]

end Operate

section Steps

theorem Orderly.miss (ho : s.Orderly) (missed : List (Nat × String)) :
    Orderly { s with missed } := ⟨ho.entries, ho.keys, ho.made, ho.handles, ho.returned⟩

theorem Orderly.give (ho : s.Orderly) (client : Nat) (h : s.number? key = some i) :
    (s.give client key i).Orderly where
  entries := ho.entries
  keys := ho.keys
  made := ho.made
  handles g hg := by
    rcases List.mem_append.1 hg with hg | hg
    · exact ho.handles g hg
    · rw [List.mem_singleton.1 hg]
      exact h
  returned x hx := by
    obtain ⟨g, hg, hk⟩ := ho.returned x hx
    exact ⟨g, List.mem_append_left _ hg, hk⟩

theorem number?_make (h : s.number? key = none) (k : String) :
    (s.make key).number? k = if k = key then some s.instances.length else s.number? k := by
  rw [number?, Option.map_eq_none_iff] at h
  unfold number? make
  rw [List.find?_append]
  split_ifs with hk
  · subst hk
    simp [h]
  · simp [Ne.symm hk]

theorem Orderly.make_give (ho : s.Orderly) (client : Nat) (h : s.number? key = none) :
    ((s.make key).give client key s.instances.length).Orderly where
  entries := by
    simp only [Crowd.give, make, ho.entries, List.map_append, List.zipIdx_append]
    simp
  keys := by
    simp only [Crowd.give, make, List.map_append]
    refine nodup_concat ho.keys fun hmem => ?_
    obtain ⟨x, hx, hk⟩ := List.mem_map.1 hmem
    exact ho.entry_none h x hx hk
  made x hx := by
    rcases List.mem_append.1 hx with hx | hx
    · exact ho.made x hx
    · rw [List.mem_singleton.1 hx]
      exact ⟨rfl, rfl⟩
  handles g hg := by
    show (s.make key).number? g.key = some g.made
    rw [number?_make h]
    rcases List.mem_append.1 hg with hg | hg
    · have hfound := ho.handles g hg
      rw [if_neg fun hk => ?_, hfound]
      rw [hk, h] at hfound
      cases hfound
    · rw [List.mem_singleton.1 hg, if_pos rfl]
  returned x hx := by
    rcases List.mem_append.1 hx with hx | hx
    · obtain ⟨g, hg, hk⟩ := ho.returned x hx
      exact ⟨g, List.mem_append_left _ hg, hk⟩
    · rw [List.mem_singleton.1 hx]
      exact ⟨_, List.mem_append_right _ List.mem_cons_self, rfl⟩

theorem map_key_set (h : s.instances[i]? = some x) (b : Breaker) :
    (s.instances.set i { x with breaker := b }).map (·.key) = s.instances.map (·.key) := by
  refine List.ext_getElem? fun j => ?_
  simp only [List.getElem?_map, List.getElem?_set]
  split_ifs with hj hi
  · subst hj
    rw [h]
    rfl
  · subst hj
    rw [List.getElem?_eq_none (by omega)]
  · rfl

theorem Orderly.operate (ho : s.Orderly) (h : s.instances[i]? = some x) (d : Deed) :
    (s.operate i x d).Orderly := by
  have hkeys := map_key_set h
  have hx := List.mem_of_getElem? h
  rw [ho.operate_eq h]
  refine ⟨?_, ?_, fun y hy => ?_, ho.handles, fun y hy => ?_⟩
  · rw [hkeys]
    exact ho.entries
  · rw [hkeys]
    exact ho.keys
  · rcases List.mem_or_eq_of_mem_set hy with hy | rfl
    · exact ho.made y hy
    · exact ho.made x hx
  · rcases List.mem_or_eq_of_mem_set hy with hy | rfl
    · exact ho.returned y hy
    · exact ho.returned x hx

/-- What can come of an event, and what it is to the registry. -/
inductive Outcome (s : Crowd) : Event → Crowd → Prop
  | still {e : Event} (missed : List (Nat × String)) :
    (∀ i, s.deed? i e = none) → s.move? e = none → Outcome s e { s with missed }
  | found {e : Event} (missed : List (Nat × String)) (client : Nat) {key : String} {i : Nat} :
    s.number? key = some i → (∀ i, s.deed? i e = none) → (∀ m ∈ s.move? e, m = .get key) →
    Outcome s e ({ s with missed }.give client key i)
  | made {e : Event} (missed : List (Nat × String)) (client : Nat) {key : String} :
    s.number? key = none → (∀ i, s.deed? i e = none) → s.move? e = some (.get key) →
    Outcome s e (({ s with missed }.make key).give client key s.instances.length)
  | operated {i : Nat} {x : Installed} (d : Deed) :
    s.instances[i]? = some x → Outcome s (.operate i d) (s.operate i x d)

theorem step_outcome (s : Crowd) (e : Event) : s.Outcome e (s.step e) := by
  cases e with
  | look client key =>
    simp only [Crowd.step]
    cases h : s.number? key with
    | none => exact .still _ (fun _ => rfl) rfl
    | some i => exact .found s.missed client h (fun _ => rfl) nofun
  | enter client =>
    simp only [Crowd.step]
    cases hm : s.missed.find? (·.1 = client) with
    | none => exact .still s.missed (fun _ => rfl) (by simp [move?, hm])
    | some m =>
      have hmove : s.move? (.enter client) = some (.get m.2) := by simp [move?, hm]
      simp only [entryOrInsert]
      cases h : number? { s with missed := s.missed.eraseP (·.1 = client) } m.2 with
      | none => exact .made _ client h (fun _ => rfl) hmove
      | some i => exact .found _ client h (fun _ => rfl) (by simp [hmove])
  | operate i d =>
    simp only [Crowd.step]
    cases h : s.instances[i]? with
    | none =>
      have hlen : s.instances.length ≤ i := List.getElem?_eq_none_iff.1 h
      refine .still s.missed (fun j => if_neg fun hj => ?_) (by simp [move?, h])
      obtain ⟨rfl, hlt⟩ := hj
      exact absurd hlt (Nat.not_lt.2 hlen)
    | some x => exact .operated d h

theorem Orderly.outcome {s' : Crowd} (ho : s.Orderly) (h : s.Outcome e s') : s'.Orderly := by
  cases h with
  | still missed => exact ho.miss missed
  | found missed client hk => exact (ho.miss missed).give client hk
  | made missed client hk => exact (ho.miss missed).make_give client hk
  | operated d hx => exact ho.operate hx d

theorem outcome_keys {s' : Crowd} (ho : s.Orderly) (h : s.Outcome e s') :
    s.instances.map (·.key) <+: s'.instances.map (·.key) := by
  cases h with
  | still missed => exact List.prefix_rfl
  | found missed client hk => exact List.prefix_rfl
  | made missed client hk =>
    simp only [Crowd.give, make, List.map_append]
    exact List.prefix_append ..
  | operated d hx =>
    rw [ho.operate_eq hx, map_key_set hx]

theorem outcome_returned {s' : Crowd} (h : s.Outcome e s') : s.returned <+: s'.returned := by
  cases h with
  | still missed => exact List.prefix_rfl
  | found missed client hk => exact List.prefix_append ..
  | made missed client hk => exact List.prefix_append ..
  | operated d hx => exact List.prefix_rfl

/-- The breaker with a number, or the one to be made next. -/
def breakerAt (s : Crowd) (i : Nat) : Breaker := (s.instances[i]?.map (·.breaker)).getD {}

theorem outcome_breakerAt {s' : Crowd} (ho : s.Orderly) (h : s.Outcome e s') (i : Nat) :
    s'.breakerAt i = after s.config (s.breakerAt i) (s.deed? i e).toList := by
  cases h with
  | still missed hd => rw [hd]; rfl
  | found missed client hk hd => rw [hd]; rfl
  | made missed client hk hd =>
    rw [hd]
    simp only [breakerAt, Crowd.give, make, List.getElem?_append]
    split_ifs with hi
    · rfl
    · -- the breaker that is made is new, as one that was not made yet is taken to be
      have hnone : s.instances[i]? = none := List.getElem?_eq_none (Nat.not_lt.1 hi)
      rw [hnone]
      cases i - s.instances.length <;> rfl
  | @operated j x d hx =>
    have hj : j < s.instances.length := (List.getElem?_eq_some_iff.1 hx).1
    rw [ho.operate_eq hx]
    simp only [breakerAt, deed?, List.getElem?_set]
    by_cases hji : j = i
    · subst hji
      rw [if_pos rfl, if_pos hj, if_pos ⟨rfl, hj⟩, hx]
      rfl
    · rw [if_neg hji, if_neg fun h => hji h.1]
      rfl

theorem Orderly.registry_eq (ho : s.Orderly) : s.registry =
    { config := s.config, observers := s.observers, pool := s.pool, notices := s.notices
      breakers := s.instances.map fun x => (x.key, x.breaker) } := by
  rw [← ho.breakers]
  rfl

theorem Orderly.get_eq (ho : s.Orderly) (h : s.number? key = some i) :
    (s.registry.get key).registry = s.registry := by
  obtain ⟨x, hx, rfl⟩ := ho.entry_iff.1 h
  rw [Registry.get_of_knows (by rw [Registry.Knows, ho.find? hx]; rfl)]

/-- Where every key stands once, a change by number is a change by key. -/
theorem map_set (hn : (s.instances.map (·.key)).Nodup) (h : s.instances[i]? = some x)
    (b : Breaker) :
    (s.instances.set i { x with breaker := b }).map (fun x => (x.key, x.breaker))
      = (s.instances.map fun x => (x.key, x.breaker)).map
        fun (k, c) => if k = x.key then (k, b) else (k, c) := by
  have hi : i < s.instances.length := (List.getElem?_eq_some_iff.1 h).1
  refine List.ext_getElem? fun j => ?_
  simp only [List.getElem?_map, List.getElem?_set]
  by_cases hij : i = j
  · subst hij
    rw [if_pos rfl, if_pos hi, h]
    simp
  · rw [if_neg hij]
    cases hy : s.instances[j]? with
    | none => rfl
    | some y =>
      have hne : y.key ≠ x.key := fun hk =>
        hij <| (List.getElem?_inj (by simpa using hi) hn).1 <| by
          rw [List.getElem?_map, List.getElem?_map, h, hy, Option.map_some, Option.map_some, hk]
      simp [hne]

/-- An event is to the registry what is done one after the other. -/
theorem outcome_registry {s' : Crowd} (ho : s.Orderly) (h : s.Outcome e s') :
    s'.registry = s.registry.run (s.move? e).toList := by
  have ho' := ho.outcome h
  cases h with
  | still missed hd hm =>
    rw [hm]
    rfl
  | found missed client hk hd hm =>
    show s.registry = _
    cases hmove : s.move? e with
    | none => rfl
    | some m =>
      rw [hm m hmove]
      exact (ho.get_eq hk).symm
  | made missed client hk hd hm =>
    rw [hm, ho'.registry_eq]
    show _ = (s.registry.get _).registry
    rw [Registry.get_of_not_knows (by simp [Registry.Knows, ho.find?_none hk]), ho.breakers]
    simp only [Crowd.give, make, List.map_append, registry]
    rfl
  | @operated i x d hx =>
    have hn : (s.registry.breakers.map (·.1)).Nodup := by
      rw [ho.breakers, List.map_map]
      exact ho.keys
    have hmove : s.move? (.operate i d) = some (d.on x.key) := by simp [move?, hx]
    rw [hmove, ho'.registry_eq, ho.operate_eq hx, map_set ho.keys hx]
    show _ = s.registry.move (d.on x.key)
    rw [move_on hn (ho.find? hx)]
    obtain ⟨p, notices, hr⟩ :=
      s.registry.carry_registry d.time x.key (d.step s.config x.breaker)
    have hr' : (s.registry.carry d.time x.key (d.step s.registry.config x.breaker)).registry
      = _ := hr
    rw [hr', hr, Registry.put, ho.breakers]
    rfl

end Steps

section Runs

/-- A crowd after some events, with what they did to each breaker and to the registry: no breaker is
gone, and no handle. -/
structure Grows (s s' : Crowd) (ds : Nat → List Deed) (ms : List Registry.Move) : Prop where
  orderly : s'.Orderly
  config : s'.config = s.config
  observers : s'.observers = s.observers
  keys : s.instances.map (·.key) <+: s'.instances.map (·.key)
  returned : s.returned <+: s'.returned
  breakers : ∀ i, s'.breakerAt i = after s.config (s.breakerAt i) (ds i)
  registry : s'.registry = s.registry.run ms

variable {s' s'' : Crowd} {ds ds' : Nat → List Deed} {ms ms' : List Registry.Move}

theorem Outcome.grows (ho : s.Orderly) (h : s.Outcome e s') :
    s.Grows s' (fun i => (s.deed? i e).toList) (s.move? e).toList where
  orderly := ho.outcome h
  config := by cases h <;> rfl
  observers := by cases h <;> rfl
  keys := outcome_keys ho h
  returned := outcome_returned h
  breakers := outcome_breakerAt ho h
  registry := outcome_registry ho h

theorem Grows.trans (h : s.Grows s' ds ms) (h' : s'.Grows s'' ds' ms') :
    s.Grows s'' (fun i => ds i ++ ds' i) (ms ++ ms') where
  orderly := h'.orderly
  config := h'.config.trans h.config
  observers := h'.observers.trans h.observers
  keys := h.keys.trans h'.keys
  returned := h.returned.trans h'.returned
  breakers i := by rw [h'.breakers, h.config, h.breakers, after, after, after, List.foldl_append]
  registry := by rw [h'.registry, h.registry, Registry.run, Registry.run, Registry.run,
    List.foldl_append]

theorem Orderly.run : ∀ (es : List Event) {s : Crowd}, s.Orderly →
    s.Grows (s.run es) (s.deeds · es) (s.moves es)
  | [], _, ho => ⟨ho, rfl, rfl, List.prefix_rfl, List.prefix_rfl, fun _ => rfl, rfl⟩
  | e :: es, s, ho =>
    have hstep := (s.step_outcome e).grows ho
    hstep.trans (Orderly.run es hstep.orderly)

theorem orderly_new (config : Config) (observers : List Observer) (pool : Option Pool) :
    Orderly { config, observers, pool } where
  entries := rfl
  keys := .nil
  made := nofun
  handles := nofun
  returned := nofun

theorem Orderly.instance_eq (ho : s.Orderly) (hx : s.instances[i]? = some x) :
    x = ⟨x.key, s.config, s.observers, s.breakerAt i⟩ := by
  obtain ⟨hc, hobs⟩ := ho.made x (List.mem_of_getElem? hx)
  rw [breakerAt, hx, ← hc, ← hobs]
  rfl

/-- Nobody takes a breaker away or puts another in its place. -/
theorem Grows.instance_eq (h : s.Grows s' ds ms) (hx : s.instances[i]? = some x) :
    s'.instances[i]? = some ⟨x.key, s.config, s.observers, s'.breakerAt i⟩ := by
  obtain ⟨new, hnew⟩ := h.keys
  have hi : i < (s.instances.map (·.key)).length := by
    rw [List.length_map]
    exact (List.getElem?_eq_some_iff.1 hx).1
  have hkey : (s'.instances.map (·.key))[i]? = some x.key := by
    rw [← hnew, List.getElem?_append_left hi, List.getElem?_map, hx]
    rfl
  rw [List.getElem?_map] at hkey
  obtain ⟨y, hy, hyx⟩ := Option.map_eq_some_iff.1 hkey
  rw [hy, ← hyx, ← h.config, ← h.observers]
  exact congrArg some (h.orderly.instance_eq hy)

theorem Orderly.len_eq (ho : s.Orderly) : s.len = (s.returned.map (·.key)).toFinset.card := by
  have hkeys : (s.returned.map (·.key)).toFinset = (s.instances.map (·.key)).toFinset := by
    ext key
    simp only [List.mem_toFinset, List.mem_map]
    constructor
    · rintro ⟨g, hg, rfl⟩
      obtain ⟨x, hx, hk⟩ := ho.entry_iff.1 (ho.handles g hg)
      exact ⟨x, List.mem_of_getElem? hx, hk⟩
    · rintro ⟨x, hx, rfl⟩
      exact ho.returned x hx
  rw [hkeys, List.toFinset_card_of_nodup ho.keys, len, ← ho.entries_keys, List.length_map]

theorem Grows.len_le (h : s.Grows s' ds ms) (ho : s.Orderly) : s.len ≤ s'.len := by
  have hlen := h.keys.length_le
  rwa [← ho.entries_keys, ← h.orderly.entries_keys, List.length_map, List.length_map] at hlen

theorem look_answers (s : Crowd) (client : Nat) (key : String) :
    (∃ i, ⟨client, key, i⟩ ∈ (s.step (.look client key)).returned)
      ∨ (client, key) ∈ (s.step (.look client key)).missed := by
  simp only [Crowd.step]
  cases s.number? key with
  | none => exact .inr (List.mem_append_right _ List.mem_cons_self)
  | some i => exact .inl ⟨i, List.mem_append_right _ List.mem_cons_self⟩

theorem enter_answers {m : Nat × String} (h : s.missed.find? (·.1 = client) = some m) :
    ∃ i, ⟨client, m.2, i⟩ ∈ (s.step (.enter client)).returned := by
  simp only [Crowd.step, h, entryOrInsert]
  cases number? { s with missed := s.missed.eraseP (·.1 = client) } m.2 with
  | none => exact ⟨_, List.mem_append_right _ List.mem_cons_self⟩
  | some i => exact ⟨i, List.mem_append_right _ List.mem_cons_self⟩

/-- However gets and the use of breakers interleave, every get returns, at once or when it comes
back, and all gets of a key return the one breaker that was made for it, with the configuration and
all observers of the registry. That stays what it is, and has gone through what was done to it and
through nothing else. There are as many breakers as keys they were got for. -/
theorem run_single (config : Config) (observers : List Observer) (pool : Option Pool)
    (es es' : List Event) :
    let s₀ : Crowd := { config, observers, pool }
    let s := s₀.run es
    let s' := s.run es'
    (∀ client key, (∃ i, ⟨client, key, i⟩ ∈ (s.step (.look client key)).returned)
        ∨ (client, key) ∈ (s.step (.look client key)).missed)
      ∧ (∀ client, ∀ m ∈ s.missed.find? (·.1 = client),
        ∃ i, ⟨client, m.2, i⟩ ∈ (s.step (.enter client)).returned)
      ∧ (∀ g ∈ s.returned, ∀ g' ∈ s'.returned, g.key = g'.key → g.made = g'.made)
      ∧ (∀ g ∈ s.returned,
        let b := after config {} (s₀.deeds g.made es)
        s.instances[g.made]? = some ⟨g.key, config, observers, b⟩
          ∧ s'.instances[g.made]?
            = some ⟨g.key, config, observers, after config b (s.deeds g.made es')⟩)
      ∧ (s.instances.map (·.key)).Nodup ∧ (∀ x ∈ s.instances, ∃ g ∈ s.returned, g.key = x.key)
      ∧ s.len = (s.returned.map (·.key)).toFinset.card ∧ s.len ≤ s'.len
      ∧ s'.registry = s.registry.run (s.moves es') := by
  intro s₀ s s'
  have h : s₀.Grows s _ _ := (orderly_new config observers pool).run es
  have h' : s.Grows s' _ _ := h.orderly.run es'
  have hfound {g : Handle} (hg : g ∈ s.returned) : s'.number? g.key = some g.made :=
    h'.orderly.handles g (h'.returned.subset hg)
  refine ⟨s.look_answers, fun _ _ => enter_answers, fun g hg g' hg' hk => ?_, fun g hg => ?_,
    h.orderly.keys, h.orderly.returned, h.orderly.len_eq, h'.len_le h.orderly, h'.registry⟩
  · have hsame := h'.orderly.handles g' hg'
    rw [← hk, hfound hg] at hsame
    exact Option.some.inj hsame
  · obtain ⟨x, hx, hk⟩ := h.orderly.entry_iff.1 (h.orderly.handles g hg)
    have hx' := h'.instance_eq hx
    have hb : s.breakerAt g.made = after config {} (s₀.deeds g.made es) := h.breakers g.made
    have hconfig : s.config = config := h.config
    have hobs : s.observers = observers := h.observers
    rw [h'.breakers, hk, hconfig, hobs, hb] at hx'
    rw [h.orderly.instance_eq hx, hk, hconfig, hobs, hb] at hx
    exact ⟨hx, hx'⟩

/-- Two gets miss at the same time. The first enters the breaker, which opens before the second
comes back, and that gets the open breaker. -/
theorem run_single_race :
    let s₀ : Crowd := { config := ⟨1, 1000, 100⟩, observers := [.recorder], pool := none }
    let s := s₀.run [.look 1 "a", .look 2 "a", .enter 1]
    let s' := s.run [.operate 0 .allow, .operate 0 (.settle 5 ⟨false⟩ false), .enter 2]
    s.returned = [⟨1, "a", 0⟩] ∧ s'.returned = [⟨1, "a", 0⟩, ⟨2, "a", 0⟩]
      ∧ s'.instances[0]? = some ⟨"a", ⟨1, 1000, 100⟩, [.recorder], ⟨.opened, 1, false, 1⟩⟩
      ∧ s'.len = 1 := by
  intro s₀ s s'
  have hs : s.returned = [⟨1, "a", 0⟩] := by decide
  obtain ⟨-, -, -, hmade, -⟩ := run_single ⟨1, 1000, 100⟩ [.recorder] none
    [.look 1 "a", .look 2 "a", .enter 1]
    [.operate 0 .allow, .operate 0 (.settle 5 ⟨false⟩ false), .enter 2]
  refine ⟨hs, by decide, ?_, by decide⟩
  exact (hmade ⟨1, "a", 0⟩ (by rw [hs]; exact List.mem_cons_self)).2

end Runs

end Crowd

end AuctionGate
