import AuctionGate.Dispatch.Correlation
import Mathlib.Data.List.Forall2
import Mathlib.Tactic.SplitIfs

/-!
# What errors are put down to

Correlation cuts the request into four parts: impressions on no call, on a call that failed, sent
on no failed call without a bid, and sent on no failed call with one. No impression is in two of
them and none is lost, so each is blamed in one category at most (`correlate_partitions`).

An error comes out with the tag of its category and is otherwise as it went in. The parts are
fixed by what the calls carry of the request, which of them failed, and which impressions got a
bid (`Correlation.Alike`), and by nothing that an error said of itself before.
-/

namespace AuctionGate

/-- What an error says, whatever it is put down to. -/
def PartnerError.cause (e : PartnerError) : String × PartnerError.Kind := (e.message, e.kind)

namespace PartnerError

variable {e e' : PartnerError}

@[simp] theorem cause_tagged (e : PartnerError) (ids : IdSet) : (e.tagged ids).cause = e.cause :=
  rfl

theorem tagged_eq_of_cause (h : e.cause = e'.cause) (ids : IdSet) :
    e.tagged ids = e'.tagged ids := by
  obtain ⟨hm, hk⟩ := Prod.mk.inj h
  simp only [tagged, hm, hk]

theorem map_tagged_of_causes {es es' : List PartnerError} (h : es.map cause = es'.map cause)
    (ids : IdSet) : es.map (·.tagged ids) = es'.map (·.tagged ids) := by
  rw [← List.forall₂_eq_eq_eq, List.forall₂_map_left_iff, List.forall₂_map_right_iff] at h ⊢
  exact h.imp fun _ _ hc => tagged_eq_of_cause hc ids

end PartnerError

namespace IdSet

/-- What errors put down to a set are tagged with. -/
def tag (ids : IdSet) : Option IdSet := if ids = .empty then none else some ids

theorem isEmpty_iff {s : IdSet} : s.isEmpty = true ↔ s = .empty := by
  rcases s with ⟨_ | ⟨x, l⟩, h⟩
  · exact ⟨fun _ => rfl, fun _ => rfl⟩
  · exact ⟨nofun, nofun⟩

theorem filter_congr {p q : String → Bool} {s : IdSet} (h : ∀ id ∈ s, p id = q id) :
    s.filter p = s.filter q := by
  simp only [filter, mk.injEq]
  exact List.filter_congr h

end IdSet

theorem PartnerError.impressionIds_tagged (e : PartnerError) (ids : IdSet) :
    (e.tagged ids).impressionIds = ids.tag := by
  simp only [tagged, IdSet.tag, IdSet.isEmpty_iff]

namespace CallReport

theorem sent_iff {calls : List CallReport} {id : String} :
    sent calls id = true ↔ ∃ c ∈ calls, id ∈ c.impressionIds := by
  simp [sent]

theorem not_sent_iff {calls : List CallReport} {id : String} :
    sent calls id = false ↔ ∀ c ∈ calls, id ∉ c.impressionIds := by
  simp [sent]

theorem sent_perm {calls calls' : List CallReport} (h : calls.Perm calls') (id : String) :
    sent calls id = sent calls' id :=
  h.any_eq

end CallReport

namespace Correlation

/-- Two reports of a call say the same to a request: the call carries the same of it, and its
errors differ in their tags only. -/
structure Alike (requested : IdSet) (c c' : CallReport) : Prop where
  carries : ∀ id ∈ requested, id ∈ c.impressionIds ↔ id ∈ c'.impressionIds
  error : c.error.map (·.cause) = c'.error.map (·.cause)

/-- The impressions that were sent, on no failed call, and got a bid. -/
def answered (requested : IdSet) (calls : List CallReport) (bidFor : List String) : IdSet :=
  requested.filter fun id =>
    CallReport.sent calls id && !CallReport.sent (calls.filter (·.failed)) id
      && bidFor.contains id

variable {requested : IdSet} {calls calls' : List CallReport} {bidFor bidFor' : List String}
  {buildErrors buildErrors' readErrors readErrors' : List PartnerError} {id : String}

section Parts

theorem sent_failed_iff :
    CallReport.sent (calls.filter (·.failed)) id = true
      ↔ ∃ c ∈ calls, c.error ≠ none ∧ id ∈ c.impressionIds := by
  simp [CallReport.sent_iff, CallReport.failed, and_assoc, Option.isSome_iff_ne_none]

theorem not_sent_failed_iff :
    CallReport.sent (calls.filter (·.failed)) id = false
      ↔ ∀ c ∈ calls, id ∈ c.impressionIds → c.error = none := by
  rw [← Bool.not_eq_true, sent_failed_iff]
  grind

theorem mem_unsent :
    id ∈ unsent requested calls ↔ id ∈ requested ∧ ∀ c ∈ calls, id ∉ c.impressionIds := by
  rw [unsent, IdSet.mem_filter, Bool.not_eq_true', CallReport.not_sent_iff]

theorem mem_failed :
    id ∈ failed requested calls
      ↔ id ∈ requested ∧ ∃ c ∈ calls, c.error ≠ none ∧ id ∈ c.impressionIds := by
  rw [failed, IdSet.mem_filter, sent_failed_iff]

theorem mem_silent :
    id ∈ silent requested calls bidFor
      ↔ id ∈ requested ∧ (∃ c ∈ calls, id ∈ c.impressionIds)
        ∧ (∀ c ∈ calls, id ∈ c.impressionIds → c.error = none) ∧ id ∉ bidFor := by
  simp only [silent, IdSet.mem_filter, Bool.and_eq_true, Bool.not_eq_true', CallReport.sent_iff,
    not_sent_failed_iff, List.contains_eq_mem, decide_eq_false_iff_not, and_assoc]

theorem mem_answered :
    id ∈ answered requested calls bidFor
      ↔ id ∈ requested ∧ (∃ c ∈ calls, id ∈ c.impressionIds)
        ∧ (∀ c ∈ calls, id ∈ c.impressionIds → c.error = none) ∧ id ∈ bidFor := by
  simp only [answered, IdSet.mem_filter, Bool.and_eq_true, Bool.not_eq_true', CallReport.sent_iff,
    not_sent_failed_iff, List.contains_eq_mem, decide_eq_true_eq, and_assoc]

/-- No impression is in two parts. -/
theorem parts_disjoint (requested : IdSet) (calls : List CallReport) (bidFor : List String) :
    [unsent requested calls, failed requested calls, silent requested calls bidFor,
      answered requested calls bidFor].Pairwise fun s t => ∀ id ∈ s, id ∉ t := by
  simp only [List.pairwise_cons, List.mem_cons, List.not_mem_nil, or_false, forall_eq_or_imp,
    forall_eq, mem_unsent, mem_failed, mem_silent, mem_answered]
  grind

theorem mem_parts (requested : IdSet) (calls : List CallReport) (bidFor : List String)
    (id : String) :
    id ∈ requested ↔ ∃ s ∈ [unsent requested calls, failed requested calls,
      silent requested calls bidFor, answered requested calls bidFor], id ∈ s := by
  simp only [List.mem_cons, List.not_mem_nil, or_false, exists_eq_or_imp, exists_eq_left,
    mem_unsent, mem_failed, mem_silent, mem_answered]
  grind

end Parts

section Alike

theorem Alike.failed {c c' : CallReport} (h : Alike requested c c') : c.failed = c'.failed := by
  have hsome := congrArg Option.isSome h.error
  simp only [Option.isSome_map] at hsome
  exact hsome

theorem sent_of_alike (h : List.Forall₂ (Alike requested) calls calls') (hid : id ∈ requested) :
    CallReport.sent calls id = CallReport.sent calls' id := by
  induction h with
  | nil => rfl
  | cons hc _ ih =>
    simp only [CallReport.sent, List.any_cons, List.contains_eq_mem] at ih ⊢
    rw [ih, decide_eq_decide.2 (hc.carries id hid)]

theorem filter_failed_alike (h : List.Forall₂ (Alike requested) calls calls') :
    List.Forall₂ (Alike requested) (calls.filter (·.failed)) (calls'.filter (·.failed)) := by
  induction h with
  | nil => exact .nil
  | cons hc _ ih =>
    simp only [List.filter_cons, ← hc.failed]
    split_ifs
    · exact .cons hc ih
    · exact ih

theorem parts_of_alike (h : List.Forall₂ (Alike requested) calls calls')
    (hb : ∀ id ∈ requested, id ∈ bidFor ↔ id ∈ bidFor') :
    unsent requested calls = unsent requested calls'
      ∧ failed requested calls = failed requested calls'
      ∧ silent requested calls bidFor = silent requested calls' bidFor' := by
  -- All three filter the request, so only requested impressions are looked up.
  refine ⟨?_, ?_, ?_⟩ <;> refine IdSet.filter_congr fun id hid => ?_
  · rw [sent_of_alike h hid]
  · rw [sent_of_alike (filter_failed_alike h) hid]
  · rw [sent_of_alike h hid, sent_of_alike (filter_failed_alike h) hid, List.contains_eq_mem,
      List.contains_eq_mem, decide_eq_decide.2 (hb id hid)]

theorem causes_of_alike (h : List.Forall₂ (Alike requested) calls calls') :
    (calls.filterMap (·.error)).map (·.cause) = (calls'.filterMap (·.error)).map (·.cause) := by
  induction h with
  | nil => rfl
  | @cons c c' cs cs' hc _ ih =>
    have he := hc.error
    rcases hce : c.error with _ | e <;> rcases hce' : c'.error with _ | e' <;>
      simp_all

theorem correlate_of_alike (h : List.Forall₂ (Alike requested) calls calls')
    (hb : ∀ id ∈ requested, id ∈ bidFor ↔ id ∈ bidFor')
    (hbuild : buildErrors.map (·.cause) = buildErrors'.map (·.cause))
    (hread : readErrors.map (·.cause) = readErrors'.map (·.cause)) :
    correlate requested calls bidFor buildErrors readErrors
      = correlate requested calls' bidFor' buildErrors' readErrors' := by
  obtain ⟨hu, hf, hs⟩ := parts_of_alike h hb
  rw [correlate, correlate, hu, hf, hs, PartnerError.map_tagged_of_causes hbuild,
    PartnerError.map_tagged_of_causes (causes_of_alike h), PartnerError.map_tagged_of_causes hread]

end Alike

theorem parts_of_perm (h : calls'.Perm calls) :
    unsent requested calls' = unsent requested calls
      ∧ failed requested calls' = failed requested calls
      ∧ silent requested calls' bidFor = silent requested calls bidFor := by
  refine ⟨?_, ?_, ?_⟩ <;> refine IdSet.filter_congr fun id hid => ?_
  · rw [CallReport.sent_perm h]
  · rw [CallReport.sent_perm (h.filter _)]
  · rw [CallReport.sent_perm h, CallReport.sent_perm (h.filter _)]

/-- Errors come out in the order of their categories, and say what they said. -/
theorem causes_correlate (requested : IdSet) (calls : List CallReport) (bidFor : List String)
    (buildErrors readErrors : List PartnerError) :
    (correlate requested calls bidFor buildErrors readErrors).map (·.cause)
      = (buildErrors ++ calls.filterMap (·.error) ++ readErrors).map (·.cause) := by
  simp only [correlate, List.map_append, List.map_map, Function.comp_def,
    PartnerError.cause_tagged]

/-- The reports of calls whose errors are put down to a set already. -/
def retag (ids : IdSet) (calls : List CallReport) : List CallReport :=
  calls.map fun c => { c with error := c.error.map (·.tagged ids) }

theorem retag_alike (requested ids : IdSet) (calls : List CallReport) :
    List.Forall₂ (Alike requested) calls (retag ids calls) := by
  rw [retag, List.forall₂_map_right_iff, List.forall₂_same]
  refine fun c _ => ⟨fun _ _ => Iff.rfl, ?_⟩
  rcases c.error with _ | e <;> rfl

/-- Every error comes out as it went in, in its category and with its category's tag. The
categories' parts of the request are disjoint and leave over what was answered. The tags depend on
what calls and bids say of the request, in any order, and on nothing else; so correlating again
changes nothing. -/
theorem correlate_partitions (requested : IdSet) (calls : List CallReport) (bidFor : List String)
    (buildErrors readErrors : List PartnerError) :
    let callErrors := calls.filterMap (·.error)
    let out := correlate requested calls bidFor buildErrors readErrors
    let unsent := unsent requested calls
    let failed := failed requested calls
    let silent := silent requested calls bidFor
    let answered := answered requested calls bidFor
    (out.map (·.cause) = (buildErrors ++ callErrors ++ readErrors).map (·.cause)
      ∧ out.length = buildErrors.length + callErrors.length + readErrors.length
      ∧ out.map (·.impressionIds) = List.replicate buildErrors.length unsent.tag
        ++ List.replicate callErrors.length failed.tag
        ++ List.replicate readErrors.length silent.tag)
    ∧ (∀ id,
      (id ∈ unsent ↔ id ∈ requested ∧ ∀ c ∈ calls, id ∉ c.impressionIds)
      ∧ (id ∈ failed ↔ id ∈ requested ∧ ∃ c ∈ calls, c.error ≠ none ∧ id ∈ c.impressionIds)
      ∧ (id ∈ silent ↔ id ∈ requested ∧ (∃ c ∈ calls, id ∈ c.impressionIds)
        ∧ (∀ c ∈ calls, id ∈ c.impressionIds → c.error = none) ∧ id ∉ bidFor)
      ∧ (id ∈ answered ↔ id ∈ requested ∧ (∃ c ∈ calls, id ∈ c.impressionIds)
        ∧ (∀ c ∈ calls, id ∈ c.impressionIds → c.error = none) ∧ id ∈ bidFor))
    ∧ [unsent, failed, silent, answered].Pairwise (fun s t => ∀ id ∈ s, id ∉ t)
    ∧ (∀ id, id ∈ requested ↔ ∃ s ∈ [unsent, failed, silent, answered], id ∈ s)
    ∧ (∀ calls' bidFor' buildErrors' readErrors',
      List.Forall₂ (Alike requested) calls calls' →
      (∀ id ∈ requested, id ∈ bidFor ↔ id ∈ bidFor') →
      buildErrors.map (·.cause) = buildErrors'.map (·.cause) →
      readErrors.map (·.cause) = readErrors'.map (·.cause) →
        correlate requested calls' bidFor' buildErrors' readErrors' = out)
    ∧ (∀ calls', calls'.Perm calls →
      Correlation.unsent requested calls' = unsent ∧ Correlation.failed requested calls' = failed
        ∧ Correlation.silent requested calls' bidFor = silent)
    ∧ correlate requested (retag failed calls) bidFor (buildErrors.map (·.tagged unsent))
        (readErrors.map (·.tagged silent)) = out := by
  intro callErrors out unsent failed silent answered
  refine ⟨⟨causes_correlate .., ?_, ?_⟩,
    fun id => ⟨mem_unsent, mem_failed, mem_silent, mem_answered⟩,
    parts_disjoint requested calls bidFor, mem_parts requested calls bidFor,
    fun calls' bidFor' build' read' hc hb hbuild hread =>
      (correlate_of_alike hc hb hbuild hread).symm,
    fun calls' hp => parts_of_perm hp, ?_⟩
  · simp only [out, correlate, List.length_append, List.length_map]
    rfl
  · simp only [out, correlate, List.map_append, List.map_map, Function.comp_def,
      PartnerError.impressionIds_tagged, List.map_const']
    rfl
  · -- Tagging an error leaves what it says, so the errors going in are alike.
    have hcauses (es : List PartnerError) (ids : IdSet) :
        es.map (·.cause) = (es.map (·.tagged ids)).map (·.cause) := by
      simp only [List.map_map, Function.comp_def, PartnerError.cause_tagged]
    exact (correlate_of_alike (retag_alike requested failed calls) (fun _ _ => Iff.rfl)
      (hcauses buildErrors unsent) (hcauses readErrors silent)).symm

/-- Calls that share impressions, carry one twice or carry a stranger. -/
def crowded : List CallReport :=
  [⟨["1", "2", "stranger"], none⟩, ⟨["3", "2"], some ⟨"Timed out", .timeout, none⟩⟩,
    ⟨["4", "4"], none⟩]

theorem correlate_partitions_crowded :
    let requested := IdSet.ofList ["1", "2", "3", "4", "5"]
    let e : PartnerError := ⟨"no size", .badInput, none⟩
    crowded.reverse.Perm crowded
      ∧ Correlation.failed requested crowded.reverse = .ofList ["2", "3"]
      ∧ (correlate requested crowded ["1", "stranger"] [e] [e]).map (·.impressionIds)
        = [some (.ofList ["5"]), some (.ofList ["2", "3"]), some (.ofList ["4"])] := by
  intro requested e
  have hp : crowded.reverse.Perm crowded := List.reverse_perm crowded
  obtain ⟨⟨-, -, htags⟩, -, -, -, -, hperm, -⟩ :=
    correlate_partitions requested crowded ["1", "stranger"] [e] [e]
  refine ⟨hp, (hperm _ hp).2.1.trans (by decide), htags.trans (by decide)⟩

end Correlation

end AuctionGate
