import AuctionGate.Dispatch.Network
import Mathlib.Algebra.BigOperators.Group.List.Basic
import Mathlib.Tactic.Ring

/-!
# Exchanges are whole

Given time, an exchange comes to its conclusion: a response with all that its chunks say, or what
failed first. The timeout cuts it off if that would be too late, and changes nothing otherwise. So
a response has the whole body, a failure tells what failed, and everything else is a timeout, at the
time of the timeout (`exchange_whole`).
-/

namespace AuctionGate

namespace Timeline

/-! ### When things happen -/

variable (p : Timeline)

/-- When the connection is there. -/
def connectedAt : Option Nat :=
  match p.connection with
  | some (t, .ok ()) => some t
  | _ => none

/-- When the head is there, with the status and the headers. -/
def headAt : Option (Nat × Nat × List Http.Header) :=
  match p.connectedAt, p.head with
  | some t, some (d, .ok h) => some (t + d, h)
  | _, _ => none

/-- How long the chunks take. -/
def flow : Nat := (p.chunks.map (·.1)).sum

/-- All that the chunks say. -/
def body : Octets := p.chunks.flatMap (·.2)

/-- When the end of the body is there. -/
def endAt : Option Nat :=
  match p.headAt, p.ending with
  | some (t, _), some (d, .ok ()) => some (t + p.flow + d)
  | _, _ => none

/-- What fails, and when. -/
def fault? : Option (Nat × ExchangeFault) :=
  match p.connection, p.head, p.ending with
  | some (t, .error causes), _, _ => some (t, .connection causes)
  | some (t, .ok ()), some (d, .error causes), _ => some (t + d, .head causes)
  | some (t, .ok ()), some (d, .ok _), some (e, .error cause) =>
    some (t + d + p.flow + e, .body cause)
  | _, _, _ => none

/-! ### The conclusion -/

/-- What comes after a connection if it is given time. -/
def answer (connected : Nat) : Coming (Except ExchangeFault Http.Response) :=
  match p.head with
  | none => none
  | some (d, .error causes) => some (connected + d, .error (.head causes))
  | some (d, .ok (status, headers)) =>
    p.ending.map fun x => (connected + d + p.flow + x.1,
      match x.2 with
      | .error cause => .error (.body cause)
      | .ok () => .ok ⟨status, headers, p.body⟩)

/-- What an exchange comes to if it is given time. -/
def conclusion : Coming (Except ExchangeFault Http.Response) :=
  match p.connection with
  | none => none
  | some (t, .error causes) => some (t, .error (.connection causes))
  | some (t, .ok ()) => p.answer t

variable {p} {t : Nat}

theorem conclusion_error {f : ExchangeFault} :
    p.conclusion = some (t, .error f) ↔ p.fault? = some (t, f) := by
  rcases p with ⟨_ | ⟨t, causes | _⟩, _ | ⟨d, causes' | ⟨status, headers⟩⟩, chunks,
    _ | ⟨e, cause | _⟩⟩ <;> simp [conclusion, answer, fault?]

theorem conclusion_ok {r : Http.Response} :
    p.conclusion = some (t, .ok r)
      ↔ p.endAt = some t ∧ r.body = p.body
        ∧ ∃ h c, p.headAt = some (h, r.status, r.headers) ∧ p.connectedAt = some c := by
  rcases r with ⟨status', headers', body'⟩
  rcases p with ⟨_ | ⟨t, causes | _⟩, _ | ⟨d, causes' | ⟨status, headers⟩⟩, chunks,
    _ | ⟨e, cause | _⟩⟩ <;> simp [conclusion, answer, endAt, headAt, connectedAt]
  refine fun _ => ⟨?_, ?_⟩ <;> (rintro ⟨rfl, rfl, rfl⟩; exact ⟨rfl, rfl, rfl⟩)

theorem before_endAt (he : p.endAt = some t) :
    ∃ h status headers c, p.headAt = some (h, status, headers) ∧ p.connectedAt = some c := by
  unfold endAt at he
  split at he
  · next h x _ hh _ =>
    have hh' := hh
    unfold headAt at hh'
    split at hh'
    · next hc _ => exact ⟨h, x.1, x.2, _, hh, hc⟩
    · cases hh'
  · cases he

/-- The conclusion tells what fails, and the end otherwise. -/
theorem forall_conclusion {q : Nat → Prop} : (∀ x, p.conclusion = some x → q x.1)
    ↔ (∀ t, p.endAt = some t → q t) ∧ ∀ t f, p.fault? = some (t, f) → q t := by
  constructor
  · refine fun h => ⟨fun t he => ?_, fun t f hf => h _ (conclusion_error.2 hf)⟩
    obtain ⟨_, status, headers, c, hh, hc⟩ := before_endAt he
    exact h (t, .ok ⟨status, headers, p.body⟩) (conclusion_ok.2 ⟨he, rfl, _, c, hh, hc⟩)
  · rintro ⟨hend, hfault⟩ ⟨t, f | r⟩ hx
    · exact hfault t f (conclusion_error.1 hx)
    · exact hend t (conclusion_ok.1 hx).1

theorem le_of_answer {connected : Nat} {x : Nat × Except ExchangeFault Http.Response}
    (h : p.answer connected = some x) : connected ≤ x.1 := by
  unfold answer at h
  split at h
  · cases h
  · cases h
    exact Nat.le_add_right ..
  · obtain ⟨y, -, rfl⟩ := Option.map_eq_some_iff.1 h
    simp only [Nat.add_assoc, Nat.le_add_right]

theorem endAt_late {h c : Nat} {x : Nat × List Http.Header} (hc : p.connectedAt = some c)
    (hh : p.headAt = some (h, x)) (he : p.endAt = some t) : c ≤ h ∧ h ≤ t := by
  simp only [endAt, hh] at he
  simp only [headAt, hc] at hh
  split at he <;> simp_all
  split at hh <;> simp_all
  omega

end Timeline

namespace Exchange

variable {timeout : Nat}

/-- A conclusion that comes in time is told, and any other is cut off. -/
def settle (timeout : Nat) : Coming (Except ExchangeFault Http.Response) → Settlement
  | none => cut timeout
  | some (t, r) =>
    if t ≤ timeout then
      match r with
      | .error f => failed f t
      | .ok r => (.response r, t)
    else cut timeout

theorem await_some {α : Type} (timeout spent d : Nat) (x : α) :
    await timeout spent (some (d, x))
      = if spent + d ≤ timeout then some (spent + d, x) else none := by
  by_cases h : spent + d ≤ timeout <;> simp [await, Option.filter, h]

theorem settle_late {c : Coming (Except ExchangeFault Http.Response)}
    (h : ∀ x, c = some x → timeout < x.1) : settle timeout c = cut timeout := by
  rcases c with _ | x
  · rfl
  · exact if_neg (Nat.not_le.2 (h x rfl))

/-- Chunk after chunk, the body is read up to its end or its failure. -/
theorem readBody_eq (ending : Coming (Except Cause Unit)) (status : Nat)
    (headers : List Http.Header) : ∀ (chunks : List (Nat × Octets)) (spent : Nat)
      (received : Octets), readBody timeout ending status headers spent received chunks
        = settle timeout (ending.map fun x => (spent + (chunks.map (·.1)).sum + x.1,
            match x.2 with
            | .error cause => .error (.body cause)
            | .ok () => .ok ⟨status, headers, received ++ chunks.flatMap (·.2)⟩))
  | [], spent, received => by
    rcases ending with _ | ⟨e, cause | _⟩
    · rfl
    all_goals
      rw [readBody, await_some]
      by_cases h : spent + e ≤ timeout <;> simp [settle, h]
  | (d, octets) :: chunks, spent, received => by
    rw [readBody, await_some]
    by_cases h : spent + d ≤ timeout
    · simp only [if_pos h, readBody_eq ending status headers chunks, List.map_cons, List.sum_cons,
        List.flatMap_cons, List.append_assoc, Nat.add_assoc]
    -- what comes after a chunk that is late is later
    · rw [if_neg h, settle_late]
      rintro x hx
      obtain ⟨y, -, rfl⟩ := Option.map_eq_some_iff.1 hx
      simp only [List.map_cons, List.sum_cons]
      omega

theorem readHead_eq (p : Timeline) (timeout spent : Nat) :
    readHead timeout p spent = settle timeout (p.answer spent) := by
  rcases hhead : p.head with _ | ⟨d, causes | ⟨status, headers⟩⟩
  · simp only [readHead, Timeline.answer, hhead]
    rfl
  · simp only [readHead, Timeline.answer, hhead, await_some]
    by_cases h : spent + d ≤ timeout <;> simp [settle, h]
  · simp only [readHead, Timeline.answer, hhead, await_some]
    by_cases h : spent + d ≤ timeout
    · simp only [if_pos h, readBody_eq, List.nil_append]
      rfl
    · rw [if_neg h, settle_late]
      rintro x hx
      obtain ⟨y, -, rfl⟩ := Option.map_eq_some_iff.1 hx
      simp only
      omega

/-- The timeout cuts an exchange off or leaves it as it is. -/
theorem execute_eq (p : Timeline) (timeout : Nat) :
    execute p timeout = settle timeout p.conclusion := by
  rcases hconn : p.connection with _ | ⟨t, causes | _⟩
  · simp only [execute, Timeline.conclusion, hconn]
    rfl
  · simp only [execute, Timeline.conclusion, hconn, await_some, Nat.zero_add]
    by_cases h : t ≤ timeout <;> simp [settle, h]
  · simp only [execute, Timeline.conclusion, hconn, await_some, Nat.zero_add]
    by_cases h : t ≤ timeout
    · rw [if_pos h]
      exact readHead_eq p timeout t
    · rw [if_neg h, settle_late fun x hx => ?_]
      exact (Nat.not_le.1 h).trans_le (Timeline.le_of_answer hx)

theorem settle_eq_response {c : Coming (Except ExchangeFault Http.Response)} {r : Http.Response}
    {t : Nat} : settle timeout c = (.response r, t) ↔ c = some (t, .ok r) ∧ t ≤ timeout := by
  rcases c with _ | ⟨t', f | r'⟩
  · exact iff_of_false nofun nofun
  all_goals
    by_cases h : t' ≤ timeout <;> simp [settle, h, cut, failed] <;> grind

theorem settle_eq_failure {c : Coming (Except ExchangeFault Http.Response)} {g : TransportFailure}
    {t : Nat} : settle timeout c = (.failure g, t)
      ↔ ∃ f, c = some (t, .error f) ∧ t ≤ timeout ∧ g = f.failure := by
  rcases c with _ | ⟨t', f | r'⟩
  · exact iff_of_false nofun nofun
  all_goals
    by_cases h : t' ≤ timeout <;> simp [settle, h, cut, failed] <;> grind

theorem settle_eq_timeout {c : Coming (Except ExchangeFault Http.Response)} :
    (settle timeout c).1 = .timeout ↔ ∀ x, c = some x → timeout < x.1 := by
  refine ⟨fun h x hx => Nat.lt_of_not_le fun hle => ?_, fun h => by rw [settle_late h]; rfl⟩
  obtain ⟨t, f | r⟩ := x
  · rw [hx, settle, if_pos hle] at h
    cases h
  · rw [hx, settle, if_pos hle] at h
    cases h

end Exchange

/-! ### Exchanges of a network -/

/-- What goes wrong in an exchange: the request does not say where to, or something fails that the
peer was to do. -/
inductive Mishap where
  | refused
  | fault (f : ExchangeFault)
  deriving DecidableEq

def Mishap.failure : Mishap → TransportFailure
  | refused => unaddressed
  | fault f => f.failure

theorem Mishap.kind_eq (m : Mishap) :
    m.failure.kind = .connectTimeout ∨ m.failure.kind = .other := by
  rcases m with _ | ⟨causes | causes | cause⟩
  · exact .inr rfl
  · exact ite_eq_or_eq ..
  · exact .inr rfl
  · exact .inr rfl

/-- Only a connection can time out by itself, and any of its causes may say so. -/
theorem Mishap.kind_connectTimeout {m : Mishap} : m.failure.kind = .connectTimeout
    ↔ ∃ causes, m = .fault (.connection causes) ∧ ∃ c ∈ causes, c.timedOut = true := by
  rcases m with _ | ⟨causes | causes | cause⟩ <;>
    simp [failure, ExchangeFault.failure, ExchangeFault.kind, unaddressed]

/-- An exchange that comes to its conclusion just at the timeout left out. -/
theorem Exchange.execute_whole {p : Timeline} {timeout : Nat}
    (hend : ∀ t, p.endAt = some t → t ≠ timeout)
    (hfault : ∀ t f, p.fault? = some (t, f) → t ≠ timeout) :
    (∀ response t, execute p timeout = (.response response, t)
        ↔ (∃ c, p.connectedAt = some c ∧ c < timeout)
          ∧ (∃ h, p.headAt = some (h, response.status, response.headers) ∧ h < timeout)
          ∧ p.endAt = some t ∧ t < timeout ∧ response.body = p.body)
      ∧ ((execute p timeout).1 = .timeout
        ↔ (∀ t, p.endAt = some t → timeout < t) ∧ ∀ t f, p.fault? = some (t, f) → timeout < t)
      ∧ ((execute p timeout).1 = .timeout → (execute p timeout).2 = timeout)
      ∧ ∀ g t, execute p timeout = (.failure g, t)
        ↔ ∃ f, p.fault? = some (t, f) ∧ t < timeout ∧ g = f.failure := by
  rw [execute_eq]
  refine ⟨fun response t => ?_, ?_, fun h => ?_, fun g t => ?_⟩
  · rw [settle_eq_response, Timeline.conclusion_ok]
    constructor
    · rintro ⟨⟨he, hbody, h, c, hh, hc⟩, hle⟩
      obtain ⟨hch, hht⟩ := Timeline.endAt_late hc hh he
      have hlt : t < timeout := Nat.lt_of_le_of_ne hle (hend t he)
      exact ⟨⟨c, hc, by omega⟩, ⟨h, hh, by omega⟩, he, hlt, hbody⟩
    · rintro ⟨⟨c, hc, -⟩, ⟨h, hh, -⟩, he, hlt, hbody⟩
      exact ⟨⟨he, hbody, h, c, hh, hc⟩, Nat.le_of_lt hlt⟩
  · rw [settle_eq_timeout, Timeline.forall_conclusion]
  · rw [settle_late (settle_eq_timeout.1 h)]
    rfl
  · rw [settle_eq_failure]
    refine exists_congr fun f => ?_
    rw [Timeline.conclusion_error]
    exact and_congr_right fun hf => and_congr_left' ⟨fun hle =>
      Nat.lt_of_le_of_ne hle (hfault t f hf), Nat.le_of_lt⟩

namespace Network

variable (n : Network) (connectTimeout : Option Nat) (r : Http.Request)

/-- The peer of a request as the client sees it, which is not at all if the request is refused. -/
def peer : Timeline := if r.isAddressed then (n r).connectWithin connectTimeout else .silent

/-- What goes wrong in the exchange of a request, and when. -/
def mishap? : Option (Nat × Mishap) :=
  if r.isAddressed then (n.peer connectTimeout r).fault?.map fun x => (x.1, .fault x.2)
  else some (0, .refused)

/-- A response tells all that its peer says, and comes exactly if the connection, the head and the
end of the body come before the timeout. If neither that end nor anything that goes wrong comes
before it, the exchange times out at the timeout. Otherwise it fails with what goes wrong, when it
does. It is a timeout of the connection exactly if the connection fails and any of the causes of
that is that something timed out. Of what happens just at the timeout nothing is said. -/
theorem exchange_whole (timeout : Nat) (ends : (n.peer connectTimeout r).endAt ≠ some timeout)
    (fails : (n.mishap? connectTimeout r).map (·.1) ≠ some timeout) :
    let p := n.peer connectTimeout r
    let mishap? := n.mishap? connectTimeout r
    let result := n.exchange connectTimeout r timeout
    (∀ response t, result = (.response response, t)
        ↔ (∃ c, p.connectedAt = some c ∧ c < timeout)
          ∧ (∃ h, p.headAt = some (h, response.status, response.headers) ∧ h < timeout)
          ∧ p.endAt = some t ∧ t < timeout ∧ response.body = p.body)
      ∧ (result.1 = .timeout
        ↔ (∀ t, p.endAt = some t → timeout < t) ∧ ∀ t m, mishap? = some (t, m) → timeout < t)
      ∧ (result.1 = .timeout → result.2 = timeout)
      ∧ (∀ g t, result = (.failure g, t) ↔ ∃ m, mishap? = some (t, m) ∧ t < timeout ∧ g = m.failure)
      ∧ ∀ m : Mishap, (m.failure.kind = .connectTimeout ∨ m.failure.kind = .other)
        ∧ (m.failure.kind = .connectTimeout
          ↔ ∃ causes, m = .fault (.connection causes) ∧ ∃ c ∈ causes, c.timedOut = true) := by
  intro p mishap? result
  by_cases hr : r.isAddressed = true
  · have hresult : result = Exchange.execute p timeout := by
      simp only [result, exchange, p, peer, if_pos hr]
    have hmishap : ∀ t m, mishap? = some (t, m) ↔ ∃ f, p.fault? = some (t, f) ∧ m = .fault f := by
      intro t m
      simp only [mishap?, Network.mishap?, if_pos hr, Option.map_eq_some_iff]
      constructor
      · rintro ⟨⟨t', f⟩, hf, heq⟩
        obtain ⟨rfl, rfl⟩ := Prod.mk.inj heq
        exact ⟨f, hf, rfl⟩
      · rintro ⟨f, hf, rfl⟩
        exact ⟨_, hf, rfl⟩
    obtain ⟨hresponse, htimeout, hat, hfailure⟩ := Exchange.execute_whole
      (fun t he heq => ends (he.trans (congrArg some heq)))
      (fun t f hf heq => fails (Option.map_eq_some_iff.2 ⟨_, (hmishap t _).2 ⟨f, hf, rfl⟩, heq⟩))
    rw [← hresult] at hresponse htimeout hat hfailure
    refine ⟨hresponse, htimeout.trans (and_congr_right' ⟨fun h t m hm => ?_, fun h t f hf => ?_⟩),
      hat, fun g t => (hfailure g t).trans ⟨?_, ?_⟩, fun m => ⟨m.kind_eq, m.kind_connectTimeout⟩⟩
    · obtain ⟨f, hf, -⟩ := (hmishap t m).1 hm
      exact h t f hf
    · exact h t _ ((hmishap t _).2 ⟨f, hf, rfl⟩)
    · rintro ⟨f, hf, hlt, rfl⟩
      exact ⟨_, (hmishap t _).2 ⟨f, hf, rfl⟩, hlt, rfl⟩
    · rintro ⟨m, hm, hlt, rfl⟩
      obtain ⟨f, hf, rfl⟩ := (hmishap t m).1 hm
      exact ⟨f, hf, hlt, rfl⟩
  · have hresult : result = (.failure unaddressed, 0) := if_neg hr
    have hp : p = .silent := if_neg hr
    have hmishap : mishap? = some (0, .refused) := if_neg hr
    have hpos : 0 < timeout := Nat.pos_of_ne_zero fun heq =>
      fails (Option.map_eq_some_iff.2 ⟨_, hmishap, heq.symm⟩)
    rw [hresult, hp, hmishap]
    refine ⟨fun response t => ?_, ?_, nofun, fun g t => ?_,
      fun m => ⟨m.kind_eq, m.kind_connectTimeout⟩⟩
    · exact iff_of_false nofun fun ⟨⟨c, hc, _⟩, _⟩ => nomatch hc
    · exact iff_of_false nofun fun ⟨_, h⟩ => Nat.not_lt_zero _ (h 0 _ rfl)
    · constructor
      · intro h
        cases h
        exact ⟨_, rfl, hpos, rfl⟩
      · rintro ⟨m, hm, -, rfl⟩
        cases hm
        rfl

/-- A body in two chunks comes whole by forty, and not at all by thirty-five, although the head and
the first chunk are there. A connection that times out by itself says so somewhere among its
causes. -/
theorem exchange_whole_chunked :
    let request : Http.Request := ⟨⟨"POST"⟩, ⟨some "http", some "dsp:80", "/", none⟩, [], []⟩
    let chunked : Network := fun _ => ⟨some (5, .ok ()), some (10, .ok (200, [])),
      [(10, [1, 2]), (10, [3])], some (5, .ok ())⟩
    let stalled : Network := fun _ => .refused [⟨"tcp connect error", false⟩, ⟨"elapsed", true⟩]
    chunked.exchange none request 50 = (.response ⟨200, [], [1, 2, 3]⟩, 40)
      ∧ chunked.exchange none request 35 = (.timeout, 35)
      ∧ ∃ g, stalled.exchange none request 50 = (.failure g, 0) ∧ g.kind = .connectTimeout := by
  intro request chunked stalled
  obtain ⟨hwhole, -⟩ := exchange_whole chunked none request 50 (by decide) (by decide)
  obtain ⟨-, hcut, hat, -⟩ := exchange_whole chunked none request 35 (by decide) (by decide)
  obtain ⟨-, -, -, hfailure, hkind⟩ :=
    exchange_whole stalled none request 50 (by decide) (by decide)
  have htimeout := hcut.2 ⟨fun t ht => by cases ht; decide, fun t m hm => by cases hm⟩
  refine ⟨(hwhole _ _).2 ?_, Prod.ext htimeout (hat htimeout), ?_⟩
  · exact ⟨⟨5, rfl, by decide⟩, ⟨15, rfl, by decide⟩, rfl, by decide, rfl⟩
  · refine ⟨_, (hfailure _ _).2 ⟨_, rfl, by decide, rfl⟩, (hkind _).2.2 ⟨_, rfl, ?_⟩⟩
    exact ⟨_, List.mem_cons_of_mem _ List.mem_cons_self, rfl⟩

end Network

end AuctionGate
