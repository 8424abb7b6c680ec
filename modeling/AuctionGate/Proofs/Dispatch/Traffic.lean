import AuctionGate.Proofs.Dispatch.Timely

/-!
# Dispatches that overlap

Errands are launched at any times, side by side or while others are under way, and time passes
between. A dispatcher that does errands by `dispatchAll` and lets time pass otherwise is the case
in which nothing is under way when the next ones are launched (`dispatchAll_run`).
-/

namespace AuctionGate

/-- An errand with the dispatcher that launches it. -/
structure Sortie where
  base : Dispatcher
  errand : Errand

def Sortie.flight (s : Sortie) : Flight := (s.base.launch s.errand).2

def Sortie.turns (s : Sortie) : List (Dispatcher × Call) := s.base.turnsOf s.errand

/-- A dispatcher in use. -/
structure Traffic where
  dispatcher : Dispatcher
  /-- The flights under way. -/
  flights : List Flight := []
  /-- All sorties so far, in their order. -/
  sorties : List Sortie := []

namespace Dispatcher

/-- The sorties of errands that are launched one after the other. -/
def sorties : Dispatcher → List Errand → List Sortie
  | _, [] => []
  | d, e :: es => ⟨d, e⟩ :: sorties (d.launch e).1 es

theorem launchAll_sorties : ∀ (es : List Errand) (d : Dispatcher),
    (d.launchAll es).2 = (d.sorties es).map (·.flight)
  | [], _ => rfl
  | e :: es, d => congrArg ((d.launch e).2 :: ·) (launchAll_sorties es (d.launch e).1)

theorem sorties_getElem? : ∀ (es : List Errand) (d : Dispatcher) (i : Nat),
    (d.sorties es)[i]? = es[i]?.map fun e => ⟨(d.launchAll (es.take i)).1, e⟩
  | [], _, _ => rfl
  | _ :: _, _, 0 => rfl
  | e :: es, d, i + 1 => sorties_getElem? es (d.launch e).1 i

end Dispatcher

namespace Traffic

inductive Act where
  | launch (es : List Errand)
  | wait (ms : Nat)

/-- A dispatcher over a transport, with a breaker a host if it has a configuration for them. -/
def new (transport : Transport) (config : Option Breaker.Config) : Traffic :=
  { dispatcher := { transport, guard := config.map fun config => { config } } }

/-- The flights that end by a time, in the order in which they end. -/
def due (t : Traffic) (limit : Nat) : List Flight :=
  (t.flights.filter (·.finish ≤ limit)).mergeSort fun f g => f.finish ≤ g.finish

def launch (t : Traffic) (es : List Errand) : Traffic :=
  let sorties := (t.dispatcher.ready es).sorties es
  { dispatcher := t.dispatcher.aloft es
    flights := t.flights ++ (sorties.map (·.flight)).filter fun f => !f.calls.isEmpty
    sorties := t.sorties ++ sorties }

def elapse (t : Traffic) (limit : Nat) : Traffic :=
  { t with
    dispatcher := ((t.due limit).foldl Dispatcher.land t.dispatcher).elapse limit
    flights := t.flights.filter (limit < ·.finish) }

def act (t : Traffic) : Act → Traffic
  | .launch es => t.launch es
  | .wait ms => t.elapse (t.dispatcher.now + ms)

def run (t : Traffic) (as : List Act) : Traffic := as.foldl act t

variable {t : Traffic} {es : List Errand}

/-- Flights that land in the order in which they end leave the dispatcher at the last end. -/
theorem foldl_land_last : ∀ (fs : List Flight) (d : Dispatcher),
    fs.Pairwise (fun f g => f.finish ≤ g.finish) → (∀ f ∈ fs, d.now ≤ f.finish) →
      (fs.foldl Dispatcher.land d).now = (fs.map (·.finish)).foldl max d.now
  | [], _, _, _ => rfl
  | f :: fs, d, hsorted, hnow => by
    obtain ⟨hle, hsorted⟩ := List.pairwise_cons.1 hsorted
    have hland := d.land_now f
    have hrest := foldl_land_last fs (d.land f) hsorted fun g hg => by rw [hland]; exact hle g hg
    rw [List.foldl_cons, hrest, List.map_cons, List.foldl_cons, hland,
      Nat.max_eq_right (hnow f List.mem_cons_self)]

/-- Errands that are done side by side leave the dispatcher when the last has ended. -/
theorem dispatchAll_now (d : Dispatcher) (es : List Errand) :
    (d.dispatchAll es).1.now = ((d.landings es).map (·.finish)).foldl max d.now := by
  rw [Dispatcher.dispatchAll_eq]
  show ((d.landings es).foldl Dispatcher.land (d.aloft es)).now = _
  rw [foldl_land_last, d.aloft_now es]
  · exact Flight.pairwise_finish _
  · intro f hf
    rw [d.aloft_now es]
    obtain ⟨before, hbefore, e, -, rfl⟩ := Dispatcher.exists_launch (Dispatcher.mem_landings hf)
    exact hbefore ▸ (before.launch_finish e).1

/-- When nothing is under way, `dispatchAll` launches errands and waits until the last has ended. -/
theorem dispatchAll_run (h : t.flights = []) (es : List Errand) :
    ∃ ms, t.run [.launch es, .wait ms]
      = { dispatcher := (t.dispatcher.dispatchAll es).1
          sorties := t.sorties ++ (t.dispatcher.ready es).sorties es } := by
  let d := t.dispatcher
  let last := ((d.landings es).map (·.finish)).foldl max d.now
  have hlandings : d.landings es
      = ((((d.ready es).sorties es).map (·.flight)).filter fun f => !f.calls.isEmpty).mergeSort
        fun f g => f.finish ≤ g.finish := by
    rw [Dispatcher.landings, ← (d.peers_ready es).launchAll es, Dispatcher.launchAll_sorties]
  have hnow : d.now ≤ last := (le_foldl_max _ _).1
  have hle : ∀ f ∈ (((d.ready es).sorties es).map (·.flight)).filter (fun f => !f.calls.isEmpty),
      f.finish ≤ last := fun f hf => by
    refine (le_foldl_max _ _).2 _ (List.mem_map_of_mem ?_)
    rw [hlandings]
    exact List.mem_mergeSort.2 hf
  have hdue : (t.launch es).due last = d.landings es := by
    rw [due, launch, h, List.nil_append, hlandings, List.filter_eq_self.2 fun f hf =>
      decide_eq_true (hle f hf)]
  have hflights : (t.launch es).flights.filter (last < ·.finish) = [] := by
    rw [launch, h, List.nil_append]
    refine List.filter_eq_nil_iff.2 fun f hf => ?_
    have := hle f hf
    simp only [decide_eq_true_eq]
    omega
  have hlanded : ((d.landings es).foldl Dispatcher.land (d.aloft es)).now = last := by
    have hlast := dispatchAll_now d es
    rwa [Dispatcher.dispatchAll_eq] at hlast
  -- By the last end every flight is due, and the dispatcher stands at that time.
  refine ⟨last - d.now, ?_⟩
  have hlimit : (t.launch es).dispatcher.now + (last - d.now) = last := by
    rw [show (t.launch es).dispatcher.now = d.now from d.aloft_now es]
    omega
  show (t.launch es).elapse ((t.launch es).dispatcher.now + (last - d.now)) = _
  rw [hlimit, elapse, hdue, hflights, Dispatcher.dispatchAll_eq, ← hlanded]
  rfl

end Traffic

end AuctionGate
