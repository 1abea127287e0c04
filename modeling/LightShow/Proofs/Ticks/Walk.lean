import LightShow.Proofs.Codec.Words
import LightShow.Proofs.Ticks.Tally
import Mathlib.Algebra.Ring.Nat

namespace LightShow.Stream

variable {ε σ : Type}

/-- The ticks to which distances lead from a start on. -/
def ticksFrom (start : Int) : List Nat → List Int
  | [] => []
  | delta :: rest => (start + delta) :: ticksFrom (start + delta) rest

/-- The ticks of a second payload go on from where the first one has led. -/
theorem ticksFrom_append (start : Int) (deltas deltas' : List Nat) :
    ticksFrom start (deltas ++ deltas') =
      ticksFrom start deltas ++ ticksFrom (start + deltas.sum) deltas' := by
  induction deltas generalizing start with
  | nil => simp [ticksFrom]
  | cons delta rest ih =>
    rw [List.cons_append, ticksFrom, ih, ticksFrom, List.cons_append, List.sum_cons, Int.natCast_add,
      Int.add_assoc]

/-- Events stand at the ticks to which their distances lead. -/
theorem map_fst_positions (start : Int) (events : List (Nat × ε)) :
    (positions start events).map (·.1) = ticksFrom start (events.map (·.1)) := by
  induction events generalizing start with
  | nil => rfl
  | cons event rest ih => simp only [positions, List.map_cons, ticksFrom, ih]

/-- A way through payloads that takes in each event as soon as it has been read. -/
structure Walk (ε σ : Type) where
  event : Reader ε
  /-- The running tick of a state. -/
  tick : σ → Int
  /-- Takes in an event at a tick. -/
  take : σ → Int → ε → Tally σ

namespace Walk

/-- Goes through a payload. The running tick moves on once a distance has been read, whatever then
becomes of the event. -/
def run (w : Walk ε σ) (s : σ) (payload : Bytes) : Tally σ :=
  if payload = [] then pure s
  else do
    let (delta, behind) ← .ofExcept (Varint.read payload)
    let tick ← .compute (.running (w.tick s) delta)
    let (e, rest) ← .ofExcept (w.event behind)
    let s ← w.take s tick e
    if rest.length < payload.length then w.run s rest else return s
termination_by payload.length

/-- Goes through one payload after another. -/
def runAll (w : Walk ε σ) (s : σ) (payloads : List Bytes) : Tally σ := payloads.foldlM w.run s

/-- What a walk does with events: it reads them by their forms, moves its tick on, and takes in
without an error and without moving on what `next` says. -/
structure Follows (w : Walk ε σ) (form : ε → Bytes → Prop) (next : σ → Nat × ε → σ) : Prop where
  reads : Reader.Reads w.event form
  ne_nil : ∀ e front, form e front → front ≠ []
  tick_next : ∀ s event, w.tick (next s event) = w.tick s + event.1
  outcome_take : ∀ s (delta : Nat) e front, 0 ≤ w.tick s → form e front →
    (w.take s (w.tick s + delta) e).outcome = .ok (next s (delta, e))
  running_take : ∀ s tick e, (w.take s tick e).running = []

/-- How a walk goes from a state on, with what it comes to and what is read at each point. -/
inductive Goes (w : Walk ε σ) (next : σ → Nat × ε → σ) : σ → Bytes → Prop
  | finished (s : σ) : Goes w next s []
  /-- No distance can be read. -/
  | lost {s : σ} {payload : Bytes} {error : CodecError}
    (hrun : w.run s payload = .ofExcept (.error error))
    (hread : read w.event payload = .error error) : Goes w next s payload
  /-- Behind a distance, no event can be read. -/
  | stuck {s : σ} {payload : Bytes} {delta : Nat} {error : CodecError} (hne : payload ≠ [])
    (hdelta : delta < 2 ^ 35) (hsums : (w.run s payload).sums = [.running (w.tick s) delta])
    (houtcome : (w.run s payload).outcome = .error error)
    (hread : read w.event payload = .error error) : Goes w next s payload
  | onward {s : σ} {front rest : Bytes} {delta : Nat} {e : ε} (hfront : 2 ≤ front.length)
    (hdelta : delta < 2 ^ 35)
    (htake : (w.take s (w.tick s + delta) e).outcome = .ok (next s (delta, e)))
    (hsums : (w.run s (front ++ rest)).sums = .running (w.tick s) delta ::
      ((w.take s (w.tick s + delta) e).sums ++ (w.run (next s (delta, e)) rest).sums))
    (houtcome : (w.run s (front ++ rest)).outcome = (w.run (next s (delta, e)) rest).outcome)
    (hread : read w.event (front ++ rest) = (read w.event rest).map ((delta, e) :: ·))
    (hrest : Goes w next (next s (delta, e)) rest) : Goes w next s (front ++ rest)

variable {w : Walk ε σ} {form : ε → Bytes → Prop} {next : σ → Nat × ε → σ} {s s' : σ}
  {payload behind rest : Bytes} {delta : Nat} {e : ε} {error : CodecError}

@[simp] theorem run_nil : w.run s [] = pure s := by
  rw [run, if_pos rfl]

/-- Where no distance can be read no tick is computed. -/
theorem run_of_lost (hne : payload ≠ []) (h : Varint.read payload = .error error) :
    w.run s payload = .ofExcept (.error error) := by
  rw [run, if_neg hne, h, Tally.ofExcept_error_bind]

/-- A distance moves the running tick on, although its event cannot be read. -/
theorem run_of_stuck (hne : payload ≠ []) (hdelta : Varint.read payload = .ok (delta, behind))
    (h : w.event behind = .error error) :
    (w.run s payload).sums = [.running (w.tick s) delta] ∧
      (w.run s payload).outcome = .error error := by
  rw [run, if_neg hne, hdelta, Tally.ofExcept_ok_bind]
  simp only [Tally.sums_compute_bind, Tally.outcome_bind, Tally.outcome_compute, Outcome.ok_bind, h,
    Tally.ofExcept_error_bind]
  exact ⟨rfl, rfl⟩

/-- An event is taken in, and then it goes on behind it. -/
theorem run_of_onward (hlength : rest.length < payload.length)
    (hdelta : Varint.read payload = .ok (delta, behind)) (hevent : w.event behind = .ok (e, rest))
    (htake : (w.take s (w.tick s + delta) e).outcome = .ok s') :
    (w.run s payload).sums = .running (w.tick s) delta ::
        ((w.take s (w.tick s + delta) e).sums ++ (w.run s' rest).sums) ∧
      (w.run s payload).outcome = (w.run s' rest).outcome := by
  have hne : payload ≠ [] := List.ne_nil_of_length_pos (Nat.zero_lt_of_lt hlength)
  rw [run, if_neg hne, hdelta, Tally.ofExcept_ok_bind]
  simp only [Tally.sums_compute_bind, Tally.outcome_bind, Tally.outcome_compute, hevent,
    Tally.ofExcept_ok_bind, TickSum.value, Outcome.ok_bind, htake, Tally.sums_bind_of_ok htake,
    if_pos hlength]
  exact ⟨trivial, trivial⟩

/-- Every walk that follows events goes on in this way, whatever the payload is. -/
theorem Follows.goes (h : w.Follows form next) (hs : 0 ≤ w.tick s) (payload : Bytes) :
    w.Goes next s payload := by
  -- On the bytes that are left, of which an event takes two at least.
  induction hlength : payload.length using Nat.strongRecOn generalizing s payload with
  | ind n ih =>
    subst hlength
    by_cases hne : payload = []
    · rw [hne]
      exact .finished s
    cases hdelta : Varint.read payload with
    | error error =>
      refine .lost (run_of_lost hne hdelta) (Reader.toEnd_of_error hne ?_)
      exact Reader.bind_eq_error_iff.2 (.inl hdelta)
    | ok p =>
      obtain ⟨delta, behind⟩ := p
      obtain ⟨first, hpayload, hfirst⟩ := (Varint.reads_read _ _ _).1 hdelta
      have hlt : delta < 2 ^ 35 := by
        rw [← Varint.limit_maxLength]
        exact hfirst.1.lt_limit.trans_le (Varint.limit_mono hfirst.2)
      cases hevent : w.event behind with
      | error error =>
        obtain ⟨hsums, houtcome⟩ := run_of_stuck (s := s) hne hdelta hevent
        refine .stuck hne hlt hsums houtcome (Reader.toEnd_of_error hne ?_)
        exact Reader.bind_eq_error_iff.2
          (.inr ⟨delta, behind, hdelta, Reader.bind_eq_error_iff.2 (.inl hevent)⟩)
      | ok p =>
        obtain ⟨e, rest⟩ := p
        obtain ⟨second, rfl, hsecond⟩ := (h.reads _ _ _).1 hevent
        subst hpayload
        have hfirstLength := List.length_pos_iff.2 hfirst.1.ne_nil
        have hsecondLength := List.length_pos_iff.2 (h.ne_nil e second hsecond)
        have hshorter : rest.length < (first ++ (second ++ rest)).length := by
          simp only [List.length_append]
          omega
        have htake := h.outcome_take s delta e second hs hsecond
        obtain ⟨hsums, houtcome⟩ := run_of_onward hshorter hdelta hevent htake
        have htimed : Timed form (delta, e) (first ++ second) :=
          ⟨first, second, rfl, hfirst, hsecond⟩
        have hread := (reads_timed h.reads).toEnd_append htimed htimed.ne_nil rest
        have hnext : 0 ≤ w.tick (next s (delta, e)) := by
          rw [h.tick_next]
          omega
        rw [← List.append_assoc] at hsums houtcome ⊢
        refine .onward ?_ hlt htake hsums houtcome hread (ih _ hshorter hnext rest rfl)
        rw [List.length_append]
        omega

/-- Taking in events as they are read comes to the same as reading all of them first. -/
theorem Goes.outcome_run (h : w.Goes next s payload) :
    (w.run s payload).outcome = (read w.event payload).map (·.foldl next s) := by
  induction h with
  | finished s =>
    rw [run_nil, read, Reader.toEnd_nil]
    rfl
  | lost hrun hread =>
    rw [hrun, hread]
    rfl
  | stuck _ _ _ houtcome hread =>
    rw [houtcome, hread]
    rfl
  | @onward _ _ rest _ _ _ _ _ _ houtcome hread _ ih =>
    rw [houtcome, hread, ih]
    cases read w.event rest <;> rfl

/-- The running ticks are those to which the distances lead that have been read, and where no error
stops the walk, these are the distances of the events. -/
theorem Follows.running_run (h : w.Follows form next) (hgoes : w.Goes next s payload) :
    ∃ deltas : List Nat, (∀ delta ∈ deltas, delta < 2 ^ 35) ∧
      (w.run s payload).running = ticksFrom (w.tick s) deltas ∧
      ∀ events, read w.event payload = .ok events → deltas = events.map (·.1) := by
  induction hgoes with
  | finished s =>
    refine ⟨[], fun _ hmem => absurd hmem List.not_mem_nil, ?_, fun events hread => ?_⟩
    · rw [run_nil]
      rfl
    · rw [read, Reader.toEnd_nil] at hread
      cases hread
      rfl
  | lost hrun hread =>
    refine ⟨[], fun _ hmem => absurd hmem List.not_mem_nil, ?_, fun events hevents => ?_⟩
    · rw [hrun]
      rfl
    · cases hread.symm.trans hevents
  | @stuck _ _ delta _ _ hdelta hsums _ hread =>
    refine ⟨[delta], List.forall_mem_singleton.2 hdelta, ?_, fun events hevents => ?_⟩
    · rw [Tally.running, hsums]
      rfl
    · cases hread.symm.trans hevents
  | @onward s _ rest delta e _ hdelta _ hsums _ hread _ ih =>
    obtain ⟨deltas, hdeltas, hrunning, hevents⟩ := ih
    refine ⟨delta :: deltas, List.forall_mem_cons.2 ⟨hdelta, hdeltas⟩, ?_, fun events hall => ?_⟩
    · have htake := h.running_take s (w.tick s + delta) e
      rw [Tally.running] at htake hrunning
      rw [Tally.running, hsums, List.filterMap_cons, List.filterMap_append, htake, hrunning,
        h.tick_next]
      rfl
    · rw [hread] at hall
      obtain ⟨more, hmore, rfl⟩ := Outcome.map_eq_ok_iff.1 hall
      rw [hevents more hmore]
      rfl

/-- The running tick moves on by the sum of all distances. -/
theorem Follows.tick_foldl (h : w.Follows form next) (s : σ) (events : List (Nat × ε)) :
    w.tick (events.foldl next s) = w.tick s + (events.map (·.1)).sum := by
  induction events generalizing s with
  | nil => simp
  | cons event rest ih =>
    rw [List.foldl_cons, ih, h.tick_next, List.map_cons, List.sum_cons, Int.natCast_add,
      Int.add_assoc]

theorem runAll_cons (payload : Bytes) (payloads : List Bytes) :
    w.runAll s (payload :: payloads) = w.run s payload >>= fun s => w.runAll s payloads := by
  rw [runAll, List.foldlM_cons]
  rfl

/-- Going through payloads event by event comes to what the events of all payloads come to. -/
theorem Follows.outcome_runAll (h : w.Follows form next) (hs : 0 ≤ w.tick s)
    (payloads : List Bytes) :
    (w.runAll s payloads).outcome =
      (payloads.mapM (read w.event)).map fun parts => parts.flatten.foldl next s := by
  induction payloads generalizing s with
  | nil => rfl
  | cons payload payloads ih =>
    rw [runAll_cons, Tally.outcome_bind, (h.goes hs payload).outcome_run, List.mapM_cons]
    cases read w.event payload with
    | error error => rfl
    | ok events =>
      have hlater : 0 ≤ w.tick (events.foldl next s) := by
        rw [h.tick_foldl]
        omega
      rw [Except.map, Outcome.ok_bind, Outcome.ok_bind, ih hlater]
      cases payloads.mapM (read w.event) with
      | error error => rfl
      | ok parts => exact congrArg Except.ok List.foldl_append.symm

/-- The running ticks of many payloads are those of their distances, counted on from one payload to
the next. As long as no payload fails these are the distances of all events. -/
theorem Follows.running_runAll (h : w.Follows form next) (hs : 0 ≤ w.tick s)
    (payloads : List Bytes) :
    ∃ deltas : List Nat, (∀ delta ∈ deltas, delta < 2 ^ 35) ∧
      (w.runAll s payloads).running = ticksFrom (w.tick s) deltas ∧
      ∀ parts : List (List (Nat × ε)), payloads.map (read w.event) = parts.map .ok →
        deltas = parts.flatten.map (·.1) := by
  induction payloads generalizing s with
  | nil =>
    refine ⟨[], fun _ hmem => absurd hmem List.not_mem_nil, rfl, fun parts hparts => ?_⟩
    rw [List.map_nil, eq_comm, List.map_eq_nil_iff] at hparts
    rw [hparts]
    rfl
  | cons payload payloads ih =>
    have hgoes := h.goes hs payload
    have houtcome := hgoes.outcome_run
    obtain ⟨deltas, hdeltas, hrunning, hevents⟩ := h.running_run hgoes
    rw [runAll_cons]
    cases hread : read w.event payload with
    | error error =>
      rw [hread] at houtcome
      rw [Tally.running, Tally.sums_bind_of_error houtcome]
      refine ⟨deltas, hdeltas, hrunning, fun parts hparts => ?_⟩
      rw [List.map_cons, hread] at hparts
      cases parts <;> cases hparts
    | ok events =>
      rw [hread] at houtcome
      have htick := h.tick_foldl s events
      obtain ⟨deltas', hdeltas', hrunning', hparts⟩ := ih (s := events.foldl next s) (by omega)
      rw [Tally.running, Tally.sums_bind_of_ok houtcome]
      refine ⟨deltas ++ deltas', List.forall_mem_append.2 ⟨hdeltas, hdeltas'⟩, ?_,
        fun parts hall => ?_⟩
      · rw [Tally.running] at hrunning hrunning'
        rw [List.filterMap_append, hrunning, hrunning', htick, ticksFrom_append,
          hevents events hread]
      · rw [List.map_cons, hread] at hall
        cases parts with
        | nil => cases hall
        | cons part parts =>
          rw [List.map_cons, List.cons.injEq, Except.ok.injEq] at hall
          obtain ⟨rfl, hrest⟩ := hall
          rw [hevents events hread, hparts parts hrest, List.flatten_cons, List.map_append]

end Walk

end LightShow.Stream
