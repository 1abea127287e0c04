import LightShow.Proofs.Playback.Obedience
import LightShow.Proofs.Playback.Willing
import Mathlib.Data.List.Forall2

namespace LightShow

open Control Rig

namespace LoopRef

variable {ref : LoopRef} {pad : Pad} {rig rig' : Rig} {awaited : Prop}

/-- While a loop is stopped every loop has an honest run, and only the end of that one is waited
for. -/
theorem carries_stop (ref : LoopRef) (rig : Rig) (n : Nat) :
    rig.Carries (ref.number = n) n (ref.stop.run rig).2 :=
  rig.carries_handle (.stop ref)

/-- The loop is on the pad, the account of its calls is right, and nobody has waited for its end. -/
structure InHand (ref : LoopRef) (pad : Pad) (rig : Rig) : Prop where
  pad : ref.pad = pad
  loop : ∃ l, rig.loops[ref.number]? = some l ∧ l.joined = false ∧
    l.Account (rig.dealings ref.number)

/-- A loop stays in hand as long as nobody waits for its end. -/
theorem InHand.carries (h : ref.InHand pad rig) (hcarries : rig.Carries False ref.number rig') :
    ref.InHand pad rig' := by
  obtain ⟨hpad, l, hget, hjoined, haccount⟩ := h
  obtain ⟨deals, l', hget', hruns, hdealings⟩ := hcarries.present l hget
  refine ⟨hpad, l', hget', (hruns.joined_eq id).trans hjoined, ?_⟩
  rw [hdealings]
  exact haccount.runs hruns

/-- What there is to complain of in a loop on a pad: a call that failed, or that the loop was
brought down. -/
inductive Complaint (ref : LoopRef) (pad : Pad) (rig : Rig) : PlaybackError → Prop
  | failed {call : Call} {error : ActuatorError}
    (h : (call, .failed error) ∈ rig.dealings ref.number) : Complaint ref pad rig (.actuator error)
  | panicked (h : ref.Panicked rig) : Complaint ref pad rig (.loopPanicked pad)

/-- To stop a loop for the first time brings it to its end and tells what there is to complain of
in it. -/
theorem InHand.stop (h : ref.InHand pad rig) :
    ref.Ended (ref.stop.run rig).2 ∧
      ∀ error, (ref.stop.run rig).1 = .error error ↔
        ref.Complaint pad (ref.stop.run rig).2 error := by
  obtain ⟨hpad, l, hget, hjoined, haccount⟩ := h
  obtain ⟨deals, l', hget', hruns, hdealings, _, hended, hanswer⟩ := stop_ends hget
  have haccount' : l'.Account ((ref.stop.run rig).2.dealings ref.number) := by
    rw [hdealings]
    exact haccount.runs hruns
  have hfailed {call : Call} {error : ActuatorError}
      (hdeal : (call, .failed error) ∈ (ref.stop.run rig).2.dealings ref.number) :
      l'.fault = some error := haccount'.fault_eq_some_iff.2 ⟨call, hdeal⟩
  refine ⟨⟨l', hget', hended fun h => nomatch hjoined.symm.trans h⟩, fun error => ?_⟩
  rw [hanswer]
  by_cases hphase : l'.phase = .panicked
  · rw [if_pos ⟨hjoined, hphase⟩, hpad]
    constructor
    · rintro ⟨⟩
      exact .panicked ⟨l', hget', hphase⟩
    · intro hcomplaint
      cases hcomplaint with
      | failed hdeal => cases (haccount'.fault_eq_none hphase).symm.trans (hfailed hdeal)
      | panicked _ => rfl
  · rw [if_neg fun h => hphase h.2]
    constructor
    · intro herror
      cases hfault : l'.fault with
      | none => simp [hfault] at herror
      | some cause =>
        simp only [hfault, Except.error.injEq] at herror
        obtain ⟨call, hdeal⟩ := haccount'.fault_eq_some_iff.1 hfault
        exact herror ▸ .failed hdeal
    · intro hcomplaint
      cases hcomplaint with
      | failed hdeal => rw [hfailed hdeal]
      | panicked hpanicked => exact absurd ((panicked_iff hget').1 hpanicked) hphase

/-- A loop that has ended does not come back. -/
theorem Ended.carries (h : ref.Ended rig) (hcarries : rig.Carries awaited ref.number rig') :
    ref.Ended rig' := by
  obtain ⟨l, hget, hended⟩ := h
  obtain ⟨_, l', hget', hruns, _⟩ := hcarries.present l hget
  exact ⟨l', hget', hruns.continues.hasEnded hended⟩

/-- After its end there is no more to complain of than at its end. -/
theorem Ended.complaint_iff (h : ref.Ended rig) (hcarries : rig.Carries awaited ref.number rig')
    {error : PlaybackError} : ref.Complaint pad rig' error ↔ ref.Complaint pad rig error := by
  obtain ⟨l, hget, hended⟩ := h
  obtain ⟨deals, l', hget', hruns, hdealings⟩ := hcarries.present l hget
  obtain ⟨rfl, hphase, _⟩ := hruns.of_hasEnded hended
  rw [List.append_nil] at hdealings
  have hpanicked : ref.Panicked rig' ↔ ref.Panicked rig := by
    rw [panicked_iff hget', panicked_iff hget, hphase]
  constructor
  · intro hcomplaint
    cases hcomplaint with
    | failed hdeal => exact .failed (hdealings ▸ hdeal)
    | panicked h => exact .panicked (hpanicked.1 h)
  · intro hcomplaint
    cases hcomplaint with
    | failed hdeal => exact .failed (hdealings.symm ▸ hdeal)
    | panicked h => exact .panicked (hpanicked.2 h)

/-- Stops loops one after another. -/
def stopEach (entries : List (Pad × LoopRef)) : Control (List (Except PlaybackError Unit)) :=
  entries.mapM fun entry => entry.2.stop

theorem run_stopEach_cons (entry : Pad × LoopRef) (rest : List (Pad × LoopRef)) (rig : Rig) :
    (stopEach (entry :: rest)).run rig =
      let out := (stopEach rest).run (entry.2.stop.run rig).2
      ((entry.2.stop.run rig).1 :: out.1, out.2) := by
  rw [stopEach, List.mapM_cons]
  rfl

/-- Loops that are stopped one after another all come to their ends, and each tells what there is to
complain of in itself. -/
theorem stopEach_ends {entries : List (Pad × LoopRef)}
    (hhand : ∀ entry ∈ entries, entry.2.InHand entry.1 rig)
    (hapart : entries.Pairwise fun a b => a.2.number ≠ b.2.number) :
    let out := (stopEach entries).run rig
    (∀ n, rig.Carries (∃ entry ∈ entries, entry.2.number = n) n out.2) ∧
      (∀ entry ∈ entries, entry.2.Ended out.2) ∧
      List.Forall₂ (fun entry result => ∀ error, result = .error error ↔
        entry.2.Complaint entry.1 out.2 error) entries out.1 := by
  induction entries generalizing rig with
  | nil => exact ⟨fun _ => .refl rig, nofun, .nil⟩
  | cons entry rest ih =>
    obtain ⟨hne, hapart⟩ := List.pairwise_cons.1 hapart
    obtain ⟨hended, hanswer⟩ := (hhand entry List.mem_cons_self).stop
    have hrest : ∀ other ∈ rest, other.2.InHand other.1 (entry.2.stop.run rig).2 :=
      fun other hother => (hhand other (List.mem_cons_of_mem _ hother)).carries
        (carries_stop_of_ne (hne other hother) rig)
    -- What the later stops find in this loop is what it had at its end.
    obtain ⟨hcarries', hended', hanswers'⟩ := ih hrest hapart
    rw [run_stopEach_cons]
    refine ⟨fun n => ?_, fun other hother => ?_, .cons (fun error => ?_) hanswers'⟩
    · have hfirst := (carries_stop entry.2 rig n).mono fun h =>
        (⟨entry, List.mem_cons_self, h⟩ : ∃ other ∈ entry :: rest, other.2.number = n)
      exact hfirst.trans ((hcarries' n).mono fun ⟨other, hother, h⟩ =>
        ⟨other, List.mem_cons_of_mem _ hother, h⟩)
    · rcases List.mem_cons.1 hother with rfl | hother
      · exact hended.carries (hcarries' _)
      · exact hended' other hother
    · rw [hanswer, hended.complaint_iff (hcarries' _)]

/-- Where threads are to be had, a loop can be started. It is a new one. -/
theorem start_opens (pad : Pad) (program : Program Binary64) {source : Pad}
    (settings : PlaybackSettings) (htrack : (program.track source).isSome = true)
    (hlaunches : rig.launches = []) (hbooked : ∀ n, rig.loops[n]? = none → rig.dealings n = []) :
    ∃ ref rig', (LoopRef.start pad program source settings).run rig = (.ok ref, rig') ∧
      rig'.launches = [] ∧ (∀ n, rig.Carries False n rig') ∧ ref.InHand pad rig' ∧
      rig.loops[ref.number]? = none := by
  obtain ⟨track, heq⟩ := Option.isSome_iff_exists.1 htrack
  have hyields : Yields rig.nextPlayer (LoopRef.start pad program source settings) rig.nextPlayer
      fun answer => ∃ ref, answer = .ok ref := yields_start htrack
  obtain ⟨⟨hlaunches', _⟩, ref, hanswer⟩ := hyields rig ⟨hlaunches, rfl⟩
  have hstart : (LoopRef.start pad program source settings).run rig = (.ok ref, _) :=
    Prod.ext hanswer rfl
  obtain ⟨hpad, hnone, hdealings, now, hget⟩ := of_start_track heq hstart
  have hinterlude : rig.Carries False ref.number (interlude.run rig).2 := carries_interlude rig
  have hfresh := hinterlude.getElem?_eq_none hnone
  refine ⟨ref, _, hstart, hlaunches', fun n => (carries_start rig (.refl rig)).1,
    ⟨hpad, _, hget, rfl, ?_⟩, hfresh⟩
  rw [hdealings, hinterlude.absent hnone, hbooked _ hfresh]
  exact Loop.account_new pad track settings now

end LoopRef

end LightShow
