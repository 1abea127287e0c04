import LightShow.Proofs.Codec.Container
import LightShow.Proofs.Codec.Event
import LightShow.Proofs.Codec.Header

namespace LightShow

namespace TempoEvent

/-- The payload holds these changes and nothing else. -/
abbrev Form (changes : List (Nat × TempoChange)) (payload : Bytes) : Prop :=
  Stream.Form (fun change s => s = change.encode) changes payload

/-- The changes of a payload, each at its tick. -/
def ofChanges (changes : List (Nat × TempoChange)) : List TempoEvent :=
  (Stream.positions 0 changes).map fun (tick, change) => { tick, change }

/-- A tempo payload is read exactly if it is made of changes. -/
theorem readAll_eq_ok_iff {payload : Bytes} {events : List TempoEvent} :
    readAll payload = .ok events ↔
      ∃ changes, Form changes payload ∧ ofChanges changes = events := by
  rw [readAll, Outcome.bind_eq_ok_iff]
  simp only [Stream.read_eq_ok_iff TempoChange.reads_read, Outcome.pure_eq_ok_iff]
  rfl

end TempoEvent

namespace PaletteDraft

/-- The payload is empty, or long enough for as many records as it announces. -/
def Complete (payload : Bytes) : Prop :=
  payload = [] ∨ ∃ count rest, payload = count :: rest ∧ 4 * count.toNat ≤ rest.length

/-- The first palette is the only one that counts. -/
theorem apply_overridden {draft : PaletteDraft} (h : draft.overridden = true) (payload : Bytes) :
    draft.apply payload = (draft, .ok ()) := by
  unfold apply
  rw [if_pos h]

/-- After a palette, were it a broken one, none counts any more. -/
theorem overridden_apply (draft : PaletteDraft) (payload : Bytes) :
    (draft.apply payload).1.overridden = true := by
  unfold apply
  split
  next h => exact h
  next =>
    cases payload with
    | nil => rfl
    | cons count rest =>
      dsimp only
      split <;> rfl

/-- The first palette is accepted if it is complete. -/
theorem apply_new_eq_ok_iff {payload : Bytes} :
    (new.apply payload).2 = .ok () ↔ Complete payload := by
  cases payload with
  | nil => simp [apply, new, Complete]
  | cons count rest =>
    simp only [apply, new, Bool.false_eq_true, if_false, Complete, reduceCtorEq, false_or,
      List.cons.injEq]
    split
    next hshort =>
      simp only [reduceCtorEq, false_iff]
      rintro ⟨_, _, ⟨rfl, rfl⟩, hle⟩
      omega
    next hlong =>
      simp only [true_iff]
      exact ⟨count, rest, ⟨rfl, rfl⟩, by omega⟩

end PaletteDraft

namespace Container

/-- Where there is a header already, no other one may come. -/
theorem foldlM_takeHeader_some (header : Header) {payloads : List Bytes} {after : Option Header} :
    payloads.foldlM takeHeader (some header) = .ok after ↔ payloads = [] ∧ some header = after := by
  cases payloads with
  | nil => simp only [List.foldlM_nil, Outcome.pure_eq_ok_iff, true_and]
  | cons payload rest =>
    rw [List.foldlM_cons, Outcome.bind_eq_ok_iff]
    simp [takeHeader]

/-- There is a header in the end exactly if there was one payload, and it held that header. -/
theorem foldlM_takeHeader_eq_some_iff {payloads : List Bytes} {header : Header} :
    payloads.foldlM takeHeader none = .ok (some header) ↔
      ∃ payload, payloads = [payload] ∧ header.Form payload := by
  cases payloads with
  | nil => simp [Pure.pure, Except.pure]
  | cons payload rest =>
    rw [List.foldlM_cons, Outcome.bind_eq_ok_iff]
    constructor
    · rintro ⟨taken, htaken, hrest⟩
      rw [takeHeader, if_neg (by simp), Outcome.map_eq_ok_iff] at htaken
      obtain ⟨first, hfirst, rfl⟩ := htaken
      obtain ⟨rfl, hsame⟩ := (foldlM_takeHeader_some first).1 hrest
      cases hsame
      exact ⟨payload, rfl, Header.read_eq_ok_iff.1 hfirst⟩
    · rintro ⟨_, hsingle, hform⟩
      cases hsingle
      refine ⟨some header, ?_, rfl⟩
      rw [takeHeader, if_neg (by simp), Header.read_eq_ok_iff.2 hform]
      rfl

/-- All tempo payloads are read, and their events are strung together. -/
theorem foldlM_takeTempo_eq_ok_iff {payloads : List Bytes} {before after : List TempoEvent} :
    payloads.foldlM takeTempo before = .ok after ↔
      ∃ parts : List (List TempoEvent), payloads.map TempoEvent.readAll = parts.map .ok ∧
        before ++ parts.flatten = after := by
  induction payloads generalizing before with
  | nil =>
    simp only [List.foldlM_nil, Outcome.pure_eq_ok_iff, List.map_nil]
    constructor
    · rintro rfl
      exact ⟨[], rfl, List.append_nil _⟩
    · rintro ⟨parts, hparts, rfl⟩
      rw [List.map_eq_nil_iff.1 hparts.symm, List.flatten_nil, List.append_nil]
  | cons payload rest ih =>
    rw [List.foldlM_cons, Outcome.bind_eq_ok_iff]
    simp only [ih, takeTempo, Outcome.map_eq_ok_iff]
    constructor
    · rintro ⟨_, ⟨events, hevents, rfl⟩, parts, hparts, rfl⟩
      refine ⟨events :: parts, ?_, ?_⟩
      · rw [List.map_cons, List.map_cons, hevents, hparts]
      · rw [List.flatten_cons, List.append_assoc]
    · rintro ⟨parts, hparts, rfl⟩
      cases parts with
      | nil => cases hparts
      | cons events parts =>
        simp only [List.map_cons, List.cons.injEq] at hparts
        refine ⟨before ++ events, ⟨events, hparts.1, rfl⟩, parts, hparts.2, ?_⟩
        rw [List.flatten_cons, List.append_assoc]

/-- Palettes behind the first are passed over. -/
theorem foldlM_takePalette_overridden {draft : PaletteDraft} (h : draft.overridden = true)
    (payloads : List Bytes) : payloads.foldlM takePalette draft = .ok draft := by
  induction payloads with
  | nil => rfl
  | cons payload rest ih =>
    rw [List.foldlM_cons, takePalette, PaletteDraft.apply_overridden h]
    exact ih

/-- Only the first palette payload counts: it must be complete, and it alone is applied. -/
theorem foldlM_takePalette_eq_ok_iff {payloads : List Bytes} {after : PaletteDraft} :
    payloads.foldlM takePalette .new = .ok after ↔
      (∀ payload, payloads.head? = some payload → PaletteDraft.Complete payload) ∧
        (payloads.head?.elim .new fun payload => (PaletteDraft.new.apply payload).1) = after := by
  cases payloads with
  | nil => simp [Pure.pure, Except.pure]
  | cons payload rest =>
    have hoverridden := PaletteDraft.overridden_apply .new payload
    rw [List.foldlM_cons, Outcome.bind_eq_ok_iff]
    simp only [takePalette, Outcome.map_eq_ok_iff, List.head?_cons, Option.some.injEq,
      forall_eq', Option.elim_some, ← PaletteDraft.apply_new_eq_ok_iff]
    constructor
    · rintro ⟨_, ⟨u, hok, rfl⟩, hrest⟩
      rw [foldlM_takePalette_overridden hoverridden] at hrest
      exact ⟨hok, Except.ok.inj hrest⟩
    · rintro ⟨hok, rfl⟩
      exact ⟨_, ⟨(), hok, rfl⟩, foldlM_takePalette_overridden hoverridden rest⟩

end Container

end LightShow
