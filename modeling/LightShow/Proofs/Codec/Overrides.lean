import LightShow.Proofs.Codec.Parts
import LightShow.Proofs.Score.Palette

namespace LightShow

namespace Palette

/-- The record at a place among the four bytes each of the records: an index, then a colour. -/
def RecordAt (records : Bytes) (place : Nat) (index : UInt8) (colour : Colour) : Prop :=
  (records.drop (4 * place)).take 4 = index :: colour.bytes

/-- Among the first records, this is the colour of the last one that names the entry. -/
def LastFor (records : Bytes) (count entry : Nat) (colour : Colour) : Prop :=
  ∃ place < count, (∃ index : UInt8, index.toNat = entry ∧ RecordAt records place index colour) ∧
    ∀ later, place < later → later < count → ∀ (index : UInt8) (other : Colour),
      RecordAt records later index other → index.toNat ≠ entry

/-- None of the first records names the entry. -/
def Unnamed (records : Bytes) (count entry : Nat) : Prop :=
  ∀ place < count, ∀ (index : UInt8) (colour : Colour),
    RecordAt records place index colour → index.toNat ≠ entry

variable {p : Palette} {overrides : List (UInt8 × Colour)} {i : Nat}

/-- Entries that no record names keep their colours. -/
theorem entries_overrideAll_of_unnamed (hi : i < 32) (h : ∀ record ∈ overrides, record.1.toNat ≠ i) :
    (p.overrideAll overrides).entries[i] = p.entries[i] := by
  induction overrides generalizing p with
  | nil => rfl
  | cons record rest ih =>
    obtain ⟨hrecord, hrest⟩ := List.forall_mem_cons.1 h
    have hfirst : p.overrideAll (record :: rest) =
        (p.override record.1 record.2).overrideAll rest := rfl
    rw [hfirst, ih hrest, entries_override _ _ _ hi, if_neg hrecord]

/-- A record wins over those before it. -/
theorem entries_overrideAll_of_last (hi : i < 32) {place : Nat} {index : UInt8} {colour : Colour}
    (hplace : overrides[place]? = some (index, colour)) (hindex : index.toNat = i)
    (hlater : ∀ later record, place < later → overrides[later]? = some record →
      record.1.toNat ≠ i) : (p.overrideAll overrides).entries[i] = colour := by
  obtain ⟨hlt, hget⟩ := List.getElem?_eq_some_iff.1 hplace
  have hsplit : overrides =
      overrides.take place ++ (index, colour) :: overrides.drop (place + 1) := by
    rw [← hget, List.getElem_cons_drop, List.take_append_drop]
  have hbehind : ∀ record ∈ overrides.drop (place + 1), record.1.toNat ≠ i := by
    intro record hrecord
    obtain ⟨k, hk⟩ := List.mem_iff_getElem?.1 hrecord
    rw [List.getElem?_drop] at hk
    exact hlater _ record (by omega) hk
  have hfirst (q : Palette) : q.overrideAll ((index, colour) :: overrides.drop (place + 1)) =
      (q.override index colour).overrideAll (overrides.drop (place + 1)) := rfl
  rw [hsplit, overrideAll_append, hfirst, entries_overrideAll_of_unnamed hi hbehind,
    entries_override _ _ _ hi, if_pos hindex]

/-- Four bytes at a time make the records. -/
theorem records_getElem?_eq_some_iff {s : Bytes} {place : Nat} {index : UInt8} {colour : Colour} :
    (records s)[place]? = some (index, colour) ↔ RecordAt s place index colour := by
  obtain ⟨red, green, blue⟩ := colour
  fun_induction records s generalizing place with
  | case1 index' red' green' blue' rest ih =>
    cases place with
    | zero => simp [RecordAt, Colour.bytes]
    | succ place =>
      rw [List.getElem?_cons_succ, ih]
      rfl
  | case2 s hshort =>
    have hlength : s.length < 4 := by
      rcases s with _ | ⟨a, _ | ⟨b, _ | ⟨c, _ | ⟨d, rest⟩⟩⟩⟩
      case cons.cons.cons.cons => exact (hshort a b c d rest rfl).elim
      all_goals simp
    rw [List.getElem?_nil]
    refine iff_of_false (Option.some_ne_none _).symm fun hrecord => ?_
    have hfour := congrArg List.length hrecord
    simp only [List.length_take, List.length_drop, List.length_cons, Colour.bytes,
      List.length_nil] at hfour
    omega

/-- The records that a payload counts are those among its first bytes. -/
theorem recordAt_take_iff {s : Bytes} {count place : Nat} {index : UInt8} {colour : Colour} :
    RecordAt (s.take (4 * count)) place index colour ↔
      place < count ∧ RecordAt s place index colour := by
  simp only [RecordAt, List.drop_take, List.take_take]
  rcases Nat.lt_or_ge place count with hlt | hge
  · rw [Nat.min_eq_left (by omega), and_iff_right hlt]
  · have hnone : 4 * count - 4 * place = 0 := by omega
    rw [hnone, Nat.min_zero, List.take_zero]
    exact iff_of_false nofun fun h => Nat.not_lt.2 hge h.1

section

variable {p : Palette} {s : Bytes} {count i : Nat} (hi : i < 32)
include hi

/-- Among the bytes of the records, the last one that names an entry has its way. -/
theorem entries_overrideAll_of_lastFor {colour : Colour} (h : LastFor s count i colour) :
    (p.overrideAll (records (s.take (4 * count)))).entries[i] = colour := by
  obtain ⟨place, hplace, ⟨index, hindex, hrecord⟩, hlater⟩ := h
  refine entries_overrideAll_of_last hi
    (records_getElem?_eq_some_iff.2 (recordAt_take_iff.2 ⟨hplace, hrecord⟩)) hindex ?_
  rintro later ⟨index', colour'⟩ hbehind hget
  obtain ⟨hcounted, hrecord'⟩ := recordAt_take_iff.1 (records_getElem?_eq_some_iff.1 hget)
  exact hlater later hbehind hcounted index' colour' hrecord'

/-- Among the bytes of the records, an entry that none names keeps its colour. -/
theorem entries_overrideAll_of_unnamed_take (h : Unnamed s count i) :
    (p.overrideAll (records (s.take (4 * count)))).entries[i] = p.entries[i] := by
  refine entries_overrideAll_of_unnamed hi ?_
  rintro ⟨index, colour⟩ hmem
  obtain ⟨place, hget⟩ := List.mem_iff_getElem?.1 hmem
  obtain ⟨hcounted, hrecord⟩ := recordAt_take_iff.1 (records_getElem?_eq_some_iff.1 hget)
  exact h place hcounted index colour hrecord

end

end Palette

namespace PaletteDraft

/-- Applies payloads one after another, whatever becomes of each of them. -/
def applyAll (draft : PaletteDraft) : List Bytes → PaletteDraft × List (Except CodecError Unit)
  | [] => (draft, [])
  | payload :: rest =>
    let (next, outcome) := draft.apply payload
    let (last, outcomes) := next.applyAll rest
    (last, outcome :: outcomes)

/-- Once there have been overrides, no payload changes anything or is refused. -/
theorem applyAll_overridden {draft : PaletteDraft} (h : draft.overridden = true)
    (payloads : List Bytes) :
    draft.applyAll payloads = (draft, payloads.map fun _ => .ok ()) := by
  induction payloads with
  | nil => rfl
  | cons payload rest ih =>
    simp only [applyAll, apply_overridden h, ih, List.map_cons]

/-- Later payloads are skipped. -/
theorem applyAll_cons (draft : PaletteDraft) (first : Bytes) (later : List Bytes) :
    draft.applyAll (first :: later) =
      ((draft.apply first).1, (draft.apply first).2 :: later.map fun _ => .ok ()) := by
  simp only [applyAll, applyAll_overridden (overridden_apply draft first)]

/-- A payload that is refused changes no entry. -/
theorem palette_apply_of_error {draft : PaletteDraft} {payload : Bytes} {e : CodecError}
    (h : (draft.apply payload).2 = .error e) :
    (draft.apply payload).1.palette = draft.palette := by
  unfold apply at h ⊢
  split
  next => rfl
  next hfresh =>
    rw [if_neg hfresh] at h
    cases payload with
    | nil => rfl
    | cons count rest =>
      dsimp only at h ⊢
      split
      next => rfl
      next hlong =>
        rw [if_neg hlong] at h
        cases h

/-- With enough bytes the announced records are applied, and what is behind them is not looked
at. -/
theorem apply_new_of_long {count : UInt8} {rest : Bytes} (h : 4 * count.toNat ≤ rest.length) :
    new.apply (count :: rest) =
      (⟨Palette.default.overrideAll (Palette.records (rest.take (4 * count.toNat))), true⟩,
        .ok ()) := by
  have hlong : ¬ rest.length < 4 * count.toNat := Nat.not_lt.2 h
  simp only [apply, new, Bool.false_eq_true, if_false, if_neg hlong]
  rfl

/-- With too few bytes nothing is applied, but overrides count as given. -/
theorem apply_new_of_short {count : UInt8} {rest : Bytes} (h : rest.length < 4 * count.toNat) :
    new.apply (count :: rest) =
      (⟨.default, true⟩, .error (.unexpectedEnd "palette override entry")) := by
  simp only [apply, new, Bool.false_eq_true, if_false, if_pos h]

/-- A payload that has a count but too few bytes behind it. -/
def Short : Bytes → Prop
  | [] => False
  | count :: rest => rest.length < 4 * count.toNat

/-- Bytes behind the announced records make no difference. -/
theorem apply_new_append {first : Bytes} (hne : first ≠ []) (hlong : ¬ Short first)
    (extra : Bytes) : new.apply (first ++ extra) = new.apply first := by
  obtain _ | ⟨count, rest⟩ := first
  · exact absurd rfl hne
  have hfull : 4 * count.toNat ≤ rest.length := Nat.not_lt.1 hlong
  have hfull' : 4 * count.toNat ≤ (rest ++ extra).length := by
    rw [List.length_append]
    omega
  rw [List.cons_append, apply_new_of_long hfull, apply_new_of_long hfull',
    List.take_append_of_le_length hfull]

open Palette (LastFor Unnamed) in
/-- The first override payload decides. If it is empty or too short the palette stays as it was;
otherwise each entry has the colour of the last record counted that names it, and what stands behind
these records does not matter. Only the first payload can be refused, which then changes no entry,
and those behind it are accepted and change nothing. -/
theorem applyAll_by_first :
    (new.applyAll []).1.palette = .default ∧
    (∀ (first : Bytes) (later : List Bytes),
      (new.applyAll (first :: later)).1 = (new.apply first).1 ∧
      (first = [] ∨ Short first → (new.apply first).1.palette = .default) ∧
      (∀ count records, first = count :: records → ¬ Short first → ∀ i (hi : i < 32),
        (∀ colour, LastFor records count.toNat i colour →
          (new.apply first).1.palette.entries[i] = colour) ∧
        (Unnamed records count.toNat i →
          (new.apply first).1.palette.entries[i] = Palette.default.entries[i])) ∧
      (first ≠ [] → ¬ Short first → ∀ extra, new.apply (first ++ extra) = new.apply first) ∧
      (Short first → (new.applyAll (first :: later)).2 =
        .error (.unexpectedEnd "palette override entry") :: later.map fun _ => .ok ()) ∧
      (¬ Short first → (new.applyAll (first :: later)).2 =
        .ok () :: later.map fun _ => .ok ())) ∧
    ∀ (draft : PaletteDraft) payload e, (draft.apply payload).2 = .error e →
      (draft.apply payload).1.palette = draft.palette := by
  refine ⟨rfl, fun first later => ?_, fun draft payload e => palette_apply_of_error⟩
  simp only [applyAll_cons, List.cons.injEq, and_true, true_and]
  refine ⟨?_, ?_, apply_new_append, ?_, ?_⟩
  · rintro (rfl | hshort)
    · rfl
    · obtain _ | ⟨count, rest⟩ := first
      · exact hshort.elim
      · rw [apply_new_of_short hshort]
  · rintro count records rfl hlong i hi
    rw [apply_new_of_long (Nat.not_lt.1 hlong)]
    exact ⟨fun colour => Palette.entries_overrideAll_of_lastFor hi,
      Palette.entries_overrideAll_of_unnamed_take hi⟩
  · intro hshort
    obtain _ | ⟨count, rest⟩ := first
    · exact hshort.elim
    · rw [apply_new_of_short hshort]
  · intro hlong
    obtain _ | ⟨count, rest⟩ := first
    · rfl
    · rw [apply_new_of_long (Nat.not_lt.1 hlong)]

theorem applyAll_by_first_twice_named :
    let first : Bytes := [3, 1, 9, 9, 9, 200, 1, 1, 1, 1, 10, 20, 30, 5]
    let later : List Bytes := [[1], [1, 1, 7, 7, 7]]
    ¬ Short first ∧
      (new.applyAll (first :: later)).1.palette.entries[1] = ⟨10, 20, 30⟩ ∧
      (new.applyAll (first :: later)).1.palette.entries[2] = Palette.default.entries[2] ∧
      (new.applyAll (first :: later)).2 = [.ok (), .ok (), .ok ()] := by
  intro first later
  have hlong : ¬ Short first := by
    change ¬ 13 < 12
    decide
  obtain ⟨_, hfirst, _⟩ := applyAll_by_first
  obtain ⟨hdraft, _, hentries, _, _, houtcomes⟩ := hfirst first later
  obtain ⟨hlast, _⟩ := hentries _ _ rfl hlong 1 (by decide)
  obtain ⟨_, hnone⟩ := hentries _ _ rfl hlong 2 (by decide)
  rw [hdraft]
  refine ⟨hlong, hlast _ ⟨2, by decide, ⟨1, rfl, rfl⟩, fun later hlate hlt => ?_⟩,
    hnone fun place hplace index colour hrecord => ?_, houtcomes hlong⟩
  · change later < 3 at hlt
    omega
  · change place < 3 at hplace
    rcases (by omega : place = 0 ∨ place = 1 ∨ place = 2) with rfl | rfl | rfl
    all_goals
      obtain ⟨rfl, _⟩ := List.cons.inj hrecord
      decide

end PaletteDraft

end LightShow
