import LightShow.Score

namespace LightShow

namespace Palette

/-- Applies overrides one after another, so that a later one wins over an earlier one. -/
def overrideAll (p : Palette) (records : List (UInt8 × Colour)) : Palette :=
  records.foldl (fun p (index, colour) => p.override index colour) p

/-- The palette with the overridden entries in place of its own. -/
def overlay (p : Palette) (overrides : Vector (Option Colour) 32) : Palette :=
  ⟨.ofFn fun i => overrides[i].getD p.entries[i]⟩

theorem overrideAll_nil (p : Palette) : p.overrideAll [] = p := rfl

theorem overrideAll_append (p : Palette) (records records' : List (UInt8 × Colour)) :
    p.overrideAll (records ++ records') = (p.overrideAll records).overrideAll records' :=
  List.foldl_append

theorem ext_entries {p q : Palette} (h : ∀ i (hi : i < 32), p.entries[i] = q.entries[i]) :
    p = q := by
  obtain ⟨entries⟩ := p
  obtain ⟨entries'⟩ := q
  have hentries : entries = entries' := Vector.ext h
  rw [hentries]

/-- An overlay shows the colour that overrides an entry, or the entry itself. -/
theorem entries_overlay (p : Palette) (overrides : Vector (Option Colour) 32) {i : Nat}
    (hi : i < 32) : (p.overlay overrides).entries[i] = overrides[i].getD p.entries[i] := by
  simp only [overlay, Vector.getElem_ofFn, Fin.getElem_fin]

/-- To override one entry leaves the others. -/
theorem entries_override (p : Palette) (index : UInt8) (colour : Colour) {i : Nat} (hi : i < 32) :
    (p.override index colour).entries[i] = if index.toNat = i then colour else p.entries[i] := by
  simp only [override, Vector.getElem_setIfInBounds]

theorem overlay_none (p : Palette) : p.overlay (Vector.replicate 32 none) = p := by
  apply ext_entries
  intro i hi
  rw [entries_overlay _ _ hi, Vector.getElem_replicate, Option.getD_none]

/-- Overriding an entry once more overrides it in the palette that is seen. -/
theorem overlay_set (p : Palette) (overrides : Vector (Option Colour) 32) (index : UInt8)
    (colour : Colour) :
    p.overlay (overrides.setIfInBounds index.toNat (some colour)) =
      (p.overlay overrides).override index colour := by
  apply ext_entries
  intro i hi
  rw [entries_override _ _ _ hi, entries_overlay _ _ hi, entries_overlay _ _ hi,
    Vector.getElem_setIfInBounds]
  by_cases h : index.toNat = i
  · rw [if_pos h, if_pos h, Option.getD_some]
  · rw [if_neg h, if_neg h]

/-- The overridden entries of a stretch of the table, each with its index. -/
def numbered (start : Nat) (overrides : List (Option Colour)) : List (UInt8 × Colour) :=
  (overrides.zipIdx start).filterMap fun (colour, index) => colour.map (UInt8.ofNat index, ·)

/-- Records that are numbered in order override each the entry of its number, by induction on the
stretch that is left. -/
theorem entries_overrideAll_numbered (p : Palette) {start : Nat} {overrides : List (Option Colour)}
    (hlength : start + overrides.length ≤ 32) {i : Nat} (hi : i < 32) :
    (p.overrideAll (numbered start overrides)).entries[i] =
      if start ≤ i then (overrides[i - start]?.join).getD p.entries[i] else p.entries[i] := by
  induction overrides generalizing start p with
  | nil =>
    rw [List.getElem?_nil, Option.join_none, Option.getD_none]
    split <;> rfl
  | cons override rest ih =>
    rw [List.length_cons] at hlength
    have hindex : (UInt8.ofNat start).toNat = start := by
      rw [UInt8.toNat_ofNat']
      omega
    have hrest (q : Palette) := @ih q (start + 1) (by omega)
    have hget (h : start + 1 ≤ i) : (override :: rest)[i - start]? = rest[i - (start + 1)]? := by
      rw [show i - start = i - (start + 1) + 1 by omega, List.getElem?_cons_succ]
    cases override with
    | none =>
      have hskip : numbered start (none :: rest) = numbered (start + 1) rest := rfl
      rw [hskip, hrest]
      rcases Nat.lt_trichotomy i start with hlt | rfl | hgt
      · rw [if_neg (by omega), if_neg (by omega)]
      · rw [if_neg (by omega), if_pos (Nat.le_refl _), Nat.sub_self]
        rfl
      · rw [if_pos (Nat.succ_le_of_lt hgt), if_pos (Nat.le_of_lt hgt), hget hgt]
    | some colour =>
      have hfirst : p.overrideAll (numbered start (some colour :: rest)) =
          (p.override (UInt8.ofNat start) colour).overrideAll (numbered (start + 1) rest) := rfl
      rw [hfirst, hrest, entries_override _ _ _ hi, hindex]
      rcases Nat.lt_trichotomy i start with hlt | rfl | hgt
      · rw [if_neg (by omega), if_neg (by omega), if_neg (by omega)]
      · rw [if_neg (by omega), if_pos rfl, if_pos (Nat.le_refl _), Nat.sub_self]
        rfl
      · have hne : ¬ start = i := by omega
        rw [if_pos (Nat.succ_le_of_lt hgt), if_neg hne, if_pos (Nat.le_of_lt hgt), hget hgt]

/-- Records are read from their bytes as they were written. -/
theorem records_flatMap (overrides : List (UInt8 × Colour)) :
    records (overrides.flatMap fun (index, colour) => index :: colour.bytes) = overrides := by
  induction overrides with
  | nil => rfl
  | cons override rest ih =>
    obtain ⟨index, colour⟩ := override
    rw [List.flatMap_cons]
    change (index, colour) :: records (rest.flatMap _) = _
    rw [ih]

end Palette

namespace Score

/-- The palette of the finished file. -/
def palette (s : Score) : Palette := Palette.default.overlay s.overrides

/-- To apply the records that are written for some overrides is to lay these over the palette. -/
theorem overrideAll_overrideList (s : Score) (p : Palette) :
    p.overrideAll s.overrideList = p.overlay s.overrides := by
  have hlength : 0 + s.overrides.toList.length ≤ 32 := by
    have htotal : s.overrides.toList.length = 32 := Vector.length_toList
    omega
  apply Palette.ext_entries
  intro i hi
  have hget : s.overrides.toList[i - 0]? = some s.overrides[i] := by
    rw [Nat.sub_zero, Vector.getElem?_toList]
    exact Vector.getElem?_eq_getElem hi
  have hall := p.entries_overrideAll_numbered hlength hi
  rw [if_pos (Nat.zero_le _), hget] at hall
  rw [Palette.entries_overlay _ _ hi]
  exact hall

theorem length_overrideList_le (s : Score) : s.overrideList.length ≤ 32 := by
  have hle : s.overrideList.length ≤ s.overrides.toList.zipIdx.length :=
    List.length_filterMap_le _ _
  have htotal : s.overrides.toList.length = 32 := Vector.length_toList
  rw [List.length_zipIdx, htotal] at hle
  exact hle

/-- A palette payload has four bytes for each override, and one for their number. -/
theorem length_palettePayload (s : Score) :
    s.palettePayload.length = 1 + 4 * s.overrideList.length := by
  simp [palettePayload, List.length_flatMap, Colour.bytes, List.map_const',
    Nat.mul_comm, Nat.add_comm]

/-- What is written for the overrides is applied as a whole. -/
theorem apply_palettePayload (s : Score) :
    PaletteDraft.new.apply s.palettePayload = (⟨s.palette, true⟩, .ok ()) := by
  have hcount : (UInt8.ofNat s.overrideList.length).toNat = s.overrideList.length := by
    have hle := s.length_overrideList_le
    rw [UInt8.toNat_ofNat']
    omega
  have hlength : (s.overrideList.flatMap fun (index, colour) => index :: colour.bytes).length =
      4 * s.overrideList.length :=
    Nat.succ.inj (s.length_palettePayload.trans (Nat.add_comm _ _))
  have hpalette : s.palette = Palette.default.overrideAll s.overrideList :=
    (s.overrideAll_overrideList _).symm
  simp only [palettePayload, PaletteDraft.apply, PaletteDraft.new, Bool.false_eq_true, if_false,
    hcount, hlength, Nat.lt_irrefl]
  rw [List.take_of_length_le (Nat.le_of_eq hlength), Palette.records_flatMap, hpalette]
  rfl

end Score

end LightShow
