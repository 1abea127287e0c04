import LightShow.Proofs.Codec.Event
import LightShow.Proofs.Score.Palette

namespace LightShow

instance (colour : ColourRef) : Decidable colour.InTable :=
  match colour with
  | .palette index => inferInstanceAs (Decidable (index.toNat < Palette.size))
  | .literal _ => isTrue trivial

instance (event : PadEvent) : Decidable event.InTable :=
  inferInstanceAs (Decidable (∀ colour, colour ∈ event.colour? → colour.InTable))

/-- An event whose colours are in the table is added at the end. -/
theorem PadScore.add_of_inTable (s : PadScore) (tick : UInt32) {event : PadEvent}
    (h : event.InTable) : s.add tick event = .ok (s ++ [(tick, event)]) := by
  unfold add
  split
  next index hcolour => rw [if_neg (Nat.not_le.2 (h _ hcolour))]
  next => rfl

/-- An event with a colour outside the table is refused. -/
theorem PadScore.add_of_not_inTable (s : PadScore) (tick : UInt32) {event : PadEvent}
    (h : ¬event.InTable) : ∃ error, s.add tick event = .error error := by
  unfold add
  split
  next index hcolour =>
    have hindex : Palette.size ≤ index.toNat := by
      refine Nat.le_of_not_lt fun hlt => h fun colour hother => ?_
      rw [hcolour] at hother
      cases hother
      exact hlt
    exact ⟨_, if_pos hindex⟩
  next hliteral =>
    refine absurd (fun colour hcolour => ?_) h
    cases colour with
    | palette index => exact absurd hcolour (hliteral index)
    | literal colour => trivial

namespace Score

/-- What may be done to a score, one call after another. -/
inductive Entry where
  | flags (flags : UInt16)
  | override (index : UInt8) (colour : Colour)
  | tempo (tick microsecondsPerBeat : UInt32)
  | timebase (tick : UInt32) (ticksPerBeat : UInt16)
  /-- Asks for a pad's stream and adds nothing to it. -/
  | touch (p : Pad)
  | add (p : Pad) (tick : UInt32) (event : PadEvent)
  deriving DecidableEq, Repr

namespace Entry

/-- The override that an entry makes, unless it is refused. -/
def override? : Entry → Option (UInt8 × Colour)
  | override index colour => if index.toNat < Palette.size then some (index, colour) else none
  | _ => none

/-- The change of tempo or timebase that an entry makes. -/
def change? : Entry → Option (UInt32 × TempoChange)
  | tempo tick microsecondsPerBeat => some (tick, .tempo microsecondsPerBeat)
  | timebase tick ticksPerBeat => some (tick, .timebase ticksPerBeat)
  | _ => none

/-- The event that an entry adds to the stream of a pad, unless it is refused. -/
def event? (p : Pad) : Entry → Option (UInt32 × PadEvent)
  | add q tick event => if q = p ∧ event.InTable then some (tick, event) else none
  | _ => none

end Entry

/-- The score after an entry. An entry that is refused may still give its pad a stream. -/
def enter (s : Score) : Entry → Score
  | .flags flags => s.setFlags flags
  | .override index colour => (s.overrideColour index colour).toOption.getD s
  | .tempo tick microsecondsPerBeat => s.setTempo tick microsecondsPerBeat
  | .timebase tick ticksPerBeat => s.setTimebase tick ticksPerBeat
  | .touch p => s.touch p
  | .add p tick event => (s.addEvent p tick event).1

/-- The score after some entries. -/
def enterAll (s : Score) (entries : List Entry) : Score := entries.foldl enter s

@[simp] theorem pad_set (s : Score) (p q : Pad) (events : PadScore) :
    pad { s with pads := s.pads.set p (some events) } q = if p = q then events else s.pad q := by
  by_cases h : p = q
  · subst h
    simp only [pad, PerPad.get_set_self, Option.getD_some, if_pos]
  · rw [if_neg h, pad, PerPad.get_set_of_ne _ _ (Ne.symm h), pad]

@[simp] theorem pad_touch (s : Score) (p q : Pad) : (s.touch p).pad q = s.pad q := by
  rw [touch, pad_set]
  split
  next h => rw [h]
  next => rfl

/-- What an entry does to the parts of a score that reach the finished file. -/
theorem enter_parts (s : Score) (entry : Entry) :
    ((s.enter entry).ticksPerBeat = s.ticksPerBeat ∧
      (s.enter entry).microsecondsPerBeat = s.microsecondsPerBeat) ∧
    (s.enter entry).palette = s.palette.overrideAll entry.override?.toList ∧
    (s.enter entry).tempo = s.tempo ++ entry.change?.toList ∧
    ∀ p, (s.enter entry).pad p = s.pad p ++ (entry.event? p).toList := by
  have hsame (p : Pad) : s.pad p = s.pad p ++ [] := (List.append_nil _).symm
  have hpalette : s.palette = s.palette.overrideAll [] := (Palette.overrideAll_nil _).symm
  have htempo : s.tempo = s.tempo ++ [] := (List.append_nil _).symm
  cases entry with
  | flags flags => exact ⟨⟨rfl, rfl⟩, hpalette, htempo, hsame⟩
  | override index colour =>
    simp only [enter, overrideColour, Entry.override?]
    by_cases h : Palette.size ≤ index.toNat
    · rw [if_pos h, if_neg (Nat.not_lt.2 h)]
      exact ⟨⟨rfl, rfl⟩, hpalette, htempo, hsame⟩
    · rw [if_neg h, if_pos (Nat.lt_of_not_le h)]
      exact ⟨⟨rfl, rfl⟩, Palette.overlay_set _ _ _ _, htempo, hsame⟩
  | tempo tick microsecondsPerBeat => exact ⟨⟨rfl, rfl⟩, hpalette, rfl, hsame⟩
  | timebase tick ticksPerBeat => exact ⟨⟨rfl, rfl⟩, hpalette, rfl, hsame⟩
  | touch p =>
    refine ⟨⟨rfl, rfl⟩, hpalette, htempo, fun q => ?_⟩
    exact (s.pad_touch p q).trans (hsame q)
  | add p tick event =>
    simp only [enter, addEvent, Entry.event?]
    by_cases htable : event.InTable
    · rw [PadScore.add_of_inTable _ _ htable]
      refine ⟨⟨rfl, rfl⟩, hpalette, htempo, fun q => ?_⟩
      rw [pad_set]
      by_cases h : p = q
      · rw [if_pos h, if_pos ⟨h, htable⟩, h]
        rfl
      · rw [if_neg h, if_neg fun hboth => h hboth.1]
        exact hsame q
    · obtain ⟨error, hadd⟩ := PadScore.add_of_not_inTable (s.pad p) tick htable
      rw [hadd]
      refine ⟨⟨rfl, rfl⟩, hpalette, htempo, fun q => ?_⟩
      rw [pad_touch, if_neg fun hboth => htable hboth.2]
      exact hsame q

/-- The changes of tempo that some entries make, in the order of the entries. -/
def changes (entries : List Entry) : List (UInt32 × TempoChange) := entries.filterMap Entry.change?

/-- The events that some entries add to a pad's stream, in the order of the entries. -/
def written (p : Pad) (entries : List Entry) : List (UInt32 × PadEvent) :=
  entries.filterMap (Entry.event? p)

/-- The palette that some entries leave, if a palette was there before. -/
def repainted (palette : Palette) (entries : List Entry) : Palette :=
  palette.overrideAll (entries.filterMap Entry.override?)

/-- What some entries have each pad do: the events of its stream in order of tick. -/
def described (entries : List Entry) (p : Pad) : List (Int × PadEvent) :=
  Stream.scheduled (written p entries)

/-- What entries make of a score, part by part, by induction on the entries: no part depends on
another one. -/
theorem enterAll_parts (s : Score) (entries : List Entry) :
    ((s.enterAll entries).ticksPerBeat = s.ticksPerBeat ∧
      (s.enterAll entries).microsecondsPerBeat = s.microsecondsPerBeat) ∧
    (s.enterAll entries).palette = repainted s.palette entries ∧
    (s.enterAll entries).tempo = s.tempo ++ changes entries ∧
    ∀ p, (s.enterAll entries).pad p = s.pad p ++ written p entries := by
  induction entries generalizing s with
  | nil =>
    exact ⟨⟨rfl, rfl⟩, (Palette.overrideAll_nil _).symm, (List.append_nil _).symm,
      fun p => (List.append_nil _).symm⟩
  | cons entry rest ih =>
    obtain ⟨⟨hticks, htempo⟩, hpalette, hchanges, hpads⟩ := s.enter_parts entry
    obtain ⟨⟨hticks', htempo'⟩, hpalette', hchanges', hpads'⟩ := ih (s.enter entry)
    have hstep : s.enterAll (entry :: rest) = (s.enter entry).enterAll rest := rfl
    rw [hstep]
    refine ⟨⟨hticks'.trans hticks, htempo'.trans htempo⟩, ?_, ?_, fun p => ?_⟩
    · rw [hpalette', hpalette, repainted, ← Palette.overrideAll_append, repainted,
        List.filterMap_cons]
      cases entry.override? <;> rfl
    · rw [hchanges', hchanges, List.append_assoc]
      simp only [changes, List.filterMap_cons]
      cases entry.change? <;> rfl
    · rw [hpads', hpads, List.append_assoc]
      simp only [written, List.filterMap_cons]
      cases entry.event? p <;> rfl

theorem pad_new (ticksPerBeat : UInt16) (microsecondsPerBeat : UInt32) (p : Pad) :
    (new ticksPerBeat microsecondsPerBeat).pad p = [] := by
  rw [pad, new, PerPad.get_const]
  rfl

/-- Only events whose colours the table can answer get into a stream. -/
theorem inTable_of_mem_written {p : Pad} {entries : List Entry} {event : UInt32 × PadEvent}
    (h : event ∈ written p entries) : event.2.InTable := by
  obtain ⟨entry, _, hentry⟩ := List.mem_filterMap.1 h
  cases entry with
  | add q tick event =>
    simp only [Entry.event?] at hentry
    split at hentry
    next hboth =>
      cases hentry
      exact hboth.2
    next => cases hentry
  | _ => cases hentry

end Score

end LightShow
