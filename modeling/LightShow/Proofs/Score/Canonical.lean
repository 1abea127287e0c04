import LightShow.Proofs.Score.RoundTrip
import LightShow.Proofs.Sequence
import Mathlib.Data.List.Basic

namespace LightShow

namespace Stream

variable {ε : Type}

/-- The order in which events stand is known once it is for those of each tick. -/
theorem inOrder_congr {events events' : List (UInt32 × ε)}
    (h : ∀ tick, (events.filter fun event => event.1 = tick) =
      events'.filter fun event => event.1 = tick) : inOrder events = inOrder events' := by
  have hstable (events : List (UInt32 × ε)) (tick : UInt32) :
      (inOrder events).filter (fun event => event.1 = tick) =
        events.filter fun event => event.1 = tick := by
    refine Sequence.filter_mergeSort inOrder_trans inOrder_total (fun a b ha hb => ?_) events
    have heq : a.1 = b.1 := (of_decide_eq_true ha).trans (of_decide_eq_true hb).symm
    exact decide_eq_true (heq ▸ UInt32.le_refl a.1)
  have hordered (events : List (UInt32 × ε)) :
      (inOrder events).Pairwise fun a b => decide (a.1 ≤ b.1) = true :=
    (orderedFrom_inOrder events).2.imp decide_eq_true
  -- The sort is stable, so what is of one tick stands as it was given.
  refine Sequence.eq_of_filter_eq (fun a b : UInt32 => decide (a ≤ b)) ?_ ?_ (hordered events)
    (hordered events') fun tick => ?_
  · exact fun tick => decide_eq_true (UInt32.le_refl tick)
  · exact fun a b hab hba => UInt32.le_antisymm (of_decide_eq_true hab) (of_decide_eq_true hba)
  · rw [hstable, hstable, h]

/-- The distances, each found by subtraction of ticks in thirty-two bits. There are none if a tick
is below the one that is subtracted from it. -/
def distances? (start : UInt32) : List (UInt32 × ε) → Option (List (Nat × ε))
  | [] => some []
  | (tick, event) :: rest =>
    if start ≤ tick then (distances? tick rest).map (((tick - start).toNat, event) :: ·) else none

/-- In order of ticks no subtraction goes below zero. -/
theorem distances?_of_orderedFrom {start : UInt32} {events : List (UInt32 × ε)}
    (h : OrderedFrom start.toNat events) :
    distances? start events = some (distances start.toNat events) := by
  induction events generalizing start with
  | nil => rfl
  | cons event rest ih =>
    have hle : start ≤ event.1 := UInt32.le_iff_toNat_le.2 (h.1 event List.mem_cons_self)
    rw [distances?, if_pos hle, ih h.tail, UInt32.toNat_sub_of_le _ _ hle]
    rfl

/-- The distances add up to the ticks of the events, which come in order of their ticks, and no
subtraction goes below zero. -/
structure AddUp (events : List (UInt32 × ε)) (deltas : List (Nat × ε)) : Prop where
  subtractions : distances? 0 (inOrder events) = some deltas
  sums : positions 0 deltas = (inOrder events).map fun event => ((event.1.toNat : Int), event.2)
  given : (inOrder events).Perm events

/-- The distances that are written for some events add up to their ticks. -/
theorem addUp_distances (events : List (UInt32 × ε)) :
    AddUp events (distances 0 (inOrder events)) where
  subtractions := distances?_of_orderedFrom (orderedFrom_inOrder events)
  sums := positions_distances (orderedFrom_inOrder events)
  given := List.mergeSort_perm events _

end Stream

namespace Score

open Container (payloads)

/-- What of a score an entry has a say in. Entries of different slots do not touch. -/
inductive Slot where
  | flags
  | colour (index : UInt8)
  | tempo (tick : UInt32)
  | event (p : Pad) (tick : UInt32)
  deriving DecidableEq, Repr

namespace Entry

/-- The slot of an entry. One that is refused, or adds nothing to a stream, has none. -/
def slot? : Entry → Option Slot
  | flags _ => some .flags
  | override index _ => if index.toNat < Palette.size then some (.colour index) else none
  | tempo tick _ => some (.tempo tick)
  | timebase tick _ => some (.tempo tick)
  | touch _ => none
  | add p tick event => if event.InTable then some (.event p tick) else none

/-- The flags that an entry sets. -/
def flags? : Entry → Option UInt16
  | flags value => some value
  | _ => none

/-- The entry gives the pad a stream, be it refused or not. -/
def opens (p : Pad) : Entry → Bool
  | touch q => q = p
  | add q _ _ => q = p
  | _ => false

end Entry

/-- The same entries in another order, but those of each slot in the same one. -/
structure Rearranged (entries entries' : List Entry) : Prop where
  perm : entries.Perm entries'
  slots : ∀ slot, (entries.filter fun entry => entry.slot? = some slot) =
    entries'.filter fun entry => entry.slot? = some slot

/-- Only the slots that occur need to be looked at. -/
theorem rearranged_iff {entries entries' : List Entry} :
    Rearranged entries entries' ↔ entries.Perm entries' ∧
      ∀ slot ∈ entries.filterMap Entry.slot?,
        (entries.filter fun entry => entry.slot? = some slot) =
          entries'.filter fun entry => entry.slot? = some slot := by
  constructor
  · exact fun h => ⟨h.perm, fun slot _ => h.slots slot⟩
  · rintro ⟨hperm, hslots⟩
    refine ⟨hperm, fun slot => ?_⟩
    by_cases hslot : slot ∈ entries.filterMap Entry.slot?
    · exact hslots slot hslot
    · have hnone : ∀ entry ∈ entries, entry.slot? ≠ some slot := fun entry hentry heq =>
        hslot (List.mem_filterMap.2 ⟨entry, hentry, heq⟩)
      rw [List.filter_eq_nil_iff.2 fun entry hentry => by simpa using hnone entry hentry,
        List.filter_eq_nil_iff.2 fun entry hentry => by
          simpa using hnone entry (hperm.mem_iff.2 hentry)]

instance (entries entries' : List Entry) : Decidable (Rearranged entries entries') :=
  decidable_of_iff _ rearranged_iff.symm

/-- What is taken from the entries of one slot alone is the same after they have been rearranged. -/
theorem Rearranged.filterMap_eq {entries entries' : List Entry} (h : Rearranged entries entries')
    {α : Type} {f : Entry → Option α} (slot : Slot)
    (hslot : ∀ entry a, f entry = some a → entry.slot? = some slot) :
    entries.filterMap f = entries'.filterMap f := by
  have hsame (entries : List Entry) :
      (entries.filter fun entry => entry.slot? = some slot).filterMap f = entries.filterMap f := by
    rw [List.filterMap_filter]
    refine List.filterMap_congr fun entry _ => ?_
    cases hf : f entry with
    | none => exact ite_self none
    | some a => rw [if_pos (decide_eq_true (hslot entry a hf))]
  rw [← hsame entries, ← hsame entries', h.slots]

variable {entries entries' : List Entry}

/-- The events of one tick are in the same order in both, since they share a slot. -/
theorem Rearranged.written_filter (h : Rearranged entries entries') (p : Pad) (tick : UInt32) :
    ((written p entries).filter fun event => event.1 = tick) =
      (written p entries').filter fun event => event.1 = tick := by
  rw [written, written, List.filter_filterMap, List.filter_filterMap]
  refine h.filterMap_eq (.event p tick) fun entry event hevent => ?_
  obtain ⟨hentry, htick⟩ := Option.filter_eq_some_iff.1 hevent
  cases entry with
  | add q tick' event' =>
    simp only [Entry.event?] at hentry
    split at hentry
    next hboth =>
      cases hentry
      obtain rfl : tick' = tick := of_decide_eq_true htick
      rw [Entry.slot?, if_pos hboth.2, hboth.1]
    next => cases hentry
  | _ => cases hentry

/-- The changes at one tick are in the same order in both, since they share a slot. -/
theorem Rearranged.changes_filter (h : Rearranged entries entries') (tick : UInt32) :
    ((changes entries).filter fun change => change.1 = tick) =
      (changes entries').filter fun change => change.1 = tick := by
  rw [changes, changes, List.filter_filterMap, List.filter_filterMap]
  refine h.filterMap_eq (.tempo tick) fun entry change hchange => ?_
  obtain ⟨hentry, htick⟩ := Option.filter_eq_some_iff.1 hchange
  cases entry with
  | tempo tick' microsecondsPerBeat =>
    cases hentry
    exact congrArg (fun tick => some (Slot.tempo tick)) (of_decide_eq_true htick)
  | timebase tick' ticksPerBeat =>
    cases hentry
    exact congrArg (fun tick => some (Slot.tempo tick)) (of_decide_eq_true htick)
  | _ => cases hentry

/-- The colour that an entry gives to a palette entry. -/
def Entry.colourAt? (i : Nat) (entry : Entry) : Option Colour :=
  (entry.override?.filter fun record => record.1.toNat = i).map (·.2)

/-- The colours of one palette entry are in the same order in both. -/
theorem Rearranged.colourAt?_eq (h : Rearranged entries entries') (i : Nat) :
    entries.filterMap (Entry.colourAt? i) = entries'.filterMap (Entry.colourAt? i) := by
  refine h.filterMap_eq (.colour (UInt8.ofNat i)) fun entry colour hcolour => ?_
  obtain ⟨record, hrecord, _⟩ := Option.map_eq_some_iff.1 hcolour
  obtain ⟨hentry, hindex⟩ := Option.filter_eq_some_iff.1 hrecord
  cases entry with
  | override index colour' =>
    simp only [Entry.override?] at hentry
    split at hentry
    next hlt =>
      cases hentry
      have heq : index = UInt8.ofNat i := by
        rw [← of_decide_eq_true hindex]
        exact index.ofNat_toNat.symm
      rw [Entry.slot?, if_pos hlt, heq]
    next => cases hentry
  | _ => cases hentry

/-- Flags are set in the same order in both. -/
theorem Rearranged.flags?_eq (h : Rearranged entries entries') :
    entries.filterMap Entry.flags? = entries'.filterMap Entry.flags? := by
  refine h.filterMap_eq .flags fun entry value hvalue => ?_
  cases entry with
  | flags value' => rfl
  | _ => cases hvalue

/-- A part of a score that entries replace has what the last of them puts there. -/
theorem last_wins {β : Type} (part : Score → β) {f : Entry → Option β}
    (hstep : ∀ s entry, part (s.enter entry) = (f entry).getD (part s)) (s : Score)
    (entries : List Entry) :
    part (s.enterAll entries) = (entries.filterMap f).getLast?.getD (part s) := by
  induction entries generalizing s with
  | nil => rfl
  | cons entry rest ih =>
    have hcons : s.enterAll (entry :: rest) = (s.enter entry).enterAll rest := rfl
    rw [hcons, ih, hstep]
    cases hf : f entry with
    | none => simp only [List.filterMap_cons, hf, Option.getD_none]
    | some value => simp only [List.filterMap_cons, hf, List.getLast?_cons, Option.getD_some]

/-- An event, be it refused or not, touches the stream of its pad and nothing else. -/
theorem exists_addEvent_eq (s : Score) (p : Pad) (tick : UInt32) (event : PadEvent) :
    ∃ events, (s.addEvent p tick event).1 = { s with pads := s.pads.set p (some events) } := by
  rw [addEvent]
  cases (s.pad p).add tick event with
  | ok events => exact ⟨events, rfl⟩
  | error error => exact ⟨s.pad p, rfl⟩

/-- An entry sets the flags or leaves them. -/
theorem flags_enter (s : Score) (entry : Entry) :
    (s.enter entry).flags = entry.flags?.getD s.flags := by
  cases entry with
  | override index colour =>
    simp only [enter, overrideColour]
    split <;> rfl
  | add p tick event =>
    obtain ⟨events, hadd⟩ := s.exists_addEvent_eq p tick event
    simp only [enter, hadd]
    rfl
  | _ => rfl

/-- An entry overrides a palette entry or leaves it. -/
theorem overrides_enter (s : Score) (entry : Entry) {i : Nat} (hi : i < 32) :
    (s.enter entry).overrides[i] = ((entry.colourAt? i).map some).getD s.overrides[i] := by
  cases entry with
  | override index colour =>
    simp only [enter, overrideColour, Entry.colourAt?, Entry.override?]
    by_cases h : Palette.size ≤ index.toNat
    · simp only [if_pos h, if_neg (Nat.not_lt.2 h)]
      rfl
    · simp only [if_neg h, if_pos (Nat.lt_of_not_le h)]
      by_cases hindex : index.toNat = i <;> simp [Except.toOption, Option.filter, hindex]
  | add p tick event =>
    obtain ⟨events, hadd⟩ := s.exists_addEvent_eq p tick event
    simp only [enter, hadd]
    rfl
  | _ => rfl

theorem isSome_pads_set (s : Score) (p q : Pad) (events : PadScore) :
    ((s.pads.set q (some events)).get p).isSome = ((s.pads.get p).isSome || decide (q = p)) := by
  by_cases h : p = q
  · simp [h]
  · rw [PerPad.get_set_of_ne _ _ h, decide_eq_false (Ne.symm h), Bool.or_false]

/-- A pad has a stream after an entry if it had one or the entry gives it one. -/
theorem isSome_pads_enter (s : Score) (entry : Entry) (p : Pad) :
    ((s.enter entry).pads.get p).isSome = ((s.pads.get p).isSome || entry.opens p) := by
  cases entry with
  | override index colour =>
    simp only [enter, overrideColour, Entry.opens, Bool.or_false]
    split <;> rfl
  | touch q => exact s.isSome_pads_set p q _
  | add q tick event =>
    obtain ⟨events, hadd⟩ := s.exists_addEvent_eq q tick event
    rw [enter, hadd]
    exact s.isSome_pads_set p q events
  | _ => exact (Bool.or_false _).symm

/-- A pad has a stream if it had one or some entry gives it one. -/
theorem isSome_pads_enterAll (s : Score) (entries : List Entry) (p : Pad) :
    ((s.enterAll entries).pads.get p).isSome =
      ((s.pads.get p).isSome || entries.any (Entry.opens p)) := by
  induction entries generalizing s with
  | nil => exact (Bool.or_false _).symm
  | cons entry rest ih =>
    have hcons : s.enterAll (entry :: rest) = (s.enter entry).enterAll rest := rfl
    rw [hcons, ih, isSome_pads_enter, List.any_cons, Bool.or_assoc]

theorem getD_pads (s : Score) (p : Pad) :
    s.pads.get p = if (s.pads.get p).isSome then some (s.pad p) else none := by
  rw [pad]
  cases s.pads.get p <;> rfl

/-- The chunks of the pads are those of the streams that there are, pad by pad. -/
theorem map_entries (s : Score) : (s.pads.entries.map fun entry =>
    (⟨.ofPad entry.1, PadScore.encode entry.2⟩ : Chunk)) = Pad.all.filterMap fun p =>
      ((s.pads.get p).map PadScore.encode).map (⟨.ofPad p, ·⟩) := by
  rw [PerPad.entries, List.map_filterMap]
  refine List.filterMap_congr fun p _ => ?_
  cases s.pads.get p <;> rfl

/-- The chunks depend on the streams only as far as these are in order. -/
theorem chunks_congr {s s' : Score} (hheader : s.header = s'.header)
    (hoverrides : s.overrides = s'.overrides)
    (htempo : Stream.inOrder s.tempo = Stream.inOrder s'.tempo)
    (hpads : ∀ p, (s.pads.get p).map PadScore.encode = (s'.pads.get p).map PadScore.encode) :
    s.chunks = s'.chunks := by
  have hlist : s.overrideList = s'.overrideList := by rw [overrideList, overrideList, hoverrides]
  have hpayload : s.palettePayload = s'.palettePayload := by
    rw [palettePayload, palettePayload, hlist]
  simp only [chunks, map_entries, hheader, hlist, hpayload, Stream.encode, htempo, hpads]

/-- Rearranging entries makes no difference to the finished file, whatever they are added to. -/
theorem chunks_enterAll_eq (h : Rearranged entries entries') (s : Score) :
    (s.enterAll entries).chunks = (s.enterAll entries').chunks := by
  obtain ⟨⟨hticks, hbeat⟩, _, hchanges, hpads⟩ := s.enterAll_parts entries
  obtain ⟨⟨hticks', hbeat'⟩, _, hchanges', hpads'⟩ := s.enterAll_parts entries'
  have hflags : (s.enterAll entries).flags = (s.enterAll entries').flags := by
    rw [last_wins flags flags_enter, last_wins flags flags_enter, h.flags?_eq]
  have hoverrides : (s.enterAll entries).overrides = (s.enterAll entries').overrides := by
    refine Vector.ext fun i hi => ?_
    have hlast := last_wins (fun s => s.overrides[i])
      fun s entry => overrides_enter s entry hi
    simp only [← List.map_filterMap] at hlast
    rw [hlast, hlast, h.colourAt?_eq i]
  -- A pad has a stream even if all that was added to it was refused, so this is not seen from the
  -- events written.
  have hopen (p : Pad) : ((s.enterAll entries).pads.get p).isSome =
      ((s.enterAll entries').pads.get p).isSome := by
    rw [isSome_pads_enterAll, isSome_pads_enterAll, h.perm.any_eq]
  have htempo : Stream.inOrder (s.enterAll entries).tempo =
      Stream.inOrder (s.enterAll entries').tempo := by
    refine Stream.inOrder_congr fun tick => ?_
    rw [hchanges, hchanges', List.filter_append, List.filter_append, h.changes_filter]
  have hstream (p : Pad) : PadScore.encode ((s.enterAll entries).pad p) =
      PadScore.encode ((s.enterAll entries').pad p) := by
    have horder : Stream.inOrder ((s.enterAll entries).pad p) =
        Stream.inOrder ((s.enterAll entries').pad p) := by
      refine Stream.inOrder_congr fun tick => ?_
      rw [hpads, hpads', List.filter_append, List.filter_append, h.written_filter]
    rw [PadScore.encode, PadScore.encode, Stream.encode, Stream.encode, horder]
  have hcount : (s.enterAll entries).pads.pads = (s.enterAll entries').pads.pads := by
    simp only [PerPad.pads, hopen]
  refine chunks_congr ?_ hoverrides htempo fun p => ?_
  · rw [header, header, hticks, hticks', hbeat, hbeat', hflags, hcount]
  · rw [getD_pads, getD_pads (s.enterAll entries'), hopen p]
    split
    · exact congrArg some (hstream p)
    · rfl

/-- Among the chunks there is one of this kind, and in it a stream whose distances add up to the
ticks of the events. -/
def Stores {ε : Type} (kind : ChunkKind) (event : Reader ε) (events : List (UInt32 × ε))
    (chunks : List Chunk) : Prop :=
  ∃ payload deltas, payloads kind chunks = [payload] ∧
    Stream.read event payload = .ok deltas ∧ Stream.AddUp events deltas

/-- A file has the changes of tempo in one chunk, be there any or not. -/
theorem stores_tempo (s : Score) : Stores .tempo TempoChange.read s.tempo s.chunks := by
  refine ⟨_, _, s.payloads_tempo_chunks, ?_, Stream.addUp_distances _⟩
  exact (Stream.read_eq_ok_iff TempoChange.reads_read).2 (Stream.form_encode fun _ _ => rfl)

/-- The file has the events of a pad with a stream in one chunk. As their colours are in the table,
they are read back. -/
theorem stores_pad {s : Score} {p : Pad} (hopen : (s.pads.get p).isSome = true)
    (htable : ∀ event ∈ s.pad p, event.2.InTable) :
    Stores (.pad p) (PadEvent.read p) (s.pad p) s.chunks := by
  have hpayloads : payloads (.pad p) s.chunks = [PadScore.encode (s.pad p)] := by
    rw [payloads_pad_chunks, getD_pads, if_pos hopen]
    rfl
  refine ⟨_, _, hpayloads, (Stream.read_eq_ok_iff (PadEvent.reads_read p)).2 ?_,
    Stream.addUp_distances _⟩
  exact Stream.form_encode fun event hevent => PadEvent.form_encode (htable event hevent)

/-- The bytes of a finished file depend on what was entered and not on the order, except for the
order of events of one pad at one tick, of tempo and timebase changes at one tick, of overrides of
one colour and of flags. These bytes are chunks one after another. A reader finds the same chunks in
them, unless the length of a payload cannot be written down, which takes more than a hundred million
entries. One of the chunks holds the changes of tempo, and one for each pad that was asked for holds
its events. In each of these the distances add up to the ticks that were given, and no subtraction
of ticks goes below zero. -/
theorem toBytes_canonical (ticksPerBeat : UInt16) (microsecondsPerBeat : UInt32)
    {entries entries' : List Entry} (h : Rearranged entries entries') :
    let s := (new ticksPerBeat microsecondsPerBeat).enterAll entries
    s.toBytes = ((new ticksPerBeat microsecondsPerBeat).enterAll entries').toBytes ∧
    ∃ chunks, s.toBytes = chunks.flatMap Chunk.encode ∧
      (Chunk.readAll s.toBytes = .ok chunks ↔
        ∀ c ∈ chunks, c.payload.length < 0x100000000) ∧
      (entries.length ≤ 100000000 → Chunk.readAll s.toBytes = .ok chunks) ∧
      Stores .tempo TempoChange.read (changes entries) chunks ∧
      ∀ p, if entries.any (Entry.opens p) then
          Stores (.pad p) (PadEvent.read p) (written p entries) chunks
        else payloads (.pad p) chunks = [] := by
  intro s
  obtain ⟨_, _, hchanges, hpads⟩ := (new ticksPerBeat microsecondsPerBeat).enterAll_parts entries
  have hwritten (p : Pad) : s.pad p = written p entries := by
    rw [hpads, pad_new, List.nil_append]
  have hopen (p : Pad) : (s.pads.get p).isSome = entries.any (Entry.opens p) := by
    have hnew : ((new ticksPerBeat microsecondsPerBeat).pads.get p).isSome = false := by
      rw [new, PerPad.get_const]
      rfl
    rw [isSome_pads_enterAll, hnew, Bool.false_or]
  refine ⟨congrArg (List.flatMap Chunk.encode) (chunks_enterAll_eq h _), s.chunks, rfl,
    s.readAll_toBytes_iff, fun hlength => ?_, ?_, fun p => ?_⟩
  · refine s.readAll_toBytes_iff.2 (length_payload_lt ?_ fun p => ?_)
    · rw [hchanges]
      exact Nat.le_trans (List.length_filterMap_le _ _) hlength
    · rw [hwritten]
      exact Nat.le_trans (List.length_filterMap_le _ _) hlength
  · have htempo := s.stores_tempo
    rwa [hchanges] at htempo
  · rw [← hopen]
    split
    next hsome =>
      rw [← hwritten]
      refine stores_pad hsome fun event hevent => ?_
      rw [hwritten] at hevent
      exact inTable_of_mem_written hevent
    next hnone =>
      rw [payloads_pad_chunks, Option.not_isSome_iff_eq_none.1 hnone]
      rfl

/-- The rehearsal in another order: a refused override and a touch come first, and the rest is
sorted by tick. -/
def secondRehearsal : List Entry :=
  [.override 32 .white, .touch .centre, .flags 2, .timebase 2 480,
    .add .right 0 (.switch 0 (.palette 40) 0), .add .left 3 (.switch 0xFFFF (.palette 5) 1),
    .add .left 3 (.defaultTransition 7), .add .left 3 (.switch 0xFFFF (.palette 31) 0),
    .override 5 ⟨1, 2, 3⟩, .tempo 4 0, .add .left 9 (.flash 4 4 0 (.literal .white) 0)]

/-- The two rehearsals lead to the same bytes. Read back from these, the tempo stream and the stream
of the left pad tell the ticks that were given, in order now, and the stream of the centre, which
was only touched, is empty. -/
theorem toBytes_rehearsals :
    Rearranged rehearsal secondRehearsal ∧
    let s := (new 0 500000).enterAll rehearsal
    s.toBytes = ((new 0 500000).enterAll secondRehearsal).toBytes ∧
    ∃ chunks, Chunk.readAll s.toBytes = .ok chunks ∧
      (∃ payload deltas, payloads .tempo chunks = [payload] ∧
        Stream.read TempoChange.read payload = .ok deltas ∧
        Stream.positions 0 deltas = [(2, .timebase 480), (4, .tempo 0)]) ∧
      (∃ payload deltas, payloads (.pad .left) chunks = [payload] ∧
        Stream.read (PadEvent.read .left) payload = .ok deltas ∧
        Stream.positions 0 deltas =
          [(3, .switch 0xFFFF (.palette 5) 1), (3, .defaultTransition 7),
            (3, .switch 0xFFFF (.palette 31) 0), (9, .flash 4 4 0 (.literal .white) 0)]) ∧
      ∃ payload, payloads (.pad .centre) chunks = [payload] ∧
        Stream.read (PadEvent.read .centre) payload = .ok [] := by
  have h : Rearranged rehearsal secondRehearsal := by decide
  -- The second rehearsal is in order of its ticks, so its streams are what sorting leads to.
  have hchanges : Stream.inOrder (changes rehearsal) = changes secondRehearsal :=
    (Stream.inOrder_congr h.changes_filter).trans (List.mergeSort_of_pairwise (by decide))
  have hwritten : Stream.inOrder (written .left rehearsal) = written .left secondRehearsal :=
    (Stream.inOrder_congr (h.written_filter .left)).trans (List.mergeSort_of_pairwise (by decide))
  have hnone : Stream.inOrder (written .centre rehearsal) = [] := List.mergeSort_nil
  obtain ⟨hsame, chunks, _, _, hread, htempo, hpads⟩ := toBytes_canonical 0 500000 h
  obtain ⟨tempo, changed, htempo, hchanged, hticks⟩ := htempo
  obtain ⟨left, played, hleft, hplayed, hplayedTicks⟩ := hpads .left
  obtain ⟨centre, silent, hcentre, hsilent, hsilentTicks⟩ := hpads .centre
  refine ⟨h, hsame, chunks, hread (by decide), ⟨tempo, changed, htempo, hchanged, ?_⟩,
    ⟨left, played, hleft, hplayed, ?_⟩, centre, hcentre, ?_⟩
  · rw [hticks.sums, hchanges]
    rfl
  · rw [hplayedTicks.sums, hwritten]
    rfl
  · have hdeltas := hsilentTicks.subtractions
    rw [hnone] at hdeltas
    rw [hsilent, ← Option.some.inj hdeltas]

end Score

end LightShow
