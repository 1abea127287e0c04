import LightShow.Proofs.Codec.Meaning

namespace LightShow

namespace Reader

variable {α β : Type}

/-- The reader asks for more bytes than there are. -/
def Starves (r : Reader α) (s : Bytes) : Prop := ∃ item, r s = .error (.unexpectedEnd item)

/-- Unless it asks for more bytes than there are, the reader does not notice what stands behind
them. -/
def Forward (r : Reader α) : Prop :=
  ∀ s more, Starves r s ∨ r (s ++ more) = (r s).map fun (a, rest) => (a, rest ++ more)

/-- A reader that succeeds hands on to the next one. -/
theorem bind_of_ok {r : Reader α} {k : α → Reader β} {s rest : Bytes} {a : α}
    (h : r s = .ok (a, rest)) : (r >>= k) s = k a rest := by
  change (r s >>= fun p => k p.1 p.2) = _
  rw [h]
  rfl

/-- A reader that fails ends it there. -/
theorem bind_of_error {r : Reader α} {k : α → Reader β} {s : Bytes} {e : CodecError}
    (h : r s = .error e) : (r >>= k) s = .error e :=
  bind_eq_error_iff.2 (.inl h)

theorem forward_pure (a : α) : Forward (pure a) := fun _ _ => .inr rfl

theorem forward_throw (e : CodecError) : Forward (throw e : Reader α) := fun _ _ => .inr rfl

/-- If the first reader asks for more bytes than there are, so do both. Otherwise the second does
not notice either what stands behind. -/
theorem Forward.bind {r : Reader α} {k : α → Reader β} (hr : Forward r)
    (hk : ∀ a, Forward (k a)) : Forward (r >>= k) := by
  intro s more
  rcases hr s more with ⟨item, hstarves⟩ | hmore
  · exact .inl ⟨item, bind_of_error hstarves⟩
  · cases hread : r s with
    | error e =>
      rw [hread] at hmore
      exact .inr (by rw [bind_of_error hread, bind_of_error hmore]; rfl)
    | ok p =>
      obtain ⟨a, rest⟩ := p
      rw [hread] at hmore
      have hread' : r (s ++ more) = .ok (a, rest ++ more) := hmore
      simp only [Starves, bind_of_ok hread, bind_of_ok hread']
      exact hk a rest more

theorem forward_byte (item : String) : Forward (byte item) := by
  intro s more
  cases s with
  | nil => exact .inl ⟨item, rfl⟩
  | cons b s => exact .inr rfl

/-- A word is read from two bytes, whatever stands behind these. -/
theorem forward_u16 (item : String) : Forward (u16 item) := by
  intro s more
  cases hread : u16 item s with
  | error e => exact .inl ⟨item, hread.trans (congrArg _ (u16_eq_error_iff.1 hread).2)⟩
  | ok p =>
    obtain ⟨v, rest⟩ := p
    refine .inr (u16_eq_ok_iff.2 ?_)
    rw [u16_eq_ok_iff.1 hread, List.append_assoc]

/-- Whoever has only the first bytes of a value asks for more. -/
theorem Forward.starves_of_cut {r : Reader α} {form : α → Bytes → Prop} (hforward : Forward r)
    (hr : Reads r form) {a : α} {front back : Bytes} (hform : form a (front ++ back))
    (hback : back ≠ []) : Starves r front := by
  rcases hforward front back with hstarves | hmore
  · exact hstarves
  · have hwhole := hr.of_form hform []
    rw [List.append_nil, hmore, Outcome.map_eq_ok_iff] at hwhole
    obtain ⟨p, _, hp⟩ := hwhole
    exact absurd (List.append_eq_nil_iff.1 (congrArg Prod.snd hp)).2 hback

/-- Bytes that stand for some values are cut between two of these, at an end, or within one. -/
theorem Sequence.cut {form : α → Bytes → Prop} {as : List α} {a b : Bytes}
    (h : Sequence form as (a ++ b)) :
    (∃ before behind, Sequence form before a ∧ Sequence form behind b) ∨
      ∃ before value behind front left right back, a = front ++ left ∧ b = right ++ back ∧
        Sequence form before front ∧ form value (left ++ right) ∧ left ≠ [] ∧ right ≠ [] ∧
        Sequence form behind back := by
  generalize hs : a ++ b = s at h
  induction h generalizing a with
  | nil =>
    obtain ⟨rfl, rfl⟩ := List.append_eq_nil_iff.1 hs
    exact .inl ⟨[], [], .nil, .nil⟩
  | @cons value as first rest hvalue hrest ih =>
    rcases List.append_eq_append_iff.1 hs with ⟨right, rfl, rfl⟩ | ⟨left, rfl, rfl⟩
    · by_cases hleft : a = []
      · subst hleft
        exact .inl ⟨[], value :: as, .nil, .cons hvalue hrest⟩
      by_cases hright : right = []
      · subst hright
        rw [List.append_nil] at hvalue
        have hfirst : Sequence form [value] (a ++ []) := .cons hvalue .nil
        rw [List.append_nil] at hfirst
        exact .inl ⟨[value], as, hfirst, hrest⟩
      · exact .inr ⟨[], value, as, [], a, right, rest, rfl, rfl, .nil, hvalue, hleft, hright, hrest⟩
    · rcases ih rfl with ⟨before, behind, hbefore, hbehind⟩ |
        ⟨before, value', behind, front, left', right, back, rfl, hb, hbefore, hvalue', hleft,
          hright, hbehind⟩
      · exact .inl ⟨value :: before, behind, .cons hvalue hbefore, hbehind⟩
      · exact .inr ⟨value :: before, value', behind, first ++ front, left', right, back,
          (List.append_assoc ..).symm, hb, .cons hvalue hbefore, hvalue', hleft, hright, hbehind⟩

end Reader

/-- A colour notices nothing behind it: its mode tells how long it is. -/
theorem ColourRef.forward_read : Reader.Forward read := by
  refine (Reader.forward_byte _).bind fun mode => ?_
  split
  · exact (Reader.forward_byte _).bind fun red => (Reader.forward_byte _).bind fun green =>
      (Reader.forward_byte _).bind fun blue => Reader.forward_pure _
  · exact Reader.forward_pure _

/-- In a number that is cut, all bytes of the first part are marked as not being the last. -/
theorem Varint.Form.marked_of_cut {n : Nat} {front back : Bytes} (h : Form n (front ++ back))
    (hback : back ≠ []) : ∀ b ∈ front, 0x80 ≤ b := by
  generalize hs : front ++ back = s at h
  induction h generalizing front with
  | last hb =>
    cases front with
    | nil => simp
    | cons b front =>
      rw [List.cons_append, List.cons.injEq, List.append_eq_nil_iff] at hs
      exact absurd hs.2.2 hback
  | more hb _ ih =>
    cases front with
    | nil => simp
    | cons b front =>
      rw [List.cons_append, List.cons.injEq] at hs
      exact List.forall_mem_cons.2 ⟨hs.1 ▸ hb, ih hs.2⟩

namespace PadEvent

open Reader in
/-- An event notices nothing behind it: its opcode tells how long it is. -/
theorem forward_read (pad : Pad) : Forward (read pad) := by
  refine (forward_byte _).bind fun opcode => ?_
  split
  · exact (forward_u16 _).bind fun transition => ColourRef.forward_read.bind fun colour =>
      (forward_u16 _).bind fun hold => forward_pure _
  · exact (forward_u16 _).bind fun ramp => (forward_byte _).bind fun pulses =>
      ColourRef.forward_read.bind fun colour => (forward_u16 _).bind fun hold => forward_pure _
  · exact (forward_u16 _).bind fun on => (forward_u16 _).bind fun off =>
      (forward_byte _).bind fun pulses => ColourRef.forward_read.bind fun colour =>
      (forward_u16 _).bind fun hold => forward_pure _
  · exact (forward_u16 _).bind fun transition => (forward_u16 _).bind fun hold => forward_pure _
  · exact (forward_u16 _).bind fun transition => forward_pure _
  · exact (forward_byte _).bind fun state => forward_pure _
  · exact forward_throw _

/-- An event and its distance are cut in two. The item is what is missing from the first part, by
the place of the cut: within the distance, between it and the opcode, or behind the opcode. -/
inductive Severed : String → Bytes → Bytes → Prop
  | distance {n : Nat} {front back : Bytes} (hdelta : Varint.Readable n (front ++ back))
    (hfront : front ≠ []) (hback : back ≠ []) {event : PadEvent} {s : Bytes}
    (hevent : Form event s) : Severed "variable-length integer" front (back ++ s)
  | opcode {n : Nat} {delta : Bytes} (hdelta : Varint.Readable n delta) {event : PadEvent}
    {s : Bytes} (hevent : Form event s) : Severed "pad opcode" delta s
  | payload {n : Nat} {delta : Bytes} (hdelta : Varint.Readable n delta) {event : PadEvent}
    {opcode : UInt8} {front back : Bytes} (hevent : Form event (opcode :: (front ++ back)))
    (hback : back ≠ []) {fields : List EventField} (hopcode : fields? opcode = some fields)
    {item : String} (hcut : EventField.CutIn fields item front) :
    Severed item (delta ++ opcode :: front) back

/-- A stream is cut between two events, or at an end. -/
def CutBetween (a b : Bytes) : Prop :=
  (∃ events, Spells a events) ∧ ∃ events, Spells b events

/-- A stream is cut within an event, from the first part of which the item is missing. -/
def CutWithin (item : String) (a b : Bytes) : Prop :=
  ∃ front left right back before behind, a = front ++ left ∧ b = right ++ back ∧
    Spells front before ∧ Severed item left right ∧ Spells back behind

/-- Wherever an event is cut, some item is missing from the first part. -/
theorem exists_severed {event : Nat × PadEvent} {left right : Bytes}
    (h : Stream.Timed Form event (left ++ right)) (hleft : left ≠ []) (hright : right ≠ []) :
    ∃ item, Severed item left right := by
  obtain ⟨delta, s, hs, hdelta, hevent⟩ := h
  rcases List.append_eq_append_iff.1 hs with ⟨rest, rfl, rfl⟩ | ⟨front, rfl, rfl⟩
  · by_cases hrest : rest = []
    · subst hrest
      rw [List.append_nil] at hdelta
      exact ⟨_, .opcode hdelta hevent⟩
    · exact ⟨_, .distance hdelta hleft hrest hevent⟩
  · cases front with
    | nil =>
      rw [List.append_nil]
      exact ⟨_, .opcode hdelta hevent⟩
    | cons opcode front =>
      -- The pad is named in no error that matters here.
      have hforward := forward_read .centre
      obtain ⟨item, hread⟩ := hforward.starves_of_cut (reads_read .centre) hevent hright
      cases read_eq_error_iff.1 hread with
      | cutOff hopcode hcut => exact ⟨item, .payload hdelta hevent hright hopcode hcut⟩

/-- However a stream is cut, it is cut between events or within one. -/
theorem cutBetween_or_cutWithin {a b : Bytes} {events : List (Nat × PadEvent)}
    (h : Spells (a ++ b) events) : CutBetween a b ∨ ∃ item, CutWithin item a b := by
  rcases h.cut with ⟨before, behind, hbefore, hbehind⟩ |
    ⟨before, event, behind, front, left, right, back, ha, hb, hbefore, hevent, hleft, hright,
      hbehind⟩
  · exact .inl ⟨⟨before, hbefore⟩, behind, hbehind⟩
  · obtain ⟨item, hsevered⟩ := exists_severed hevent hleft hright
    exact .inr ⟨item, front, left, right, back, before, behind, ha, hb, hbefore, hsevered, hbehind⟩

/-- The first part of an event that has been cut is reported as missing the item. -/
theorem Severed.malformed {item : String} {left right : Bytes} (h : Severed item left right)
    (pad : Pad) : Stream.Malformed (Malformed pad) (.unexpectedEnd item) left := by
  cases h with
  | @distance _ _ back hdelta hfront hback =>
    have hlength := hdelta.2
    have hpos := List.length_pos_iff.2 hback
    rw [List.length_append] at hlength
    exact .delta hfront (.cutOff (hdelta.1.marked_of_cut hback) (by omega))
  | opcode hdelta =>
    have hmissing : Stream.Malformed (Malformed pad) (.unexpectedEnd "pad opcode") (left ++ []) :=
      .event hdelta .missing
    rwa [List.append_nil] at hmissing
  | payload hdelta hevent hback hopcode hcut => exact .event hdelta (.cutOff hopcode hcut)

theorem readAll_singleton (pad : Pad) {s : Bytes} {events : List (Nat × PadEvent)}
    (h : Spells s events) : readAll pad [s] = .ok (Stream.positions 0 events) :=
  readAll_eq_ok_iff.2 ⟨[events], (read_payloads_iff pad).2 (.cons h .nil), by
    rw [List.flatten_singleton]⟩

/-- What is read from a payload has been spelt out in it. -/
theorem exists_spells_of_readAll {pad : Pad} {s : Bytes} {events : List (Int × PadEvent)}
    (h : readAll pad [s] = .ok events) : ∃ stream, Spells s stream := by
  obtain ⟨_, hstreams, _⟩ := readAll_eq_ok_iff.1 h
  cases (read_payloads_iff pad).1 hstreams with
  | cons hspells _ => exact ⟨_, hspells⟩

/-- Ticks are counted on from one payload to the next, so a stream in two payloads holds the events
that it holds in one. -/
theorem readAll_of_cutBetween (pad : Pad) {a b : Bytes} (h : CutBetween a b) :
    readAll pad [a, b] = readAll pad [a ++ b] := by
  obtain ⟨⟨before, hbefore⟩, behind, hbehind⟩ := h
  rw [readAll_singleton pad (hbefore.append hbehind), readAll_eq_ok_iff]
  refine ⟨[before, behind], (read_payloads_iff pad).2 (.cons hbefore (.cons hbehind .nil)), ?_⟩
  rw [List.flatten_cons, List.flatten_singleton]

/-- A cut within an event is reported at the first part, and what comes after is never looked at. -/
theorem readAll_of_cutWithin (pad : Pad) {item : String} {a b : Bytes} (h : CutWithin item a b)
    (after : List Bytes) : readAll pad (a :: after) = .error (.unexpectedEnd item) := by
  obtain ⟨front, left, _, _, before, _, rfl, _, hbefore, hsevered, _⟩ := h
  exact readAll_eq_error_iff.2 ⟨[], front ++ left, after, rfl, by simp, before, front, left, rfl,
    hbefore, hsevered.malformed pad⟩

end PadEvent

variable {τ : Type} [Clock τ]

namespace Track

open PadEvent (CutBetween CutWithin)

/-- A stream may be cut into two payloads between any two events, or at an end, and gives the same
track. Cut anywhere else it ends too early: neither the two parts are accepted nor the first part by
itself, and the error tells what is missing from the event that is cut. -/
theorem decode_cut (pad : Pad) (tempo : TempoMap τ) (palette : Palette) {a b : Bytes}
    {track : Track τ} (h : decode pad tempo palette [a ++ b] = .ok track) :
    (CutBetween a b ∨ ∃ item, CutWithin item a b) ∧
    (decode pad tempo palette [a, b] = .ok track ↔ CutBetween a b) ∧
    (∀ item, decode pad tempo palette [a, b] = .error (.unexpectedEnd item) ↔
      CutWithin item a b) ∧
    ∀ item, decode pad tempo palette [a] = .error (.unexpectedEnd item) ↔ CutWithin item a b := by
  have hwhole := h
  rw [decode_eq_map, Outcome.map_eq_ok_iff] at hwhole
  obtain ⟨events, hevents, _⟩ := hwhole
  obtain ⟨stream, hspells⟩ := PadEvent.exists_spells_of_readAll hevents
  have hcases := PadEvent.cutBetween_or_cutWithin hspells
  have hbetween (hcut : CutBetween a b) : decode pad tempo palette [a, b] = .ok track := by
    rw [← h, decode_eq_map, decode_eq_map, PadEvent.readAll_of_cutBetween pad hcut]
  have hfirst (hcut : CutBetween a b) : ∃ first, decode pad tempo palette [a] = .ok first := by
    obtain ⟨⟨before, hbefore⟩, _⟩ := hcut
    rw [decode_eq_map, PadEvent.readAll_singleton pad hbefore]
    exact ⟨_, rfl⟩
  have hwithin {item : String} (hcut : CutWithin item a b) (after : List Bytes) :
      decode pad tempo palette (a :: after) = .error (.unexpectedEnd item) := by
    rw [decode_eq_map, PadEvent.readAll_of_cutWithin pad hcut]
    rfl
  refine ⟨hcases, ⟨fun hok => ?_, hbetween⟩,
    fun item => ⟨fun herror => ?_, fun hcut => hwithin hcut _⟩,
    fun item => ⟨fun herror => ?_, fun hcut => hwithin hcut _⟩⟩
  · rcases hcases with hcut | ⟨item, hcut⟩
    · exact hcut
    · cases hok.symm.trans (hwithin hcut [b])
  · rcases hcases with hcut | ⟨item', hcut⟩
    · cases herror.symm.trans (hbetween hcut)
    · cases herror.symm.trans (hwithin hcut [b])
      exact hcut
  · rcases hcases with hcut | ⟨item', hcut⟩
    · obtain ⟨first, hok⟩ := hfirst hcut
      cases herror.symm.trans hok
    · cases herror.symm.trans (hwithin hcut [])
      exact hcut

theorem decode_cut_in_colour :
    let tempo : TempoMap Binary64 := ⟨⟨0, Binary64.hundredth, ⟨0⟩⟩, []⟩
    let first : Bytes := [0x80, 0x00, 0x14, 0x0A, 0x00]
    let left : Bytes := [0x05, 0x10, 0xFF, 0xFF, 0x20, 0x01]
    let right : Bytes := [0x02, 0x03, 0x00, 0x00]
    ∃ track, decode .left tempo .default [first ++ (left ++ right)] = .ok track ∧
      CutBetween first (left ++ right) ∧
      decode .left tempo .default [first, left ++ right] = .ok track ∧
      CutWithin "literal colour" (first ++ left) right ∧
      decode .left tempo .default [first ++ left] = .error (.unexpectedEnd "literal colour") := by
  intro tempo first left right
  have hread : PadEvent.readAll .left [first ++ (left ++ right)] =
      .ok [(0, .defaultTransition 10), (5, .switch 0xFFFF (.literal ⟨1, 2, 3⟩) 0)] := by
    decide +kernel
  have hparts : PadEvent.readAll .left [first, left ++ right] =
      .ok [(0, .defaultTransition 10), (5, .switch 0xFFFF (.literal ⟨1, 2, 3⟩) 0)] := by
    decide +kernel
  have hfront : PadEvent.readAll .left [first ++ left] =
      .error (.unexpectedEnd "literal colour") := by
    decide +kernel
  obtain ⟨track, hdecode⟩ : ∃ track, decode .left tempo .default [first ++ (left ++ right)] =
      .ok track := by
    rw [decode_eq_map, hread]
    exact ⟨_, rfl⟩
  have hsame : decode .left tempo .default [first, left ++ right] = .ok track := by
    rw [← hdecode, decode_eq_map, decode_eq_map, hparts, hread]
  have hearly : decode .left tempo .default [first ++ left] =
      .error (.unexpectedEnd "literal colour") := by
    rw [decode_eq_map, hfront]
    rfl
  obtain ⟨_, hbetween, _⟩ := decode_cut .left tempo .default hdecode
  have hlater : decode .left tempo .default [(first ++ left) ++ right] = .ok track := hdecode
  obtain ⟨_, _, _, hwithin⟩ := decode_cut .left tempo .default hlater
  exact ⟨track, hdecode, hbetween.1 hsame, hsame, (hwithin _).1 hearly, hearly⟩

end Track

end LightShow
