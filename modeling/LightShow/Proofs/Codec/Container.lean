import LightShow.Container
import LightShow.Proofs.Outcome

namespace LightShow

/-- The tag of the chunks of a known kind. -/
def ChunkKind.tag? : ChunkKind → Option Tag
  | head => some .head
  | tempo => some .temp
  | palette => some .pal0
  | pad p => some (.ofPad p)
  | unknown => none

theorem Tag.tag?_kind {t : Tag} {tag : Tag} (h : t.kind.tag? = some tag) : t = tag := by
  unfold kind at h
  split at h
  next ht => exact ht.trans (Option.some.inj h)
  split at h
  next ht => exact ht.trans (Option.some.inj h)
  split at h
  next ht => exact ht.trans (Option.some.inj h)
  split at h
  next p hp =>
    have ht := List.find?_some hp
    exact (of_decide_eq_true ht).trans (Option.some.inj h)
  next => cases h

/-- Of the kinds that a decoder looks into each has one tag. -/
theorem Tag.kind_eq_iff {kind : ChunkKind} {tag : Tag} (h : kind.tag? = some tag) {t : Tag} :
    t.kind = kind ↔ t = tag := by
  constructor
  · rintro rfl
    exact tag?_kind h
  · rintro rfl
    cases kind with
    | pad p => cases p <;> cases h <;> rfl
    | _ => cases h <;> rfl

namespace Container

/-- The payloads of the chunks of one kind, in order. -/
def payloads (kind : ChunkKind) (chunks : List Chunk) : List Bytes :=
  (chunks.filter fun c => c.tag.kind = kind).map (·.payload)

/-- The payloads of the chunks with one tag, in order. -/
def tagged (tag : Tag) (chunks : List Chunk) : List Bytes :=
  (chunks.filter fun c => c.tag = tag).map (·.payload)

theorem payloads_eq_tagged {kind : ChunkKind} {tag : Tag} (h : kind.tag? = some tag)
    (chunks : List Chunk) : payloads kind chunks = tagged tag chunks := by
  simp only [payloads, tagged, Tag.kind_eq_iff h]

/-- Takes in the payload of a header. -/
def takeHeader (header : Option Header) (payload : Bytes) : Except CodecError (Option Header) :=
  if header.isSome then .error .duplicateHeader else (Header.read payload).map some

/-- Takes in a tempo payload. -/
def takeTempo (events : List TempoEvent) (payload : Bytes) : Except CodecError (List TempoEvent) :=
  (TempoEvent.readAll payload).map (events ++ ·)

/-- Takes in a palette payload. -/
def takePalette (draft : PaletteDraft) (payload : Bytes) : Except CodecError PaletteDraft :=
  (draft.apply payload).2.map fun () => (draft.apply payload).1

/-- Taking in the chunks leads from one container to the other. Each part of a container depends on
the chunks of one kind only. -/
structure Collects (before : Container) (chunks : List Chunk) (after : Container) : Prop where
  header : (payloads .head chunks).foldlM takeHeader before.header = .ok after.header
  tempo : (payloads .tempo chunks).foldlM takeTempo before.tempo = .ok after.tempo
  palette : (payloads .palette chunks).foldlM takePalette before.palette = .ok after.palette
  pads : ∀ p, after.pads.get p = before.pads.get p ++ payloads (.pad p) chunks

theorem collects_iff {before after : Container} {chunks : List Chunk} :
    Collects before chunks after ↔
      (payloads .head chunks).foldlM takeHeader before.header = .ok after.header ∧
      (payloads .tempo chunks).foldlM takeTempo before.tempo = .ok after.tempo ∧
      (payloads .palette chunks).foldlM takePalette before.palette = .ok after.palette ∧
      ∀ p, after.pads.get p = before.pads.get p ++ payloads (.pad p) chunks :=
  ⟨fun ⟨hheader, htempo, hpalette, hpads⟩ => ⟨hheader, htempo, hpalette, hpads⟩,
    fun ⟨hheader, htempo, hpalette, hpads⟩ => ⟨hheader, htempo, hpalette, hpads⟩⟩

theorem payloads_append (kind : ChunkKind) (chunks chunks' : List Chunk) :
    payloads kind (chunks ++ chunks') = payloads kind chunks ++ payloads kind chunks' := by
  simp only [payloads, List.filter_append, List.map_append]

theorem payloads_singleton (kind : ChunkKind) (c : Chunk) :
    payloads kind [c] = if c.tag.kind = kind then [c.payload] else [] := by
  by_cases h : c.tag.kind = kind
  · simp [payloads, h]
  · simp [payloads, h]

/-- Without chunks nothing is taken in. -/
theorem collects_nil_iff {before after : Container} :
    Collects before [] after ↔ before = after := by
  constructor
  · rintro ⟨hheader, htempo, hpalette, hpads⟩
    obtain ⟨_, _, _, pads⟩ := before
    obtain ⟨_, _, _, pads'⟩ := after
    have heq : pads' = pads := PerPad.ext_get fun p => (hpads p).trans (List.append_nil _)
    cases hheader
    cases htempo
    cases hpalette
    rw [heq]
  · rintro rfl
    exact ⟨rfl, rfl, rfl, fun p => (List.append_nil _).symm⟩

/-- Chunks may be taken in by parts, since each part of a container goes on from where it has
come. -/
theorem collects_append_iff {before after : Container} {chunks chunks' : List Chunk} :
    Collects before (chunks ++ chunks') after ↔
      ∃ mid, Collects before chunks mid ∧ Collects mid chunks' after := by
  constructor
  · rintro ⟨hheader, htempo, hpalette, hpads⟩
    rw [payloads_append, List.foldlM_append, Outcome.bind_eq_ok_iff] at hheader htempo hpalette
    obtain ⟨header, hheader, hheader'⟩ := hheader
    obtain ⟨tempo, htempo, htempo'⟩ := htempo
    obtain ⟨palette, hpalette, hpalette'⟩ := hpalette
    let pads := PerPad.ofFn fun p => before.pads.get p ++ payloads (.pad p) chunks
    refine ⟨⟨header, tempo, palette, pads⟩, ⟨hheader, htempo, hpalette, fun p => ?_⟩,
      ⟨hheader', htempo', hpalette', fun p => ?_⟩⟩
    · exact PerPad.get_ofFn _ p
    · rw [hpads, payloads_append, PerPad.get_ofFn, List.append_assoc]
  · rintro ⟨mid, ⟨hheader, htempo, hpalette, hpads⟩, ⟨hheader', htempo', hpalette', hpads'⟩⟩
    refine ⟨?_, ?_, ?_, fun p => ?_⟩
    · rw [payloads_append, List.foldlM_append, hheader]
      exact hheader'
    · rw [payloads_append, List.foldlM_append, htempo]
      exact htempo'
    · rw [payloads_append, List.foldlM_append, hpalette]
      exact hpalette'
    · rw [payloads_append, hpads', hpads, List.append_assoc]

/-- A chunk adds to the part of the container that belongs to its kind, and one of unknown kind adds
to none. -/
theorem add_eq (before : Container) (c : Chunk) :
    before.add c = match c.tag.kind with
      | .head => (takeHeader before.header c.payload).map fun header => { before with header }
      | .tempo => (takeTempo before.tempo c.payload).map fun tempo => { before with tempo }
      | .palette =>
        (takePalette before.palette c.payload).map fun palette => { before with palette }
      | .pad p =>
        .ok { before with pads := before.pads.set p (before.pads.get p ++ [c.payload]) }
      | .unknown => .ok before := by
  unfold add
  cases c.tag.kind with
  | head =>
    simp only [takeHeader]
    split
    · rfl
    · cases Header.read c.payload <;> rfl
  | tempo =>
    simp only [takeTempo]
    cases TempoEvent.readAll c.payload <;> rfl
  | palette =>
    simp only [takePalette]
    cases (before.palette.apply c.payload).2 <;> rfl
  | pad p => rfl
  | unknown => rfl

/-- Taking in one chunk is what the relation says of a list of just this chunk. -/
theorem add_eq_ok_iff {before after : Container} {c : Chunk} :
    before.add c = .ok after ↔ Collects before [c] after := by
  have hsame (pads pads' : PerPad (List Bytes)) :
      pads = pads' ↔ ∀ p, pads'.get p = pads.get p ++ [] := by
    simp only [List.append_nil]
    exact ⟨fun h p => by rw [h], fun h => PerPad.ext_get fun p => (h p).symm⟩
  obtain ⟨header, tempo, palette, pads⟩ := before
  obtain ⟨header', tempo', palette', pads'⟩ := after
  rw [add_eq, collects_iff]
  cases hkind : c.tag.kind with
  | head =>
    simp only [payloads_singleton, hkind, reduceCtorEq, if_true, if_false, Outcome.foldlM_singleton,
      List.foldlM_nil, Outcome.map_eq_ok_iff, Outcome.pure_eq_ok_iff, mk.injEq, hsame]
    constructor
    · rintro ⟨_, hheader, rfl, hrest⟩
      exact ⟨hheader, hrest⟩
    · rintro ⟨hheader, hrest⟩
      exact ⟨_, hheader, rfl, hrest⟩
  | tempo =>
    simp only [payloads_singleton, hkind, reduceCtorEq, if_true, if_false, Outcome.foldlM_singleton,
      List.foldlM_nil, Outcome.map_eq_ok_iff, Outcome.pure_eq_ok_iff, mk.injEq, hsame]
    constructor
    · rintro ⟨_, htempo, hheader, rfl, hrest⟩
      exact ⟨hheader, htempo, hrest⟩
    · rintro ⟨hheader, htempo, hrest⟩
      exact ⟨_, htempo, hheader, rfl, hrest⟩
  | palette =>
    simp only [payloads_singleton, hkind, reduceCtorEq, if_true, if_false, Outcome.foldlM_singleton,
      List.foldlM_nil, Outcome.map_eq_ok_iff, Outcome.pure_eq_ok_iff, mk.injEq, hsame]
    constructor
    · rintro ⟨_, hpalette, hheader, htempo, rfl, hrest⟩
      exact ⟨hheader, htempo, hpalette, hrest⟩
    · rintro ⟨hheader, htempo, hpalette, hrest⟩
      exact ⟨_, hpalette, hheader, htempo, rfl, hrest⟩
  | pad p =>
    have hpads : pads.set p (pads.get p ++ [c.payload]) = pads' ↔
        ∀ q, pads'.get q = pads.get q ++ if p = q then [c.payload] else [] := by
      constructor
      · rintro rfl q
        by_cases hq : p = q
        · subst hq
          rw [PerPad.get_set_self, if_pos rfl]
        · rw [PerPad.get_set_of_ne _ _ (Ne.symm hq), if_neg hq, List.append_nil]
      · intro h
        refine PerPad.ext_get fun q => ?_
        rw [h]
        by_cases hq : p = q
        · subst hq
          rw [PerPad.get_set_self, if_pos rfl]
        · rw [PerPad.get_set_of_ne _ _ (Ne.symm hq), if_neg hq, List.append_nil]
    simp only [payloads_singleton, hkind, reduceCtorEq, if_false, ChunkKind.pad.injEq,
      List.foldlM_nil, Outcome.pure_eq_ok_iff, Except.ok.injEq, mk.injEq, hpads]
  | unknown =>
    simp only [payloads_singleton, hkind, reduceCtorEq, if_false, List.foldlM_nil,
      Outcome.pure_eq_ok_iff, Except.ok.injEq, mk.injEq, hsame]

/-- Chunks are taken in without an error exactly if the chunks of each kind are, by themselves. -/
theorem foldlM_add_eq_ok_iff {before after : Container} {chunks : List Chunk} :
    chunks.foldlM add before = .ok after ↔ Collects before chunks after := by
  induction chunks generalizing before with
  | nil => rw [List.foldlM_nil, Outcome.pure_eq_ok_iff, collects_nil_iff]
  | cons c rest ih =>
    rw [List.foldlM_cons, Outcome.bind_eq_ok_iff, ← List.singleton_append, collects_append_iff]
    simp only [add_eq_ok_iff, ih]

end Container

end LightShow
