import LightShow.Header
import LightShow.Proofs.Codec.Reading

namespace LightShow.Header

/-- What a header must say of itself. The number of tracks and the flags may be anything. -/
structure Valid (h : Header) : Prop where
  version : h.version = supportedVersion
  ticksPerBeat : h.ticksPerBeat ≠ 0
  microsecondsPerBeat : h.microsecondsPerBeat ≠ 0

/-- The payload begins with the header; what is behind it may be anything. -/
def Form (h : Header) (payload : Bytes) : Prop :=
  h.Valid ∧ ∃ trailing, payload = h.encode ++ trailing

@[simp] theorem length_encode (h : Header) : h.encode.length = length := by
  simp [encode, length]

/-- A demand lets the reader go on where it is met, and takes no bytes. -/
theorem require_eq_ok_iff {ok : Bool} {e : CodecError} {u : Unit} {s rest : Bytes} :
    require ok e s = .ok (u, rest) ↔ ok = true ∧ s = rest := by
  unfold require
  cases ok with
  | false => simp [Reader.throw_ne_ok]
  | true => simp [Reader.pure_eq_ok_iff]

/-- The reader of a header takes the bytes of a valid header and no other ones. -/
theorem reads_reader : Reader.Reads reader fun h s => h.Valid ∧ s = h.encode := by
  intro s h rest
  simp only [reader, Reader.bind_eq_ok_iff, Reader.u16_eq_ok_iff, Reader.u32_eq_ok_iff,
    require_eq_ok_iff, Reader.pure_eq_ok_iff, decide_eq_true_eq]
  constructor
  · rintro ⟨_, _, rfl, _, _, ⟨rfl, rfl⟩, version, _, rfl, _, _, ⟨hversion, rfl⟩, ticks, _, rfl, _, _,
      ⟨hticks, rfl⟩, tempo, _, rfl, _, _, ⟨htempo, rfl⟩, tracks, _, rfl, flags, _, rfl, rfl, rfl⟩
    exact ⟨_, by simp only [encode, List.append_assoc], ⟨hversion, hticks, htempo⟩, rfl⟩
  · rintro ⟨_, rfl, ⟨hversion, hticks, htempo⟩, rfl⟩
    refine ⟨magic, _, by simp only [encode, List.append_assoc], (), _, ⟨rfl, rfl⟩, _, _, rfl, (),
      _, ⟨hversion, rfl⟩, _, _, rfl, (), _, ⟨hticks, rfl⟩, _, _, rfl, (), _, ⟨htempo, rfl⟩, _, _,
      rfl, _, _, rfl, rfl, rfl⟩

/-- A header is accepted exactly if the payload begins with a valid one. -/
theorem read_eq_ok_iff {payload : Bytes} {h : Header} :
    read payload = .ok h ↔ h.Form payload := by
  unfold read
  constructor
  · intro hread
    split at hread
    · cases hread
    · cases hreader : reader payload with
      | error e => simp [hreader, Bind.bind, Except.bind] at hread
      | ok p =>
        obtain ⟨h', trailing⟩ := p
        simp only [hreader, Bind.bind, Except.bind, Pure.pure, Except.pure,
          Except.ok.injEq] at hread
        subst hread
        obtain ⟨_, rfl, hvalid, rfl⟩ := (reads_reader _ _ _).1 hreader
        exact ⟨hvalid, trailing, rfl⟩
  · rintro ⟨hvalid, trailing, rfl⟩
    rw [if_neg (by simp)]
    rw [reads_reader.of_form ⟨hvalid, rfl⟩]
    rfl

end LightShow.Header
