import LightShow.Base64
import LightShow.Proofs.Outcome

namespace LightShow.Base64

/-- A symbol stands for six bits, and the bits above these do not matter. -/
theorem symbol_mod (v : Nat) : symbol (v % 64) = symbol v := by
  simp only [symbol, Nat.mod_mod]

/-- Each of the sixty-four symbols is read as what it was written for. -/
theorem symbolValue?_symbol {v : Nat} (h : v < 64) : symbolValue? (symbol v) = some v := by
  have hall : ∀ v < 64, symbolValue? (symbol v) = some v := by decide
  exact hall v h

theorem symbol_ne_pad (v : Nat) : symbol v ≠ pad := by
  have hall : ∀ v < 64, symbol v ≠ pad := by decide
  rw [← symbol_mod]
  exact hall _ (Nat.mod_lt v (by decide))

/-- The characters of which base64 texts consist. -/
def InText (c : Char) : Prop := (symbolValue? c).isSome = true ∨ c = pad

theorem inText_symbol (v : Nat) : InText (symbol v) := by
  have hlt : v % 64 < 64 := Nat.mod_lt v (by decide)
  refine .inl ?_
  rw [← symbol_mod, symbolValue?_symbol hlt]
  rfl

theorem inText_pad : InText pad := .inr rfl

/-- A character of a base64 text is a visible one of ASCII, and none with which a comment begins. -/
theorem InText.visible {c : Char} (h : InText c) : 32 < c.toNat ∧ c.toNat < 127 ∧ c ≠ '#' := by
  rcases h with hsymbol | rfl
  · have hhash : c ≠ '#' := by
      rintro rfl
      cases hsymbol
    simp only [symbolValue?] at hsymbol
    split at hsymbol
    next hupper => exact ⟨by omega, by omega, hhash⟩
    split at hsymbol
    next hlower => exact ⟨by omega, by omega, hhash⟩
    split at hsymbol
    next hdigit => exact ⟨by omega, by omega, hhash⟩
    split at hsymbol
    next hplus => rw [hplus]; decide
    split at hsymbol
    next hslash => rw [hslash]; decide
    next => cases hsymbol
  · decide

/-- A base64 text consists of symbols and padding. -/
theorem inText_of_mem_encode {d : List UInt8} : ∀ c ∈ encode d, InText c := by
  induction d using encode.induct with
  | case1 => simp [encode]
  | case2 a => simp [encode, inText_symbol, inText_pad]
  | case3 a b => simp [encode, inText_symbol, inText_pad]
  | case4 a b c rest ih => simpa [encode, inText_symbol] using ih

/-- A base64 text is made of groups of four characters. -/
theorem length_encode (d : List UInt8) : (encode d).length % 4 = 0 := by
  induction d using encode.induct with
  | case1 => rfl
  | case2 a => simp [encode]
  | case3 a b => simp [encode]
  | case4 a b c rest ih =>
    rw [encode]
    simp only [List.length_cons]
    omega

theorem encode_eq_nil_iff {d : List UInt8} : encode d = [] ↔ d = [] := by
  cases d using encode.fun_cases_unfolding <;> simp

theorem readSymbol_symbol (offset : Nat) {v : Nat} (h : v < 64) :
    readSymbol offset (symbol v) = .ok v := by
  simp only [readSymbol, symbolValue?_symbol h]

/-- A symbol in the last group is taken in as long as there was no padding before it. -/
theorem readGroup_symbol (offset : Nat) (symbols : List Nat) {v : Nat} (h : v < 64)
    (rest : List Char) :
    readGroup offset symbols 0 (symbol v :: rest) = readGroup offset (symbols ++ [v]) 0 rest := by
  rw [readGroup, if_neg (symbol_ne_pad v), if_neg (Nat.lt_irrefl 0), readSymbol_symbol _ h]
  rfl

/-- Padding is taken in behind two symbols at least. -/
theorem readGroup_pad (offset : Nat) {symbols : List Nat} {padding : Nat}
    (h : 2 ≤ symbols.length + padding) (rest : List Char) :
    readGroup offset symbols padding (pad :: rest) =
      readGroup offset symbols (padding + 1) rest := by
  rw [readGroup, if_pos rfl, if_neg (Nat.not_lt.2 h)]

/-- The four numbers into which three bytes are split up lead back to the bytes. -/
theorem groupBytes_split (a b c : UInt8) :
    groupBytes (a.toNat / 4) (a.toNat % 4 * 16 + b.toNat / 16) (b.toNat % 16 * 4 + c.toNat / 64)
      (c.toNat % 64) = [a, b, c] := by
  have ha := a.toNat_lt
  have hb := b.toNat_lt
  have hc := c.toNat_lt
  simp only [groupBytes, List.cons.injEq, and_true]
  refine ⟨?_, ?_, ?_⟩ <;>
  · apply UInt8.toNat_inj.1
    rw [UInt8.toNat_ofNat']
    omega

/-- Three bytes are split into four times six bits. -/
theorem split_lt (a b c : UInt8) : a.toNat / 4 < 64 ∧ a.toNat % 4 * 16 + b.toNat / 16 < 64 ∧
    b.toNat % 16 * 4 + c.toNat / 64 < 64 ∧ c.toNat % 64 < 64 := by
  have ha := a.toNat_lt
  have hb := b.toNat_lt
  have hc := c.toNat_lt
  omega

theorem decodeGroups_last (offset : Nat) (a b c d : Char) :
    decodeGroups offset [a, b, c, d] =
      (readGroup offset [] 0 [a, b, c, d] >>= fun group => closeGroup offset group.1 group.2) :=
  rfl

/-- Every text that was written from bytes is read as these bytes, also if its last group is
padded. -/
theorem decodeGroups_encode (offset : Nat) (d : List UInt8) :
    decodeGroups offset (encode d) = .ok d := by
  induction d using encode.induct generalizing offset with
  | case1 => rw [encode, decodeGroups]
  | case2 a =>
    obtain ⟨hfirst, hsecond, _⟩ := split_lt a 0 0
    have hbytes := groupBytes_split a 0 0
    simp only [UInt8.toNat_zero, Nat.zero_div, Nat.zero_mod, Nat.zero_mul, Nat.add_zero]
      at hsecond hbytes
    have hgroup : readGroup offset [] 0 (encode [a]) =
        .ok ([a.toNat / 4, a.toNat % 4 * 16], 2) := by
      rw [encode, readGroup_symbol _ _ hfirst, readGroup_symbol _ _ hsecond,
        readGroup_pad _ (by simp), readGroup_pad _ (by simp), readGroup]
      rfl
    have hunused : a.toNat % 4 * 16 % 16 = 0 := Nat.mul_mod_left ..
    rw [encode] at hgroup ⊢
    rw [decodeGroups_last, hgroup]
    simp [closeGroup, hbytes, hunused, Bind.bind, Except.bind]
  | case3 a b =>
    obtain ⟨hfirst, hsecond, hthird, _⟩ := split_lt a b 0
    have hbytes := groupBytes_split a b 0
    simp only [UInt8.toNat_zero, Nat.zero_div, Nat.zero_mod, Nat.add_zero] at hthird hbytes
    have hgroup : readGroup offset [] 0 (encode [a, b]) =
        .ok ([a.toNat / 4, a.toNat % 4 * 16 + b.toNat / 16, b.toNat % 16 * 4], 1) := by
      rw [encode, readGroup_symbol _ _ hfirst, readGroup_symbol _ _ hsecond,
        readGroup_symbol _ _ hthird, readGroup_pad _ (by simp), readGroup]
      rfl
    have hunused : b.toNat % 16 * 4 % 4 = 0 := by omega
    rw [encode] at hgroup ⊢
    rw [decodeGroups_last, hgroup]
    simp [closeGroup, hbytes, hunused, Bind.bind, Except.bind]
  | case4 a b c rest ih =>
    obtain ⟨hfirst, hsecond, hthird, hfourth⟩ := split_lt a b c
    have hbytes := groupBytes_split a b c
    rw [encode]
    cases hrest : encode rest with
    | nil =>
      obtain rfl := encode_eq_nil_iff.1 hrest
      rw [decodeGroups_last, readGroup_symbol _ _ hfirst, readGroup_symbol _ _ hsecond,
        readGroup_symbol _ _ hthird, readGroup_symbol _ _ hfourth, readGroup]
      simp [closeGroup, hbytes, Bind.bind, Except.bind]
    | cons e more =>
      have hmore := ih (offset + 4)
      rw [hrest] at hmore
      simp [decodeGroups, readSymbol_symbol, hfirst, hsecond, hthird, hfourth, hbytes, hmore,
        Bind.bind, Except.bind, Pure.pure, Except.pure]

/-- The base64 form of some bytes leads back to them. -/
theorem decode_encode (d : List UInt8) : decode (encode d) = .ok d := by
  have hlength := length_encode d
  have hstray : strayEnd (encode d) = none := by
    unfold strayEnd
    split
    · rw [if_neg]
      omega
    · rfl
  rw [decode, hstray]
  exact decodeGroups_encode 0 d

/-! Texts that are accepted are canonical. -/

/-- What is read as six bits is the symbol that is written for them, so no other character stands in
for it. -/
theorem symbol_of_symbolValue? {c : Char} {v : Nat} (h : symbolValue? c = some v) :
    symbol v = c ∧ v < 64 := by
  have hback : Char.ofNat c.toNat = c := Char.ofNat_toNat c
  simp only [symbolValue?] at h
  split at h
  next hupper =>
    obtain rfl := Option.some.inj h
    have hcode : 65 + (c.toNat - 65) = c.toNat := by omega
    rw [symbol, Nat.mod_eq_of_lt (by omega), if_pos (by omega), hcode]
    exact ⟨hback, by omega⟩
  split at h
  next hlower =>
    obtain rfl := Option.some.inj h
    have hcode : 71 + (c.toNat - 71) = c.toNat := by omega
    rw [symbol, Nat.mod_eq_of_lt (by omega), if_neg (by omega), if_pos (by omega), hcode]
    exact ⟨hback, by omega⟩
  split at h
  next hdigit =>
    obtain rfl := Option.some.inj h
    have hcode : c.toNat + 4 - 4 = c.toNat := by omega
    rw [symbol, Nat.mod_eq_of_lt (by omega), if_neg (by omega), if_neg (by omega),
      if_pos (by omega), hcode]
    exact ⟨hback, by omega⟩
  split at h
  next hplus =>
    obtain rfl := Option.some.inj h
    rw [hplus]
    decide
  split at h
  next hslash =>
    obtain rfl := Option.some.inj h
    rw [hslash]
    decide
  next => cases h

theorem readSymbol_eq_ok {offset : Nat} {c : Char} {v : Nat} (h : readSymbol offset c = .ok v) :
    c = symbol v ∧ v < 64 := by
  rw [readSymbol] at h
  split at h
  next v' hvalue =>
    obtain rfl := Except.ok.inj h
    obtain ⟨hsymbol, hlt⟩ := symbol_of_symbolValue? hvalue
    exact ⟨hsymbol.symm, hlt⟩
  next => cases h

/-- The bytes that four numbers make up are split up into these four again. -/
theorem split_groupBytes {a b c d : Nat} (ha : a < 64) (hb : b < 64) (hc : c < 64) (hd : d < 64) :
    ∃ x y z : UInt8, groupBytes a b c d = [x, y, z] ∧ x.toNat / 4 = a ∧
      x.toNat % 4 * 16 + y.toNat / 16 = b ∧ y.toNat % 16 * 4 + z.toNat / 64 = c ∧
      z.toNat % 64 = d := by
  refine ⟨_, _, _, rfl, ?_⟩
  simp only [UInt8.toNat_ofNat']
  omega

/-- Four symbols that are read as three bytes are written for these again. -/
theorem encode_groupBytes {a b c d : Nat} (ha : a < 64) (hb : b < 64) (hc : c < 64) (hd : d < 64)
    (rest : List UInt8) :
    encode (groupBytes a b c d ++ rest) =
      symbol a :: symbol b :: symbol c :: symbol d :: encode rest := by
  obtain ⟨x, y, z, hbytes, rfl, rfl, rfl, rfl⟩ := split_groupBytes ha hb hc hd
  rw [hbytes]
  rfl

/-- Two symbols with no bits left over are written for one byte. -/
theorem encode_take_one {a b : Nat} (ha : a < 64) (hb : b < 64) (hunused : b % 16 = 0) :
    encode ((groupBytes a b 0 0).take 1) = [symbol a, symbol b, pad, pad] := by
  obtain ⟨x, y, z, hbytes, hfirst, hsecond, _, _⟩ :=
    split_groupBytes ha hb (by decide : 0 < 64) (by decide : 0 < 64)
  have hy := y.toNat_lt
  have hlow : x.toNat % 4 * 16 = b := by omega
  rw [hbytes, List.take_succ_cons, List.take_zero, encode, hfirst, hlow]

/-- Three symbols with no bits left over are written for two bytes. -/
theorem encode_take_two {a b c : Nat} (ha : a < 64) (hb : b < 64) (hc : c < 64)
    (hunused : c % 4 = 0) :
    encode ((groupBytes a b c 0).take 2) = [symbol a, symbol b, symbol c, pad] := by
  obtain ⟨x, y, z, hbytes, hfirst, hsecond, hthird, _⟩ :=
    split_groupBytes ha hb hc (by decide : 0 < 64)
  have hz := z.toNat_lt
  have hlow : y.toNat % 16 * 4 = c := by omega
  rw [hbytes, List.take_succ_cons, List.take_succ_cons, List.take_zero, encode, hfirst, hsecond,
    hlow]

/-- A group that is read is made of symbols and of padding behind them. -/
theorem readGroup_eq_ok {offset : Nat} {text : List Char} {symbols read : List Nat}
    {padding count : Nat} (h : readGroup offset symbols padding text = .ok (read, count)) :
    ∃ vs more, text = vs.map symbol ++ List.replicate more pad ∧ read = symbols ++ vs ∧
      count = padding + more ∧ (∀ v ∈ vs, v < 64) ∧ (0 < padding → vs = []) := by
  induction text generalizing symbols padding with
  | nil =>
    rw [readGroup] at h
    cases h
    exact ⟨[], 0, rfl, (List.append_nil _).symm, rfl, fun _ hmem => absurd hmem List.not_mem_nil,
      fun _ => rfl⟩
  | cons c text ih =>
    rw [readGroup] at h
    split at h
    next hpad =>
      split at h
      next => cases h
      next =>
        obtain ⟨vs, more, rfl, hread, hcount, _, hnone⟩ := ih h
        obtain rfl := hnone (Nat.succ_pos padding)
        refine ⟨[], more + 1, ?_, hread, by omega, fun _ hmem => absurd hmem List.not_mem_nil,
          fun _ => rfl⟩
        rw [hpad]
        rfl
    next =>
      split at h
      next => cases h
      next hfresh =>
        obtain ⟨v, hsymbol, hrest⟩ := Outcome.bind_eq_ok_iff.1 h
        obtain ⟨vs, more, rfl, hread, hcount, hlt, _⟩ := ih hrest
        obtain ⟨rfl, hv⟩ := readSymbol_eq_ok hsymbol
        refine ⟨v :: vs, more, rfl, ?_, by omega, List.forall_mem_cons.2 ⟨hv, hlt⟩,
          fun hpos => absurd hpos hfresh⟩
        rw [hread, List.append_assoc]
        rfl

/-- A last group that is accepted is the one with which its bytes are written. -/
theorem encode_of_closeGroup {offset : Nat} {vs : List Nat} {padding : Nat} {d : List UInt8}
    (hvs : ∀ v ∈ vs, v < 64) (hlength : vs.length + padding ≤ 4)
    (h : closeGroup offset vs padding = .ok d) :
    encode d = vs.map symbol ++ List.replicate padding pad := by
  unfold closeGroup at h
  split at h
  next => cases h
  next hfew =>
  split at h
  next => cases h
  next hfilled =>
  have hfull : vs.length + padding = 4 := by omega
  split at h
  next a b =>
    simp only [List.forall_mem_cons] at hvs
    obtain ⟨ha, hb, _⟩ := hvs
    obtain rfl : padding = 2 := by
      simp only [List.length_cons, List.length_nil] at hfull
      omega
    split at h
    next => cases h
    next hunused =>
      obtain rfl := Except.ok.inj h
      exact encode_take_one ha hb (Decidable.not_not.1 hunused)
  next a b c =>
    simp only [List.forall_mem_cons] at hvs
    obtain ⟨ha, hb, hc, _⟩ := hvs
    obtain rfl : padding = 1 := by
      simp only [List.length_cons, List.length_nil] at hfull
      omega
    split at h
    next => cases h
    next hunused =>
      obtain rfl := Except.ok.inj h
      exact encode_take_two ha hb hc (Decidable.not_not.1 hunused)
  next a b c e =>
    simp only [List.forall_mem_cons] at hvs
    obtain ⟨ha, hb, hc, he, _⟩ := hvs
    obtain rfl : padding = 0 := by
      simp only [List.length_cons, List.length_nil] at hfull
      omega
    obtain rfl := Except.ok.inj h
    exact (congrArg encode (List.append_nil _).symm).trans (encode_groupBytes ha hb hc he [])
  next => cases h

/-- A last group that is accepted is what its bytes are written as: its padding is complete and its
unused bits are zero. -/
theorem encode_of_lastGroup {offset : Nat} {text : List Char} {d : List UInt8}
    (hlength : text.length ≤ 4)
    (h : (readGroup offset [] 0 text >>= fun group => closeGroup offset group.1 group.2) = .ok d) :
    encode d = text := by
  obtain ⟨⟨read, count⟩, hgroup, hclose⟩ := Outcome.bind_eq_ok_iff.1 h
  obtain ⟨vs, more, rfl, rfl, rfl, hvs, _⟩ := readGroup_eq_ok hgroup
  rw [List.length_append, List.length_map, List.length_replicate] at hlength
  rw [Nat.zero_add] at hclose
  exact encode_of_closeGroup hvs hlength hclose

/-- A text that is accepted is what its bytes are written as, group by group. -/
theorem encode_of_decodeGroups {offset : Nat} {text : List Char} {d : List UInt8}
    (h : decodeGroups offset text = .ok d) : encode d = text := by
  fun_induction decodeGroups offset text generalizing d with
  | case1 =>
    cases h
    rfl
  | case2 offset c₀ c₁ c₂ c₃ e rest ih =>
    simp only [Outcome.bind_eq_ok_iff, Outcome.pure_eq_ok_iff] at h
    obtain ⟨v₀, h₀, v₁, h₁, v₂, h₂, v₃, h₃, tail, htail, rfl⟩ := h
    obtain ⟨rfl, hlt₀⟩ := readSymbol_eq_ok h₀
    obtain ⟨rfl, hlt₁⟩ := readSymbol_eq_ok h₁
    obtain ⟨rfl, hlt₂⟩ := readSymbol_eq_ok h₂
    obtain ⟨rfl, hlt₃⟩ := readSymbol_eq_ok h₃
    rw [encode_groupBytes hlt₀ hlt₁ hlt₂ hlt₃, ih htail]
  | case3 offset text _ hshort =>
    refine encode_of_lastGroup ?_ h
    rcases text with _ | ⟨_, _ | ⟨_, _ | ⟨_, _ | ⟨_, _ | ⟨_, rest⟩⟩⟩⟩⟩
    case cons.cons.cons.cons.cons => exact absurd rfl (hshort _ _ _ _ _ rest)
    all_goals simp

/-- A text is accepted only as the base64 form of the bytes that it is read as: every group is
filled up, and no bit is left over that is not zero. -/
theorem decode_eq_ok_iff {text : List Char} {d : List UInt8} :
    decode text = .ok d ↔ text = encode d := by
  constructor
  · intro h
    rw [decode] at h
    split at h
    next => cases h
    next => exact (encode_of_decodeGroups h).symm
  · rintro rfl
    exact decode_encode d

end LightShow.Base64
