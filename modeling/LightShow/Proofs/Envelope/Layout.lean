import LightShow.Proofs.Envelope.Transport
import Mathlib.Data.List.Forall2

namespace LightShow.Envelope

/-- What a line behind the header contributes to the payload: a blank line and a comment nothing,
any other line what stands between the white space at its ends. -/
inductive Bears : List Char → List Char → Prop
  | blank {line : List Char} (hline : Blank line) : Bears line []
  | comment {front : List Char} (hfront : Blank front) (remark : List Char) :
    Bears (front ++ '#' :: remark) []
  | piece {front text back : List Char} (hfront : Blank front) (hback : Blank back)
    (hbare : Bare text) (hsome : text ≠ []) (hhash : text.head? ≠ some '#') :
    Bears (front ++ text ++ back) text

/-- The part of the payload that a line holds. -/
def part (line : List Char) : List Char :=
  if (trim line).head? = some '#' then [] else trim line

/-- Trimming stops at the first character that is not white space. -/
theorem head?_trim {front : List Char} (hfront : Blank front) {c : Char} (hc : isBlank c = false)
    (rest : List Char) : (trim (front ++ c :: rest)).head? = some c := by
  obtain ⟨⟨hhead, _⟩, front', back, hfront', hback, hline⟩ :=
    trim_eq_iff.1 (rfl : trim (front ++ c :: rest) = _)
  cases hcore : trim (front ++ c :: rest) with
  | nil =>
    have hblank := trim_eq_nil_iff.1 hcore c (List.mem_append_right _ List.mem_cons_self)
    rw [hc] at hblank
    cases hblank
  | cons d core =>
    rw [hcore] at hline hhead
    have hleft : (front ++ c :: rest).dropWhile isBlank = c :: rest :=
      dropWhile_append_of_blank hfront (by simpa using hc)
    have hright : (front' ++ (d :: core ++ back)).dropWhile isBlank = d :: core ++ back :=
      dropWhile_append_of_blank hfront' hhead
    rw [hline, List.append_assoc, hright] at hleft
    exact congrArg List.head? hleft

/-- What a line bears is found by trimming it, and by leaving it out if it is a comment. -/
theorem bears_iff {line text : List Char} : Bears line text ↔ text = part line := by
  constructor
  · intro h
    cases h with
    | blank hline => rw [part, trim_eq_nil_iff.2 hline, if_neg nofun]
    | comment hfront remark => rw [part, if_pos (head?_trim hfront (by decide) remark)]
    | @piece front _ back hfront hback hbare hsome hhash =>
      have htrim : trim (front ++ text ++ back) = text :=
        trim_eq_iff.2 ⟨hbare, front, back, hfront, hback, rfl⟩
      rw [part, htrim, if_neg hhash]
  · rintro rfl
    obtain ⟨hbare, front, back, hfront, hback, hline⟩ := trim_eq_iff.1 (rfl : trim line = _)
    unfold part
    split
    next hhash =>
      obtain ⟨remark, hremark⟩ := List.head?_eq_some_iff.1 hhash
      rw [hremark, List.append_assoc] at hline
      rw [hline]
      exact .comment hfront _
    next hhash =>
      by_cases hnil : trim line = []
      · rw [hnil]
        exact .blank (trim_eq_nil_iff.1 hnil)
      · conv => enter [1]; rw [hline]
        exact .piece hfront hback hbare hnil hhash

/-- The payload is put together from the parts that the lines hold, blank lines and comments holding
none. -/
theorem payload_trimmed (body : List (List Char)) :
    payload ((body.map trim).filter (· ≠ [])) = (body.map part).flatten := by
  induction body with
  | nil => rfl
  | cons line body ih =>
    rw [payload] at ih ⊢
    rw [List.map_cons, List.map_cons, List.flatten_cons, ← ih, part]
    by_cases hnil : trim line = []
    · rw [List.filter_cons_of_neg (by simpa using hnil), hnil]
      rfl
    · rw [List.filter_cons_of_pos (by simpa using hnil)]
      by_cases hhash : (trim line).head? = some '#'
      · rw [List.filter_cons_of_neg (by simpa using hhash), if_pos hhash]
        rfl
      · rw [List.filter_cons_of_pos (by simpa using hhash), if_neg hhash]
        rfl

/-- The first line that counts is the first one that is not blank. -/
theorem lines_eq_cons_iff {text header : List Char} {rest : List (List Char)} :
    lines text = header :: rest ↔ ∃ opening line body, text.splitOn '\n' = opening ++ line :: body ∧
      (∀ l ∈ opening, Blank l) ∧ ¬ Blank line ∧ trim line = header ∧
      (body.map trim).filter (· ≠ []) = rest := by
  rw [lines, List.filter_eq_cons_iff]
  constructor
  · rintro ⟨front, behind, hmap, hfront, hheader, hrest⟩
    obtain ⟨opening, tail, hsplit, rfl, htail⟩ := List.map_eq_append_iff.1 hmap
    obtain ⟨line, body, rfl, rfl, rfl⟩ := List.map_eq_cons_iff.1 htail
    refine ⟨opening, line, body, hsplit, fun l hl => ?_, fun hblank => ?_, rfl, hrest⟩
    · exact trim_eq_nil_iff.1 (by simpa using hfront _ (List.mem_map_of_mem hl))
    · exact of_decide_eq_true hheader (trim_eq_nil_iff.2 hblank)
  · rintro ⟨opening, line, body, hsplit, hopening, hline, rfl, rfl⟩
    refine ⟨opening.map trim, body.map trim, ?_, ?_, ?_, rfl⟩
    · rw [hsplit, List.map_append, List.map_cons]
    · intro l hl
      obtain ⟨l, hmem, rfl⟩ := List.mem_map.1 hl
      simpa using trim_eq_nil_iff.2 (hopening l hmem)
    · simpa using fun hnil => hline (trim_eq_nil_iff.1 hnil)

/-- The bytes are an envelope with some payload: ASCII text that begins with the header, blank lines
apart, and the lines behind it hold the payload piece by piece. -/
inductive LaidOut : Bytes → List Char → Prop
  | mk {characters : List Char} (hascii : ∀ c ∈ characters, c.toNat < 128)
    {opening : List (List Char)} (hopening : ∀ line ∈ opening, Blank line)
    {header : List Char} (hheader : IsHeader header)
    {body pieces : List (List Char)} (hpieces : List.Forall₂ Bears body pieces)
    (hsplit : characters.splitOn '\n' = opening ++ header :: body) :
    LaidOut (toAscii characters) pieces.flatten

theorem forall₂_bears_iff {body pieces : List (List Char)} :
    List.Forall₂ Bears body pieces ↔ body.map part = pieces := by
  rw [← List.forall₂_eq_eq_eq, List.forall₂_map_left_iff]
  exact ⟨fun h => h.imp fun _ _ hbears => (bears_iff.1 hbears).symm,
    fun h => h.imp fun _ _ heq => bears_iff.2 heq.symm⟩

/-- An envelope is laid out as the decoder reads it. -/
theorem laidOut_iff {data : Bytes} {text : List Char} :
    LaidOut data text ↔ ∃ characters header rest, ofAscii? data = some characters ∧
      lines characters = header :: rest ∧ checkHeader header = .ok () ∧ payload rest = text := by
  simp only [ofAscii?_eq_some_iff, lines_eq_cons_iff, checkHeader_eq_ok_iff]
  constructor
  · rintro @⟨characters, hascii, opening, hopening, header, hheader, body, _, hpieces, hsplit⟩
    obtain rfl := forall₂_bears_iff.1 hpieces
    exact ⟨characters, trim header, _, ⟨rfl, hascii⟩,
      ⟨opening, header, body, hsplit, hopening, hheader.not_blank, rfl, rfl⟩,
      isHeader_trim_iff.2 hheader, payload_trimmed body⟩
  · rintro ⟨characters, _, _, ⟨rfl, hascii⟩, ⟨opening, header, body, hsplit, hopening, _, rfl, rfl⟩,
      hheader, rfl⟩
    rw [payload_trimmed]
    exact .mk hascii hopening (isHeader_trim_iff.1 hheader) (forall₂_bears_iff.2 rfl) hsplit

/-- Of an envelope only the text of its payload decides what becomes of it. -/
theorem LaidOut.decode_eq {data : Bytes} {text : List Char} (h : LaidOut data text) :
    decode data =
      if text = [] then .error (.envelope .payloadMissing)
      else (Base64.decode text).mapError .base64 := by
  obtain ⟨characters, header, rest, hascii, hlines, hheader, rfl⟩ := laidOut_iff.1 h
  simp only [decode, hascii, hlines, hheader, Bind.bind, Except.bind]
  split <;> rfl

/-- Only files laid out as envelopes are accepted. -/
theorem exists_laidOut {data d : Bytes} (h : decode data = .ok d) : ∃ text, LaidOut data text := by
  simp only [decode] at h
  split at h
  next characters hascii =>
    split at h
    next => cases h
    next header rest hlines =>
      obtain ⟨_, hheader, _⟩ := Outcome.bind_eq_ok_iff.1 h
      exact ⟨_, laidOut_iff.2 ⟨characters, header, rest, hascii, hlines, hheader, rfl⟩⟩
  next => cases h

/-- An envelope holds some bytes exactly if its text is their base64 form, padded and canonical, and
they are not empty. -/
theorem LaidOut.decode_eq_ok_iff {data d : Bytes} {text : List Char} (h : LaidOut data text) :
    decode data = .ok d ↔ d ≠ [] ∧ text = Base64.encode d := by
  rw [h.decode_eq, ← Base64.decode_eq_ok_iff]
  split
  next hnil =>
    refine iff_of_false nofun ?_
    rintro ⟨hne, hdecode⟩
    rw [hnil, Base64.decode_eq_ok_iff] at hdecode
    exact hne (Base64.encode_eq_nil_iff.1 hdecode.symm)
  next hsome =>
    cases hdecode : Base64.decode text with
    | error e => exact iff_of_false nofun fun ⟨_, hok⟩ => nomatch hok
    | ok d' =>
      simp only [Except.mapError, Except.ok.injEq]
      refine ⟨?_, And.right⟩
      rintro rfl
      refine ⟨?_, rfl⟩
      rintro rfl
      exact hsome (Base64.decode_eq_ok_iff.1 hdecode)

/-- What an envelope decodes to depends on its payload alone. It is decoded to some bytes exactly if
the payload is the base64 form of them and not empty, however it is broken into lines, whatever
white space stands around these and whatever blank lines and comments stand between them. -/
theorem decode_by_layout :
    (∀ data d, decode data = .ok d ↔ d ≠ [] ∧ LaidOut data (Base64.encode d)) ∧
    (∀ data data' text, LaidOut data text → LaidOut data' text → decode data = decode data') ∧
    ∀ data data' text text' d, LaidOut data text → LaidOut data' text' →
      decode data = .ok d → decode data' = .ok d → text = text' := by
  refine ⟨fun data d => ⟨fun h => ?_, fun ⟨hne, h⟩ => h.decode_eq_ok_iff.2 ⟨hne, rfl⟩⟩,
    fun data data' text h h' => h.decode_eq.trans h'.decode_eq.symm,
    fun data data' text text' d h h' hd hd' => ?_⟩
  · obtain ⟨text, hlaid⟩ := exists_laidOut h
    obtain ⟨hne, rfl⟩ := hlaid.decode_eq_ok_iff.1 h
    exact ⟨hne, hlaid⟩
  · exact (h.decode_eq_ok_iff.1 hd).2.trans (h'.decode_eq_ok_iff.1 hd').2.symm

/-- An envelope with a comment, blank lines and indentation. -/
def annotated : Bytes := toAscii "\n  LSTF-TEXT 1\n# generated\n\nAAEC\n  Aw==  \n".toList

/-- The same payload, broken at another column by another ending of lines. -/
def rewrapped : Bytes := toAscii "LSTF-TEXT\t1\r\nA\r\nAECAw==\r\n".toList

theorem decode_by_layout_rewrapped :
    LaidOut annotated "AAECAw==".toList ∧ LaidOut rewrapped "AAECAw==".toList ∧
    decode annotated = .ok [0, 1, 2, 3] ∧ decode rewrapped = decode annotated ∧
    LaidOut rewrapped (Base64.encode [0, 1, 2, 3]) ∧
    "AAECAw==".toList = Base64.encode [0, 1, 2, 3] := by
  have hannotated : LaidOut annotated "AAECAw==".toList :=
    laidOut_iff.2 ⟨_, _, _, rfl, rfl, rfl, rfl⟩
  have hrewrapped : LaidOut rewrapped "AAECAw==".toList :=
    laidOut_iff.2 ⟨_, _, _, rfl, rfl, rfl, rfl⟩
  obtain ⟨hiff, hsame, hunique⟩ := decode_by_layout
  have hdecode := hsame _ _ _ hannotated hrewrapped
  have hok : decode annotated = .ok [0, 1, 2, 3] := (hiff _ _).2 ⟨by decide, hannotated⟩
  have hlaid := ((hiff _ _).1 (hdecode.symm.trans hok)).2
  exact ⟨hannotated, hrewrapped, hok, hdecode.symm, hlaid,
    hunique _ _ _ _ _ hannotated hlaid hok (hdecode.symm.trans hok)⟩

end LightShow.Envelope
