import LightShow.Envelope
import Mathlib.Data.List.Basic
import Mathlib.Data.List.TakeWhile

namespace LightShow.Envelope

/-- A text of ASCII characters is got back from its bytes. -/
theorem ofAscii?_toAscii {text : List Char} (h : ∀ c ∈ text, c.toNat < 128) :
    ofAscii? (toAscii text) = some text := by
  have hnumber : ∀ c ∈ text, (UInt8.ofNat c.toNat).toNat = c.toNat := by
    intro c hc
    have hlt := h c hc
    rw [UInt8.toNat_ofNat']
    omega
  have hall : (toAscii text).all (· < 0x80) = true := by
    simp only [toAscii, List.all_map, List.all_eq_true, Function.comp_apply, decide_eq_true_eq,
      UInt8.lt_iff_toNat_lt]
    intro c hc
    rw [hnumber c hc]
    exact h c hc
  have hback : (toAscii text).map (fun b => Char.ofNat b.toNat) = text := by
    rw [toAscii, List.map_map]
    refine (List.map_congr_left fun c hc => ?_).trans (List.map_id _)
    rw [Function.comp_apply, hnumber c hc, Char.ofNat_toNat, id]
  rw [ofAscii?, if_pos hall, hback]

/-- Bytes are a text exactly if they are all ASCII, and then of one text only. -/
theorem ofAscii?_eq_some_iff {data : Bytes} {text : List Char} :
    ofAscii? data = some text ↔ data = toAscii text ∧ ∀ c ∈ text, c.toNat < 128 := by
  constructor
  · intro h
    rw [ofAscii?] at h
    split at h
    next hall =>
      obtain rfl := Option.some.inj h
      have hcode : ∀ n < 128, (Char.ofNat n).toNat = n := by decide
      have hlow : ∀ b ∈ data, (Char.ofNat b.toNat).toNat = b.toNat ∧ b.toNat < 128 := by
        intro b hb
        have hb := List.all_eq_true.1 hall b hb
        rw [decide_eq_true_eq, UInt8.lt_iff_toNat_lt] at hb
        exact ⟨hcode _ hb, hb⟩
      constructor
      · rw [toAscii, List.map_map]
        refine (List.map_id _).symm.trans (List.map_congr_left fun b hb => ?_)
        rw [Function.comp_apply, (hlow b hb).1, UInt8.ofNat_toNat, id]
      · intro c hc
        obtain ⟨b, hb, rfl⟩ := List.mem_map.1 hc
        rw [(hlow b hb).1]
        exact (hlow b hb).2
    next => cases h
  · rintro ⟨rfl, hascii⟩
    exact ofAscii?_toAscii hascii

theorem isBlank_eq_false {c : Char} (h : 32 < c.toNat) : isBlank c = false := by
  have hspace : c ≠ ' ' := by
    rintro rfl
    exact absurd h (by decide)
  simp only [isBlank, Bool.or_eq_false_iff, decide_eq_false_iff_not, Bool.and_eq_false_iff]
  exact ⟨hspace, .inr (by omega)⟩

/-- A text of white space only. -/
def Blank (text : List Char) : Prop := ∀ c ∈ text, isBlank c = true

/-- A text with no white space at its ends. -/
def Bare (text : List Char) : Prop :=
  (∀ c ∈ text.head?, isBlank c = false) ∧ ∀ c ∈ text.getLast?, isBlank c = false

theorem blank_nil : Blank [] := fun _ h => absurd h List.not_mem_nil

theorem bare_nil : Bare [] := ⟨nofun, nofun⟩

theorem Blank.append {front back : List Char} (hfront : Blank front) (hback : Blank back) :
    Blank (front ++ back) := List.forall_mem_append.2 ⟨hfront, hback⟩

theorem Blank.reverse {text : List Char} (h : Blank text) : Blank text.reverse :=
  fun c hc => h c (List.mem_reverse.1 hc)

/-- White space in front is dropped up to the first other character. -/
theorem dropWhile_append_of_blank {front rest : List Char} (hfront : Blank front)
    (hrest : ∀ c ∈ rest.head?, isBlank c = false) :
    (front ++ rest).dropWhile isBlank = rest := by
  rw [List.dropWhile_append_of_pos hfront]
  cases rest with
  | nil => rfl
  | cons c rest => exact List.dropWhile_cons_of_neg (by rw [hrest c rfl]; decide)

/-- Every text is white space in front and a rest that does not begin with any. -/
theorem exists_dropWhile (text : List Char) :
    (∃ front, Blank front ∧ text = front ++ text.dropWhile isBlank) ∧
      ∀ c ∈ (text.dropWhile isBlank).head?, isBlank c = false := by
  refine ⟨⟨text.takeWhile isBlank, ?_, List.takeWhile_append_dropWhile.symm⟩, ?_⟩
  · exact List.all_eq_true.1 List.all_takeWhile
  · intro c hc
    have hnot := List.head?_dropWhile_not isBlank text
    rw [Option.mem_def.1 hc] at hnot
    simpa using hnot

/-- What is left of a line between the white space at its ends. -/
theorem trim_eq_iff {line core : List Char} :
    trim line = core ↔
      Bare core ∧ ∃ front back, Blank front ∧ Blank back ∧ line = front ++ core ++ back := by
  constructor
  · rintro rfl
    obtain ⟨⟨front, hfront, hline⟩, hhead⟩ := exists_dropWhile line
    obtain ⟨⟨back, hback, hrest⟩, hlast⟩ := exists_dropWhile (line.dropWhile isBlank).reverse
    have hsplit : line.dropWhile isBlank = trim line ++ back.reverse := by
      have hreverse := congrArg List.reverse hrest
      rwa [List.reverse_reverse, List.reverse_append] at hreverse
    refine ⟨⟨fun c hc => ?_, fun c hc => ?_⟩, front, back.reverse, hfront, hback.reverse, ?_⟩
    · refine hhead c ?_
      rw [hsplit, List.head?_append, Option.mem_def.1 hc]
      rfl
    · rw [trim, List.getLast?_reverse] at hc
      exact hlast c hc
    · rw [List.append_assoc, ← hsplit]
      exact hline
  · rintro ⟨⟨hhead, hlast⟩, front, back, hfront, hback, rfl⟩
    by_cases hnil : core = []
    · subst hnil
      have hall : Blank (front ++ [] ++ back) := (hfront.append blank_nil).append hback
      rw [trim, List.dropWhile_eq_nil_iff.2 hall]
      rfl
    · have hfirst : ∀ c ∈ (core ++ back).head?, isBlank c = false := by
        rwa [List.head?_append_of_ne_nil _ hnil]
      have hend : ∀ c ∈ core.reverse.head?, isBlank c = false := by rwa [List.head?_reverse]
      rw [trim, List.append_assoc, dropWhile_append_of_blank hfront hfirst, List.reverse_append,
        dropWhile_append_of_blank hback.reverse hend, List.reverse_reverse]

/-- Of a blank line nothing remains, and of others something does. -/
theorem trim_eq_nil_iff {line : List Char} : trim line = [] ↔ Blank line := by
  rw [trim_eq_iff]
  constructor
  · rintro ⟨_, front, back, hfront, hback, rfl⟩
    exact (hfront.append blank_nil).append hback
  · intro hblank
    exact ⟨bare_nil, line, [], hblank, blank_nil, by simp⟩

/-- There is nothing to be trimmed where nothing is blank. -/
theorem trim_of_not_blank {line : List Char} (h : ∀ c ∈ line, isBlank c = false) :
    trim line = line := by
  have hbare : Bare line :=
    ⟨fun c hc => h c (List.mem_of_mem_head? hc), fun c hc => h c (List.mem_of_getLast? hc)⟩
  exact trim_eq_iff.2 ⟨hbare, [], [], blank_nil, blank_nil, (List.append_nil line).symm⟩

/-! The words of a line. -/

/-- White space divides a line into parts whose words are found one by one. -/
theorem words_append_cons (front rest : List Char) {c : Char} (hc : isBlank c = true) :
    words (front ++ c :: rest) = words front ++ words rest := by
  rw [words, List.splitOnP_append_cons front rest hc, List.filter_append]
  rfl

theorem words_of_not_blank {word : List Char} (hne : word ≠ [])
    (h : ∀ c ∈ word, isBlank c = false) : words word = [word] := by
  rw [words, List.splitOnP_eq_singleton h]
  exact List.filter_cons_of_pos (decide_eq_true hne)

/-- White space in front of a line makes no difference to its words. -/
theorem words_blank_append {front : List Char} (hfront : Blank front) (line : List Char) :
    words (front ++ line) = words line := by
  induction front with
  | nil => rfl
  | cons c front ih =>
    obtain ⟨hc, hfront⟩ := List.forall_mem_cons.1 hfront
    rw [List.cons_append, ← ih hfront]
    exact words_append_cons [] _ hc

theorem words_of_blank {line : List Char} (h : Blank line) : words line = [] := by
  have hnone := words_blank_append h []
  rwa [List.append_nil] at hnone

/-- White space behind a line makes no difference to its words. -/
theorem words_append_blank (line : List Char) {back : List Char} (hback : Blank back) :
    words (line ++ back) = words line := by
  cases back with
  | nil => rw [List.append_nil]
  | cons c back =>
    obtain ⟨hc, hback⟩ := List.forall_mem_cons.1 hback
    rw [words_append_cons line back hc, words_of_blank hback]
    exact List.append_nil _

/-- To trim a line makes no difference to its words. -/
theorem words_trim (line : List Char) : words (trim line) = words line := by
  obtain ⟨_, front, back, hfront, hback, hline⟩ := trim_eq_iff.1 (rfl : trim line = trim line)
  calc words (trim line) = words (front ++ trim line ++ back) := by
        rw [words_append_blank _ hback, words_blank_append hfront]
    _ = words line := congrArg words hline.symm

/-- Some text may follow a word if it is empty or begins with white space. -/
def Detached (rest : List Char) : Prop := ∀ c ∈ rest.head?, isBlank c = true

/-- A word ends where white space begins. -/
theorem words_word_append {word rest : List Char} (hne : word ≠ [])
    (hword : ∀ c ∈ word, isBlank c = false) (hrest : Detached rest) :
    words (word ++ rest) = word :: words rest := by
  cases rest with
  | nil =>
    rw [List.append_nil, words_of_not_blank hne hword]
    rfl
  | cons c rest =>
    have hc := hrest c rfl
    have hskip := words_append_cons [] rest hc
    rw [words_append_cons word rest hc, words_of_not_blank hne hword]
    exact congrArg (word :: ·) hskip.symm

/-- A line is blank or has a first word. -/
theorem blank_or_word (line : List Char) :
    Blank line ∨ ∃ front word rest, Blank front ∧ word ≠ [] ∧ (∀ c ∈ word, isBlank c = false) ∧
      Detached rest ∧ line = front ++ (word ++ rest) := by
  obtain ⟨⟨front, hfront, hline⟩, hhead⟩ := exists_dropWhile line
  cases hdrop : line.dropWhile isBlank with
  | nil =>
    rw [hdrop, List.append_nil] at hline
    exact .inl (hline ▸ hfront)
  | cons c behind =>
    rw [hdrop] at hline hhead
    have hstart : (c :: behind).takeWhile (fun d => !isBlank d) ≠ [] := by
      rw [List.takeWhile_cons_of_pos (by rw [hhead c rfl]; rfl)]
      exact List.cons_ne_nil _ _
    refine .inr ⟨front, (c :: behind).takeWhile fun d => !isBlank d,
      (c :: behind).dropWhile fun d => !isBlank d, hfront, hstart, fun d hd => ?_, fun d hd => ?_, ?_⟩
    · simpa using List.all_eq_true.1 List.all_takeWhile d hd
    · have hnot := List.head?_dropWhile_not (fun d => !isBlank d) (c :: behind)
      rw [Option.mem_def.1 hd] at hnot
      simpa using hnot
    · rwa [List.takeWhile_append_dropWhile]

theorem blank_of_words_eq_nil {line : List Char} (h : words line = []) : Blank line := by
  rcases blank_or_word line with hblank | ⟨front, word, rest, hfront, hne, hword, hrest, rfl⟩
  · exact hblank
  · rw [words_blank_append hfront, words_word_append hne hword hrest] at h
    cases h

/-- A line with words begins with some white space and the first of them, and the rest follows
behind white space. -/
theorem exists_of_words_eq_cons {line word : List Char} {more : List (List Char)}
    (h : words line = word :: more) :
    ∃ front rest, Blank front ∧ Detached rest ∧ words rest = more ∧ line = front ++ (word ++ rest) := by
  rcases blank_or_word line with hblank | ⟨front, word', rest, hfront, hne, hword, hrest, rfl⟩
  · rw [words_of_blank hblank] at h
    cases h
  · rw [words_blank_append hfront, words_word_append hne hword hrest] at h
    obtain ⟨rfl, rfl⟩ := List.cons_eq_cons.1 h
    exact ⟨front, rest, hfront, hrest, rfl, rfl⟩

theorem range_of_mem_signature {c : Char} (h : c ∈ signature) : 32 < c.toNat ∧ c.toNat < 128 := by
  have hall : signature.all (fun c => decide (32 < c.toNat ∧ c.toNat < 128)) = true := by decide
  exact of_decide_eq_true (List.all_eq_true.1 hall c h)

/-- The line has the signature and the version as its words, and no others. -/
def IsHeader (line : List Char) : Prop :=
  ∃ before gap after, Blank before ∧ Blank gap ∧ Blank after ∧ gap ≠ [] ∧
    line = before ++ (signature ++ (gap ++ (version ++ after)))

/-- A line is the header exactly if it has the two words, whatever white space is about them. -/
theorem isHeader_iff {line : List Char} : IsHeader line ↔ words line = [signature, version] := by
  constructor
  · rintro ⟨before, gap, after, hbefore, hgap, hafter, hne, rfl⟩
    have hversion : words version = [version] :=
      words_of_not_blank (List.cons_ne_nil _ _) (List.forall_mem_singleton.2 rfl)
    have hsignature : ∀ c ∈ signature, isBlank c = false := fun c hc =>
      isBlank_eq_false (range_of_mem_signature hc).1
    have hdetached : Detached (gap ++ (version ++ after)) := by
      intro c hc
      rw [List.head?_append_of_ne_nil _ hne] at hc
      exact hgap c (List.mem_of_mem_head? hc)
    rw [words_blank_append hbefore, words_word_append (by decide) hsignature hdetached,
      words_blank_append hgap, words_append_blank _ hafter, hversion]
  · intro h
    obtain ⟨before, rest, hbefore, hdetached, hrest, rfl⟩ := exists_of_words_eq_cons h
    obtain ⟨gap, after, hgap, _, hafter, rfl⟩ := exists_of_words_eq_cons hrest
    refine ⟨before, gap, after, hbefore, hgap, blank_of_words_eq_nil hafter, ?_, rfl⟩
    -- without a gap the version would be glued to the signature
    rintro rfl
    exact absurd (hdetached '1' rfl) (by decide)

/-- The check accepts headers and nothing else. -/
theorem checkHeader_eq_ok_iff {line : List Char} : checkHeader line = .ok () ↔ IsHeader line := by
  rw [isHeader_iff, checkHeader]
  constructor
  · intro h
    split at h
    next first second hwords =>
      split at h
      next => cases h
      next hfirst =>
        split at h
        next => cases h
        next hsecond => rw [hwords, Decidable.not_not.1 hfirst, Decidable.not_not.1 hsecond]
    next => cases h
  · intro h
    simp [h]

/-- A header line has a first word, so it is not blank. -/
theorem IsHeader.not_blank {line : List Char} (h : IsHeader line) : ¬ Blank line := by
  intro hblank
  rw [isHeader_iff, words_of_blank hblank] at h
  cases h

/-- Trimming makes no difference to whether a line is the header. -/
theorem isHeader_trim_iff {line : List Char} : IsHeader (trim line) ↔ IsHeader line := by
  rw [isHeader_iff, isHeader_iff, words_trim]

end LightShow.Envelope
