import LightShow.Proofs.Binary64.Order
import LightShow.Proofs.Sequence
import LightShow.Track

namespace LightShow

open Binary64 (totalLe hundredth larger)

namespace Track

variable {commands : List (Command Binary64)} {duration : Binary64} {t t' : Track Binary64}

/-- The track is what its commands and its duration come to: the commands in the total order of
their times, those of one time as they were given, and the least duration that reaches to each
command, is no shorter than ten milliseconds and no shorter than asked for. -/
structure Normal (commands : List (Command Binary64)) (duration : Binary64) (t : Track Binary64) :
    Prop where
  perm : t.commands.Perm commands
  ordered : t.commands.Pairwise fun a b => totalLe a.time b.time = true
  stable : ∀ time, (t.commands.filter fun c => c.time = time) =
    commands.filter fun c => c.time = time
  number : t.duration.isNaN = false
  minPeriod_le : totalLe hundredth t.duration = true
  duration_le : duration.isNaN = false → totalLe duration t.duration = true
  time_le : ∀ c ∈ commands, totalLe c.time t.duration = true
  least : t.duration = hundredth ∨ (duration.isNaN = false ∧ t.duration = duration) ∨
    ∃ c ∈ commands, t.duration = c.time

/-- The durations of two normal forms bound each other, since each is the least that reaches far
enough. -/
theorem Normal.duration_le_duration (h : Normal commands duration t)
    (h' : Normal commands duration t') : totalLe t'.duration t.duration = true := by
  rcases h'.least with hmin | ⟨hnumber, hduration⟩ | ⟨c, hc, htime⟩
  · rw [hmin]
    exact h.minPeriod_le
  · rw [hduration]
    exact h.duration_le hnumber
  · rw [htime]
    exact h.time_le c hc

/-- Nothing has two normal forms. -/
theorem Normal.unique (h : Normal commands duration t) (h' : Normal commands duration t') :
    t = t' := by
  have hcommands : t.commands = t'.commands :=
    Sequence.eq_of_filter_eq totalLe Binary64.totalLe_refl (fun _ _ => Binary64.totalLe_antisymm)
      h.ordered h'.ordered fun time => (h.stable time).trans (h'.stable time).symm
  have hduration : t.duration = t'.duration :=
    Binary64.totalLe_antisymm (h'.duration_le_duration h) (h.duration_le_duration h')
  obtain ⟨_, _⟩ := t
  obtain ⟨_, _⟩ := t'
  exact congr (congrArg _ hcommands) hduration

/-- There is nothing more to settle on a track that is settled. -/
theorem Normal.again (h : Normal commands duration t) : Normal t.commands t.duration t where
  perm := .refl _
  ordered := h.ordered
  stable _ := rfl
  number := h.number
  minPeriod_le := h.minPeriod_le
  duration_le _ := Binary64.totalLe_refl _
  time_le c hc := h.time_le c (h.perm.mem_iff.1 hc)
  least := .inr (.inl ⟨h.number, rfl⟩)

/-- Commands are ordered by their times, so the sort may rely on a total preorder. -/
theorem commandLe_trans (a b c : Command Binary64) (hab : commandLe a b = true)
    (hbc : commandLe b c = true) : commandLe a c = true :=
  Binary64.totalLe_trans hab hbc

theorem commandLe_total (a b : Command Binary64) : (commandLe a b || commandLe b a) = true :=
  Binary64.totalLe_total a.time b.time

/-- The commands of a track are in order of time, NaNs included. -/
theorem ordered_ofCommands (commands : List (Command Binary64)) (duration : Binary64) :
    (ofCommands commands duration).commands.Pairwise fun a b => totalLe a.time b.time = true :=
  List.pairwise_mergeSort commandLe_trans commandLe_total commands

/-- The time up to which the commands reach, which is none if there are no commands. -/
theorem exists_lastTime (h : ∀ c ∈ commands, c.time.isNaN = false) (duration : Binary64) :
    ∃ last : Binary64,
      (ofCommands commands duration).duration = larger (larger duration last) hundredth ∧
      last.isNaN = false ∧ (∀ c ∈ commands, totalLe c.time last = true) ∧
      (totalLe hundredth last = true → ∃ c ∈ commands, last = c.time) := by
  have hperm := List.mergeSort_perm commands commandLe
  have hordered : (commands.mergeSort commandLe).Pairwise fun a b => totalLe a.time b.time = true :=
    ordered_ofCommands commands duration
  cases hlast : (commands.mergeSort commandLe).getLast? with
  | none =>
    have hnil : commands = [] := by
      rw [List.getLast?_eq_none_iff] at hlast
      exact List.length_eq_zero_iff.1 (hperm.length_eq.symm.trans (List.length_eq_zero_iff.2 hlast))
    refine ⟨((0 : Int) : Binary64), ?_, by decide, ?_, fun hle => absurd hle (by decide)⟩
    · simp only [ofCommands, hlast]
      rfl
    · simp [hnil]
  | some final =>
    obtain ⟨before, hsorted⟩ := List.getLast?_eq_some_iff.1 hlast
    have hfinal : final ∈ commands := by
      rw [← hperm.mem_iff, hsorted]
      exact List.mem_append_right _ List.mem_cons_self
    refine ⟨final.time, ?_, h final hfinal, fun c hc => ?_, fun _ => ⟨final, hfinal, rfl⟩⟩
    · simp only [ofCommands, hlast]
      rfl
    · rw [← hperm.mem_iff, hsorted, List.mem_append, List.mem_singleton] at hc
      rw [hsorted, List.pairwise_append] at hordered
      rcases hc with hbefore | rfl
      · exact hordered.2.2 c hbefore final List.mem_cons_self
      · exact Binary64.totalLe_refl _

/-- A track that is made of commands whose times are numbers is their normal form, whatever duration
is asked for. -/
theorem normal_ofCommands (h : ∀ c ∈ commands, c.time.isNaN = false) (duration : Binary64) :
    Normal commands duration (ofCommands commands duration) := by
  obtain ⟨last, hduration, hlast, htimes, hreached⟩ := exists_lastTime h duration
  have hinner : (larger duration last).isNaN = false := Binary64.isNaN_larger_of_right hlast
  have hminimum : hundredth.isNaN = false := by decide
  have hmin : totalLe hundredth (larger (larger duration last) hundredth) = true :=
    Binary64.totalLe_larger_right hminimum
  have houter : totalLe (larger duration last) (larger (larger duration last) hundredth) = true :=
    Binary64.totalLe_larger_left hinner
  constructor
  case perm => exact List.mergeSort_perm commands commandLe
  case ordered => exact ordered_ofCommands commands duration
  case stable =>
    intro time
    refine Sequence.filter_mergeSort commandLe_trans commandLe_total (fun a b ha hb => ?_) commands
    have htime : a.time = b.time := (of_decide_eq_true ha).trans (of_decide_eq_true hb).symm
    rw [commandLe, htime]
    exact Binary64.totalLe_refl _
  all_goals rw [hduration]
  case number => exact Binary64.isNaN_larger_of_right hminimum
  case minPeriod_le => exact hmin
  case duration_le =>
    intro hnumber
    exact Binary64.totalLe_trans (Binary64.totalLe_larger_left hnumber) houter
  case time_le =>
    intro c hc
    exact Binary64.totalLe_trans (htimes c hc)
      (Binary64.totalLe_trans (Binary64.totalLe_larger_right hlast) houter)
  case least =>
    rcases Binary64.larger_cases (larger duration last) hundredth with ⟨heq, _⟩ | heq
    · rw [heq] at hmin ⊢
      rcases Binary64.larger_cases duration last with ⟨heq', _⟩ | heq'
      · rw [heq'] at hinner
        exact .inr (.inl ⟨hinner, heq'⟩)
      · rw [heq'] at hmin ⊢
        exact .inr (.inr (hreached hmin))
    · exact .inl heq

/-- The commands and the duration of a track are in normal form, which is the only one that there is
for what is given, and stays as it is when a track is made of it once more. -/
theorem ofCommands_normal (h : ∀ c ∈ commands, c.time.isNaN = false) (duration : Binary64) :
    (∀ t, ofCommands commands duration = t ↔ Normal commands duration t) ∧
    ofCommands (ofCommands commands duration).commands (ofCommands commands duration).duration =
      ofCommands commands duration := by
  have hnormal := normal_ofCommands h duration
  refine ⟨fun t => ⟨fun heq => heq ▸ hnormal, fun ht => hnormal.unique ht⟩, ?_⟩
  have hnumbers : ∀ c ∈ (ofCommands commands duration).commands, c.time.isNaN = false :=
    fun c hc => h c (hnormal.perm.mem_iff.1 hc)
  exact (normal_ofCommands hnumbers _).unique hnormal.again

theorem ofCommands_normal_signed_zeros :
    let half : Binary64 := ⟨0x3FE0000000000000⟩
    let minusZero : Binary64 := ⟨0x8000000000000000⟩
    let commands : List (Command Binary64) :=
      [.switch half .white, .switch .zero .black, .switch minusZero .white, .switch half .black]
    let sorted : List (Command Binary64) :=
      [.switch minusZero .white, .switch .zero .black, .switch half .white, .switch half .black]
    (∀ c ∈ commands, c.time.isNaN = false) ∧ ofCommands commands .nan = ⟨sorted, half⟩ ∧
      Normal commands .nan ⟨sorted, half⟩ ∧ ofCommands sorted half = ⟨sorted, half⟩ := by
  intro half minusZero commands sorted
  have hnumbers : ∀ c ∈ commands, c.time.isNaN = false := by decide
  have hstable (time : Binary64) : (sorted.filter fun c => c.time = time) =
      commands.filter fun c => c.time = time := by
    by_cases hhalf : half = time
    · subst hhalf
      decide
    · by_cases hzero : Binary64.zero = time
      · subst hzero
        decide
      · simp [sorted, commands, List.filter_cons, Command.time, hhalf, hzero]
  have hnormal : Normal commands .nan ⟨sorted, half⟩ :=
    { perm := by decide
      ordered := by decide
      stable := hstable
      number := by decide
      minPeriod_le := by decide
      duration_le := fun hnumber => absurd hnumber (by decide)
      time_le := by decide
      least := .inr (.inr ⟨_, List.mem_cons_self, rfl⟩) }
  obtain ⟨hunique, hagain⟩ := ofCommands_normal hnumbers .nan
  have hvalue := (hunique _).2 hnormal
  rw [hvalue] at hagain
  exact ⟨hnumbers, hvalue, hnormal, hagain⟩

end Track

end LightShow
