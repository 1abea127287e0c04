import LightShow.Proofs.Playback.Step
import LightShow.Proofs.Sequence

namespace LightShow

namespace Loop

/-- The first calls of the endless repetition of the loop's commands. -/
def firstCalls (l : Loop) (count : Nat) : List Call :=
  (List.range count).filterMap fun k => (l.command? k).map (·.call l.pad)

/-- The next call is added behind the others. -/
theorem firstCalls_succ {l : Loop} {count : Nat} {command : Command Binary64}
    (h : l.command? count = some command) :
    l.firstCalls (count + 1) = l.firstCalls count ++ [command.call l.pad] := by
  rw [firstCalls, List.range_succ, List.filterMap_append, List.filterMap_cons, h]
  rfl

/-- The calls of a loop depend on its pad and its commands only. -/
theorem firstCalls_congr {l l' : Loop} (hpad : l'.pad = l.pad)
    (hcommands : l'.commands = l.commands) : l'.firstCalls = l.firstCalls := by
  funext count
  simp only [firstCalls, command?, hpad, hcommands]

/-- They are the beginning of as many cycles as one likes. -/
theorem firstCalls_prefix (l : Loop) (count : Nat) :
    l.firstCalls count <+: (List.replicate count l.commands).flatten.map (·.call l.pad) := by
  have hmap : l.firstCalls count = ((List.range count).filterMap
      fun k => l.commands[k % l.commands.length]?).map (·.call l.pad) := by
    rw [List.map_filterMap]
    rfl
  rw [hmap, ← Sequence.filterMap_range_mod]
  apply List.IsPrefix.map
  rcases Nat.eq_zero_or_pos l.commands.length with hempty | hpos
  · have hnil : l.commands = [] := List.length_eq_zero_iff.1 hempty
    simp [hnil]
  · have hle : count ≤ count * l.commands.length := Nat.le_mul_of_pos_right count hpos
    apply List.IsPrefix.filterMap
    rw [← Nat.add_sub_cancel' hle, List.range_add]
    exact List.prefix_append _ _

end Loop

namespace Rig

variable {playable : Pad → Track Binary64 → Prop}

/-- The calls on a pad, first to last, whatever came of them. -/
def trace (rig : Rig) (p : Pad) : List Call :=
  (rig.journal.reverse.filter fun entry => entry.call.target = .pad p).map (·.call)

/-- The calls of one loop, first to last. -/
def callsBy (rig : Rig) (n : Nat) : List Call :=
  (rig.journal.reverse.filter fun entry => entry.loop = n).map (·.call)

/-- The loops on a pad, in the order in which they were started. -/
def loopsOn (rig : Rig) (p : Pad) : List Nat :=
  (List.range rig.loops.length).filter fun n => rig.loops[n]?.any fun l => l.pad = p

/-- The loops take turns on each pad, and each makes the calls of its own commands in order. -/
structure Orderly (playable : Pad → Track Binary64 → Prop) (rig : Rig) : Prop where
  origin : ∀ (n : Nat) (l : Loop), rig.loops[n]? = some l →
    ∃ track, playable l.pad track ∧ l.commands = track.commands
  turns : ∀ (m n : Nat) (l l' : Loop), m < n → rig.loops[m]? = some l → rig.loops[n]? = some l' →
    l.pad = l'.pad → l.hasEnded = true
  /-- A call that is not carried out is the last one of its loop. -/
  calls : ∀ (n : Nat) (l : Loop), rig.loops[n]? = some l →
    rig.callsBy n = l.firstCalls l.made ∨
      l.hasEnded = true ∧ rig.callsBy n = l.firstCalls (l.made + 1)
  target : ∀ entry ∈ rig.journal, ∃ l, rig.loops[entry.loop]? = some l ∧
    entry.call.target = .pad l.pad
  sorted : rig.journal.Pairwise fun later earlier =>
    earlier.call.target = later.call.target → earlier.loop ≤ later.loop

theorem callsBy_congr {rig rig' : Rig} (h : rig'.journal = rig.journal) :
    rig'.callsBy = rig.callsBy := by
  funext n
  rw [callsBy, callsBy, h]

/-- A new entry of the journal is the last call of its own loop. -/
theorem callsBy_cons {rig rig' : Rig} {entry : JournalEntry}
    (h : rig'.journal = entry :: rig.journal) (n : Nat) :
    rig'.callsBy n = rig.callsBy n ++ if entry.loop = n then [entry.call] else [] := by
  rw [callsBy, callsBy, h, List.reverse_cons, List.filter_append, List.map_append]
  by_cases hloop : entry.loop = n
  · simp [hloop]
  · simp [hloop]

/-- A loop that has not been started has made no call. -/
theorem Orderly.callsBy_of_le {rig : Rig} (h : Orderly playable rig) {n : Nat}
    (hn : rig.loops.length ≤ n) : rig.callsBy n = [] := by
  rw [callsBy, List.map_eq_nil_iff, List.filter_eq_nil_iff]
  intro entry hentry heq
  obtain ⟨l, hget, _⟩ := h.target entry (List.mem_reverse.1 hentry)
  have hlt := (List.getElem?_eq_some_iff.1 hget).1
  have hloop := of_decide_eq_true heq
  omega

/-- After a step each loop has still made the calls of its commands in order: the one that calls
makes the next, and ends if that is not carried out. -/
theorem Orderly.calls_effect {rig rig' : Rig} (h : Orderly playable rig)
    (heffect : Effect playable rig rig') {n : Nat} {l : Loop} (hget : rig'.loops[n]? = some l) :
    rig'.callsBy n = l.firstCalls l.made ∨
      l.hasEnded = true ∧ rig'.callsBy n = l.firstCalls (l.made + 1) := by
  cases heffect with
  | nothing hloops hjournal =>
    rw [hloops] at hget
    rw [callsBy_congr hjournal]
    exact h.calls n l hget
  | retouch hat hk hloops hjournal =>
    rw [callsBy_congr hjournal]
    rcases (getElem?_of_set hat hloops).1 hget with ⟨rfl, rfl⟩ | ⟨_, hsame⟩
    · rw [hk.made, Loop.firstCalls_congr hk.pad hk.commands]
      rcases h.calls _ _ hat with hcalls | ⟨hended, hcalls⟩
      · exact .inl hcalls
      · exact .inr ⟨hk.hasEnded hended, hcalls⟩
    · exact h.calls n l hsame
  | @call m k command reply hat hbusy hcommand hloops hjournal =>
    rw [callsBy_cons hjournal]
    rcases (getElem?_of_set hat hloops).1 hget with ⟨rfl, rfl⟩ | ⟨hne, hsame⟩
    · rw [if_pos rfl, Loop.firstCalls_congr (k.afterReply_pad reply) (k.afterReply_commands reply)]
      have hcalls : rig.callsBy n = k.firstCalls k.made := by
        rcases h.calls _ _ hat with hcalls | ⟨hended, _⟩
        · exact hcalls
        · rw [hbusy] at hended
          cases hended
      rw [hcalls, ← Loop.firstCalls_succ hcommand]
      rcases k.afterReply_made reply with hmade | ⟨hmade, hended⟩
      · rw [hmade]
        exact .inl rfl
      · rw [hmade]
        exact .inr ⟨hended, rfl⟩
    · rw [if_neg (Ne.symm hne), List.append_nil]
      exact h.calls n l hsame
  | launch _ _ hloops hjournal =>
    rw [callsBy_congr hjournal]
    rcases (getElem?_of_append hloops).1 hget with hsame | ⟨rfl, rfl⟩
    · exact h.calls n l hsame
    · exact .inl (h.callsBy_of_le (Nat.le_refl _))

/-- After a step the loops still take turns: a new one is started only where every earlier one has
ended. -/
theorem Orderly.turns_effect {rig rig' : Rig} (h : Orderly playable rig)
    (heffect : Effect playable rig rig') {m n : Nat} {k l : Loop} (hmn : m < n)
    (hk : rig'.loops[m]? = some k) (hl : rig'.loops[n]? = some l) (hpad : k.pad = l.pad) :
    k.hasEnded = true := by
  rcases heffect.backward hk with ⟨k0, hk0, hkeep⟩ | ⟨hm, _⟩
  · apply hkeep.hasEnded
    rcases heffect.backward hl with ⟨l0, hl0, hkeep'⟩ | ⟨_, pad, track, settings, rfl, _, hquiet⟩
    · refine h.turns m n k0 l0 hmn hk0 hl0 ?_
      rw [← hkeep.pad, hpad, hkeep'.pad]
    · exact hquiet k0 (List.mem_of_getElem? hk0) (hkeep.pad.symm.trans hpad)
  · -- The loop that has just been started is the last one.
    have hlt : n < rig'.loops.length := (List.getElem?_eq_some_iff.1 hl).1
    have hlength : rig'.loops.length ≤ rig.loops.length + 1 := by
      cases heffect with
      | nothing hloops _ => rw [hloops]; exact Nat.le_succ _
      | retouch _ _ hloops _ => rw [hloops, List.length_set]; exact Nat.le_succ _
      | call _ _ _ hloops _ => rw [hloops, List.length_set]; exact Nat.le_succ _
      | launch _ _ hloops _ =>
        have hlast : rig'.loops.length = rig.loops.length + 1 := by
          rw [hloops, List.length_append, List.length_singleton]
        omega
    omega

/-- Loops stay orderly through every step. -/
theorem Orderly.effect {rig rig' : Rig} (h : Orderly playable rig)
    (heffect : Effect playable rig rig') : Orderly playable rig' := by
  have htarget : ∀ entry ∈ rig.journal, ∃ l, rig'.loops[entry.loop]? = some l ∧
      entry.call.target = .pad l.pad := by
    intro entry hentry
    obtain ⟨l, hget, hpad⟩ := h.target entry hentry
    obtain ⟨l', hget', hkeep⟩ := heffect.forward hget
    exact ⟨l', hget', by rw [hpad, hkeep.pad]⟩
  refine ⟨fun n l hget => ?_, fun m n k l hmn hk hl => h.turns_effect heffect hmn hk hl,
    fun n l hget => h.calls_effect heffect hget, ?_, ?_⟩
  · rcases heffect.backward hget with ⟨l0, hget0, hkeep⟩ |
      ⟨_, pad, track, settings, rfl, hplayable, _⟩
    · obtain ⟨track, hplayable, hcommands⟩ := h.origin n l0 hget0
      exact ⟨track, by rw [hkeep.pad]; exact hplayable, by rw [hkeep.commands, hcommands]⟩
    · exact ⟨track, hplayable, rfl⟩
  · cases heffect with
    | nothing _ hjournal => rw [hjournal]; exact htarget
    | retouch _ _ _ hjournal => rw [hjournal]; exact htarget
    | launch _ _ _ hjournal => rw [hjournal]; exact htarget
    | @call n l command reply hat _ _ hloops hjournal =>
      rw [hjournal]
      intro entry hentry
      rcases List.mem_cons.1 hentry with rfl | hentry
      · refine ⟨_, (getElem?_of_set hat hloops).2 (.inl ⟨rfl, rfl⟩), ?_⟩
        rw [l.afterReply_pad reply]
        rfl
      · exact htarget entry hentry
  · cases heffect with
    | nothing _ hjournal => rw [hjournal]; exact h.sorted
    | retouch _ _ _ hjournal => rw [hjournal]; exact h.sorted
    | launch _ _ _ hjournal => rw [hjournal]; exact h.sorted
    | @call n l command reply hat hbusy _ _ hjournal =>
      rw [hjournal, List.pairwise_cons]
      refine ⟨fun earlier hearlier hsame => ?_, h.sorted⟩
      -- A loop with a higher number on the same pad would mean that this one has ended.
      refine Nat.le_of_not_lt fun hlt => ?_
      obtain ⟨k, hk, hpad⟩ := h.target earlier hearlier
      have hpads : l.pad = k.pad := by
        rw [hpad] at hsame
        exact Target.pad.inj hsame.symm
      have hended := h.turns n earlier.loop l k hlt hat hk hpads
      rw [hbusy] at hended
      cases hended

/-- Whatever steps are taken, loops keep to their turns. -/
theorem Orderly.leads {rig rig' : Rig} (h : Orderly playable rig)
    (hleads : Leads playable rig rig') : Orderly playable rig' := by
  induction hleads with
  | refl => exact h
  | tail _ hlast ih => exact ih.effect hlast.effect

/-- On a rig with no loops and no calls, everything is in order. -/
theorem orderly_of_empty {rig : Rig} (hloops : rig.loops = []) (hjournal : rig.journal = []) :
    Orderly playable rig := by
  constructor <;> simp [hloops, hjournal]

theorem mem_loopsOn {rig : Rig} {p : Pad} {n : Nat} :
    n ∈ rig.loopsOn p ↔ ∃ l, rig.loops[n]? = some l ∧ l.pad = p := by
  rw [loopsOn, List.mem_filter, List.mem_range]
  constructor
  · rintro ⟨hlt, hany⟩
    rw [List.getElem?_eq_getElem hlt] at hany ⊢
    exact ⟨_, rfl, of_decide_eq_true hany⟩
  · rintro ⟨l, hget, hpad⟩
    refine ⟨(List.getElem?_eq_some_iff.1 hget).1, ?_⟩
    rw [hget]
    exact decide_eq_true hpad

/-- Calls on a pad are made by the loops on that pad only. -/
theorem Orderly.target_iff {rig : Rig} (h : Orderly playable rig) {entry : JournalEntry}
    (hentry : entry ∈ rig.journal) (p : Pad) :
    entry.call.target = .pad p ↔ entry.loop ∈ rig.loopsOn p := by
  obtain ⟨l, hget, htarget⟩ := h.target entry hentry
  rw [htarget, mem_loopsOn, hget]
  constructor
  · intro hpad
    exact ⟨l, rfl, Target.pad.inj hpad⟩
  · rintro ⟨_, hl, rfl⟩
    cases hl
    rfl

/-- The calls on a pad are those of its loops, one loop after another. -/
theorem Orderly.trace_eq {rig : Rig} (h : Orderly playable rig) (p : Pad) :
    rig.trace p = (rig.loopsOn p).flatMap rig.callsBy := by
  let entries := rig.journal.reverse.filter fun entry => entry.call.target = .pad p
  have hmem : ∀ entry ∈ entries, entry.loop ∈ rig.loopsOn p := by
    intro entry hentry
    obtain ⟨hjournal, htarget⟩ := List.mem_filter.1 hentry
    exact (h.target_iff (List.mem_reverse.1 hjournal) p).1 (of_decide_eq_true htarget)
  have hsorted : entries.Pairwise fun a b => a.loop ≤ b.loop := by
    have hjournal := List.pairwise_reverse.2 h.sorted
    rw [List.pairwise_filter]
    refine hjournal.imp fun {a b} hab ha hb => ?_
    exact hab ((of_decide_eq_true ha).trans (of_decide_eq_true hb).symm)
  have hlt : ∀ entry ∈ entries, entry.loop < rig.loops.length := fun entry hentry =>
    List.mem_range.1 (List.mem_filter.1 (hmem entry hentry)).1
  have hblock : ∀ n ∈ rig.loopsOn p,
      (entries.filter fun entry => entry.loop = n).map (·.call) = rig.callsBy n := by
    intro n hn
    rw [List.filter_filter, callsBy]
    congr 1
    apply List.filter_congr
    intro entry hentry
    by_cases hloop : entry.loop = n
    · have htarget := (h.target_iff (List.mem_reverse.1 hentry) p).2 (hloop ▸ hn)
      simp only [hloop, htarget, decide_true, Bool.and_true]
    · simp only [hloop, decide_false, Bool.false_and]
  have hother : ∀ n ∈ List.range rig.loops.length,
      (rig.loops[n]?.any fun l => l.pad = p) = false →
        (entries.filter fun entry => entry.loop = n).map (·.call) = [] := by
    intro n _ hany
    rw [List.map_eq_nil_iff, List.filter_eq_nil_iff]
    intro entry hentry hloop
    have hkeep := (List.mem_filter.1 (hmem entry hentry)).2
    rw [of_decide_eq_true hloop, hany] at hkeep
    cases hkeep
  calc rig.trace p
      = ((List.range rig.loops.length).flatMap fun n =>
          entries.filter fun entry => entry.loop = n).map (·.call) := by
        rw [Sequence.flatMap_filter_key hsorted hlt]
        rfl
    _ = (List.range rig.loops.length).flatMap fun n =>
          (entries.filter fun entry => entry.loop = n).map (·.call) := List.map_flatMap
    _ = (rig.loopsOn p).flatMap fun n =>
          (entries.filter fun entry => entry.loop = n).map (·.call) :=
        (Sequence.flatMap_filter_of_nil hother).symm
    _ = (rig.loopsOn p).flatMap rig.callsBy := by
        rw [List.flatMap_def, List.map_congr_left hblock, List.flatMap_def]

/-- A loop that has ended makes no call any more. -/
theorem Leads.callsBy_of_hasEnded {rig rig' : Rig} (h : Leads playable rig rig') {n : Nat}
    {l : Loop} (hget : rig.loops[n]? = some l) (hended : l.hasEnded = true) :
    rig'.callsBy n = rig.callsBy n := by
  induction h with
  | refl => rfl
  | @tail mid last hmid hlast ih =>
    rw [← ih]
    cases hlast.effect with
    | nothing _ hjournal => rw [callsBy_congr hjournal]
    | retouch _ _ _ hjournal => rw [callsBy_congr hjournal]
    | launch _ _ _ hjournal => rw [callsBy_congr hjournal]
    | @call m k command reply hat hbusy _ _ hjournal =>
      have hne : m ≠ n := by
        rintro rfl
        obtain ⟨l', hget', hkeep⟩ := hmid.forward hget
        obtain rfl := Option.some.inj (hget'.symm.trans hat)
        have hover := hkeep.hasEnded hended
        rw [hbusy] at hover
        cases hover
      rw [callsBy_cons hjournal, if_neg hne, List.append_nil]

/-- Loops on a pad are only added behind those that there are. -/
theorem Leads.exists_loopsOn_eq {rig rig' : Rig} (h : Leads playable rig rig') (p : Pad) :
    ∃ fresh, rig'.loopsOn p = rig.loopsOn p ++ fresh := by
  have hlength : rig.loops.length ≤ rig'.loops.length := by
    refine Nat.le_of_not_lt fun hlt => ?_
    obtain ⟨l', hget', _⟩ := h.forward (List.getElem?_eq_getElem hlt)
    have hlt' := (List.getElem?_eq_some_iff.1 hget').1
    omega
  rw [loopsOn, ← Nat.add_sub_cancel' hlength, List.range_add, List.filter_append]
  refine ⟨_, congrArg (· ++ _) (List.filter_congr fun n hn => ?_)⟩
  obtain ⟨l', hget', hkeep⟩ := h.forward (List.getElem?_eq_getElem (List.mem_range.1 hn))
  rw [hget', List.getElem?_eq_getElem (List.mem_range.1 hn)]
  simp only [Option.any_some, hkeep.pad]

/-- Once all loops on a pad have ended, the calls that follow are those of loops started since. -/
theorem Orderly.trace_of_quiet {rig rig' : Rig} (h : Orderly playable rig)
    (hleads : Leads playable rig rig') {p : Pad}
    (hquiet : ∀ l ∈ rig.loops, l.pad = p → l.hasEnded = true) :
    ∃ fresh, rig'.loopsOn p = rig.loopsOn p ++ fresh ∧
      rig'.trace p = rig.trace p ++ fresh.flatMap rig'.callsBy := by
  obtain ⟨fresh, hfresh⟩ := hleads.exists_loopsOn_eq p
  have hsame : ∀ n ∈ rig.loopsOn p, rig'.callsBy n = rig.callsBy n := by
    intro n hn
    obtain ⟨l, hget, hpad⟩ := mem_loopsOn.1 hn
    exact hleads.callsBy_of_hasEnded hget (hquiet l (List.mem_of_getElem? hget) hpad)
  have hearlier : (rig.loopsOn p).flatMap rig'.callsBy = rig.trace p := by
    rw [h.trace_eq, List.flatMap_def, List.map_congr_left hsame, List.flatMap_def]
  refine ⟨fresh, hfresh, ?_⟩
  rw [(h.leads hleads).trace_eq, hfresh, List.flatMap_append, hearlier]

end Rig

end LightShow
