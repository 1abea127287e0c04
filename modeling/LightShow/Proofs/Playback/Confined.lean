import LightShow.Proofs.Playback.Control
import LightShow.Proofs.Playback.Outline

namespace LightShow

namespace Loop

/-- The control of the show has done nothing to the loop: it has neither asked it to stop nor waited
for it. The loop may have gone on by itself. -/
structure LeftAlone (l l' : Loop) : Prop where
  pad : l'.pad = l.pad
  stopRequested : l'.stopRequested = l.stopRequested
  joined : l'.joined = l.joined

theorem LeftAlone.refl (l : Loop) : l.LeftAlone l := ⟨rfl, rfl, rfl⟩

theorem LeftAlone.trans {l l' l'' : Loop} (h : l.LeftAlone l') (h' : l'.LeftAlone l'') :
    l.LeftAlone l'' :=
  ⟨h'.pad.trans h.pad, h'.stopRequested.trans h.stopRequested, h'.joined.trans h.joined⟩

theorem leftAlone_afterReply (l : Loop) (reply : Reply) : l.LeftAlone (l.afterReply reply) := by
  cases reply <;> exact ⟨rfl, rfl, rfl⟩

/-- A loop that takes a step by itself is left alone. -/
theorem leftAlone_step (l : Loop) (now : Nat) (answer : Call → Reply) :
    l.LeftAlone (l.step now answer).1 := by
  unfold step
  split
  · split
    · exact ⟨rfl, rfl, rfl⟩
    · split <;> exact ⟨rfl, rfl, rfl⟩
  · split
    · exact ⟨rfl, rfl, rfl⟩
    · split <;> exact ⟨rfl, rfl, rfl⟩
  · exact l.leftAlone_afterReply _
  all_goals exact ⟨rfl, rfl, rfl⟩

end Loop

namespace Rig

variable {reach : Pad → Prop} {rig mid last : Rig}

/-- The control of the show has kept to some pads: it has left the loops on all others alone, and it
has started none there. -/
structure Confined (reach : Pad → Prop) (before after : Rig) : Prop where
  kept : ∀ (n : Nat) (l : Loop), before.loops[n]? = some l →
    ∃ l', after.loops[n]? = some l' ∧ l'.pad = l.pad ∧ (¬reach l.pad → l.LeftAlone l')
  started : ∀ (n : Nat) (l' : Loop), after.loops[n]? = some l' → before.loops[n]? = none →
    reach l'.pad

/-- If there is a loop with the number, it is on one of the pads. -/
def Within (reach : Pad → Prop) (rig : Rig) (number : Nat) : Prop :=
  ∀ l, rig.loops[number]? = some l → reach l.pad

theorem Confined.of_loops_eq (hloops : last.loops = rig.loops) : rig.Confined reach last := by
  refine ⟨fun n l hget => ⟨l, by rw [hloops, hget], rfl, fun _ => .refl l⟩, fun n l' hget hnone => ?_⟩
  rw [hloops, hnone] at hget
  cases hget

/-- What has kept to the pads twice has kept to them: a loop that was started on the way is on one
of the pads, and the others have been left alone both times. -/
theorem Confined.trans (h : rig.Confined reach mid) (h' : mid.Confined reach last) :
    rig.Confined reach last := by
  constructor
  · intro n l hget
    obtain ⟨l', hget', hpad, halone⟩ := h.kept n l hget
    obtain ⟨l'', hget'', hpad', halone'⟩ := h'.kept n l' hget'
    exact ⟨l'', hget'', hpad'.trans hpad, fun hout =>
      (halone hout).trans (halone' (hpad ▸ hout))⟩
  · intro n l'' hget hnone
    cases hmid : mid.loops[n]? with
    | none => exact h'.started n l'' hget hmid
    | some l' =>
      obtain ⟨_, hget', hpad, _⟩ := h'.kept n l' hmid
      obtain rfl := Option.some.inj (hget.symm.trans hget')
      exact hpad ▸ h.started n l' hmid hnone

/-- A loop that is started later is on one of the pads too. -/
theorem Within.later {number : Nat} (hin : rig.Within reach number)
    (h : rig.Confined reach last) : last.Within reach number := by
  intro l' hget
  cases hfirst : rig.loops[number]? with
  | none => exact h.started number l' hget hfirst
  | some l =>
    obtain ⟨_, hget', hpad, _⟩ := h.kept number l hfirst
    obtain rfl := Option.some.inj (hget.symm.trans hget')
    exact hpad ▸ hin l hfirst

/-- A number that no loop has yet is that of a loop on one of the pads, if of any that was there at
first. -/
theorem Confined.within_of_none {number : Nat} (h : rig.Confined reach last)
    (hnone : last.loops[number]? = none) : rig.Within reach number := by
  intro l hget
  obtain ⟨l', hget', _⟩ := h.kept number l hget
  rw [hnone] at hget'
  cases hget'

/-- One loop has been replaced. -/
theorem Confined.of_set {n : Nat} {l l' : Loop} (hget : rig.loops[n]? = some l)
    (hloops : last.loops = rig.loops.set n l') (hpad : l'.pad = l.pad)
    (halone : ¬reach l.pad → l.LeftAlone l') : rig.Confined reach last := by
  constructor
  · intro m k hm
    by_cases hmn : m = n
    · subst hmn
      obtain rfl := Option.some.inj (hget.symm.trans hm)
      exact ⟨l', (getElem?_of_set hget hloops).2 (.inl ⟨rfl, rfl⟩), hpad, halone⟩
    · exact ⟨k, (getElem?_of_set hget hloops).2 (.inr ⟨hmn, hm⟩), rfl, fun _ => .refl k⟩
  · intro m k hm hnone
    rcases (getElem?_of_set hget hloops).1 hm with ⟨rfl, _⟩ | ⟨_, hsame⟩
    · rw [hget] at hnone
      cases hnone
    · rw [hsame] at hnone
      cases hnone

/-- Loops that go on by themselves are left alone, whatever pads are meant. -/
theorem confined_advance (rig : Rig) (number : Nat) : rig.Confined reach (rig.advance number) := by
  unfold advance
  cases hget : rig.loops[number]? with
  | none => exact .of_loops_eq rfl
  | some l =>
    have halone := l.leftAlone_step rig.clock rig.answer
    exact .of_set hget rfl halone.pad fun _ => halone

/-- However the loops go on, all of them are left alone. -/
theorem confined_run (rig : Rig) (moves : List Move) : rig.Confined reach (rig.run moves) := by
  induction moves generalizing rig with
  | nil => exact .of_loops_eq rfl
  | cons m rest ih =>
    cases m with
    | elapse nanoseconds =>
      have helapsed : rig.Confined reach (rig.move (.elapse nanoseconds)) := .of_loops_eq rfl
      exact helapsed.trans (ih _)
    | advance number => exact (rig.confined_advance number).trans (ih _)

theorem nextPlayer_advance (rig : Rig) (number : Nat) :
    (rig.advance number).nextPlayer = rig.nextPlayer := by
  unfold advance
  split <;> rfl

theorem nextPlayer_run (rig : Rig) (moves : List Move) :
    (rig.run moves).nextPlayer = rig.nextPlayer := by
  induction moves generalizing rig with
  | nil => rfl
  | cons m rest ih =>
    refine (ih (rig.move m)).trans ?_
    cases m with
    | elapse nanoseconds => rfl
    | advance number => exact rig.nextPlayer_advance number

/-- A loop on one of the pads may be changed. -/
theorem confined_update {number : Nat} {f : Loop → Loop} (hin : rig.Within reach number)
    (hpad : ∀ l, (f l).pad = l.pad) : rig.Confined reach (rig.update number f) := by
  cases hget : rig.loops[number]? with
  | none =>
    have hlength : rig.loops.length ≤ number := List.getElem?_eq_none_iff.1 hget
    exact .of_loops_eq (List.modify_eq_self hlength)
  | some l =>
    have hloop : Inhabited Loop := ⟨l⟩
    have hset : rig.loops.modify number f = rig.loops.set number (f l) := by
      rw [List.modify_eq_set, hget, Option.getD_some]
    exact .of_set hget hset (hpad l) fun hout => absurd (hin l hget) hout

/-- A loop may be started on one of the pads. -/
theorem confined_append {l : Loop} (hloops : last.loops = rig.loops ++ [l]) (hreach : reach l.pad) :
    rig.Confined reach last := by
  refine ⟨fun n k hget => ?_, fun n k hget hnone => ?_⟩
  · exact ⟨k, (getElem?_of_append hloops).2 (.inl hget), rfl, fun _ => .refl k⟩
  · rcases (getElem?_of_append hloops).1 hget with hsame | ⟨_, rfl⟩
    · rw [hsame] at hnone
      cases hnone
    · exact hreach

theorem confined_launch {l : Loop} (rig : Rig) (hreach : reach l.pad) :
    rig.Confined reach (rig.launch l).2 := by
  unfold launch
  split
  · exact .of_loops_eq rfl
  · exact confined_append rfl hreach
  · exact confined_append rfl hreach

theorem nextPlayer_launch (rig : Rig) (l : Loop) :
    (rig.launch l).2.nextPlayer = rig.nextPlayer := by
  unfold launch
  split <;> rfl

/-- A loop gets a number that none had before. -/
theorem getElem?_of_launch {l : Loop} {number : Nat} (h : (rig.launch l).1 = .ok number) :
    rig.loops[number]? = none := by
  refine List.getElem?_eq_none ?_
  unfold launch at h
  split at h <;> cases h <;> exact Nat.le_refl _

end Rig

namespace Control

variable {α : Type} {reach : Pad → Prop} {start : Rig} {before after : UInt64}

/-- The rig has come from `start` with the control of the show keeping to some pads, and its next
player gets the number. -/
structure Since (reach : Pad → Prop) (start : Rig) (number : UInt64) (rig : Rig) : Prop where
  confined : start.Confined reach rig
  nextPlayer : rig.nextPlayer = number

/-- The action keeps to the pads and comes to a good answer, however the loops fare meanwhile and
whether or not it is refused a thread. Players are numbered from `before` on; `after` is left for
the next one. -/
abbrev Keeps (reach : Pad → Prop) (start : Rig) (before : UInt64) (x : Control α) (after : UInt64)
    (good : α → Prop) : Prop :=
  Brings (Since reach start before) x (Since reach start after) good

/-- A change that keeps to the pads and makes no player may be part of an action. -/
theorem keeps_modify {f : Rig → Rig}
    (hconfined : ∀ rig, start.Confined reach rig → rig.Confined reach (f rig))
    (hnext : ∀ rig, (f rig).nextPlayer = rig.nextPlayer) :
    Keeps reach start before (modify f) before fun _ => True :=
  fun rig hrig => ⟨⟨hrig.confined.trans (hconfined rig hrig.confined),
    (hnext rig).trans hrig.nextPlayer⟩, trivial⟩

theorem keeps_modifyGet {f : Rig → α × Rig} {good : α → Prop}
    (h : ∀ rig, Since reach start before rig →
      Since reach start after (f rig).2 ∧ good (f rig).1) :
    Keeps reach start before (modifyGet f) after good := h

/-- Between the parts of an action the loops go on, and that is all. -/
theorem keeps_interlude : Keeps reach start before interlude before fun _ => True := by
  refine keeps_modify (fun rig _ => ?_) fun rig => ?_
  · cases rig.agenda with
    | nil => exact .of_loops_eq rfl
    | cons moves rest =>
      have hrest : rig.Confined reach { rig with agenda := rest } := .of_loops_eq rfl
      exact hrest.trans (Rig.confined_run _ moves)
  · cases rig.agenda with
    | nil => rfl
    | cons moves rest => exact Rig.nextPlayer_run _ moves

theorem keeps_newPlayerId :
    Keeps reach start before newPlayerId (before + 1) (· = ⟨before⟩) := by
  rintro rig ⟨hconfined, rfl⟩
  exact ⟨⟨hconfined.trans (.of_loops_eq rfl), rfl⟩, rfl⟩

end Control

open Control Rig

variable {reach : Pad → Prop} {start : Rig} {n : UInt64}

namespace LoopRef

/-- Whether or not there is a thread for it, a loop is only started on its own pad. -/
theorem keeps_start {pad source : Pad} {program : Program Binary64} {settings : PlaybackSettings}
    (hreach : reach pad) : Keeps reach start n (LoopRef.start pad program source settings) n
      fun answer => ∀ ref, answer = .ok ref → start.Within reach ref.number := by
  unfold LoopRef.start
  split
  · exact .pure fun _ hanswer => by cases hanswer
  next track _ =>
    refine keeps_interlude.bind fun _ _ => ?_
    have hlaunch : Keeps reach start n
        (modifyGet fun rig => rig.launch (.new pad track settings rig.clock)) n
        fun answer => ∀ number, answer = .ok number → start.Within reach number := by
      refine keeps_modifyGet fun rig hrig => ?_
      have hlaunched : rig.Confined reach (rig.launch (.new pad track settings rig.clock)).2 :=
        rig.confined_launch hreach
      refine ⟨⟨hrig.confined.trans hlaunched, ?_⟩, fun number hnumber => ?_⟩
      · exact (rig.nextPlayer_launch _).trans hrig.nextPlayer
      · exact hrig.confined.within_of_none (getElem?_of_launch hnumber)
    refine hlaunch.bind fun answer hanswer => ?_
    cases answer with
    | ok number =>
      refine .pure fun ref href => ?_
      cases href
      exact hanswer number rfl
    | error description => exact .pure fun _ href => by cases href

theorem keeps_requestStop {loop : LoopRef} (hin : start.Within reach loop.number) :
    Keeps reach start n loop.requestStop n fun _ => True := by
  refine keeps_interlude.bind fun _ _ => keeps_modify (fun rig hrig => ?_) fun _ => rfl
  exact confined_update (hin.later hrig) fun _ => rfl

/-- Waiting for a loop on one of the pads touches no other one. -/
theorem keeps_join {loop : LoopRef} (hin : start.Within reach loop.number) :
    Keeps reach start n loop.join n fun _ => True := by
  refine keeps_interlude.bind fun _ _ => keeps_modifyGet fun rig hrig => ⟨?_, trivial⟩
  split
  · exact hrig
  · split
    · exact hrig
    · have hfirst : rig.Confined reach (rig.advance loop.number) := rig.confined_advance _
      have hsecond := hfirst.trans ((rig.advance loop.number).confined_advance loop.number)
      have hended := hrig.confined.trans hsecond
      refine ⟨hended.trans (confined_update (hin.later hended) fun _ => rfl), ?_⟩
      refine (nextPlayer_advance _ _).trans ((nextPlayer_advance _ _).trans hrig.nextPlayer)

/-- A loop on one of the pads is stopped without touching any other. -/
theorem keeps_stop {loop : LoopRef} (hin : start.Within reach loop.number) :
    Keeps reach start n loop.stop n fun _ => True := by
  refine (keeps_requestStop hin).bind fun _ _ => (keeps_join hin).bind fun panicked _ => ?_
  cases panicked with
  | true => exact .pure trivial
  | false =>
    refine Brings.get.bind fun rig _ => ?_
    split
    · exact .pure trivial
    · exact .pure trivial

end LoopRef

namespace Player

variable {p : Player} {pad : Pad}

/-- The loops of the player are on the pads, as far as there are any with their numbers. -/
def Within (reach : Pad → Prop) (start : Rig) (p : Player) : Prop :=
  ∀ pad ref, p.loops.get pad = some ref → start.Within reach ref.number

theorem within_of_idle (h : p.Idle) : p.Within reach start := by
  intro pad ref href
  rw [h pad] at href
  cases href

/-- The loops stay on the pads if one is added that is on them. -/
theorem Within.set (h : p.Within reach start) {loop : Option LoopRef}
    (hloop : ∀ ref, loop = some ref → start.Within reach ref.number) :
    Within reach start { p with loops := p.loops.set pad loop } := by
  intro q ref href
  rcases PerPad.get_set_eq_some_iff.1 href with ⟨_, href⟩ | ⟨_, href⟩
  · exact hloop ref href
  · exact h q ref href

/-- A player that is stopped touches its own loops and has none then. -/
theorem keeps_stop (h : p.Within reach start) :
    Keeps reach start n p.stop n fun out => out.1 = p.silent := by
  have hstops : Keeps reach start n (p.loops.entries.mapM fun entry => entry.2.stop) n
      fun _ => True := by
    refine Brings.mapM fun entry hentry => LoopRef.keeps_stop ?_
    exact h entry.1 entry.2 (PerPad.mem_entries.1 hentry)
  exact hstops.bind fun _ _ => .pure rfl

/-- A player starts a loop on the pad only if it binds that. -/
theorem keeps_startOn (hreach : p.isBound pad = true → reach pad) :
    Keeps reach start n (p.startOn pad) n fun out =>
      (∃ loop, out.1 = { p with loops := p.loops.set pad loop }) ∧
        (p.Within reach start → out.1.Within reach start) := by
  unfold startOn
  have hsame : p = { p with loops := p.loops.set pad (p.loops.get pad) } := by
    rw [PerPad.set_get_self]
  split
  next => exact .pure ⟨⟨_, hsame⟩, fun hin => hin⟩
  next source hbinding =>
    have hbound : p.isBound pad = true := by rw [isBound, hbinding]; rfl
    refine (LoopRef.keeps_start (hreach hbound)).bind fun answer hanswer => ?_
    cases answer with
    | ok ref =>
      refine .pure ⟨⟨some ref, rfl⟩, fun hin => hin.set fun ref' href' => ?_⟩
      cases href'
      exact hanswer ref rfl
    | error error => exact .pure ⟨⟨_, hsame⟩, fun hin => hin⟩

/-- Starting on some pads keeps to those that the player binds, even if there is no thread for one
of them. -/
theorem keeps_startOnAll {pads : List Pad} (h : p.Within reach start)
    (hreach : ∀ pad ∈ pads, p.isBound pad = true → reach pad) :
    Keeps reach start n (p.startOnAll pads) n fun out =>
      p.Alike out.1 ∧ out.1.Within reach start := by
  induction pads generalizing p with
  | nil => exact .pure ⟨.refl p, h⟩
  | cons pad rest ih =>
    refine (keeps_startOn (hreach pad List.mem_cons_self)).bind fun ⟨mid, result⟩ hmid => ?_
    obtain ⟨⟨loop, hset⟩, hin⟩ := hmid
    have hsame : p.Alike mid := ⟨_, hset⟩
    cases result with
    | error error => exact .pure ⟨hsame, hin h⟩
    | ok u =>
      have hrest : ∀ q ∈ rest, mid.isBound q = true → reach q := by
        intro q hq hbound
        rw [hsame.isBound_eq] at hbound
        exact hreach q (List.mem_cons_of_mem pad hq) hbound
      exact (ih (hin h) hrest).mono fun out hout => ⟨hsame.trans hout.1, hout.2⟩

/-- Starting with exceptions keeps to the pads that the player binds and that are not excepted. -/
theorem keeps_startExcept {excluded : List Pad} (h : p.Within reach start)
    (hreach : ∀ pad, p.isBound pad = true → pad ∉ excluded → reach pad) :
    Keeps reach start n (p.startExcept excluded) n fun out =>
      p.Alike out.1 ∧ out.1.Within reach start := by
  refine (keeps_stop h).bind fun ⟨mid, _⟩ hmid => ?_
  obtain rfl : mid = p.silent := hmid
  have hpads : ∀ pad ∈ p.pads.filter fun pad => !excluded.contains pad,
      p.silent.isBound pad = true → reach pad := by
    intro pad hpad hbound
    have hnot : pad ∉ excluded := by simpa using (List.mem_filter.1 hpad).2
    exact hreach pad hbound hnot
  have hsame : p.Alike p.silent := ⟨_, rfl⟩
  refine (keeps_startOnAll (within_of_idle p.idle_silent) hpads).mono fun out hout => ?_
  exact ⟨hsame.trans hout.1, hout.2⟩

/-- Leaving a pad touches the loop there alone. -/
theorem keeps_stopOn (h : ∀ ref, p.loops.get pad = some ref → start.Within reach ref.number) :
    Keeps reach start n (p.stopOn pad) n fun out =>
      out.1 = { p with loops := p.loops.set pad none } := by
  unfold stopOn
  split
  next hnone =>
    refine .pure ?_
    rw [← hnone, PerPad.set_get_self]
  next ref href => exact (LoopRef.keeps_stop (h ref href)).bind fun _ _ => .pure rfl

/-- Taking up a pad again touches no other pad. -/
theorem keeps_resumeOn (hreach : reach pad) :
    Keeps reach start n (p.resumeOn pad) n fun out =>
      ∃ loop, out.1 = { p with loops := p.loops.set pad loop } := by
  unfold resumeOn
  split
  next =>
    refine .pure ⟨p.loops.get pad, ?_⟩
    rw [PerPad.set_get_self]
  next => exact (keeps_startOn fun _ => hreach).mono fun _ hout => hout.1

section Made

variable {program : Program Binary64} {settings : PlaybackSettings}

/-- A player that is made gets the next number, and no loop is started for it. -/
theorem keeps_new {bindings : PerPad (Option Pad)} :
    Keeps reach start n (new program settings bindings) (n + 1) fun player =>
      player = ⟨⟨n⟩, program, settings, bindings, .const none⟩ := by
  refine keeps_newPlayerId.bind fun id hid => ?_
  obtain rfl : id = ⟨n⟩ := hid
  exact .pure rfl

/-- Binding a program to its own pads starts nothing. -/
theorem keeps_onOwnPads (h : refusalOnOwnPads? program = none) :
    Keeps reach start n (onOwnPads program settings) (n + 1) fun made =>
      ∃ player, made = .ok player ∧ player.id = ⟨n⟩ ∧ player.Idle := by
  rw [onOwnPads_of_accepted settings h]
  refine keeps_new.bind fun player hplayer => .pure ⟨player, rfl, ?_⟩
  subst hplayer
  exact ⟨rfl, PerPad.get_const none⟩

/-- Binding a program to one pad starts nothing, and no other pad is bound. -/
theorem keeps_onPad (h : (sourceFor? program pad).isSome = true) :
    Keeps reach start n (onPad pad program settings) (n + 1) fun made =>
      ∃ player, made = .ok player ∧ player.id = ⟨n⟩ ∧ player.Idle ∧
        ∀ q, player.isBound q = true → q = pad := by
  obtain ⟨source, hsource⟩ := Option.isSome_iff_exists.1 h
  unfold onPad
  rw [hsource]
  refine keeps_new.bind fun player hplayer => .pure ⟨player, rfl, ?_⟩
  subst hplayer
  refine ⟨rfl, PerPad.get_const none, fun q hbound => Classical.byContradiction fun hq => ?_⟩
  rw [isBound, PerPad.get_set_of_ne _ _ hq, PerPad.get_const] at hbound
  cases hbound

end Made

end Player

end LightShow
