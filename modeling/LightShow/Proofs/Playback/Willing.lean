import LightShow.Proofs.Playback.Outline

namespace LightShow

/-- The rig refuses no thread, and its next player gets the number. -/
structure Rig.Willing (rig : Rig) (number : UInt64) : Prop where
  launches : rig.launches = []
  nextPlayer : rig.nextPlayer = number

/-- A loop that goes on makes no player and uses up no thread. -/
theorem Rig.Willing.advance {rig : Rig} {number : UInt64} (h : rig.Willing number) (loop : Nat) :
    (rig.advance loop).Willing number := by
  unfold Rig.advance
  split
  · exact h
  · exact ⟨h.launches, h.nextPlayer⟩

/-- Loops that go on make no player and use up no thread. -/
theorem Rig.Willing.run {rig : Rig} {number : UInt64} (h : rig.Willing number)
    (moves : List Move) : (rig.run moves).Willing number := by
  induction moves generalizing rig with
  | nil => exact h
  | cons m rest ih =>
    cases m with
    | elapse nanoseconds => exact ih ⟨h.launches, h.nextPlayer⟩
    | advance loop => exact ih (h.advance loop)

namespace Control

variable {α β σ ρ : Type} {before mid after : UInt64}

/-- From every rig that refuses no thread the action comes to a good answer, however the loops fare
meanwhile. Players are numbered from `before` on; `after` is left for the next one. -/
def Yields (before : UInt64) (x : Control α) (after : UInt64) (good : α → Prop) : Prop :=
  ∀ rig, rig.Willing before → (x.run rig).2.Willing after ∧ good (x.run rig).1

theorem yields_iff {x : Control α} {good : α → Prop} : Yields before x after good ↔
    Brings (·.Willing before) x (·.Willing after) good := Iff.rfl

theorem Yields.pure {a : α} {good : α → Prop} (h : good a) : Yields before (pure a) before good :=
  Brings.pure h

/-- Actions one after another come to a good answer if the second does from whatever good answer the
first has given. -/
theorem Yields.bind {x : Control α} {f : α → Control β} {good : α → Prop} {good' : β → Prop}
    (hx : Yields before x mid good) (hf : ∀ a, good a → Yields mid (f a) after good') :
    Yields before (x >>= f) after good' :=
  (yields_iff.1 hx).bind fun a ha => yields_iff.1 (hf a ha)

theorem Yields.mono {x : Control α} {good good' : α → Prop} (h : Yields before x after good)
    (hgood : ∀ a, good a → good' a) : Yields before x after good' :=
  (yields_iff.1 h).mono hgood

theorem Yields.get : Yields before get before fun _ => True :=
  Brings.get

theorem Yields.modify {f : Rig → Rig} (h : ∀ rig, rig.Willing before → (f rig).Willing before) :
    Yields before (modify f) before fun _ => True :=
  fun rig hrig => ⟨h rig hrig, trivial⟩

theorem Yields.modifyGet {f : Rig → α × Rig}
    (h : ∀ rig, rig.Willing before → (f rig).2.Willing before) :
    Yields before (modifyGet f) before fun _ => True :=
  fun rig hrig => ⟨h rig hrig, trivial⟩

theorem Yields.mapM {f : β → Control α} (h : ∀ b, Yields before (f b) before fun _ => True)
    (bs : List β) : Yields before (bs.mapM f) before fun _ => True :=
  Brings.mapM fun b _ => h b

/-- The action comes to a good state and hands back the value, not an error. -/
def Grants (before : UInt64) (x : Control (σ × Except PlaybackError α)) (after : UInt64)
    (good : σ → Prop) (value : α) : Prop :=
  Yields before x after fun out => good out.1 ∧ out.2 = .ok value

theorem Grants.pure {state : σ} {value : α} {good : σ → Prop} (h : good state) :
    Grants before (pure (state, .ok value)) before good value :=
  Yields.pure ⟨h, rfl⟩

/-- After an action that hands back a value one need not ask for errors. -/
theorem Grants.bind {x : Control (σ × Except PlaybackError α)}
    {f : σ × Except PlaybackError α → Control (ρ × Except PlaybackError β)} {good : σ → Prop}
    {good' : ρ → Prop} {a : α} {b : β} (hx : Grants before x mid good a)
    (hf : ∀ state, good state → Grants mid (f (state, .ok a)) after good' b) :
    Grants before (x >>= f) after good' b := by
  refine Yields.bind hx fun ⟨state, result⟩ ⟨hstate, hresult⟩ => ?_
  obtain rfl : result = .ok a := hresult
  exact hf state hstate

/-- An action that cannot fail may come before one that hands back a value. -/
theorem Yields.bind_grants {x : Control α} {f : α → Control (σ × Except PlaybackError β)}
    {good : α → Prop} {good' : σ → Prop} {b : β} (hx : Yields before x mid good)
    (hf : ∀ a, good a → Grants mid (f a) after good' b) : Grants before (x >>= f) after good' b :=
  hx.bind hf

/-- What is made of the value is handed back instead of it. -/
theorem Grants.map {x : Control (σ × Except PlaybackError α)} {good : σ → Prop} {a : α}
    (hx : Grants before x after good a) (f : α → β) :
    Grants before (x >>= fun out => Pure.pure (out.1, out.2.map f)) after good (f a) :=
  hx.bind fun _ hstate => .pure hstate

/-- Between the parts of an action neither players are made nor threads refused. -/
theorem yields_interlude : Yields before interlude before fun _ => True := by
  refine Yields.modify fun rig hrig => ?_
  cases rig.agenda with
  | nil => exact hrig
  | cons moves rest =>
    have hrest : Rig.Willing { rig with agenda := rest } before := ⟨hrig.launches, hrig.nextPlayer⟩
    exact hrest.run moves

/-- The next player gets the next number. -/
theorem yields_newPlayerId : Yields before newPlayerId (before + 1) (· = ⟨before⟩) := by
  rintro rig ⟨hlaunches, rfl⟩
  exact ⟨⟨hlaunches, rfl⟩, rfl⟩

end Control

open Control

variable {n : UInt64}

namespace LoopRef

/-- A loop is always started, for the track is there and no thread is refused. -/
theorem yields_start {pad source : Pad} {program : Program Binary64} {settings : PlaybackSettings}
    (h : (program.track source).isSome = true) :
    Yields n (start pad program source settings) n fun answer => ∃ ref, answer = .ok ref := by
  obtain ⟨track, htrack⟩ := Option.isSome_iff_exists.1 h
  unfold start
  rw [htrack]
  refine yields_interlude.bind fun _ _ => ?_
  have hlaunch : Yields n
      (modifyGet fun rig => rig.launch (.new pad track settings rig.clock)) n
      fun answer => ∃ number, answer = .ok number := by
    rintro rig ⟨hlaunches, hnext⟩
    -- No refusal is left, so the loop is made whatever it plays.
    have hmade (l : Loop) : rig.launch l =
        (.ok rig.loops.length, { rig with loops := rig.loops ++ [l] }) := by
      rw [Rig.launch, hlaunches]
    change (rig.launch _).2.Willing n ∧ ∃ number, (rig.launch _).1 = .ok number
    rw [hmade]
    exact ⟨⟨hlaunches, hnext⟩, _, rfl⟩
  refine hlaunch.bind fun answer hanswer => ?_
  obtain ⟨number, rfl⟩ := hanswer
  exact .pure ⟨_, rfl⟩

theorem yields_requestStop (loop : LoopRef) : Yields n loop.requestStop n fun _ => True :=
  yields_interlude.bind fun _ _ => Yields.modify fun _ hrig => ⟨hrig.launches, hrig.nextPlayer⟩

/-- Waiting for a loop changes neither numbers nor threads. -/
theorem yields_join (loop : LoopRef) : Yields n loop.join n fun _ => True := by
  refine yields_interlude.bind fun _ _ => Yields.modifyGet fun rig hrig => ?_
  split
  · exact hrig
  · split
    · exact hrig
    · have hended := (hrig.advance loop.number).advance loop.number
      exact ⟨hended.launches, hended.nextPlayer⟩

/-- A loop can be stopped, whatever has become of it. -/
theorem yields_stop (loop : LoopRef) : Yields n loop.stop n fun _ => True := by
  refine loop.yields_requestStop.bind fun _ _ => loop.yields_join.bind fun panicked _ => ?_
  cases panicked with
  | true => exact .pure trivial
  | false =>
    refine Yields.get.bind fun rig _ => ?_
    split
    · exact .pure trivial
    · exact .pure trivial

end LoopRef

namespace Player

variable {p : Player} {pad : Pad}

theorem outline_silent (p : Player) : p.silent.outline = p.outline.silent := rfl

theorem outline_set (p : Player) (pad : Pad) (loop : Option LoopRef) :
    Player.outline { p with loops := p.loops.set pad loop } =
      { p.outline with playing := p.outline.playing.set pad loop.isSome } := by
  simp only [outline, PerPad.map_set]

/-- The outline tells where a player plays. -/
theorem get_playing_outline (p : Player) (pad : Pad) :
    p.outline.playing.get pad = p.isPlaying pad := by
  rw [outline, PerPad.get_map]
  rfl

/-- A player that is stopped has no loop. -/
theorem yields_stop (p : Player) : Yields n p.stop n fun out => out.1 = p.silent := by
  have hstops : Yields n (p.loops.entries.mapM fun entry => entry.2.stop) n fun _ => True :=
    Yields.mapM (fun entry => entry.2.yields_stop) p.loops.entries
  exact hstops.bind fun _ _ => .pure rfl

/-- A player plays on the pad then, if it binds that. -/
theorem grants_startOn (hsound : p.outline.Sound) :
    Grants n (p.startOn pad) n (·.outline = p.outline.startedOn pad) () := by
  unfold startOn
  split
  next hbinding =>
    have hunbound : p.outline.isBound pad = false := by
      rw [Outline.isBound, outline, hbinding]
      rfl
    refine .pure ?_
    rw [Outline.startedOn, hunbound, Bool.or_false, PerPad.set_get_self]
  next source hbinding =>
    have hbound : p.outline.isBound pad = true := by
      rw [Outline.isBound, outline, hbinding]
      rfl
    refine (LoopRef.yields_start (hsound pad source hbinding)).bind_grants fun answer hanswer => ?_
    obtain ⟨loop, rfl⟩ := hanswer
    refine .pure ?_
    rw [outline_set, Outline.startedOn, hbound, Bool.or_true]
    rfl

/-- A player plays on all of the pads that it binds then, by induction on their list. -/
theorem grants_startOnAll (hsound : p.outline.Sound) (pads : List Pad) :
    Grants n (p.startOnAll pads) n (·.outline = p.outline.startedOnAll pads) () := by
  induction pads generalizing p with
  | nil => exact .pure p.outline.startedOnAll_nil.symm
  | cons pad rest ih =>
    refine (grants_startOn hsound).bind fun mid hmid => ?_
    rw [← Outline.startedOnAll_startedOn, ← hmid]
    exact ih (hmid ▸ hsound.startedOn pad)

/-- A player that is started anew plays wherever it binds and is not excluded. -/
theorem grants_startExcept (hsound : p.outline.Sound) (excluded : List Pad) :
    Grants n (p.startExcept excluded) n (·.outline = p.outline.startedExcept excluded) () := by
  refine p.yields_stop.bind_grants fun ⟨mid, _⟩ hmid => ?_
  obtain rfl : mid = p.silent := hmid
  have hsilent : p.silent.outline.Sound := hsound
  rw [← Outline.startedOnAll_silent, ← outline_silent]
  exact grants_startOnAll hsilent _

/-- A player that leaves a pad does not play there. -/
theorem yields_stopOn (p : Player) (pad : Pad) :
    Yields n (p.stopOn pad) n fun out => out.1.outline = p.outline.stoppedOn pad := by
  unfold stopOn
  split
  next hnone =>
    refine .pure ?_
    have hsilent : p.outline.playing.get pad = false := by
      rw [get_playing_outline, isPlaying, hnone]
      rfl
    rw [Outline.stoppedOn, ← hsilent, PerPad.set_get_self]
  next loop _ =>
    exact loop.yields_stop.bind fun _ _ => .pure (p.outline_set pad none)

/-- A player that takes up a pad plays there, if it binds that. -/
theorem grants_resumeOn (hsound : p.outline.Sound) (pad : Pad) :
    Grants n (p.resumeOn pad) n (·.outline = p.outline.startedOn pad) () := by
  unfold resumeOn
  split
  next hplaying =>
    refine .pure ?_
    rw [Outline.startedOn, get_playing_outline, hplaying, Bool.true_or, ← hplaying,
      ← get_playing_outline, PerPad.set_get_self]
  next => exact grants_startOn hsound

section Made

variable {program : Program Binary64} {settings : PlaybackSettings}

/-- A player on its own pads has the tracks that it binds. -/
theorem sound_fresh_ownPads (id : PlayerId) (program : Program Binary64) :
    (Outline.fresh id program (ownPads program)).Sound := by
  intro pad source hbinding
  rw [Outline.fresh, ownPads, PerPad.get_ofFn] at hbinding
  split at hbinding
  next htrack =>
    cases hbinding
    exact htrack
  next => cases hbinding

/-- A player on one pad has the track that it binds. -/
theorem sound_fresh_singlePad (id : PlayerId) (pad : Pad) (program : Program Binary64) :
    (Outline.fresh id program (singlePad pad program)).Sound := by
  intro q source hbinding
  by_cases hq : q = pad
  · subst hq
    rw [Outline.fresh, singlePad, PerPad.get_set_self] at hbinding
    exact Option.isSome_iff_exists.2 (exists_track_of_sourceFor? hbinding)
  · rw [Outline.fresh, singlePad, PerPad.get_set_of_ne _ _ hq, PerPad.get_const] at hbinding
    cases hbinding

/-- A player that is made gets the next number and plays nowhere. -/
theorem yields_new {bindings : PerPad (Option Pad)} :
    Yields n (new program settings bindings) (n + 1) fun player =>
      player.outline = .fresh ⟨n⟩ program bindings := by
  refine yields_newPlayerId.bind fun id hid => ?_
  obtain rfl : id = ⟨n⟩ := hid
  exact .pure rfl

/-- A program that is not refused makes a player with its own pads bound. -/
theorem yields_onOwnPads (h : refusalOnOwnPads? program = none) :
    Yields n (onOwnPads program settings) (n + 1) fun made => ∃ player, made = .ok player ∧
      player.outline = .fresh ⟨n⟩ program (ownPads program) := by
  rw [onOwnPads_of_accepted settings h]
  exact yields_new.bind fun player hplayer => .pure ⟨player, rfl, hplayer⟩

/-- A program with a track for the pad makes a player that binds it. -/
theorem yields_onPad {pad : Pad} (h : (sourceFor? program pad).isSome = true) :
    Yields n (onPad pad program settings) (n + 1) fun made => ∃ player, made = .ok player ∧
      player.outline = .fresh ⟨n⟩ program (singlePad pad program) := by
  obtain ⟨source, hsource⟩ := Option.isSome_iff_exists.1 h
  unfold onPad
  rw [singlePad, hsource]
  exact yields_new.bind fun player hplayer => .pure ⟨player, rfl, hplayer⟩

end Made

end Player

end LightShow
