import LightShow.Proofs.Playback.Willing

namespace LightShow.Stage

open Control

/-- What can be told of a stage without its loops, if the next player gets the number. -/
def outline (s : Stage) (next : UInt64) : Outline where
  stack := s.stack.map (·.outline)
  overlays := s.overlays.map (·.map (·.outline))
  nextPlayer := next

/-- Every stacked player has the tracks that it binds. -/
def Outline.Sound (o : Outline) : Prop := ∀ player ∈ o.stack, player.Sound

variable {s : Stage} {o : Outline} {n n' : UInt64} {program : Program Binary64} {pad : Pad}

theorem overlaidPads_eq (s : Stage) (next : UInt64) :
    s.overlaidPads = (s.outline next).overlays.pads :=
  (PerPad.pads_map _ _).symm

theorem isSome_get_overlays_outline (s : Stage) (next : UInt64) (pad : Pad) :
    ((s.outline next).overlays.get pad).isSome = (s.overlays.get pad).isSome := by
  rw [outline, PerPad.get_map, Option.isSome_map]

theorem top_outline (s : Stage) (next : UInt64) : (s.outline next).top = s.top := by
  rw [Outline.top, outline, List.head?_map, Option.map_map]
  rfl

theorem outline_set_overlays (s : Stage) (next : UInt64) (pad : Pad) (overlay : Option Player) :
    outline { s with overlays := s.overlays.set pad overlay } next =
      { s.outline next with
        overlays := (s.outline next).overlays.set pad (overlay.map (·.outline)) } := by
  simp only [outline, PerPad.map_set]

/-- A stage on which something is done to the top of the stack alone. -/
theorem outline_of_top {top after : Player} {f : Player.Outline → Player.Outline}
    (h : after.outline = f top.outline) (settings : PlaybackSettings) (rest : List Player)
    (overlays : PerPad (Option Player)) (next : UInt64) :
    outline ⟨settings, after :: rest, overlays⟩ next =
      (outline ⟨settings, top :: rest, overlays⟩ next).modifyTop f := by
  simp only [outline, Outline.modifyTop, List.map_cons, List.modifyHead_cons, h]

/-- Players are given up without an error. -/
theorem yields_discard (players : List Player) :
    Yields n (discard players) n fun _ => True := by
  induction players with
  | nil => exact .pure trivial
  | cons player rest ih => exact player.yields_stop.bind fun _ _ => ih

/-- A player that has the tracks it binds is started on every pad without an overlay, and lies on
top then. -/
theorem grants_startOnTop {player : Player} (hsound : player.outline.Sound) :
    Grants n (s.startOnTop player) n
      (fun after => after.outline n = { s.outline n with
        stack := player.outline.startedExcept (s.outline n).overlays.pads ::
          (s.outline n).stack })
      player.id := by
  refine (Player.grants_startExcept hsound s.overlaidPads).bind fun after hafter => ?_
  have hid : after.id = player.id := congrArg Player.Outline.id hafter
  rw [← hid]
  refine .pure ?_
  rw [← overlaidPads_eq, ← hafter]
  rfl

/-- The top that is suspended keeps its place and has no loop. -/
theorem yields_suspendTop (s : Stage) :
    Yields n s.suspendTop n fun after =>
      after.outline n = (s.outline n).modifyTop (·.silent) := by
  obtain ⟨settings, stack, overlays⟩ := s
  cases stack with
  | nil => exact .pure rfl
  | cons top rest =>
    refine top.yields_stop.bind fun ⟨after, _⟩ hafter => .pure (outline_of_top ?_ ..)
    obtain rfl : after = top.silent := hafter
    rfl

/-- The top is started anew on every pad without an overlay. -/
theorem grants_restartTop (hsound : (s.outline n).Sound) :
    Grants n s.restartTop n
      (fun after => after.outline n =
        (s.outline n).modifyTop (·.startedExcept (s.outline n).overlays.pads))
      () := by
  obtain ⟨settings, stack, overlays⟩ := s
  cases stack with
  | nil => exact .pure rfl
  | cons top rest =>
    have htop : top.outline.Sound := hsound _ List.mem_cons_self
    rw [← overlaidPads_eq]
    exact (Player.grants_startExcept htop overlays.pads).bind fun after hafter =>
      .pure (outline_of_top hafter ..)

/-- The top is started on the pad, if it binds that. -/
theorem grants_resumeTop (hsound : (s.outline n).Sound) (pad : Pad) :
    Grants n (s.resumeTop pad) n
      (fun after => after.outline n = (s.outline n).modifyTop (·.startedOn pad)) () := by
  obtain ⟨settings, stack, overlays⟩ := s
  cases stack with
  | nil => exact .pure rfl
  | cons top rest =>
    have htop : top.outline.Sound := hsound _ List.mem_cons_self
    exact (Player.grants_resumeOn htop pad).bind fun after hafter =>
      .pure (outline_of_top hafter ..)

/-- The top leaves the pad and keeps its other loops. -/
theorem yields_releaseTop (s : Stage) (pad : Pad) :
    Yields n (s.releaseTop pad) n fun after =>
      after.outline n = (s.outline n).modifyTop (·.stoppedOn pad) := by
  obtain ⟨settings, stack, overlays⟩ := s
  cases stack with
  | nil => exact .pure rfl
  | cons top rest =>
    exact (top.yields_stopOn pad).bind fun ⟨after, _⟩ hafter => .pure (outline_of_top hafter ..)

theorem yields_clearStack (s : Stage) :
    Yields n s.clearStack n fun after => after.outline n = { s.outline n with stack := [] } :=
  (yields_discard s.stack).bind fun _ _ => .pure rfl

/-- Some of the stack has been left, and a new player is started above it. -/
theorem grants_play {player : Player} {left : List Player.Outline}
    (hs : s.outline (o.nextPlayer + 1) = { o with stack := left, nextPlayer := o.nextPlayer + 1 })
    (hplayer : player.outline = .fresh ⟨o.nextPlayer⟩ program (Player.ownPads program)) :
    Grants (o.nextPlayer + 1) (s.startOnTop player) (o.nextPlayer + 1)
      (fun after => after.outline (o.nextPlayer + 1) = o.play program left) ⟨o.nextPlayer⟩ := by
  have hsound : player.outline.Sound := by
    rw [hplayer]
    exact Player.sound_fresh_ownPads _ _
  have hid : player.id = ⟨o.nextPlayer⟩ := congrArg Player.Outline.id hplayer
  have hstart := grants_startOnTop (s := s) (n := o.nextPlayer + 1) hsound
  rw [hs, hplayer, hid] at hstart
  exact hstart

/-- A program that can be bound is played in place of the stack. -/
theorem grants_replace (h : Player.refusalOnOwnPads? program = none) :
    Grants n (s.replace program) (n + 1)
      (fun after => after.outline (n + 1) = (s.outline n).play program []) ⟨n⟩ := by
  refine (Player.yields_onOwnPads h).bind_grants fun made hmade => ?_
  obtain ⟨player, rfl, hplayer⟩ := hmade
  refine s.yields_clearStack.bind_grants fun cleared hcleared => ?_
  exact grants_play (o := s.outline n) hcleared hplayer

/-- A program with a track for every pad is played in place of the stack. -/
theorem grants_setDefault (hfull : program.isFull = true) :
    Grants n (s.setDefault program) (n + 1)
      (fun after => after.outline (n + 1) = (s.outline n).play program []) ⟨n⟩ := by
  have hreplace : s.setDefault program = s.replace program := by
    rw [setDefault, hfull]
    rfl
  rw [hreplace]
  exact grants_replace (Player.refusalOnOwnPads?_of_isFull hfull)

/-- A program that can be bound is played above the suspended stack. -/
theorem grants_push (h : Player.refusalOnOwnPads? program = none) :
    Grants n (s.push program) (n + 1)
      (fun after => after.outline (n + 1) =
        (s.outline n).play program ((s.outline n).modifyTop (·.silent)).stack)
      ⟨n⟩ := by
  refine (Player.yields_onOwnPads h).bind_grants fun made hmade => ?_
  obtain ⟨player, rfl, hplayer⟩ := hmade
  refine s.yields_suspendTop.bind_grants fun suspended hsuspended => ?_
  refine (grants_play (o := s.outline n) hsuspended hplayer).bind fun after hafter => ?_
  exact .pure hafter

/-- The top can be taken off, and the one below is started then. Any other player stays, and the
answer is false. -/
theorem grants_pop (hsound : (s.outline n).Sound) (id : PlayerId) :
    Grants n (s.pop id) n (fun after => after.outline n = (s.outline n).after (.pop id))
      (decide ((s.outline n).top = some id)) := by
  obtain ⟨settings, stack, overlays⟩ := s
  cases stack with
  | nil => exact .pure rfl
  | cons top rest =>
    have htop : (outline ⟨settings, top :: rest, overlays⟩ n).top = some top.id := rfl
    rw [Outline.after, htop]
    unfold pop
    by_cases hid : top.id = id
    · have hleft : (outline ⟨settings, rest, overlays⟩ n).Sound :=
        fun player hplayer => hsound player (List.mem_cons_of_mem _ hplayer)
      simp only [hid, ne_eq, not_true_eq_false, if_false, if_true, decide_true]
      refine (yields_discard [top]).bind_grants fun _ _ => ?_
      exact (grants_restartTop hleft).bind fun after hafter => .pure hafter
    · simp only [hid, ne_eq, not_false_eq_true, if_true, if_false, Option.some.injEq, decide_false]
      exact .pure rfl

/-- A program that has a track for the pad comes to lie over it, and the top leaves the pad. -/
theorem grants_cover (h : (Player.sourceFor? program pad).isSome = true) :
    Grants n (s.cover pad program) (n + 1)
      (fun after => after.outline (n + 1) = (s.outline n).after (.cover pad program)) ⟨n⟩ := by
  refine (Player.yields_onPad h).bind_grants fun made hmade => ?_
  obtain ⟨player, rfl, hplayer⟩ := hmade
  refine (yields_discard _).bind_grants fun _ _ => ?_
  refine (yields_releaseTop _ pad).bind_grants fun released hreleased => ?_
  have hsound : player.outline.Sound := by
    rw [hplayer]
    exact Player.sound_fresh_singlePad _ _ _
  refine (Player.grants_startExcept hsound []).bind fun after hafter => ?_
  rw [hplayer] at hafter
  have hid : after.id = ⟨n⟩ := congrArg Player.Outline.id hafter
  rw [← hid]
  refine .pure ?_
  -- The pad has been bared on the way, which makes no difference once it is covered again.
  rw [outline_set_overlays, hreleased, outline_set_overlays, Outline.overlays_modifyTop,
    PerPad.set_set, Option.map_some, hafter]
  rfl

/-- The answer tells whether there was an overlay, and the top takes up the pad in either case. -/
theorem grants_uncover (hsound : (s.outline n).Sound) (pad : Pad) :
    Grants n (s.uncover pad) n (fun after => after.outline n = (s.outline n).uncovered pad)
      ((s.outline n).overlays.get pad).isSome := by
  refine (yields_discard _).bind_grants fun _ _ => ?_
  have hbare : (outline { s with overlays := s.overlays.set pad none } n).Sound := hsound
  refine (grants_resumeTop hbare pad).bind fun after hafter => ?_
  rw [outline_set_overlays] at hafter
  rw [isSome_get_overlays_outline]
  exact .pure hafter

/-- Without an overlay, too, the players have the tracks that they bind. -/
theorem Outline.Sound.uncovered (hsound : o.Sound) (pad : Pad) : (o.uncovered pad).Sound := by
  obtain ⟨stack, overlays, nextPlayer⟩ := o
  cases stack with
  | nil => exact hsound
  | cons top rest =>
    intro player hplayer
    rcases List.mem_cons.1 hplayer with rfl | hplayer
    · exact (hsound top List.mem_cons_self).startedOn pad
    · exact hsound player (List.mem_cons_of_mem _ hplayer)

/-- Pads are uncovered one after another, by induction on their list. -/
theorem grants_uncoverEach (hsound : (s.outline n).Sound) (pads : List Pad) :
    Grants n (s.uncoverEach pads) n
      (fun after => after.outline n = pads.foldl Outline.uncovered (s.outline n)) () := by
  induction pads generalizing s with
  | nil => exact .pure rfl
  | cons pad rest ih =>
    refine (grants_uncover hsound pad).bind fun mid hmid => ?_
    rw [List.foldl_cons, ← hmid]
    exact ih (hmid ▸ hsound.uncovered pad)

/-- Silence leaves neither a stack nor an overlay. -/
theorem yields_silence (s : Stage) :
    Yields n s.silence n fun after => after.outline n = (s.outline n).after .silence := by
  refine (yields_discard _).bind fun _ _ => ?_
  exact yields_clearStack _

/-- A refused operation touches nothing, neither the stage nor the loops. -/
theorem respond_of_refusal {op : Operation} {error : PlaybackError}
    (h : op.refusal? = some error) : s.respond op = pure (s, .error error) := by
  cases op with
  | setDefault program =>
    simp only [Operation.refusal?, Option.ite_none_left_eq_some, Option.some.injEq] at h
    obtain ⟨hfull, rfl⟩ := h
    rw [respond, setDefault, eq_false_of_ne_true hfull]
    rfl
  | push program =>
    rw [respond, push, Player.onOwnPads_of_refusal _ h]
    rfl
  | replace program =>
    rw [respond, replace, Player.onOwnPads_of_refusal _ h]
    rfl
  | cover pad program =>
    simp only [Operation.refusal?, Option.ite_none_left_eq_some, Option.some.injEq] at h
    obtain ⟨hsource, rfl⟩ := h
    rw [respond, cover, Player.onPad, Option.not_isSome_iff_eq_none.1 hsource]
    rfl
  | pop _ | uncover _ | uncoverAll | silence => cases h

theorem Outline.nextPlayer_foldl_uncovered (o : Outline) (pads : List Pad) :
    (pads.foldl uncovered o).nextPlayer = o.nextPlayer := by
  induction pads generalizing o with
  | nil => rfl
  | cons pad rest ih => exact ih (o.uncovered pad)

theorem Outline.nextPlayer_after_pop (o : Outline) (id : PlayerId) :
    (o.after (.pop id)).nextPlayer = o.nextPlayer := by
  rw [after]
  split
  · rfl
  · rfl

/-- An operation that is not refused does as the outline of the stage tells. -/
theorem grants_respond {op : Operation} (hsound : (s.outline n).Sound) (h : op.refusal? = none) :
    Grants n (s.respond op) ((s.outline n).after op).nextPlayer
      (fun after => after.outline ((s.outline n).after op).nextPlayer = (s.outline n).after op)
      ((s.outline n).value op) := by
  cases op with
  | setDefault program =>
    simp only [Operation.refusal?] at h
    split at h
    next hfull => exact (grants_setDefault hfull).map Value.player
    next => cases h
  | push program => exact (grants_push h).map Value.player
  | replace program => exact (grants_replace h).map Value.player
  | pop id =>
    rw [Outline.nextPlayer_after_pop]
    exact (grants_pop hsound id).map Value.flag
  | cover pad program =>
    simp only [Operation.refusal?] at h
    split at h
    next hsource => exact (grants_cover hsource).map Value.player
    next => cases h
  | uncover pad => exact (grants_uncover hsound pad).map Value.flag
  | uncoverAll =>
    -- The real stage asks its own overlays for the pads, not those of the outline.
    have hall : (s.outline n).after .uncoverAll =
        s.overlaidPads.foldl Outline.uncovered (s.outline n) := by
      rw [overlaidPads_eq s n]
      rfl
    rw [hall, Outline.nextPlayer_foldl_uncovered]
    exact (grants_uncoverEach hsound s.overlaidPads).map fun () => Value.nothing
  | silence => exact s.yields_silence.bind_grants fun _ hafter => .pure hafter

/-- An operation does as the outline of the stage tells, however the loops fare. -/
theorem yields_respond (hsound : (s.outline n).Sound) (op : Operation) :
    Yields n (s.respond op) ((s.outline n).respond op).1.nextPlayer fun out =>
      out.1.outline ((s.outline n).respond op).1.nextPlayer = ((s.outline n).respond op).1 ∧
      out.2 = ((s.outline n).respond op).2 := by
  unfold Outline.respond
  cases hrefusal : op.refusal? with
  | none => exact grants_respond hsound hrefusal
  | some error =>
    rw [respond_of_refusal hrefusal]
    exact .pure ⟨rfl, rfl⟩

end LightShow.Stage
