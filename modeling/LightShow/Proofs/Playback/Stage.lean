import LightShow.Proofs.Playback.Arrangement

namespace LightShow.Stage

open Control Rig

variable {playable : Pad → Track Binary64 → Prop} {generous : Prop} {required : Pad → Prop}
  {s : Stage}

/-- The stage has every loop in its hands, each where it should be. -/
def Ready (playable : Pad → Track Binary64 → Prop) (generous : Prop) (s : Stage) (rig : Rig) :
    Prop :=
  s.Arranged (fun _ => generous) ∧ HeldBy playable generous s.players rig

/-- Players that are given up hold nothing any more, since their loops have ended. -/
theorem discard_spec {given others : List Player} :
    Spec playable (HeldBy playable generous (given ++ others)) (discard given)
      fun _ => HeldBy playable generous others := by
  induction given with
  | nil => exact .pure fun _ hrig => hrig
  | cons player rest ih =>
    refine Player.stop_spec.bind fun _ => ?_
    refine ih.mono (fun rig hrig => ?_) fun _ _ hrig => hrig
    refine hrig.2.of_subset (fun q hq => List.mem_cons_of_mem _ hq) fun q hq => ?_
    rcases List.mem_cons.1 hq with rfl | hq
    · exact .inr player.idle_silent
    · exact .inl hq

/-- An idle player may be started on a suspended stage. If that fails, the stage is as it was. -/
theorem startOnTop_spec {player : Player} (h : s.Suspended) (hidle : player.Idle)
    (hsound : player.Sound playable) :
    Spec playable (HeldBy playable generous s.players) (s.startOnTop player)
      fun out rig => match out.2 with
        | .ok _ => Ready playable generous out.1 rig
        | .error _ => ¬generous ∧ out.1 = s ∧ HeldBy playable generous s.players rig := by
  have hfree : ∀ pad, player.isBound pad = true → pad ∉ s.overlaidPads →
      ∀ q ∈ s.players, q.loops.get pad = none := by
    intro pad _ hpad
    rw [overlaidPads, PerPad.mem_pads, Option.not_isSome_iff_eq_none] at hpad
    exact loops_eq_none_of_rest h.idle h.covers hpad
  refine (hidle.startExcept_spec hsound hfree).bind fun ⟨after, result⟩ => ?_
  cases result with
  | ok u =>
    exact .pure fun rig hrig => ⟨arranged_of_restarted h.idle h.covers hrig.1, hrig.2⟩
  | error error =>
    refine Spec.of_and fun hrestart => ?_
    have hdiscard : Spec playable (HeldBy playable generous ([after] ++ s.players))
        (discard [after]) fun _ => HeldBy playable generous s.players := discard_spec
    refine hdiscard.bind fun _ => .pure fun rig hrig => ?_
    exact ⟨(hrestart.refused error rfl).1, rfl, hrig⟩

/-- A stage whose top is stopped is suspended: nobody else on the stack has loops. -/
theorem suspendTop_spec (h : s.Arranged required) :
    Spec playable (HeldBy playable generous s.players) s.suspendTop
      fun after rig => after.Suspended ∧ HeldBy playable generous after.players rig := by
  obtain ⟨settings, stack, overlays⟩ := s
  cases stack with
  | nil =>
    refine .pure fun rig hrig => ⟨⟨fun _ hplayer => ?_, h.covers⟩, hrig⟩
    cases hplayer
  | cons top rest =>
    refine Player.stop_spec.bind fun ⟨after, _⟩ => .pure fun rig ⟨hafter, hrig⟩ => ?_
    have hafter : after = top.silent := hafter
    subst hafter
    refine ⟨⟨fun player hplayer => ?_, h.covers⟩, hrig⟩
    rcases List.mem_cons.1 hplayer with rfl | hplayer
    · exact top.idle_silent
    · exact h.waiting player hplayer

/-- A stage whose top is started anew is ready. -/
theorem restartTop_spec (h : s.Arranged required) :
    Spec playable (HeldBy playable generous s.players) s.restartTop
      fun out => Ready playable generous out.1 := by
  obtain ⟨settings, stack, overlays⟩ := s
  cases stack with
  | nil =>
    have hsuspended : (Stage.mk settings [] overlays).Suspended := ⟨h.waiting, h.covers⟩
    exact .pure fun rig hrig => ⟨hsuspended.arranged_of_nil rfl, hrig⟩
  | cons top rest =>
    have hfree : ∀ pad, top.isBound pad = true → pad ∉ overlays.pads →
        ∀ q ∈ rest ++ overlays.entries.map (·.2), q.loops.get pad = none := by
      intro pad _ hpad
      rw [PerPad.mem_pads, Option.not_isSome_iff_eq_none] at hpad
      exact loops_eq_none_of_rest h.waiting h.covers hpad
    refine (Player.startExcept_spec hfree).bind fun ⟨after, result⟩ => .pure fun rig hrig => ?_
    exact ⟨arranged_of_restarted h.waiting h.covers hrig.1, hrig.2⟩

/-- A stage whose top takes up the free pad is ready. -/
theorem resumeTop_spec {pad : Pad} (h : s.Arranged fun p => generous ∧ p ≠ pad)
    (hpad : s.overlays.get pad = none) :
    Spec playable (HeldBy playable generous s.players) (s.resumeTop pad)
      fun out => Ready playable generous out.1 := by
  obtain ⟨settings, stack, overlays⟩ := s
  cases stack with
  | nil =>
    have hsuspended : (Stage.mk settings [] overlays).Suspended := ⟨h.waiting, h.covers⟩
    exact .pure fun rig hrig => ⟨hsuspended.arranged_of_nil rfl, hrig⟩
  | cons top rest =>
    have hfree : ∀ q ∈ rest ++ overlays.entries.map (·.2), q.loops.get pad = none :=
      loops_eq_none_of_rest h.waiting h.covers hpad
    refine (Player.resumeOn_spec hfree).bind fun ⟨after, result⟩ => .pure fun rig hrig => ?_
    exact ⟨h.resumed hpad hrig.1, hrig.2⟩

/-- When the top has left a pad without an overlay alone, no player has a loop there. -/
theorem releaseTop_spec {pad : Pad} (h : s.Arranged fun p => generous ∧ p ≠ pad)
    (hpad : s.overlays.get pad = none) :
    Spec playable (HeldBy playable generous s.players) (s.releaseTop pad)
      fun after rig => (after.Arranged (fun p => generous ∧ p ≠ pad) ∧
        after.overlays.get pad = none ∧ ∀ q ∈ after.players, q.loops.get pad = none) ∧
        HeldBy playable generous after.players rig := by
  obtain ⟨settings, stack, overlays⟩ := s
  have hrest : ∀ q ∈ stack.tail ++ overlays.entries.map (·.2), q.loops.get pad = none :=
    loops_eq_none_of_rest h.waiting h.covers hpad
  cases stack with
  | nil => exact .pure fun rig hrig => ⟨⟨h, hpad, hrest⟩, hrig⟩
  | cons top rest =>
    refine (Player.stopOn_spec pad).bind fun ⟨after, _⟩ => .pure fun rig ⟨hafter, hrig⟩ => ?_
    have hafter : after = { top with loops := top.loops.set pad none } := hafter
    subst hafter
    refine ⟨⟨h.released, hpad, fun q hq => ?_⟩, hrig⟩
    rcases List.mem_cons.1 hq with rfl | hq
    · exact PerPad.get_set_self _ _ _
    · exact hrest q hq

/-- When the stack is cleared, only overlays play. -/
theorem clearStack_spec
    (hcovers : ∀ p overlay, s.overlays.get p = some overlay → overlay.Covers p) :
    Spec playable (HeldBy playable generous s.players) s.clearStack
      fun after rig => (after.Suspended ∧ after.stack = []) ∧
        HeldBy playable generous after.players rig := by
  have hdiscard : Spec playable (HeldBy playable generous s.players) (discard s.stack)
      fun _ => HeldBy playable generous (s.overlays.entries.map (·.2)) := discard_spec
  refine hdiscard.bind fun _ => .pure fun rig hrig => ⟨⟨⟨fun _ hplayer => ?_, hcovers⟩, rfl⟩, hrig⟩
  cases hplayer

/-- A new player takes the place of the whole stack. -/
theorem clearStack_startOnTop_spec {player : Player} (h : s.Arranged required)
    (hidle : player.Idle) (hsound : player.Sound playable) :
    Spec playable (HeldBy playable generous s.players)
      (s.clearStack >>= fun cleared => cleared.startOnTop player)
      fun out => Ready playable generous out.1 := by
  refine (clearStack_spec h.covers).bind fun cleared => Spec.of_and fun ⟨hcleared, hnil⟩ => ?_
  refine (startOnTop_spec hcleared hidle hsound).mono (fun _ hrig => hrig)
    fun ⟨after, result⟩ rig hout => ?_
  cases result with
  | ok id => exact hout
  | error error =>
    obtain ⟨_, rfl, hrig⟩ := hout
    exact ⟨hcleared.arranged_of_nil hnil, hrig⟩

theorem ready_of_heldBy (h : s.Arranged fun _ => generous) :
    ∀ rig, HeldBy playable generous s.players rig → Ready playable generous s rig :=
  fun _ hrig => ⟨h, hrig⟩

variable {program : Program Binary64}

/-- A stage is ready after the stack has been replaced, or after that has failed. -/
theorem replace_spec (hallowed : Player.Allowed playable program)
    (h : s.Arranged fun _ => generous) :
    Spec playable (HeldBy playable generous s.players) (s.replace program)
      fun out => Ready playable generous out.1 := by
  refine (Player.onOwnPads_spec hallowed).bind fun made => Spec.of_and fun hmade => ?_
  cases made with
  | error error => exact .pure (ready_of_heldBy h)
  | ok player =>
    obtain ⟨hidle, hsound⟩ := hmade player rfl
    exact clearStack_startOnTop_spec h hidle hsound

/-- A stage is ready after a default has been set, or after that has failed. -/
theorem setDefault_spec (hallowed : Player.Allowed playable program)
    (h : s.Arranged fun _ => generous) :
    Spec playable (HeldBy playable generous s.players) (s.setDefault program)
      fun out => Ready playable generous out.1 := by
  unfold setDefault
  split
  · exact .pure (ready_of_heldBy h)
  · exact replace_spec hallowed h

/-- A stage is ready after a push. If the push fails, the former top has been started anew. -/
theorem push_spec (hallowed : Player.Allowed playable program)
    (h : s.Arranged fun _ => generous) :
    Spec playable (HeldBy playable generous s.players) (s.push program)
      fun out => Ready playable generous out.1 := by
  refine (Player.onOwnPads_spec hallowed).bind fun made => Spec.of_and fun hmade => ?_
  cases made with
  | error error => exact .pure (ready_of_heldBy h)
  | ok player =>
    obtain ⟨hidle, hsound⟩ := hmade player rfl
    refine (suspendTop_spec h).bind fun suspended => Spec.of_and fun hsuspended => ?_
    refine (startOnTop_spec hsuspended hidle hsound).bind fun ⟨after, result⟩ => ?_
    cases result with
    | ok id => exact .pure fun rig hrig => hrig
    | error error =>
      refine Spec.of_and fun _ => Spec.of_and fun hafter => ?_
      have hafter : after = suspended := hafter
      subst hafter
      exact (restartTop_spec hsuspended.arranged).bind fun _ => .pure fun rig hrig => hrig

/-- A stage is ready after a pop, for the player below has been started then. -/
theorem pop_spec {id : PlayerId} (h : s.Arranged fun _ => generous) :
    Spec playable (HeldBy playable generous s.players) (s.pop id)
      fun out => Ready playable generous out.1 := by
  obtain ⟨settings, stack, overlays⟩ := s
  cases stack with
  | nil => exact .pure (ready_of_heldBy h)
  | cons top rest =>
    unfold pop
    dsimp only
    split
    · exact .pure (ready_of_heldBy h)
    · have hdiscard : Spec playable
          (HeldBy playable generous ([top] ++ (Stage.mk settings rest overlays).players))
          (discard [top])
          fun _ => HeldBy playable generous (Stage.mk settings rest overlays).players :=
        discard_spec
      have hsuspended : (Stage.mk settings rest overlays).Suspended := ⟨h.waiting, h.covers⟩
      refine hdiscard.bind fun _ => ?_
      exact (restartTop_spec hsuspended.arranged).bind fun _ => .pure fun rig hrig => hrig

/-- The overlay of a pad, if there is one, is given up. -/
theorem discard_overlay_spec (pad : Pad) :
    Spec playable (HeldBy playable generous s.players) (discard (s.overlays.get pad).toList)
      fun _ => HeldBy playable generous (s.without pad).players := by
  refine discard_spec.mono (fun rig hrig => ?_) fun _ _ hrig => hrig
  exact hrig.of_subset (fun q hq => mem_players_without.2 hq)
    fun q hq => .inl (mem_players_without.1 hq)

theorem get_overlays_without (s : Stage) (pad : Pad) :
    (s.without pad).overlays.get pad = none :=
  PerPad.get_set_self _ _ _

/-- A stage is ready after a pad has been uncovered. -/
theorem uncover_spec {pad : Pad} (h : s.Arranged fun _ => generous) :
    Spec playable (HeldBy playable generous s.players) (s.uncover pad)
      fun out => Ready playable generous out.1 := by
  refine (discard_overlay_spec pad).bind fun _ => ?_
  exact (resumeTop_spec (h.without pad) (s.get_overlays_without pad)).bind fun _ =>
    .pure fun rig hrig => hrig

/-- A stage is ready after pads have been uncovered, by induction on their list. -/
theorem uncoverEach_spec {pads : List Pad} (h : s.Arranged fun _ => generous) :
    Spec playable (HeldBy playable generous s.players) (s.uncoverEach pads)
      fun out => Ready playable generous out.1 := by
  induction pads generalizing s with
  | nil => exact .pure (ready_of_heldBy h)
  | cons pad rest ih =>
    refine (uncover_spec h).bind fun ⟨after, result⟩ => Spec.of_and fun hafter => ?_
    cases result with
    | ok removed => exact ih hafter
    | error error => exact .pure (ready_of_heldBy hafter)

/-- Silence makes a stage ready, wherever its loops have been. -/
theorem silence_spec :
    Spec playable (HeldBy playable generous s.players) s.silence
      fun after => Ready playable generous after := by
  let bare : Stage := { s with overlays := .const none }
  have hnone (p : Pad) : bare.overlays.get p = none := PerPad.get_const none p
  have hdiscard : Spec playable (HeldBy playable generous s.players)
      (discard (s.overlays.entries.map (·.2)))
      fun _ => HeldBy playable generous bare.players := by
    have hmem (q : Player) : q ∈ s.players ↔ q ∈ s.overlays.entries.map (·.2) ++ bare.players := by
      rw [players, List.mem_append, List.mem_append, mem_players]
      simp only [hnone, reduceCtorEq, exists_false, or_false]
      exact Or.comm
    refine discard_spec.mono (fun rig hrig => ?_) fun _ _ hrig => hrig
    exact hrig.of_subset (fun q hq => (hmem q).2 hq) fun q hq => .inl ((hmem q).1 hq)
  refine hdiscard.bind fun _ => ?_
  have hcovers : ∀ p overlay, bare.overlays.get p = some overlay → overlay.Covers p := by
    intro p overlay hget
    rw [hnone] at hget
    cases hget
  refine (clearStack_spec hcovers).mono (fun _ hrig => hrig) fun after rig hafter => ?_
  obtain ⟨⟨hsuspended, hnil⟩, hrig⟩ := hafter
  exact ⟨hsuspended.arranged_of_nil hnil, hrig⟩

/-- However the loops take their end, a stage that has been silenced has no player left. -/
theorem fst_run_silence (s : Stage) (rig : Rig) :
    (s.silence.run rig).1 = { s with stack := [], overlays := .const none } :=
  rfl

/-- No pad has a driver on a silent stage. -/
theorem driver_fst_run_silence (s : Stage) (rig : Rig) (p : Pad) :
    (s.silence.run rig).1.driver p = none := by
  rw [fst_run_silence, driver, PerPad.get_const]
  rfl

/-- A stage is ready after a pad has been covered. If the overlay cannot be started, the top has
taken up the pad again. -/
theorem cover_spec {pad : Pad} (hallowed : Player.Allowed playable program)
    (h : s.Arranged fun _ => generous) :
    Spec playable (HeldBy playable generous s.players) (s.cover pad program)
      fun out => Ready playable generous out.1 := by
  refine (Player.onPad_spec hallowed).bind fun made => Spec.of_and fun hmade => ?_
  cases made with
  | error error => exact .pure (ready_of_heldBy h)
  | ok player =>
    obtain ⟨hidle, hsound, hbound⟩ := hmade player rfl
    refine (discard_overlay_spec pad).bind fun _ => ?_
    refine (releaseTop_spec (h.without pad) (s.get_overlays_without pad)).bind fun released => ?_
    refine Spec.of_and fun ⟨hreleased, hpad, hclear⟩ => ?_
    have hfree : ∀ q, player.isBound q = true → q ∉ [] →
        ∀ other ∈ released.players, other.loops.get q = none := by
      intro q hq _
      rw [(hbound q).1 hq]
      exact hclear
    refine (hidle.startExcept_spec hsound hfree).bind fun ⟨after, result⟩ => ?_
    refine Spec.of_and fun hrestart => ?_
    cases result with
    | ok u =>
      refine .pure fun rig hrig => ⟨hreleased.covered hclear (hrestart.covers hbound), ?_⟩
      exact hrig.of_subset (fun q hq => (mem_players_with hpad).1 hq)
        fun q hq => .inl ((mem_players_with hpad).2 hq)
    | error error =>
      have hidle : after.Idle := hrestart.idle hbound
      -- The player that failed has no loop, so it may be left out until it is given up.
      refine Spec.use (fun rig hrig => hrig.sound after List.mem_cons_self) fun hsound => ?_
      have hresume : Spec playable (HeldBy playable generous (after :: released.players))
          (released.resumeTop pad) fun out => Ready playable generous out.1 := by
        refine (resumeTop_spec hreleased hpad).mono (fun rig hrig => ?_) fun _ _ hout => hout
        refine hrig.of_subset (fun q hq => List.mem_cons_of_mem _ hq) fun q hq => ?_
        rcases List.mem_cons.1 hq with rfl | hq
        · exact .inr hidle
        · exact .inl hq
      refine hresume.bind fun ⟨resumed, _⟩ => Spec.of_and fun hresumed => ?_
      have hdiscard : Spec playable (HeldBy playable generous resumed.players) (discard [after])
          fun _ => HeldBy playable generous resumed.players :=
        discard_spec.mono (fun _ hrig => hrig.cons hsound hidle) fun _ _ hrig => hrig
      exact hdiscard.bind fun _ => .pure (ready_of_heldBy hresumed)

end LightShow.Stage
