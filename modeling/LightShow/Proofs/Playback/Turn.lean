import LightShow.Proofs.Playback.Conduct
import LightShow.Proofs.Playback.Confined

namespace LightShow.Stage

open Control

/-- The stage after something has been done to the top of the stack alone, if there is one. -/
def modifyTop (s : Stage) (f : Player → Player) : Stage := { s with stack := s.stack.modifyHead f }

/-- What comes of the start of a new player: it stands there, or there is an error and no player. -/
inductive Started (fresh : PlayerId) : Option Player → Answer → Prop
  | ok {player : Player} (hid : player.id = fresh) : Started fresh (some player) (.ok (.player fresh))
  | error (error : PlaybackError) : Started fresh none (.error error)

/-- What an operation makes of a stage, and what it answers, if a new player gets the name `fresh`.
Which loops have been started is left open, but not where. -/
inductive Becomes (s : Stage) (fresh : PlayerId) : Operation → Stage → Answer → Prop
  | refused {op : Operation} {error : PlaybackError} (h : op.refusal? = some error) :
    Becomes s fresh op s (.error error)
  | setDefault {program : Program Binary64} {made : Option Player} {answer : Answer}
    (haccepted : (Operation.setDefault program).refusal? = none) (h : Started fresh made answer) :
    Becomes s fresh (.setDefault program) { s with stack := made.toList } answer
  | replace {program : Program Binary64} {made : Option Player} {answer : Answer}
    (haccepted : (Operation.replace program).refusal? = none) (h : Started fresh made answer) :
    Becomes s fresh (.replace program) { s with stack := made.toList } answer
  | push {program : Program Binary64} {made : Option Player} {answer : Answer}
    (loops : PerPad (Option LoopRef)) (haccepted : (Operation.push program).refusal? = none)
    (h : Started fresh made answer) :
    Becomes s fresh (.push program)
      { s with stack := made.toList ++ (s.modifyTop fun top => { top with loops }).stack } answer
  | popped {id : PlayerId} (loops : PerPad (Option LoopRef)) (result : Except PlaybackError Unit)
    (htop : s.top = some id) :
    Becomes s fresh (.pop id)
      (modifyTop { s with stack := s.stack.tail } fun top => { top with loops })
      (result.map fun () => .flag true)
  | untouched {id : PlayerId} (htop : s.top ≠ some id) :
    Becomes s fresh (.pop id) s (.ok (.flag false))
  | cover {pad : Pad} {program : Program Binary64} {made : Option Player} {answer : Answer}
    (loop : Option LoopRef) (haccepted : (Operation.cover pad program).refusal? = none)
    (h : Started fresh made answer) :
    Becomes s fresh (.cover pad program)
      { s.modifyTop fun top => { top with loops := top.loops.set pad loop } with
        overlays := s.overlays.set pad made } answer
  | uncover {pad : Pad} (loop : Option LoopRef) (result : Except PlaybackError Unit) :
    Becomes s fresh (.uncover pad)
      { s.modifyTop fun top => { top with loops := top.loops.set pad loop } with
        overlays := s.overlays.set pad none }
      (result.map fun () => .flag (s.overlays.get pad).isSome)
  | uncoverAll {after : Stage} (result : Except PlaybackError Unit)
    (hstack : after.stack.map (·.id) = s.stack.map (·.id))
    (hover : ∀ p overlay, after.overlays.get p = some overlay → s.overlays.get p = some overlay) :
    Becomes s fresh .uncoverAll after (result.map fun () => .nothing)
  | silence : Becomes s fresh .silence { s with stack := [], overlays := .const none } (.ok .nothing)

variable {s : Stage} {reach : Pad → Prop} {start : Rig} {n : UInt64} {program : Program Binary64}
  {pad : Pad}

/-- What holds of every stacked player still holds if it holds of the changed top. -/
theorem forall_modifyTop {P : Player → Prop} {f : Player → Player} (h : ∀ player ∈ s.stack, P player)
    (hf : ∀ top ∈ s.stack, P (f top)) : ∀ player ∈ (s.modifyTop f).stack, P player := by
  obtain ⟨settings, stack, overlays⟩ := s
  cases stack with
  | nil => exact h
  | cons top rest =>
    intro player hplayer
    rcases List.mem_cons.1 hplayer with rfl | hplayer
    · exact hf top List.mem_cons_self
    · exact h player (List.mem_cons_of_mem top hplayer)

theorem modifyTop_modifyTop (s : Stage) (f g : Player → Player) :
    (s.modifyTop f).modifyTop g = s.modifyTop fun top => g (f top) := by
  obtain ⟨settings, stack, overlays⟩ := s
  cases stack <;> rfl

/-- To give up players touches their own loops only. -/
theorem keeps_discard {given : List Player} (h : ∀ player ∈ given, player.Within reach start) :
    Keeps reach start n (discard given) n fun _ => True := by
  induction given with
  | nil => exact .pure trivial
  | cons player rest ih =>
    refine (Player.keeps_stop (h player List.mem_cons_self)).bind fun _ _ => ?_
    exact ih fun other hother => h other (List.mem_cons_of_mem player hother)

theorem keeps_discard_one {player : Player} (h : player.Within reach start) :
    Keeps reach start n (discard [player]) n fun _ => True := by
  refine keeps_discard fun given hgiven => ?_
  rwa [List.mem_singleton.1 hgiven]

/-- The pads without an overlay are where the stack may play. -/
theorem reach_of_not_overlaid (hreach : ∀ p, s.overlays.get p = none → reach p) :
    ∀ p, p ∉ s.overlaidPads → reach p := by
  intro p hp
  rw [overlaidPads, PerPad.mem_pads, Option.not_isSome_iff_eq_none] at hp
  exact hreach p hp

/-- A new player is started where there is no overlay. If that fails, the stage is as before. -/
theorem keeps_startOnTop {player : Player} (hidle : player.Idle)
    (hreach : ∀ p, s.overlays.get p = none → reach p) :
    Keeps reach start n (s.startOnTop player) n fun out => ∃ made,
      Started player.id made (out.2.map .player) ∧
        out.1 = { s with stack := made.toList ++ s.stack } := by
  have hstart : Keeps reach start n (player.startExcept s.overlaidPads) n fun out =>
      player.Alike out.1 ∧ out.1.Within reach start :=
    Player.keeps_startExcept (Player.within_of_idle hidle) fun p _ hp =>
      reach_of_not_overlaid hreach p hp
  refine hstart.bind fun ⟨after, result⟩ ⟨hafter, hin⟩ => ?_
  cases result with
  | ok u =>
    have hid : after.id = player.id := hafter.id_eq
    refine .pure ⟨some after, ?_, rfl⟩
    rw [← hid]
    exact .ok rfl
  | error error =>
    exact (keeps_discard_one hin).bind fun _ _ => .pure ⟨none, .error error, rfl⟩

/-- To suspend the top touches only loops of the stack. -/
theorem keeps_suspendTop (hin : ∀ player ∈ s.stack, player.Within reach start) :
    Keeps reach start n s.suspendTop n fun after => after = s.modifyTop Player.silent := by
  obtain ⟨settings, stack, overlays⟩ := s
  cases stack with
  | nil => exact .pure rfl
  | cons top rest =>
    refine (Player.keeps_stop (hin top List.mem_cons_self)).bind fun ⟨after, _⟩ hafter => .pure ?_
    obtain rfl : after = top.silent := hafter
    rfl

/-- The top is started anew where there is no overlay. -/
theorem keeps_restartTop (hin : ∀ player ∈ s.stack, player.Within reach start)
    (hreach : ∀ p, s.overlays.get p = none → reach p) :
    Keeps reach start n s.restartTop n fun out =>
      ∃ loops, out.1 = s.modifyTop fun top => { top with loops } := by
  have hpads := reach_of_not_overlaid hreach
  obtain ⟨settings, stack, overlays⟩ := s
  cases stack with
  | nil => exact .pure ⟨.const none, rfl⟩
  | cons top rest =>
    refine (Player.keeps_startExcept (hin top List.mem_cons_self) fun p _ hp => hpads p hp).bind
      fun ⟨after, result⟩ hafter => ?_
    obtain ⟨loops, rfl⟩ := hafter.1
    exact .pure ⟨loops, rfl⟩

/-- The top takes up the pad and touches nothing else. -/
theorem keeps_resumeTop (hreach : reach pad) :
    Keeps reach start n (s.resumeTop pad) n fun out => ∃ loop, out.1 =
      s.modifyTop fun top => { top with loops := top.loops.set pad loop } := by
  obtain ⟨settings, stack, overlays⟩ := s
  cases stack with
  | nil => exact .pure ⟨none, rfl⟩
  | cons top rest =>
    refine (Player.keeps_resumeOn hreach).bind fun ⟨after, result⟩ hafter => ?_
    obtain ⟨loop, rfl⟩ := hafter
    exact .pure ⟨loop, rfl⟩

/-- The top leaves the pad and touches nothing else. -/
theorem keeps_releaseTop (htop : ∀ top ∈ s.stack.head?, ∀ ref, top.loops.get pad = some ref →
      start.Within reach ref.number) :
    Keeps reach start n (s.releaseTop pad) n fun after => after =
      s.modifyTop fun top => { top with loops := top.loops.set pad none } := by
  obtain ⟨settings, stack, overlays⟩ := s
  cases stack with
  | nil => exact .pure rfl
  | cons top rest =>
    refine (Player.keeps_stopOn (htop top rfl)).bind fun ⟨after, _⟩ hafter => .pure ?_
    obtain rfl : after = { top with loops := top.loops.set pad none } := hafter
    rfl

/-- To clear the stack touches its own loops only. -/
theorem keeps_clearStack (hin : ∀ player ∈ s.stack, player.Within reach start) :
    Keeps reach start n s.clearStack n fun after => after = { s with stack := [] } :=
  (keeps_discard hin).bind fun _ _ => .pure rfl

/-- A program takes the place of the stack, and overlays are not touched. -/
theorem keeps_replace (h : Player.refusalOnOwnPads? program = none)
    (hin : ∀ player ∈ s.stack, player.Within reach start)
    (hreach : ∀ p, s.overlays.get p = none → reach p) :
    Keeps reach start n (s.replace program) (n + 1) fun out => ∃ made,
      Started ⟨n⟩ made (out.2.map .player) ∧ out.1 = { s with stack := made.toList } := by
  refine (Player.keeps_onOwnPads h).bind fun result hmade => ?_
  obtain ⟨player, rfl, hid, hidle⟩ := hmade
  refine (keeps_clearStack hin).bind fun cleared hcleared => ?_
  have hbare : ∀ p, cleared.overlays.get p = none → reach p := by rwa [hcleared]
  refine (keeps_startOnTop hidle hbare).mono fun out ⟨made, hstarted, hout⟩ => ?_
  rw [hid] at hstarted
  refine ⟨made, hstarted, ?_⟩
  rw [hout, hcleared, List.append_nil]

/-- A full program takes the place of the stack, and overlays are not touched. -/
theorem keeps_setDefault (hfull : program.isFull = true)
    (hin : ∀ player ∈ s.stack, player.Within reach start)
    (hreach : ∀ p, s.overlays.get p = none → reach p) :
    Keeps reach start n (s.setDefault program) (n + 1) fun out => ∃ made,
      Started ⟨n⟩ made (out.2.map .player) ∧ out.1 = { s with stack := made.toList } := by
  have hreplace : s.setDefault program = s.replace program := by
    rw [setDefault, hfull]
    rfl
  rw [hreplace]
  exact keeps_replace (Player.refusalOnOwnPads?_of_isFull hfull) hin hreach

/-- A program comes above the stack, of which only the top is touched. If it cannot be started, the
stack is what it was, but for the loops of its top. -/
theorem keeps_push (h : Player.refusalOnOwnPads? program = none)
    (hin : ∀ player ∈ s.stack, player.Within reach start)
    (hreach : ∀ p, s.overlays.get p = none → reach p) :
    Keeps reach start n (s.push program) (n + 1) fun out => ∃ made loops,
      Started ⟨n⟩ made (out.2.map .player) ∧ out.1 =
        { s with stack := made.toList ++ (s.modifyTop fun top => { top with loops }).stack } := by
  refine (Player.keeps_onOwnPads h).bind fun result hmade => ?_
  obtain ⟨player, rfl, hid, hidle⟩ := hmade
  refine (keeps_suspendTop hin).bind fun suspended hsuspended => ?_
  have hleft : ∀ player ∈ suspended.stack, player.Within reach start := by
    rw [hsuspended]
    exact forall_modifyTop hin fun top _ => Player.within_of_idle top.idle_silent
  have hover : suspended.overlays = s.overlays := by rw [hsuspended]; rfl
  have hbare : ∀ p, suspended.overlays.get p = none → reach p := by rwa [hover]
  refine (keeps_startOnTop hidle hbare).bind fun ⟨after, result⟩ hafter => ?_
  obtain ⟨made, hstarted, hafter⟩ := hafter
  rw [hid] at hstarted
  subst hafter hsuspended
  cases result with
  | ok id => exact .pure ⟨made, .const none, hstarted, rfl⟩
  | error error =>
    obtain rfl : made = none := by cases hstarted; rfl
    -- The player below is started anew. That may fail too, but the answer is an error either way.
    refine (keeps_restartTop hleft hbare).bind fun ⟨after, restarted⟩ hafter => ?_
    obtain ⟨loops, rfl⟩ := hafter
    refine .pure ⟨none, loops, ?_, by rw [modifyTop_modifyTop]; rfl⟩
    cases restarted <;> exact .error _

/-- The top goes, and the one below is started where there is no overlay. -/
theorem keeps_pop {id : PlayerId} (htop : s.top = some id)
    (hin : ∀ player ∈ s.stack, player.Within reach start)
    (hreach : ∀ p, s.overlays.get p = none → reach p) :
    Keeps reach start n (s.pop id) n fun out => ∃ loops result,
      out.1 = modifyTop { s with stack := s.stack.tail } (fun top => { top with loops }) ∧
        out.2 = Except.map (fun () => true) result := by
  obtain ⟨settings, stack, overlays⟩ := s
  cases stack with
  | nil => cases htop
  | cons top rest =>
    obtain rfl : top.id = id := Option.some.inj htop
    unfold pop
    simp only [ne_eq, not_true_eq_false, if_false]
    refine (keeps_discard_one (hin top List.mem_cons_self)).bind fun _ _ => ?_
    have hrest : ∀ player ∈ rest, player.Within reach start := fun player hplayer =>
      hin player (List.mem_cons_of_mem top hplayer)
    refine (keeps_restartTop (s := ⟨settings, rest, overlays⟩) hrest hreach).bind
      fun ⟨after, result⟩ hafter => ?_
    obtain ⟨loops, rfl⟩ := hafter
    exact .pure ⟨loops, result, rfl, rfl⟩

theorem keeps_discard_overlay
    (hover : ∀ overlay, s.overlays.get pad = some overlay → overlay.Within reach start) :
    Keeps reach start n (discard (s.overlays.get pad).toList) n fun _ => True :=
  keeps_discard fun overlay hoverlay => hover overlay (Option.mem_toList.1 hoverlay)

/-- A pad is covered: its overlay goes, the top leaves it, and the new overlay comes if it can be
started. Other pads are not touched. -/
theorem keeps_cover (h : (Player.sourceFor? program pad).isSome = true)
    (hover : ∀ overlay, s.overlays.get pad = some overlay → overlay.Within reach start)
    (htop : ∀ top ∈ s.stack.head?, ∀ ref, top.loops.get pad = some ref →
      start.Within reach ref.number)
    (hreach : reach pad) :
    Keeps reach start n (s.cover pad program) (n + 1) fun out => ∃ made loop,
      Started ⟨n⟩ made (out.2.map .player) ∧ out.1 =
        { s.modifyTop fun top => { top with loops := top.loops.set pad loop } with
          overlays := s.overlays.set pad made } := by
  refine (Player.keeps_onPad h).bind fun result hmade => ?_
  obtain ⟨player, rfl, hid, hidle, hbound⟩ := hmade
  refine (keeps_discard_overlay hover).bind fun _ _ => ?_
  refine (keeps_releaseTop (s := s.without pad) htop).bind fun released hreleased => ?_
  subst hreleased
  have hstart : Keeps reach start (n + 1) player.start (n + 1) fun out =>
      player.Alike out.1 ∧ out.1.Within reach start := by
    refine Player.keeps_startExcept (Player.within_of_idle hidle) fun q hq _ => ?_
    rw [hbound q hq]
    exact hreach
  refine hstart.bind ?_
  rintro ⟨after, result⟩ ⟨hafter, hin⟩
  cases result with
  | ok u =>
    have hafter : after.id = ⟨n⟩ := hafter.id_eq.trans hid
    refine .pure ⟨some after, none, ?_, ?_⟩
    · rw [← hafter]
      exact .ok rfl
    · simp only [modifyTop, without, PerPad.set_set]
  | error error =>
    refine (keeps_resumeTop hreach).bind ?_
    rintro ⟨resumed, restarted⟩ ⟨loop, rfl⟩
    refine (keeps_discard_one hin).bind fun _ _ => .pure ⟨none, loop, ?_, ?_⟩
    · cases restarted <;> exact .error _
    · rw [modifyTop_modifyTop]
      simp only [modifyTop, without, PerPad.set_set]

/-- A pad is uncovered, and other pads are not touched. -/
theorem keeps_uncover
    (hover : ∀ overlay, s.overlays.get pad = some overlay → overlay.Within reach start)
    (hreach : reach pad) :
    Keeps reach start n (s.uncover pad) n fun out => ∃ loop result,
      out.1 = { s.modifyTop fun top => { top with loops := top.loops.set pad loop } with
        overlays := s.overlays.set pad none } ∧
        out.2 = Except.map (fun () => (s.overlays.get pad).isSome) result := by
  refine (keeps_discard_overlay hover).bind fun _ _ => ?_
  refine (keeps_resumeTop (s := s.without pad) hreach).bind fun ⟨after, result⟩ hafter => ?_
  obtain ⟨loop, rfl⟩ := hafter
  exact .pure ⟨loop, result, rfl, rfl⟩

theorem map_id_modifyTop {f : Player → Player} (hf : ∀ top, (f top).id = top.id) :
    (s.modifyTop f).stack.map (·.id) = s.stack.map (·.id) := by
  obtain ⟨settings, stack, overlays⟩ := s
  cases stack with
  | nil => rfl
  | cons top rest => simp [modifyTop, hf]

/-- Pads are uncovered one after another: the names on the stack stay, and no overlay is new. -/
theorem keeps_uncoverEach (pads : List Pad) (hreach : ∀ p, reach p) :
    Keeps reach start n (s.uncoverEach pads) n fun out =>
      out.1.stack.map (·.id) = s.stack.map (·.id) ∧
        ∀ p overlay, out.1.overlays.get p = some overlay → s.overlays.get p = some overlay := by
  induction pads generalizing s with
  | nil => exact .pure ⟨rfl, fun _ _ hget => hget⟩
  | cons pad rest ih =>
    -- Every pad is reached, so no loop is out of bounds.
    have hover : ∀ overlay, s.overlays.get pad = some overlay → overlay.Within reach start :=
      fun _ _ _ _ _ l _ => hreach l.pad
    refine (keeps_uncover hover (hreach pad)).bind fun ⟨mid, result⟩ hmid => ?_
    obtain ⟨loop, _, rfl, _⟩ := hmid
    have hids := map_id_modifyTop (s := s)
      (f := fun top => { top with loops := top.loops.set pad loop }) fun _ => rfl
    have hsub : ∀ p overlay, (s.overlays.set pad none).get p = some overlay →
        s.overlays.get p = some overlay := by
      intro p overlay hget
      obtain ⟨_, ⟨⟩⟩ | ⟨_, hget⟩ := PerPad.get_set_eq_some_iff.1 hget
      exact hget
    cases result with
    | ok removed =>
      exact ih.mono fun out ⟨hstack, hrest⟩ => ⟨hstack.trans hids, fun p overlay hget =>
        hsub p overlay (hrest p overlay hget)⟩
    | error error => exact .pure ⟨hids, hsub⟩

/-- Silence clears the stage, whatever is on it. -/
theorem keeps_silence (hreach : ∀ p, reach p) :
    Keeps reach start n s.silence n fun after =>
      after = { s with stack := [], overlays := .const none } := by
  have hin (player : Player) : player.Within reach start := fun _ _ _ l _ => hreach l.pad
  refine (keeps_discard fun player _ => hin player).bind fun _ _ => ?_
  exact keeps_clearStack fun player _ => hin player

namespace Operation

/-- The pads on which an operation may stop or start loops. -/
def Reaches (s : Stage) : Operation → Pad → Prop
  | setDefault _, p | push _, p | replace _, p | pop _, p => s.overlays.get p = none
  | cover pad _, p | uncover pad, p => p = pad
  | uncoverAll, _ | silence, _ => True

/-- The operation makes a new player, which may be in vain. -/
def recruits (op : Operation) : Bool := op.program?.isSome && op.refusal?.isNone

end Operation

/-- Nothing happens if the player is not the top. -/
theorem respond_pop_of_ne {id : PlayerId} (htop : s.top ≠ some id) :
    s.respond (.pop id) = pure (s, .ok (.flag false)) := by
  obtain ⟨settings, stack, overlays⟩ := s
  cases stack with
  | nil => rfl
  | cons top rest =>
    have hid : top.id ≠ id := fun hid => htop (congrArg some hid)
    rw [respond, pop]
    simp only [ne_eq, hid, not_false_eq_true, if_true]
    rfl

section Ready

variable {playable : Pad → Track Binary64 → Prop} {generous : Prop}

/-- On a stage that is ready the loops that a player has on a pad are on that pad. -/
theorem Ready.pad_eq (h : s.Ready playable generous start) {player : Player}
    (hplayer : player ∈ s.players) {p : Pad} {ref : LoopRef} (href : player.loops.get p = some ref)
    {l : Loop} (hget : start.loops[ref.number]? = some l) : l.pad = p := by
  obtain ⟨_, l', _, _, hget', hpad, _⟩ := h.2.plays player hplayer p ref href
  obtain rfl := Option.some.inj (hget.symm.trans hget')
  exact hpad

/-- On a stage that is ready the stack has no loop where there is an overlay. -/
theorem Ready.within_stack (h : s.Ready playable generous start) :
    ∀ player ∈ s.stack, player.Within (fun p => s.overlays.get p = none) start := by
  intro player hplayer p ref href l hget
  have hplayers : player ∈ s.players := mem_players.2 (.inl hplayer)
  rw [h.pad_eq hplayers href hget]
  refine Classical.byContradiction fun hover => ?_
  rw [h.1.loops_eq_none_of_overlaid hover player hplayer] at href
  cases href

/-- On a stage that is ready an overlay has loops on its own pad only. -/
theorem Ready.within_overlay (h : s.Ready playable generous start) :
    ∀ overlay, s.overlays.get pad = some overlay → overlay.Within (· = pad) start := by
  intro overlay hover p ref href l hget
  rw [h.pad_eq (mem_players.2 (.inr ⟨pad, hover⟩)) href hget]
  refine ((h.1.covers pad overlay hover).isPlaying p).1 ?_
  rw [Player.isPlaying, href]
  rfl

theorem Ready.within_top (h : s.Ready playable generous start) :
    ∀ top ∈ s.stack.head?, ∀ ref, top.loops.get pad = some ref →
      start.Within (· = pad) ref.number :=
  fun _ htop _ href _ hget =>
    h.pad_eq (mem_players.2 (.inl (List.mem_of_mem_head? htop))) href hget

/-- An operation keeps to the pads that it reaches, and the stage becomes what it should. -/
theorem keeps_respond (h : s.Ready playable generous start) (op : Operation) :
    Keeps (op.Reaches s) start n (s.respond op) (if op.recruits then n + 1 else n) fun out =>
      s.Becomes ⟨n⟩ op out.1 out.2 := by
  cases hrefusal : op.refusal? with
  | some error =>
    have hnone : op.recruits = false := by rw [Operation.recruits, hrefusal]; exact Bool.and_false _
    rw [respond_of_refusal hrefusal, hnone]
    exact .pure (.refused hrefusal)
  | none =>
    have hrecruits : op.recruits = op.program?.isSome := by
      rw [Operation.recruits, hrefusal]
      exact Bool.and_true _
    rw [hrecruits]
    cases op with
    | setDefault program =>
      have hfull : program.isFull = true := by
        simpa only [Operation.refusal?, ite_eq_left_iff, reduceCtorEq, imp_false,
          Classical.not_not] using hrefusal
      refine (keeps_setDefault hfull h.within_stack fun _ hp => hp).bind ?_
      rintro ⟨after, result⟩ ⟨made, hstarted, rfl⟩
      exact .pure (.setDefault hrefusal hstarted)
    | push program =>
      refine (keeps_push hrefusal h.within_stack fun _ hp => hp).bind ?_
      rintro ⟨after, result⟩ ⟨made, loops, hstarted, rfl⟩
      exact .pure (.push loops hrefusal hstarted)
    | replace program =>
      refine (keeps_replace hrefusal h.within_stack fun _ hp => hp).bind ?_
      rintro ⟨after, result⟩ ⟨made, hstarted, rfl⟩
      exact .pure (.replace hrefusal hstarted)
    | pop id =>
      by_cases htop : s.top = some id
      · refine (keeps_pop htop h.within_stack fun _ hp => hp).bind ?_
        rintro ⟨after, result⟩ ⟨loops, started, rfl, rfl⟩
        cases started with
        | ok u => exact .pure (.popped loops (.ok ()) htop)
        | error error => exact .pure (.popped loops (.error error) htop)
      · rw [respond_pop_of_ne htop]
        exact .pure (.untouched htop)
    | cover pad program =>
      have hsource : (Player.sourceFor? program pad).isSome = true := by
        simpa only [Operation.refusal?, ite_eq_left_iff, reduceCtorEq, imp_false,
          Classical.not_not] using hrefusal
      refine (keeps_cover hsource h.within_overlay h.within_top rfl).bind ?_
      rintro ⟨after, result⟩ ⟨made, loop, hstarted, rfl⟩
      exact .pure (.cover loop hrefusal hstarted)
    | uncover pad =>
      refine (keeps_uncover h.within_overlay rfl).bind ?_
      rintro ⟨after, result⟩ ⟨loop, started, rfl, rfl⟩
      cases started with
      | ok u => exact .pure (.uncover loop (.ok ()))
      | error error => exact .pure (.uncover loop (.error error))
    | uncoverAll =>
      refine (keeps_uncoverEach s.overlaidPads fun _ => trivial).bind ?_
      rintro ⟨after, result⟩ ⟨hstack, hover⟩
      exact .pure (.uncoverAll result hstack hover)
    | silence =>
      refine (keeps_silence fun _ => trivial).bind fun after hafter => ?_
      subst hafter
      exact .pure .silence

end Ready

end LightShow.Stage
