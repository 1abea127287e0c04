import LightShow.Proofs.Playback.Answers
import LightShow.Proofs.Playback.Turn

namespace LightShow

namespace Stage

variable {s : Stage} {required : Pad → Prop}

/-- The player has the loop on the pad, and lies on the stack. -/
def Stacked (s : Stage) (id : PlayerId) (p : Pad) (ref : LoopRef) : Prop :=
  ∃ player ∈ s.stack, player.id = id ∧ player.loops.get p = some ref

/-- On a pad with an overlay no stacked player has a loop. -/
theorem Arranged.not_stacked (h : s.Arranged required) {p : Pad} (hp : s.overlays.get p ≠ none)
    (id : PlayerId) (ref : LoopRef) : ¬s.Stacked id p ref := by
  rintro ⟨player, hplayer, _, href⟩
  rw [h.loops_eq_none_of_overlaid hp player hplayer] at href
  cases href

/-- What the top does on one pad makes no difference on another. -/
theorem stacked_modifyTop_iff {pad p : Pad} (hp : p ≠ pad) (s : Stage) (loop : Option LoopRef)
    (id : PlayerId) (ref : LoopRef) :
    (s.modifyTop fun top => { top with loops := top.loops.set pad loop }).Stacked id p ref ↔
      s.Stacked id p ref := by
  obtain ⟨settings, stack, overlays⟩ := s
  cases stack with
  | nil => rfl
  | cons top rest => simp [Stacked, modifyTop, PerPad.get_set_of_ne _ _ hp]

variable {fresh : PlayerId} {op : Operation} {after : Stage} {answer : Answer} {p : Pad}

/-- Where an operation does not reach, overlays stay as they are. -/
theorem Becomes.get_overlays_eq (h : s.Becomes fresh op after answer) (hout : ¬op.Reaches s p) :
    after.overlays.get p = s.overlays.get p := by
  cases h with
  | refused | setDefault | replace | push | popped | untouched => rfl
  | cover | uncover => exact PerPad.get_set_of_ne _ _ hout
  | uncoverAll | silence => exact absurd trivial hout

/-- Where the operations on the stack do not reach there is an overlay, and no stacked player has a
loop, neither before nor after. -/
theorem Becomes.stacked_iff (h : s.Becomes fresh op after answer) (hs : s.Arranged required)
    (hafter : after.Arranged required) (hout : ¬op.Reaches s p) (id : PlayerId) (ref : LoopRef) :
    after.Stacked id p ref ↔ s.Stacked id p ref := by
  have hsame := h.get_overlays_eq hout
  have hoverlaid (hover : s.overlays.get p ≠ none) :
      after.Stacked id p ref ↔ s.Stacked id p ref :=
    iff_of_false (hafter.not_stacked (hsame ▸ hover) id ref) (hs.not_stacked hover id ref)
  cases h with
  | refused | untouched => rfl
  | setDefault | replace | push | popped => exact hoverlaid hout
  | cover loop | uncover loop => exact stacked_modifyTop_iff hout s loop id ref
  | uncoverAll | silence => exact absurd trivial hout

end Stage

/-- Nothing happens to a player that already plays the pad if it binds that. -/
theorem Player.resumeOn_of_settled {player : Player} {pad : Pad}
    (h : player.isBound pad = true → player.isPlaying pad = true) :
    player.resumeOn pad = pure (player, .ok ()) := by
  unfold resumeOn
  split
  next => rfl
  next hsilent =>
    have hnone : player.bindings.get pad = none :=
      Option.not_isSome_iff_eq_none.1 fun hbound => hsilent (h hbound)
    rw [startOn, hnone]

namespace Stage

/-- To uncover a pad without an overlay changes nothing if the top plays there already or does not
bind it. -/
theorem respond_uncover_of_none {s : Stage} {p : Pad} (hnone : s.overlays.get p = none)
    (hsettled : ∀ top ∈ s.stack.head?, top.isBound p = true → top.isPlaying p = true) :
    s.respond (.uncover p) = pure (s, .ok (.flag false)) := by
  obtain ⟨settings, stack, overlays⟩ := s
  have hsame : overlays.set p none = overlays := by rw [← hnone, PerPad.set_get_self]
  have hnone : overlays.get p = none := hnone
  have hresume : (Stage.mk settings stack overlays).resumeTop p =
      pure (⟨settings, stack, overlays⟩, .ok ()) := by
    cases stack with
    | nil => rfl
    | cons top rest =>
      simp only [resumeTop]
      rw [Player.resumeOn_of_settled (hsettled top rfl)]
      rfl
  simp only [respond, uncover, hnone, hsame, hresume]
  rfl

end Stage

namespace Performance

variable {playable : Pad → Track Binary64 → Prop} {generous : Prop} {s : Performance}

/-- What one operation does to the lights, to the numbering of players and to the stage. -/
theorem respond_becomes (h : s.Ready playable generous) (op : Stage.Operation) :
    s.rig.Confined (op.Reaches s.stage) (s.respond op).1.rig ∧
      (s.respond op).1.rig.nextPlayer =
        (if op.recruits then s.rig.nextPlayer + 1 else s.rig.nextPlayer) ∧
      s.stage.Becomes ⟨s.rig.nextPlayer⟩ op (s.respond op).1.stage (s.respond op).2 := by
  obtain ⟨⟨hconfined, hnext⟩, hbecomes⟩ :=
    Stage.keeps_respond h op s.rig ⟨.of_loops_eq rfl, rfl⟩
  exact ⟨hconfined, hnext, hbecomes⟩

/-- To pop a player that is not the top changes nothing. -/
theorem respond_pop_of_ne {id : PlayerId} (htop : s.stage.top ≠ some id) :
    s.respond (.pop id) = (s, .ok (.flag false)) := by
  rw [respond, Stage.respond_pop_of_ne htop]
  rfl

/-- Where there is no overlay the top already plays what it binds, so there is nothing to do. -/
theorem respond_uncover_of_none (h : s.Ready playable generous) (hgenerous : generous) {p : Pad}
    (hnone : s.stage.overlays.get p = none) :
    s.respond (.uncover p) = (s, .ok (.flag false)) := by
  have hsettled : ∀ top ∈ s.stage.stack.head?, top.isBound p = true → top.isPlaying p = true :=
    fun top htop hbound => h.1.complete top htop p hgenerous hbound hnone
  rw [respond, Stage.respond_uncover_of_none hnone hsettled]
  rfl

/-- An operation disturbs only the loops that are its own. Loops on other pads are left alone and
none is started there; who has them in hand does not change either. An overlay keeps the stack off
its pad. An operation that is refused, or finds nothing to do, leaves everything as it was. -/
theorem respond_disturbs_own (settings : PlaybackSettings) (actuator : Actuator)
    (agenda : List (List Move)) (launches : List (Option String)) (history : List Event)
    (op : Stage.Operation) :
    let s := (new settings actuator agenda launches).run history
    let t := (s.respond op).1
    (∀ player ∈ s.stage.players, ∀ p ref, player.loops.get p = some ref →
        ∃ l, s.rig.loops[ref.number]? = some l ∧ l.pad = p) ∧
      (∀ (n : Nat) (l : Loop), s.rig.loops[n]? = some l → ¬op.Reaches s.stage l.pad →
        ∃ l', t.rig.loops[n]? = some l' ∧ l.LeftAlone l') ∧
      (∀ (n : Nat) (l' : Loop), t.rig.loops[n]? = some l' → s.rig.loops[n]? = none →
        op.Reaches s.stage l'.pad) ∧
      (∀ p, ¬op.Reaches s.stage p → t.stage.overlays.get p = s.stage.overlays.get p ∧
        ∀ id ref, t.stage.Stacked id p ref ↔ s.stage.Stacked id p ref) ∧
      (∀ p, t.stage.overlays.get p ≠ none → ∀ player ∈ t.stage.stack, player.loops.get p = none) ∧
      (op.Invalid → t = s) ∧
      (∀ id, op = .pop id → s.stage.top ≠ some id → t = s ∧ (s.respond op).2 = .ok (.flag false)) ∧
      (launches = [] →
        (∀ error, (s.respond op).2 = .error error → t = s) ∧
        ∀ p, op = .uncover p → s.stage.overlays.get p = none →
          t = s ∧ (s.respond op).2 = .ok (.flag false)) := by
  intro s t
  have hready : s.Ready (fun _ _ => True) (launches = []) :=
    (reached settings actuator agenda launches history fun _ _ _ => trivial).2.1
  have hready' : t.Ready (fun _ _ => True) (launches = []) := ready_respond hready op
  obtain ⟨hconfined, _, hbecomes⟩ := respond_becomes hready op
  refine ⟨fun player hplayer p ref href => ?_, fun n l hget hout => ?_, hconfined.started,
    fun p hout => ?_, fun p hover => hready'.1.loops_eq_none_of_overlaid hover, fun hinvalid => ?_,
    fun id hop htop => ?_, fun hlaunches => ⟨fun error herror => ?_, fun p hop hnone => ?_⟩⟩
  · obtain ⟨_, l, _, _, hget, hpad, _⟩ := hready.2.plays player hplayer p ref href
    exact ⟨l, hget, hpad⟩
  · obtain ⟨l', hget', _, halone⟩ := hconfined.kept n l hget
    exact ⟨l', hget', halone hout⟩
  · exact ⟨hbecomes.get_overlays_eq hout, hbecomes.stacked_iff hready.1 hready'.1 hout⟩
  · rw [← Stage.Operation.isSome_refusal?_iff] at hinvalid
    obtain ⟨error, hrefusal⟩ := Option.isSome_iff_exists.1 hinvalid
    exact congrArg Prod.fst (respond_of_refusal hrefusal)
  · subst hop
    have hsame := respond_pop_of_ne htop
    exact ⟨congrArg Prod.fst hsame, congrArg Prod.snd hsame⟩
  · have hfluent : s.Fluent (launches = []) := ⟨hready, hready.2.launches hlaunches⟩
    exact hfluent.respond_of_error herror
  · subst hop
    have hsame := respond_uncover_of_none hready hlaunches hnone
    exact ⟨congrArg Prod.fst hsame, congrArg Prod.snd hsame⟩

example :
    let track : Track Binary64 := ⟨[.switch ⟨0⟩ .white], ⟨0⟩⟩
    let full : Program Binary64 := ⟨.const (some track)⟩
    let duo : Program Binary64 := ⟨⟨some track, some track, none⟩⟩
    let s := (new .default (fun _ _ => .done) [] []).run
      [.operation (.setDefault full), .operation (.cover .left full)]
    (s.respond (.push duo)).1.rig.loops.map (fun l => (l.pad, l.stopRequested)) =
      [(.centre, true), (.left, true), (.right, true), (.left, false), (.centre, false)] := by
  decide

end Performance

end LightShow
