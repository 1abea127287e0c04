import LightShow.Proofs.Playback.Conduct

namespace LightShow

namespace Stage

namespace Outline

def driver (o : Outline) (pad : Pad) : Option PlayerId :=
  let player := match o.overlays.get pad with
    | some overlay => some overlay
    | none => o.stack.head?
  match player with
  | some player => if player.playing.get pad then some player.id else none
  | none => none

def view (o : Outline) : View where
  top := o.top
  depth := o.stack.length
  overlay := .ofFn fun pad => (o.overlays.get pad).map (·.id)
  driver := .ofFn o.driver

/-- What the operations answer, one after another, and what there is to be seen after each. -/
def record (o : Outline) : List Operation → List (Answer × View)
  | [] => []
  | op :: rest =>
    let (after, answer) := o.respond op
    (answer, after.view) :: after.record rest

theorem record_cons (o : Outline) (op : Operation) (rest : List Operation) :
    o.record (op :: rest) =
      ((o.respond op).2, (o.respond op).1.view) :: (o.respond op).1.record rest := rfl

end Outline

/-- The outline knows who drives a pad: whether a loop has been started there is part of it. -/
theorem driver_outline (s : Stage) (next : UInt64) (pad : Pad) :
    (s.outline next).driver pad = s.driver pad := by
  have hoverlay : (s.outline next).overlays.get pad = (s.overlays.get pad).map (·.outline) :=
    PerPad.get_map _ _ _
  have hhead : (s.outline next).stack.head? = s.stack.head?.map (·.outline) := List.head?_map
  unfold Outline.driver driver
  rw [hoverlay, hhead]
  cases s.overlays.get pad with
  | some overlay =>
    simp only [Option.map_some, Player.get_playing_outline]
    rfl
  | none =>
    cases s.stack.head? with
    | some top =>
      simp only [Option.map_some, Option.map_none, Player.get_playing_outline]
      rfl
    | none => rfl

/-- All that there is to be seen of a stage can be told from its outline. -/
theorem view_outline (s : Stage) (next : UInt64) : (s.outline next).view = s.view := by
  have hdepth : (s.outline next).stack.length = s.depth := List.length_map _
  have hoverlay (pad : Pad) :
      ((s.outline next).overlays.get pad).map (·.id) = s.overlay pad := by
    rw [outline, PerPad.get_map, Option.map_map]
    rfl
  have hdriver : (s.outline next).driver = s.driver := funext (s.driver_outline next)
  simp only [Outline.view, view, top_outline, hdepth, hoverlay, hdriver]

end Stage

namespace Performance

open Control

/-- What can be told of a performance without its loops. -/
def outline (s : Performance) : Stage.Outline := s.stage.outline s.rig.nextPlayer

/-- The performance after an operation, and the answer to that. -/
def respond (s : Performance) (op : Stage.Operation) : Performance × Stage.Answer :=
  let ((stage, answer), rig) := (s.stage.respond op).run s.rig
  ({ stage, rig }, answer)

/-- What the operations answer, one after another, and what there is to be seen after each. -/
def record (s : Performance) : List Event → List (Stage.Answer × Stage.View)
  | [] => []
  | .operation op :: rest =>
    let (after, answer) := s.respond op
    (answer, after.stage.view) :: after.record rest
  | .move m :: rest => (s.happen (.move m)).record rest

/-- The operations among the events. -/
def operations (events : List Event) : List Stage.Operation :=
  events.filterMap fun
    | .operation op => some op
    | .move _ => none

variable {playable : Pad → Track Binary64 → Prop} {generous : Prop} {s : Performance}

theorem happen_operation (s : Performance) (op : Stage.Operation) :
    s.happen (.operation op) = (s.respond op).1 := by
  rw [happen, Stage.perform_eq]
  rfl

/-- All stays in order, whatever is played. -/
theorem ready_respond (h : s.Ready (fun _ _ => True) generous) (op : Stage.Operation) :
    (s.respond op).1.Ready (fun _ _ => True) generous := by
  rw [← happen_operation]
  exact (ready_happen h (.operation op) fun _ _ _ => trivial).2

theorem record_operation (s : Performance) (op : Stage.Operation) (rest : List Event) :
    s.record (.operation op :: rest) =
      ((s.respond op).2, (s.respond op).1.stage.view) :: (s.respond op).1.record rest := rfl

theorem record_move (s : Performance) (m : Move) (rest : List Event) :
    s.record (.move m :: rest) = (s.happen (.move m)).record rest := rfl

theorem operations_operation (op : Stage.Operation) (rest : List Event) :
    operations (.operation op :: rest) = op :: operations rest := rfl

theorem operations_move (m : Move) (rest : List Event) :
    operations (.move m :: rest) = operations rest := rfl

/-- All players of a stage that is in order have the tracks that they bind. -/
theorem sound_outline (h : s.Ready playable generous) : s.outline.Sound := by
  intro player hplayer p source hbinding
  obtain ⟨stacked, hstacked, rfl⟩ := List.mem_map.1 hplayer
  have hmem : stacked ∈ s.stage.players := Stage.mem_players.2 (.inl hstacked)
  obtain ⟨track, htrack, _⟩ := h.2.sound stacked hmem p source hbinding
  exact Option.isSome_iff_exists.2 ⟨track, htrack⟩

/-- While no thread is refused, an operation does as the outline tells. -/
theorem respond_outline (h : s.Ready playable generous) (hlaunches : s.rig.launches = [])
    (op : Stage.Operation) :
    (s.respond op).1.rig.launches = [] ∧
      ((s.respond op).1.outline, (s.respond op).2) = s.outline.respond op := by
  obtain ⟨⟨hlaunches, hnext⟩, houtline, hanswer⟩ :=
    Stage.yields_respond (sound_outline h) op s.rig ⟨hlaunches, rfl⟩
  refine ⟨hlaunches, Prod.ext ?_ hanswer⟩
  rw [← hnext] at houtline
  exact houtline

/-- What is refused is answered with the error, and nothing else happens. -/
theorem respond_of_refusal {op : Stage.Operation} {error : PlaybackError}
    (h : op.refusal? = some error) : s.respond op = (s, .error error) := by
  rw [respond, Stage.respond_of_refusal h]
  rfl

/-- An operation fails exactly if its program does not do for it. The error then says so, and
nothing has been stopped, started or moved, whatever has become of the loops before. -/
theorem respond_error_iff (settings : PlaybackSettings) (actuator : Actuator)
    (agenda : List (List Move)) (launches : List (Option String)) (history : List Event)
    (op : Stage.Operation) :
    let s := (new settings actuator agenda launches).run history
    s.rig.launches = [] →
      ((∃ error, (s.respond op).2 = .error error) ↔ op.Invalid) ∧
      ∀ error, (s.respond op).2 = .error error → error.kind = .request ∧ (s.respond op).1 = s := by
  intro s hlaunches
  obtain ⟨_, hready, _⟩ :=
    reached settings actuator agenda launches history fun _ _ hoffers => hoffers
  obtain ⟨_, houtline⟩ := respond_outline hready hlaunches op
  have hanswer : (s.respond op).2 = (s.outline.respond op).2 := congrArg Prod.snd houtline
  rw [← Stage.Operation.isSome_refusal?_iff]
  cases hrefusal : op.refusal? with
  | none =>
    rw [Stage.Outline.respond, hrefusal] at hanswer
    refine ⟨⟨?_, fun h => ?_⟩, fun error herror => ?_⟩
    · rintro ⟨error, herror⟩
      rw [hanswer] at herror
      cases herror
    · cases h
    · rw [hanswer] at herror
      cases herror
  | some refusal =>
    rw [respond_of_refusal hrefusal]
    refine ⟨⟨fun _ => rfl, fun _ => ⟨refusal, rfl⟩⟩, fun error herror => ?_⟩
    cases herror
    exact ⟨Stage.Operation.kind_of_refusal? hrefusal, rfl⟩

/-- A loop whose actuator has been unplugged has a fault, which the operations after that do not
answer with. -/
theorem respond_error_iff_unplugged :
    let generic : Program Binary64 := ⟨⟨some ⟨[.switch ⟨0⟩ .white], ⟨0⟩⟩, none, none⟩⟩
    let s := (new .default (fun _ _ => .failed ⟨"unplugged"⟩) [] [some "no thread"]).run
      [.operation (.cover .left generic), .operation (.cover .left generic), .move (.advance 0),
        .move (.advance 0), .move (.advance 0)]
    let op := Stage.Operation.push generic
    s.stage.faultOn .left s.rig = some ⟨"unplugged"⟩ ∧ s.rig.launches = [] ∧
      ((∃ error, (s.respond op).2 = .error error) ↔ op.Invalid) ∧
      ∀ error, (s.respond op).2 = .error error →
        error.kind = .request ∧ (s.respond op).1 = s := by
  intro generic s op
  have hlaunches : s.rig.launches = [] := by decide
  exact ⟨by decide, hlaunches, respond_error_iff _ _ _ _ _ op hlaunches⟩

/-- All is in order, and no thread is refused from here on. -/
structure Fluent (generous : Prop) (s : Performance) : Prop where
  ready : s.Ready (fun _ _ => True) generous
  launches : s.rig.launches = []

/-- An operation answers as the outline does, which it changes as the outline is changed. -/
theorem Fluent.respond (h : s.Fluent generous) (op : Stage.Operation) :
    (s.respond op).1.Fluent generous ∧ (s.respond op).1.outline = (s.outline.respond op).1 ∧
      (s.respond op).2 = (s.outline.respond op).2 := by
  obtain ⟨hlaunches, houtline⟩ := respond_outline h.ready h.launches op
  exact ⟨⟨ready_respond h.ready op, hlaunches⟩, congrArg Prod.fst houtline,
    congrArg Prod.snd houtline⟩

/-- Where no thread is refused, only an operation that is refused itself fails. -/
theorem Fluent.respond_of_error (h : s.Fluent generous) {op : Stage.Operation}
    {error : PlaybackError} (herror : (s.respond op).2 = .error error) : (s.respond op).1 = s := by
  cases hrefusal : op.refusal? with
  | some refusal => exact congrArg Prod.fst (respond_of_refusal hrefusal)
  | none =>
    obtain ⟨_, _, hanswer⟩ := h.respond op
    rw [herror, Stage.Outline.respond, hrefusal] at hanswer
    cases hanswer

/-- Only the loops move, and these are not in the outline. -/
theorem Fluent.move (h : s.Fluent generous) (m : Move) :
    (s.happen (.move m)).Fluent generous ∧ (s.happen (.move m)).outline = s.outline := by
  have hmoved : (s.rig.run [m]).Willing s.rig.nextPlayer := Rig.Willing.run ⟨h.launches, rfl⟩ [m]
  have hready := (ready_happen h.ready (.move m) fun _ _ _ => trivial).2
  exact ⟨⟨hready, hmoved.launches⟩, congrArg s.stage.outline hmoved.nextPlayer⟩

/-- What is answered and seen can be told from the outline and the operations. -/
theorem Fluent.record_eq (h : s.Fluent generous) (events : List Event) :
    s.record events = s.outline.record (operations events) := by
  induction events generalizing s with
  | nil => rfl
  | cons event rest ih =>
    cases event with
    | operation op =>
      obtain ⟨hafter, houtline, hanswer⟩ := h.respond op
      have hview : (s.respond op).1.outline.view = (s.respond op).1.stage.view :=
        Stage.view_outline _ _
      -- The outlines agree after the operation, so the rest of both records is the same.
      rw [record_operation, operations_operation, Stage.Outline.record_cons, ← houtline, ← hanswer,
        hview, ih hafter]
    | move m =>
      obtain ⟨hafter, hsame⟩ := h.move m
      rw [record_move, operations_move, ih hafter, hsame]

/-- Two performances that agree in all but their loops, and go through the same operations, answer
alike and look alike after each operation. Neither the actuators nor the pace of the loops make a
difference. -/
theorem record_eq_of_outline_eq (settings settings' : PlaybackSettings)
    (actuator actuator' : Actuator) (agenda agenda' : List (List Move))
    (launches launches' : List (Option String)) (history history' events events' : List Event) :
    let s := (new settings actuator agenda launches).run history
    let t := (new settings' actuator' agenda' launches').run history'
    s.rig.launches = [] → t.rig.launches = [] → s.outline = t.outline →
      operations events = operations events' → s.record events = t.record events' := by
  intro s t hs ht houtline hoperations
  have hready : s.Ready (fun _ _ => True) (launches = []) :=
    (reached settings actuator agenda launches history fun _ _ _ => trivial).2.1
  have hready' : t.Ready (fun _ _ => True) (launches' = []) :=
    (reached settings' actuator' agenda' launches' history' fun _ _ _ => trivial).2.1
  rw [Fluent.record_eq ⟨hready, hs⟩, Fluent.record_eq ⟨hready', ht⟩, houtline, hoperations]

/-- Beside a performance whose loops are at work there is another one with a loop brought down by
its call. The operations answer alike in both. -/
theorem record_eq_of_outline_eq_brought_down :
    let full : Program Binary64 := ⟨.const (some ⟨[.switch ⟨0⟩ .white], ⟨0⟩⟩)⟩
    let s := (new .default (fun _ _ => .done) [] []).run [.operation (.push full)]
    let t := (new .default (fun _ _ => .panicked) [[], [.advance 0]] []).run
      [.operation (.push full), .move (.advance 0), .move (.advance 0)]
    let ops : List Event := [.operation (.cover .left full), .operation (.pop ⟨1⟩),
      .operation .uncoverAll]
    s.rig.loops ≠ t.rig.loops ∧ s.outline = t.outline ∧
      s.record ops = t.record (.move (.elapse 5) :: ops) := by
  intro full s t ops
  have houtline : s.outline = t.outline := by decide
  exact ⟨by decide, houtline,
    record_eq_of_outline_eq _ _ _ _ _ _ _ _ _ _ _ _ (by decide) (by decide) houtline rfl⟩

end Performance

end LightShow
