import LightShow.Proofs.Playback.Answers

namespace LightShow

namespace Stage

/-- The operation is about overlays alone. -/
def Operation.OnOverlays : Operation → Prop
  | cover _ _ | uncover _ | uncoverAll => True
  | setDefault _ | push _ | replace _ | pop _ | silence => False

namespace Outline

variable {o o' : Outline} {op : Operation}

/-- The stacked players, whichever of their loops are started. -/
def roster (o : Outline) : List Player.Outline := o.stack.map (·.silent)

theorem top_eq_roster (o : Outline) : o.top = o.roster.head?.map (·.id) := by
  rw [top, roster, List.head?_map, Option.map_map]
  rfl

theorem roster_modifyTop (o : Outline) {f : Player.Outline → Player.Outline}
    (hf : ∀ player, (f player).silent = player.silent) : (o.modifyTop f).roster = o.roster := by
  obtain ⟨stack, overlays, nextPlayer⟩ := o
  cases stack with
  | nil => rfl
  | cons top rest => exact congrArg (· :: rest.map (·.silent)) (hf top)

/-- Removing overlays leaves the stacked players as they are, but for their loops. -/
theorem roster_foldl_uncovered (o : Outline) (pads : List Pad) :
    (pads.foldl uncovered o).roster = o.roster := by
  induction pads generalizing o with
  | nil => rfl
  | cons pad rest ih => exact (ih (o.uncovered pad)).trans (o.roster_modifyTop fun _ => rfl)

/-- What is done to overlays moves nobody on the stack. -/
theorem roster_respond (o : Outline) (hop : op.OnOverlays) : (o.respond op).1.roster = o.roster := by
  unfold respond
  cases op.refusal? with
  | some error => rfl
  | none =>
    cases op with
    | cover pad program => exact o.roster_modifyTop fun _ => rfl
    | uncover pad => exact o.roster_modifyTop fun _ => rfl
    | uncoverAll => exact o.roster_foldl_uncovered o.overlays.pads
    | setDefault _ | push _ | replace _ | pop _ | silence => exact hop.elim

/-- A program for several pads is never refused. -/
theorem respond_push (o : Outline) {program : Program Binary64} (hwide : 2 ≤ program.size) :
    o.respond (.push program) = (o.after (.push program), .ok (.player ⟨o.nextPlayer⟩)) := by
  have hrefusal : (Operation.push program).refusal? = none := by
    rw [← Option.not_isSome_iff_eq_none, Operation.isSome_refusal?_iff]
    exact Nat.not_lt.2 hwide
  rw [respond, hrefusal]
  rfl

/-- The pushed player lies above those that were there. -/
theorem roster_after_push (o : Outline) (program : Program Binary64) :
    (o.after (.push program)).roster =
      .fresh ⟨o.nextPlayer⟩ program (Player.ownPads program) :: o.roster :=
  congrArg (_ :: ·) (o.roster_modifyTop fun _ => rfl)

/-- The top is taken off, and the others stay as they are, but for their loops. -/
theorem respond_pop (o : Outline) {id : PlayerId} (htop : o.top = some id) :
    (o.respond (.pop id)).2 = .ok (.flag true) ∧
      (o.respond (.pop id)).1.roster = o.roster.tail ∧
      (o.respond (.pop id)).1.overlays = o.overlays := by
  have hrespond : o.respond (.pop id) =
      ({ o with stack := o.stack.tail }.modifyTop (·.startedExcept o.overlays.pads),
        .ok (.flag true)) := by
    simp only [respond, Operation.refusal?, after, value, htop, if_true, decide_true]
  have hroster := roster_modifyTop { o with stack := o.stack.tail }
    (f := (·.startedExcept o.overlays.pads)) fun _ => rfl
  rw [hrespond]
  exact ⟨rfl, hroster.trans List.map_tail, rfl⟩

/-- The pads that are uncovered have no overlay any more, and the others keep theirs. -/
theorem get_overlays_foldl_uncovered (o : Outline) (pads : List Pad) (p : Pad) :
    (pads.foldl uncovered o).overlays.get p = if p ∈ pads then none else o.overlays.get p := by
  induction pads generalizing o with
  | nil => rfl
  | cons pad rest ih =>
    rw [List.foldl_cons, ih]
    by_cases hp : p = pad
    · simp [uncovered, hp]
    · simp [uncovered, hp, PerPad.get_set_of_ne]

/-- No overlay is left when all have been removed. -/
theorem get_overlays_after_uncoverAll (o : Outline) (p : Pad) :
    (o.after .uncoverAll).overlays.get p = none := by
  rw [after, get_overlays_foldl_uncovered]
  split
  next => rfl
  next hp => rwa [PerPad.mem_pads, Option.not_isSome_iff_eq_none] at hp

/-- The same programs lie over the same pads, under names that stand for each other. -/
def Kin (same : Pad → PlayerId → PlayerId → Prop) (o o' : Outline) : Prop :=
  ∀ p, Option.Rel (fun x x' => x.program = x'.program ∧ same p x.id x'.id)
    (o.overlays.get p) (o'.overlays.get p)

variable {same : Pad → PlayerId → PlayerId → Prop}

/-- Whether overlays are akin is a matter of the overlays alone. -/
theorem Kin.of_overlays_eq {after : Outline} (h : Kin same o o')
    (hoverlays : after.overlays = o'.overlays) : Kin same o after := by
  intro p
  rw [hoverlays]
  exact h p

/-- An overlay operation keeps overlays of a kind, if the players that come of it may stand for each
other. -/
theorem Kin.respond (h : Kin same o o') (hop : op.OnOverlays)
    (hsame : ∀ p id id', (o.respond op).2 = .ok (.player id) →
      (o'.respond op).2 = .ok (.player id') → same p id id') :
    Kin same (o.respond op).1 (o'.respond op).1 := by
  unfold Outline.respond at hsame ⊢
  cases hrefusal : op.refusal? with
  | some error => exact h
  | none =>
    rw [hrefusal] at hsame
    intro p
    cases op with
    | cover pad program =>
      by_cases hp : p = pad
      · subst hp
        simp only [after, PerPad.get_set_self]
        exact .some ⟨rfl, hsame p _ _ rfl rfl⟩
      · simp only [after, PerPad.get_set_of_ne _ _ hp]
        exact h p
    | uncover pad =>
      by_cases hp : p = pad
      · subst hp
        simp only [after, uncovered, PerPad.get_set_self]
        exact .none
      · simp only [after, uncovered, PerPad.get_set_of_ne _ _ hp]
        exact h p
    | uncoverAll =>
      rw [get_overlays_after_uncoverAll, get_overlays_after_uncoverAll]
      exact .none
    | setDefault _ | push _ | replace _ | pop _ | silence => exact hop.elim

/-- The outline after some operations. -/
def run (o : Outline) (ops : List Operation) : Outline := ops.foldl (fun o op => (o.respond op).1) o

def answers (o : Outline) (ops : List Operation) : List Answer := (o.record ops).map (·.1)

theorem length_answers (o : Outline) (ops : List Operation) :
    (o.answers ops).length = ops.length := by
  induction ops generalizing o with
  | nil => rfl
  | cons op rest ih => exact congrArg (· + 1) (ih (o.respond op).1)

/-- Later operations are answered from where the earlier ones have led. -/
theorem answers_append (o : Outline) (ops ops' : List Operation) :
    o.answers (ops ++ ops') = o.answers ops ++ (o.run ops).answers ops' := by
  induction ops generalizing o with
  | nil => rfl
  | cons op rest ih => exact congrArg ((o.respond op).2 :: ·) (ih (o.respond op).1)

theorem run_append (o : Outline) (ops ops' : List Operation) :
    o.run (ops ++ ops') = (o.run ops).run ops' := List.foldl_append

/-- Operations on overlays leave the stacked players as they are, but for their loops. -/
theorem roster_run (o : Outline) {ops : List Operation} (hops : ∀ op ∈ ops, op.OnOverlays) :
    (o.run ops).roster = o.roster := by
  induction ops generalizing o with
  | nil => rfl
  | cons op rest ih =>
    have hrest := ih (o.respond op).1 fun later hlater => hops later (List.mem_cons_of_mem _ hlater)
    exact hrest.trans (o.roster_respond (hops op List.mem_cons_self))

end Outline

end Stage

/-- A course of operations: overlays come and go, and again and again a program is pushed, things go
on above it, and it is popped. Loops take their steps in between. -/
inductive Course where
  | done
  | move (m : Move) (rest : Course)
  | overlay (op : Stage.Operation) (honly : op.OnOverlays) (rest : Course)
  | detour (program : Program Binary64) (hwide : 2 ≤ program.size) (above rest : Course)

/-- What is left of a course when nothing is pushed. -/
def Course.overlays : Course → List Stage.Operation
  | done => []
  | move _ rest => rest.overlays
  | overlay op _ rest => op :: rest.overlays
  | detour _ _ above rest => above.overlays ++ rest.overlays

theorem Course.onOverlays (course : Course) : ∀ op ∈ course.overlays, op.OnOverlays := by
  induction course with
  | done => simp [overlays]
  | move m rest ih => exact ih
  | overlay op honly rest ih => exact List.forall_mem_cons.2 ⟨honly, ih⟩
  | detour program hwide above rest ihabove ihrest =>
    exact List.forall_mem_append.2 ⟨ihabove, ihrest⟩

namespace Performance

open Stage

/-- Where a course has led, and what was answered on the way: to the pops, and to the operations on
overlays. -/
structure Followed where
  last : Performance
  popped : List Answer
  overlaid : List Answer

/-- Goes through a course. What is popped is what the push has answered; if that is an error, the
course cannot go on, and the error stands in for the answer to the pop. -/
def follow (s : Performance) : Course → Followed
  | .done => ⟨s, [], []⟩
  | .move m rest => (s.happen (.move m)).follow rest
  | .overlay op _ rest =>
    let (mid, answer) := s.respond op
    let later := mid.follow rest
    { later with overlaid := answer :: later.overlaid }
  | .detour program _ above rest =>
    match s.respond (.push program) with
    | (pushed, .ok (.player id)) =>
      let upper := pushed.follow above
      let (popped, answer) := upper.last.respond (.pop id)
      let later := popped.follow rest
      ⟨later.last, upper.popped ++ answer :: later.popped, upper.overlaid ++ later.overlaid⟩
    | (pushed, answer) => ⟨pushed, [answer], []⟩

variable {generous : Prop} {s : Performance}

/-- After any events the outline is what the operations among them make of it. -/
theorem Fluent.run_outline (h : s.Fluent generous) (events : List Event) :
    (s.run events).Fluent generous ∧ (s.run events).outline = s.outline.run (operations events) := by
  induction events generalizing s with
  | nil => exact ⟨h, rfl⟩
  | cons event rest ih =>
    cases event with
    | operation op =>
      obtain ⟨hafter, houtline, _⟩ := h.respond op
      rw [run, List.foldl_cons, happen_operation, operations_operation, Outline.run,
        List.foldl_cons, ← houtline]
      exact ih hafter
    | move m =>
      obtain ⟨hafter, hsame⟩ := h.move m
      rw [run, List.foldl_cons, operations_move, ← hsame]
      exact ih hafter

/-- The push in front of a detour is answered with the next number. -/
theorem Fluent.follow_detour (h : s.Fluent generous) {program : Program Binary64}
    (hwide : 2 ≤ program.size) (above rest : Course) :
    let upper := (s.respond (.push program)).1.follow above
    let popped := upper.last.respond (.pop ⟨s.outline.nextPlayer⟩)
    let later := popped.1.follow rest
    s.follow (.detour program hwide above rest) =
      ⟨later.last, upper.popped ++ popped.2 :: later.popped, upper.overlaid ++ later.overlaid⟩ := by
  have hanswer : (s.respond (.push program)).2 = .ok (.player ⟨s.outline.nextPlayer⟩) := by
    rw [(h.respond (.push program)).2.2, Outline.respond_push _ hwide]
  rw [follow]
  generalize s.respond (.push program) = pushed at hanswer
  obtain ⟨pushed, answer⟩ := pushed
  subst hanswer
  rfl

/-- A course has come back to the stack on which it began: every pop has been answered with true. -/
structure Followed.Back (generous : Prop) (s : Performance) (course : Course) (t : Followed) :
    Prop where
  fluent : t.last.Fluent generous
  popped : ∀ answer ∈ t.popped, answer = .ok (.flag true)
  roster : t.last.outline.roster = s.outline.roster
  overlaid : t.overlaid.length = course.overlays.length

/-- A push for several pads changes the outline as it should. -/
theorem Fluent.outline_push (h : s.Fluent generous) {program : Program Binary64}
    (hwide : 2 ≤ program.size) :
    (s.respond (.push program)).1.outline = s.outline.after (.push program) := by
  rw [(h.respond (.push program)).2.1, Outline.respond_push _ hwide]

/-- The pop behind a detour finds what was pushed on top, if things above it have come back to
it. -/
theorem Fluent.respond_pop (h : s.Fluent generous) {program : Program Binary64}
    (hwide : 2 ≤ program.size) {upper : Performance} (hupper : upper.Fluent generous)
    (hroster : upper.outline.roster = (s.respond (.push program)).1.outline.roster) :
    let popped := upper.respond (.pop ⟨s.outline.nextPlayer⟩)
    popped.1.Fluent generous ∧ popped.2 = .ok (.flag true) ∧
      popped.1.outline.roster = s.outline.roster ∧
      popped.1.outline.overlays = upper.outline.overlays := by
  intro popped
  rw [h.outline_push hwide, Outline.roster_after_push] at hroster
  have htop : upper.outline.top = some ⟨s.outline.nextPlayer⟩ := by
    rw [Outline.top_eq_roster, hroster]
    rfl
  obtain ⟨hanswer, htail, hoverlays⟩ := Outline.respond_pop upper.outline htop
  obtain ⟨hfluent, houtline, hsame⟩ := hupper.respond (.pop ⟨s.outline.nextPlayer⟩)
  refine ⟨hfluent, hsame.trans hanswer, ?_, ?_⟩
  · rw [houtline, htail, hroster, List.tail_cons]
  · rw [houtline, hoverlays]

/-- A course comes back to the stack on which it began, by induction on the course: a detour comes
back to the player that it has pushed, and the pop takes that off. -/
theorem Fluent.back_follow (h : s.Fluent generous) (course : Course) :
    (s.follow course).Back generous s course := by
  induction course generalizing s with
  | done => exact ⟨h, fun answer hanswer => (by cases hanswer), rfl, rfl⟩
  | move m rest ih =>
    obtain ⟨hafter, hsame⟩ := h.move m
    obtain ⟨hfluent, hpopped, hroster, hoverlaid⟩ := ih hafter
    exact ⟨hfluent, hpopped, hsame ▸ hroster, hoverlaid⟩
  | overlay op honly rest ih =>
    obtain ⟨hafter, houtline, _⟩ := h.respond op
    obtain ⟨hfluent, hpopped, hroster, hoverlaid⟩ := ih hafter
    refine ⟨hfluent, hpopped, hroster.trans ?_, congrArg (· + 1) hoverlaid⟩
    rw [houtline, Outline.roster_respond _ honly]
  | detour program hwide above rest ihabove ihrest =>
    obtain ⟨hupper, hpopped, hroster, hoverlaid⟩ := ihabove (h.respond (.push program)).1
    obtain ⟨hmid, htrue, hback, _⟩ := h.respond_pop hwide hupper hroster
    obtain ⟨hlast, hpopped', hroster', hoverlaid'⟩ := ihrest hmid
    rw [h.follow_detour hwide]
    refine ⟨hlast, ?_, hroster'.trans hback, ?_⟩
    · exact List.forall_mem_append.2 ⟨hpopped, List.forall_mem_cons.2 ⟨htrue, hpopped'⟩⟩
    · simp only [Course.overlays, List.length_append, hoverlaid, hoverlaid']

/-- A course brings the overlays of a kind to overlays of that kind, when elsewhere its overlay
operations are carried out by themselves. -/
theorem Fluent.kin_follow {same : Pad → PlayerId → PlayerId → Prop} (h : s.Fluent generous)
    (course : Course) {o : Outline} (hkin : o.Kin same s.outline)
    (hsame : ∀ p id id', (.ok (.player id), .ok (.player id')) ∈
      (o.answers course.overlays).zip (s.follow course).overlaid → same p id id') :
    (o.run course.overlays).Kin same (s.follow course).last.outline := by
  induction course generalizing s o with
  | done => exact hkin
  | move m rest ih =>
    obtain ⟨hafter, houtline⟩ := h.move m
    exact ih hafter (houtline ▸ hkin) hsame
  | overlay op honly rest ih =>
    obtain ⟨hafter, houtline, hanswer⟩ := h.respond op
    have hmid : (o.respond op).1.Kin same (s.respond op).1.outline := by
      rw [houtline]
      refine hkin.respond honly fun p id id' hid hid' => hsame p id id' (List.mem_cons.2 (.inl ?_))
      exact Prod.ext hid.symm (hid'.symm.trans hanswer.symm)
    exact ih hafter hmid fun p id id' hmem => hsame p id id' (List.mem_cons_of_mem _ hmem)
  | detour program hwide above rest ihabove ihrest =>
    have hpushed := (h.respond (.push program)).1
    obtain ⟨hupper, _, hroster, hoverlaid⟩ := hpushed.back_follow above
    obtain ⟨hmid, _, _, hoverlays⟩ := h.respond_pop hwide hupper hroster
    have hlength : (o.answers above.overlays).length = _ :=
      (o.length_answers above.overlays).trans hoverlaid.symm
    rw [h.follow_detour hwide] at hsame ⊢
    simp only [Course.overlays, Outline.answers_append, List.zip_append hlength,
      List.mem_append] at hsame
    simp only [Course.overlays, Outline.run_append]
    have hstart : o.Kin same (s.respond (.push program)).1.outline :=
      hkin.of_overlays_eq (by rw [h.outline_push hwide]; rfl)
    have habove := ihabove hpushed hstart fun p id id' hmem => hsame p id id' (.inl hmem)
    exact ihrest hmid (habove.of_overlays_eq hoverlays) fun p id id' hmem =>
      hsame p id id' (.inr hmem)

theorem get_overlays_outline (s : Performance) (p : Pad) :
    s.outline.overlays.get p = (s.stage.overlays.get p).map (·.outline) :=
  PerPad.get_map _ _ _

theorem head?_roster (s : Performance) :
    s.outline.roster.head? = s.stage.stack.head?.map (·.outline.silent) := by
  rw [Outline.roster, List.head?_map, outline, Stage.outline, List.head?_map, Option.map_map]
  rfl

/-- While threads are to be had, the driver of a pad can be told from the overlays and the
roster. -/
theorem Fluent.driver_eq (h : s.Fluent generous) (hgenerous : generous) (p : Pad) :
    s.stage.driver p = match s.outline.overlays.get p, s.outline.roster.head? with
      | some overlay, _ => some overlay.id
      | none, some top => if top.isBound p then some top.id else none
      | none, none => none := by
  rw [h.ready.1.driver_eq hgenerous, s.get_overlays_outline, s.head?_roster]
  cases s.stage.overlays.get p <;> cases s.stage.stack.head? <;> rfl

/-- Where the stacks are the same and the overlays akin, the drivers of a pad stand for each
other. -/
theorem Fluent.rel_driver {t : Performance} {same : Pad → PlayerId → PlayerId → Prop}
    (hs : s.Fluent generous) (ht : t.Fluent generous) (hgenerous : generous)
    (hroster : s.outline.roster = t.outline.roster) (hkin : s.outline.Kin same t.outline) {p : Pad}
    (htop : ∀ id, s.stage.top = some id → same p id id) :
    Option.Rel (same p) (s.stage.driver p) (t.stage.driver p) := by
  rw [hs.driver_eq hgenerous, ht.driver_eq hgenerous, ← hroster]
  have hover := hkin p
  generalize s.outline.overlays.get p = placed, t.outline.overlays.get p = placed' at hover
  cases hover with
  | some hsame => exact .some hsame.2
  | none =>
    have htop' : s.outline.roster.head?.map (·.id) = s.stage.top := by
      rw [← Outline.top_eq_roster]
      exact top_outline _ _
    cases hhead : s.outline.roster.head? with
    | none => exact .none
    | some top =>
      rw [hhead] at htop'
      dsimp only
      split
      · exact .some (htop top.id htop'.symm)
      · exact .none

/-- The names of one player in two runs from one stage: it was there from the start, at the top or
over the pad, or it is what the same overlay operation has been answered with. -/
def Renamed (start : Stage) (answers answers' : List Answer) (p : Pad) (id id' : PlayerId) : Prop :=
  id = id' ∧ (start.top = some id ∨ start.overlay p = some id) ∨
    (.ok (.player id), .ok (.player id')) ∈ answers.zip answers'

/-- Overlays that are akin play the same programs. -/
theorem rel_overlays {t : Performance} {same : Pad → PlayerId → PlayerId → Prop}
    (h : s.outline.Kin same t.outline) (p : Pad) :
    Option.Rel (fun x x' => x.program = x'.program ∧ same p x.id x'.id)
      (s.stage.overlays.get p) (t.stage.overlays.get p) := by
  have hover := h p
  simp only [get_overlays_outline] at hover
  generalize s.stage.overlays.get p = placed, t.stage.overlays.get p = placed' at hover
  cases placed <;> cases placed' <;> cases hover
  next => exact .none
  next hsame => exact .some hsame

theorem top_eq_of_roster_eq {t : Performance} (h : s.outline.roster = t.outline.roster) :
    s.stage.top = t.stage.top := by
  have hs : s.outline.top = s.stage.top := top_outline _ _
  have ht : t.outline.top = t.stage.top := top_outline _ _
  rw [← hs, ← ht, Outline.top_eq_roster, Outline.top_eq_roster, h]

theorem entries_eq_of_roster_eq {t : Performance} (h : s.outline.roster = t.outline.roster) :
    s.stage.stack.map (fun x => (x.id, x.program)) =
      t.stage.stack.map (fun x => (x.id, x.program)) := by
  have hentries := congrArg (List.map fun x => (x.id, x.program)) h
  simp only [Outline.roster, outline, Stage.outline, List.map_map] at hentries
  exact hentries

/-- Programs that are pushed and popped again leave no trace: every pop takes off what was pushed,
and in the end the stage is as if there had been the overlay operations alone, up to the names of
the overlays that these have made. It does not matter what the overlays did meanwhile. -/
theorem follow_leaves_no_trace (settings : PlaybackSettings) (actuator : Actuator)
    (agenda : List (List Move)) (history : List Event) (course : Course) (alone : List Event) :
    let s := (new settings actuator agenda []).run history
    let t := s.follow course
    let u := s.run alone
    let same := Renamed s.stage ((s.record alone).map (·.1)) t.overlaid
    operations alone = course.overlays →
      (∀ answer ∈ t.popped, answer = .ok (.flag true)) ∧
      u.stage.stack.map (fun x => (x.id, x.program)) =
        t.last.stage.stack.map (fun x => (x.id, x.program)) ∧
      (∀ p, Option.Rel (fun x x' => x.program = x'.program ∧ same p x.id x'.id)
        (u.stage.overlays.get p) (t.last.stage.overlays.get p)) ∧
      (∀ p, Option.Rel (same p) (u.stage.driver p) (t.last.stage.driver p)) ∧
      ∀ top ∈ s.stage.stack.head?, ∀ p, top.isBound p = true →
        t.last.stage.overlays.get p = none → t.last.stage.driver p = some top.id := by
  intro s t u same halone
  obtain ⟨hleads, hready, _⟩ := reached settings actuator agenda [] history fun _ _ _ => trivial
  have hs : s.Fluent (([] : List (Option String)) = []) := ⟨hready, hready.2.launches rfl⟩
  obtain ⟨hu, houtline⟩ := hs.run_outline alone
  obtain ⟨ht, hpopped, hroster, _⟩ := hs.back_follow course
  rw [halone] at houtline
  have hroster' : u.outline.roster = t.last.outline.roster := by
    rw [houtline, hroster]
    exact s.outline.roster_run course.onOverlays
  have hstart : s.outline.Kin same s.outline := by
    intro p
    rw [s.get_overlays_outline]
    cases hover : s.stage.overlays.get p with
    | none => exact .none
    | some overlay =>
      have hname : s.stage.overlay p = some overlay.id := by rw [Stage.overlay, hover]; rfl
      exact .some ⟨rfl, .inl ⟨rfl, .inr hname⟩⟩
  have hkin : u.outline.Kin same t.last.outline := by
    rw [houtline]
    refine hs.kin_follow course hstart fun p id id' hmem => .inr ?_
    rw [hs.record_eq, halone]
    exact hmem
  refine ⟨hpopped, entries_eq_of_roster_eq hroster', rel_overlays hkin,
    fun p => hu.rel_driver ht rfl hroster' hkin fun id hid => .inl ⟨rfl, .inl ?_⟩,
    fun top htop p hbound hnone => ?_⟩
  · rw [← hid]
    exact top_eq_of_roster_eq (hroster.symm.trans hroster'.symm)
  · rw [ht.driver_eq rfl, get_overlays_outline, hnone, hroster, head?_roster, htop]
    exact if_pos hbound

/-- Two detours, one within the other, while an overlay is removed and another one is put up. The
drivers come out as without the detours, except that the new overlay has a later name. -/
theorem follow_leaves_no_trace_encore :
    let track : Track Binary64 := ⟨[.switch ⟨0⟩ .white], ⟨0⟩⟩
    let full : Program Binary64 := ⟨.const (some track)⟩
    let duo : Program Binary64 := ⟨⟨some track, some track, none⟩⟩
    let s := (new .default (fun _ _ => .done) [] []).run
      [.operation (.setDefault full), .operation (.cover .left full)]
    let course : Course := .detour duo (by decide)
      (.overlay (.uncover .left) trivial (.detour full (by decide)
        (.overlay (.cover .right full) trivial .done) (.move (.advance 0) .done))) .done
    let alone : List Event := [.operation (.uncover .left), .operation (.cover .right full)]
    operations alone = course.overlays ∧
      Pad.all.map (s.run alone).stage.driver = [some ⟨1⟩, some ⟨1⟩, some ⟨3⟩] ∧
      Pad.all.map (s.follow course).last.stage.driver = [some ⟨1⟩, some ⟨1⟩, some ⟨5⟩] ∧
      (s.follow course).popped.length = 2 ∧
      ∀ answer ∈ (s.follow course).popped, answer = .ok (.flag true) := by
  intro track full duo s course alone
  have halone : operations alone = course.overlays := rfl
  refine ⟨halone, by decide +kernel, by decide +kernel, by decide +kernel, ?_⟩
  exact (follow_leaves_no_trace .default (fun _ _ => .done) []
    [.operation (.setDefault full), .operation (.cover .left full)] course alone halone).1

end Performance

end LightShow
