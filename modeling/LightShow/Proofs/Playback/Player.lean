import LightShow.Proofs.Playback.Holding

namespace LightShow

open Control Rig

variable {playable : Pad → Track Binary64 → Prop} {generous : Prop} {player : Player}
  {others : List Player}

/-- A loop may be started where no player has one. If it is refused a thread, threads are not always
to be had. -/
theorem LoopRef.start_spec {pad source : Pad} {track : Track Binary64}
    (hbinding : player.bindings.get pad = some source)
    (htrack : player.program.track source = some track) (hplayable : playable pad track)
    (hfree : ∀ q ∈ player :: others, q.loops.get pad = none) :
    Spec playable (HeldBy playable generous (player :: others))
      (LoopRef.start pad player.program source player.settings) fun answer rig =>
        match answer with
        | .ok ref => HeldBy playable generous
          ({ player with loops := player.loops.set pad (some ref) } :: others) rig
        | .error _ => ¬generous ∧ HeldBy playable generous (player :: others) rig := by
  unfold LoopRef.start
  rw [htrack]
  refine interlude_spec.bind fun _ => ?_
  let loop (rig : Rig) : Loop := .new pad track player.settings rig.clock
  have hlaunch : Spec playable (HeldBy playable generous (player :: others))
      (modifyGet fun rig => rig.launch (loop rig)) fun answer rig =>
        (∀ number, answer = .ok number → HeldBy playable generous ({ player with
          loops := player.loops.set pad (some ⟨number, pad⟩) } :: others) rig) ∧
        ∀ description, answer = .error description →
          ¬generous ∧ HeldBy playable generous (player :: others) rig := by
    refine Spec.modifyGet fun rig hrig => ?_
    have hstep : Step playable rig (rig.launch (loop rig)).2 :=
      .launch player.settings hplayable (hrig.quiet hfree)
    refine ⟨.single hstep, ?_⟩
    unfold Rig.launch
    cases hlaunches : rig.launches with
    | nil =>
      refine ⟨fun number hnumber => ?_, fun _ herror => (by cases herror)⟩
      cases hnumber
      exact hrig.append hbinding htrack hfree rfl fun _ => rfl
    | cons refusal rest =>
      have hnot : ¬generous := fun hgenerous => by
        rw [hrig.launches hgenerous] at hlaunches
        cases hlaunches
      cases refusal with
      | none =>
        refine ⟨fun number hnumber => ?_, fun _ herror => (by cases herror)⟩
        cases hnumber
        exact hrig.append hbinding htrack hfree rfl fun hgenerous => absurd hgenerous hnot
      | some description =>
        refine ⟨fun _ hnumber => (by cases hnumber), fun _ _ => ⟨hnot, ?_⟩⟩
        refine ⟨fun hgenerous => absurd hgenerous hnot, ?_, ?_, ?_, ?_⟩
        · exact hrig.joined
        · exact hrig.sound
        · exact hrig.plays
        · exact hrig.held
  refine hlaunch.bind fun answer => ?_
  cases answer with
  | ok number => exact .pure fun _ hrig => hrig.1 number rfl
  | error description => exact .pure fun _ hrig => hrig.2 description rfl

namespace Player

/-- The two are the same but for their loops. -/
def Alike (before after : Player) : Prop := ∃ loops, after = { before with loops }

theorem Alike.refl (before : Player) : before.Alike before := ⟨before.loops, rfl⟩

theorem Alike.trans {before mid after : Player} (h : before.Alike mid) (h' : mid.Alike after) :
    before.Alike after := by
  obtain ⟨_, rfl⟩ := h
  obtain ⟨loops, rfl⟩ := h'
  exact ⟨loops, rfl⟩

theorem Alike.id_eq {before after : Player} (h : before.Alike after) : after.id = before.id := by
  obtain ⟨_, rfl⟩ := h
  rfl

/-- The pads that a player binds do not depend on its loops. -/
theorem Alike.isBound_eq {before after : Player} (h : before.Alike after) (p : Pad) :
    after.isBound p = before.isBound p := by
  obtain ⟨_, rfl⟩ := h
  rfl

/-- What has become of a player that was to be started on some pads, on which it had no loops. -/
structure Started (before : Player) (generous : Prop) (pads : List Pad) (after : Player)
    (result : Except PlaybackError Unit) : Prop where
  same : before.Alike after
  elsewhere : ∀ q, q ∉ pads → after.loops.get q = before.loops.get q
  bound : ∀ q ∈ pads, after.isPlaying q = true → before.isBound q = true
  complete : result = .ok () → ∀ q ∈ pads, before.isBound q = true → after.isPlaying q = true
  /-- Only the lack of a thread stands in the way, and then some pad is left out. -/
  refused : ∀ error, result = .error error →
    ¬generous ∧ ∃ q ∈ pads, before.isBound q = true ∧ after.isPlaying q = false

/-- On a free pad a player may start a loop. If there is no thread for it, no loop comes into
being. -/
theorem startOn_spec {pad : Pad} (hfree : ∀ q ∈ player :: others, q.loops.get pad = none) :
    Spec playable (HeldBy playable generous (player :: others)) (player.startOn pad)
      fun out rig => player.Started generous [pad] out.1 out.2 ∧
        HeldBy playable generous (out.1 :: others) rig := by
  have hsound (rig : Rig) (hrig : HeldBy playable generous (player :: others) rig) :
      player.Sound playable := hrig.sound player List.mem_cons_self
  refine Spec.use hsound fun hsound => ?_
  have hsilent : player.isPlaying pad = false := by
    rw [isPlaying, hfree player List.mem_cons_self]
    rfl
  unfold startOn
  split
  next hbinding =>
    have hunbound : player.isBound pad = false := by rw [isBound, hbinding]; rfl
    refine .pure fun rig hrig => ⟨⟨.refl player, fun _ _ => rfl, ?_, ?_, ?_⟩, hrig⟩
    · intro q hq hplaying
      rw [List.mem_singleton.1 hq, hsilent] at hplaying
      cases hplaying
    · intro _ q hq hbound
      rw [List.mem_singleton.1 hq, hunbound] at hbound
      cases hbound
    · rintro error ⟨⟩
  next source hbinding =>
    have hbound : player.isBound pad = true := by rw [isBound, hbinding]; rfl
    obtain ⟨track, htrack, hplayable⟩ := hsound pad source hbinding
    refine (LoopRef.start_spec hbinding htrack hplayable hfree).bind fun answer => ?_
    cases answer with
    | ok ref =>
      refine .pure fun rig' hheld => ⟨⟨⟨_, rfl⟩, ?_, ?_, ?_, ?_⟩, hheld⟩
      · intro q hq
        exact PerPad.get_set_of_ne _ _ fun heq => hq (List.mem_singleton.2 heq)
      · intro q hq _
        rw [List.mem_singleton.1 hq]
        exact hbound
      · intro _ q hq _
        rw [List.mem_singleton.1 hq, isPlaying, PerPad.get_set_self]
        rfl
      · rintro error ⟨⟩
    | error error =>
      refine .pure fun rig' hheld => ⟨⟨.refl player, fun _ _ => rfl, ?_, ?_, ?_⟩, hheld.2⟩
      · intro q hq _
        rw [List.mem_singleton.1 hq]
        exact hbound
      · rintro ⟨⟩
      · intro _ _
        exact ⟨hheld.1, pad, List.mem_singleton.2 rfl, hbound, hsilent⟩

/-- A start on one pad and then on others is a start on all of them. -/
theorem Started.cons_of_ok {before mid after : Player} {pad : Pad} {rest : List Pad}
    {result : Except PlaybackError Unit} (hmid : before.Started generous [pad] mid (.ok ()))
    (hafter : mid.Started generous rest after result) (hpad : pad ∉ rest) :
    before.Started generous (pad :: rest) after result := by
  have hbound (q : Pad) : mid.isBound q = before.isBound q := hmid.same.isBound_eq q
  have hfirst : after.isPlaying pad = mid.isPlaying pad := by
    rw [isPlaying, hafter.elsewhere pad hpad, isPlaying]
  refine ⟨hmid.same.trans hafter.same, fun q hq => ?_, fun q hq hplaying => ?_,
    fun hok q hq hboundq => ?_, fun error herror => ?_⟩
  · rw [List.mem_cons, not_or] at hq
    rw [hafter.elsewhere q hq.2, hmid.elsewhere q fun hmem => hq.1 (List.mem_singleton.1 hmem)]
  · rcases List.mem_cons.1 hq with rfl | hq
    · rw [hfirst] at hplaying
      exact hmid.bound q (List.mem_singleton.2 rfl) hplaying
    · rw [← hbound]
      exact hafter.bound q hq hplaying
  · rcases List.mem_cons.1 hq with rfl | hq
    · rw [hfirst]
      exact hmid.complete rfl q (List.mem_singleton.2 rfl) hboundq
    · exact hafter.complete hok q hq (by rw [hbound, hboundq])
  · obtain ⟨hnot, q, hq, hboundq, hsilent⟩ := hafter.refused error herror
    exact ⟨hnot, q, List.mem_cons_of_mem _ hq, by rw [← hbound, hboundq], hsilent⟩

/-- If the start on the first pad fails, so does the whole, and the others stay free. -/
theorem Started.cons_of_error {before mid : Player} {pad : Pad} {rest : List Pad}
    {error : PlaybackError} (hmid : before.Started generous [pad] mid (.error error))
    (hfree : ∀ q ∈ rest, before.loops.get q = none) :
    before.Started generous (pad :: rest) mid (.error error) := by
  refine ⟨hmid.same, fun q hq => ?_, fun q hq hplaying => ?_, fun hok => ?_, fun _ _ => ?_⟩
  · rw [List.mem_cons, not_or] at hq
    exact hmid.elsewhere q fun hmem => hq.1 (List.mem_singleton.1 hmem)
  · by_cases hpad : q = pad
    · exact hmid.bound q (List.mem_singleton.2 hpad) hplaying
    · have hrest := (List.mem_cons.1 hq).resolve_left hpad
      rw [isPlaying, hmid.elsewhere q fun hmem => hpad (List.mem_singleton.1 hmem),
        hfree q hrest] at hplaying
      cases hplaying
  · cases hok
  · obtain ⟨hnot, q, hq, hrest⟩ := hmid.refused error rfl
    exact ⟨hnot, q, by rw [List.mem_singleton.1 hq]; exact List.mem_cons_self, hrest⟩

/-- A player may be started on pads that are free and distinct, by induction on their list. -/
theorem startOnAll_spec {pads : List Pad} (hnodup : pads.Nodup)
    (hfree : ∀ pad ∈ pads, ∀ q ∈ player :: others, q.loops.get pad = none) :
    Spec playable (HeldBy playable generous (player :: others)) (player.startOnAll pads)
      fun out rig => player.Started generous pads out.1 out.2 ∧
        HeldBy playable generous (out.1 :: others) rig := by
  induction pads generalizing player with
  | nil =>
    refine .pure fun rig hrig => ⟨⟨.refl player, fun _ _ => rfl, ?_, ?_, ?_⟩, hrig⟩
    · intro q hq
      cases hq
    · intro _ q hq
      cases hq
    · rintro error ⟨⟩
  | cons pad rest ih =>
    obtain ⟨hpad, hrest⟩ := List.nodup_cons.1 hnodup
    refine (startOn_spec (hfree pad List.mem_cons_self)).bind fun ⟨mid, result⟩ => ?_
    refine Spec.of_and fun hmid => ?_
    cases result with
    | error error =>
      refine .pure fun rig hrig => ⟨hmid.cons_of_error fun q hq => ?_, hrig⟩
      exact hfree q (List.mem_cons_of_mem _ hq) player List.mem_cons_self
    | ok u =>
      have hfreeMid : ∀ pad ∈ rest, ∀ q ∈ mid :: others, q.loops.get pad = none := by
        intro p hp q hq
        have hbefore := hfree p (List.mem_cons_of_mem _ hp)
        rcases List.mem_cons.1 hq with rfl | hq
        · rw [hmid.elsewhere p fun hmem => hpad (List.mem_singleton.1 hmem ▸ hp)]
          exact hbefore player List.mem_cons_self
        · exact hbefore q (List.mem_cons_of_mem _ hq)
      exact (ih hrest hfreeMid).mono (fun _ hrig => hrig) fun out rig hout =>
        ⟨hmid.cons_of_ok hout.1 hpad, hout.2⟩

/-- If threads are always to be had, every pad that is bound gets its loop. -/
theorem Started.complete_of_generous {before after : Player} {pads : List Pad}
    {result : Except PlaybackError Unit} (h : before.Started generous pads after result)
    (hgenerous : generous) {q : Pad} (hq : q ∈ pads) (hbound : before.isBound q = true) :
    after.isPlaying q = true := by
  cases result with
  | ok u => exact h.complete rfl q hq hbound
  | error error => exact absurd hgenerous (h.refused error rfl).1

/-- The player has no loop. -/
def Idle (p : Player) : Prop := ∀ pad, p.loops.get pad = none

/-- The player without its loops. -/
def silent (p : Player) : Player := { p with loops := .const none }

theorem idle_silent (p : Player) : p.silent.Idle :=
  PerPad.get_const none

/-- Loops of a player that are stopped one after another have ended then. -/
theorem stopEach_spec {refs : List (Pad × LoopRef)}
    (hrefs : ∀ entry ∈ refs, player.loops.get entry.1 = some entry.2) :
    Spec playable (HeldBy playable generous (player :: others))
      (refs.mapM fun (_, loop) => loop.stop)
      fun _ rig => HeldBy playable generous (player :: others) rig ∧
        ∀ entry ∈ refs, entry.2.Ended rig := by
  induction refs with
  | nil => exact .pure fun rig hrig => ⟨hrig, fun entry hentry => by cases hentry⟩
  | cons entry rest ih =>
    rw [List.mapM_cons]
    refine (LoopRef.stop_spec List.mem_cons_self (hrefs entry List.mem_cons_self)).bind fun _ => ?_
    have hrest := ih fun later hlater => hrefs later (List.mem_cons_of_mem _ hlater)
    refine (hrest.frame fun _ _ hleads hended => LoopRef.Ended.leads hended hleads).bind fun _ => ?_
    refine .pure fun rig hrig => ⟨hrig.1.1, fun other hother => ?_⟩
    rcases List.mem_cons.1 hother with rfl | hother
    · exact hrig.2
    · exact hrig.1.2 other hother

/-- A player that is stopped has no loop left, and the loops that it had have ended. -/
theorem stop_spec :
    Spec playable (HeldBy playable generous (player :: others)) player.stop
      fun out rig => out.1 = player.silent ∧
        HeldBy playable generous (player.silent :: others) rig := by
  refine (stopEach_spec fun _ hentry => PerPad.mem_entries.1 hentry).bind fun results => ?_
  refine .pure fun rig hrig => ⟨rfl, hrig.1.release (fun p ref href => ?_) fun p ref href => ?_⟩
  · rw [PerPad.get_const] at href
    cases href
  · exact .inr (hrig.2 (p, ref) (PerPad.mem_entries.2 href))

/-- What has become of a player that was stopped and then to be started outside some pads. -/
structure Restarted (before : Player) (generous : Prop) (excluded : List Pad) (after : Player)
    (result : Except PlaybackError Unit) : Prop where
  same : before.Alike after
  playing : ∀ q, after.isPlaying q = true → before.isBound q = true ∧ q ∉ excluded
  complete : result = .ok () → ∀ q, before.isBound q = true → q ∉ excluded →
    after.isPlaying q = true
  refused : ∀ error, result = .error error →
    ¬generous ∧ ∃ q, before.isBound q = true ∧ q ∉ excluded ∧ after.isPlaying q = false

/-- If threads are always to be had, a player plays again wherever it binds and is not excluded. -/
theorem Restarted.complete_of_generous {before after : Player} {excluded : List Pad}
    {result : Except PlaybackError Unit} (h : before.Restarted generous excluded after result)
    (hgenerous : generous) {q : Pad} (hbound : before.isBound q = true) (hq : q ∉ excluded) :
    after.isPlaying q = true := by
  cases result with
  | ok u => exact h.complete rfl q hbound hq
  | error error => exact absurd hgenerous (h.refused error rfl).1

/-- A player may be started anew where no other has a loop. -/
theorem startExcept_spec {excluded : List Pad}
    (hfree : ∀ pad, player.isBound pad = true → pad ∉ excluded →
      ∀ q ∈ others, q.loops.get pad = none) :
    Spec playable (HeldBy playable generous (player :: others)) (player.startExcept excluded)
      fun out rig => player.Restarted generous excluded out.1 out.2 ∧
        HeldBy playable generous (out.1 :: others) rig := by
  refine stop_spec.bind fun ⟨mid, _⟩ => Spec.of_and fun hmid => ?_
  have hmid : mid = player.silent := hmid
  subst hmid
  let pads := player.pads.filter fun pad => !excluded.contains pad
  have hmem (q : Pad) : q ∈ pads ↔ player.isBound q = true ∧ q ∉ excluded := by
    rw [List.mem_filter, Player.pads, PerPad.mem_pads, isBound]
    simp
  have hnodup : pads.Nodup := by
    unfold pads Player.pads PerPad.pads
    have hall : Pad.all.Nodup := by decide
    exact List.Pairwise.filter _ (List.Pairwise.filter _ hall)
  have hfreePads : ∀ pad ∈ pads, ∀ q ∈ player.silent :: others, q.loops.get pad = none := by
    intro pad hpad q hq
    rcases List.mem_cons.1 hq with rfl | hq
    · exact player.idle_silent pad
    · obtain ⟨hbound, hexcluded⟩ := (hmem pad).1 hpad
      exact hfree pad hbound hexcluded q hq
  refine (startOnAll_spec hnodup hfreePads).mono (fun _ hrig => hrig) fun out rig hout =>
    ⟨?_, hout.2⟩
  have hsame : player.Alike player.silent := ⟨_, rfl⟩
  refine ⟨hsame.trans hout.1.same, fun q hplaying => ?_, fun hok q hbound hq => ?_,
    fun error herror => ?_⟩
  · by_cases hq : q ∈ pads
    · exact (hmem q).1 hq
    · rw [isPlaying, hout.1.elsewhere q hq, player.idle_silent q] at hplaying
      cases hplaying
  · exact hout.1.complete hok q ((hmem q).2 ⟨hbound, hq⟩) hbound
  · obtain ⟨hnot, q, hq, hbound, hsilent⟩ := hout.1.refused error herror
    exact ⟨hnot, q, hbound, ((hmem q).1 hq).2, hsilent⟩

/-- A player may come in with its start. -/
theorem Idle.startExcept_spec {excluded : List Pad} (hidle : player.Idle)
    (hsound : player.Sound playable)
    (hfree : ∀ pad, player.isBound pad = true → pad ∉ excluded →
      ∀ q ∈ others, q.loops.get pad = none) :
    Spec playable (HeldBy playable generous others) (player.startExcept excluded)
      fun out rig => player.Restarted generous excluded out.1 out.2 ∧
        HeldBy playable generous (out.1 :: others) rig :=
  (Player.startExcept_spec hfree).mono (fun _ hrig => hrig.cons hsound hidle) fun _ _ hout => hout

/-- A player that leaves a pad has no loop there, and keeps the others. -/
theorem stopOn_spec (pad : Pad) :
    Spec playable (HeldBy playable generous (player :: others)) (player.stopOn pad)
      fun out rig => out.1 = { player with loops := player.loops.set pad none } ∧
        HeldBy playable generous (out.1 :: others) rig := by
  unfold stopOn
  split
  next hnone =>
    have hsame : player.loops.set pad none = player.loops := by
      refine PerPad.ext_get fun q => ?_
      by_cases hq : q = pad
      · rw [hq, PerPad.get_set_self, hnone]
      · exact PerPad.get_set_of_ne _ _ hq
    exact .pure fun rig hrig => ⟨by rw [hsame], hrig⟩
  next ref href =>
    refine (LoopRef.stop_spec List.mem_cons_self href).bind fun _ => ?_
    refine .pure fun rig hrig =>
      ⟨rfl, hrig.1.release (fun p ref' href' => ?_) fun p ref' href' => ?_⟩
    · obtain ⟨_, ⟨⟩⟩ | ⟨_, href'⟩ := PerPad.get_set_eq_some_iff.1 href'
      exact href'
    · by_cases hp : p = pad
      · rw [hp, href] at href'
        rw [← Option.some.inj href']
        exact .inr hrig.2
      · rw [PerPad.get_set_of_ne _ _ hp]
        exact .inl href'

/-- A player may take up a pad on which no other one has a loop. -/
theorem resumeOn_spec {pad : Pad} (hfree : ∀ q ∈ others, q.loops.get pad = none) :
    Spec playable (HeldBy playable generous (player :: others)) (player.resumeOn pad)
      fun out rig => player.Started generous [pad] out.1 out.2 ∧
        HeldBy playable generous (out.1 :: others) rig := by
  unfold resumeOn
  split
  next hplaying =>
    refine .pure fun rig hrig => ⟨⟨.refl player, fun _ _ => rfl, ?_, ?_, ?_⟩, hrig⟩
    · intro q _ hq
      obtain ⟨ref, href⟩ := Option.isSome_iff_exists.1 hq
      obtain ⟨_, _, source, _, _, _, hbinding, _⟩ :=
        hrig.plays player List.mem_cons_self q ref href
      rw [isBound, hbinding]
      rfl
    · intro _ q hq _
      rw [List.mem_singleton.1 hq]
      exact hplaying
    · rintro error ⟨⟩
  next hsilent =>
    refine startOn_spec fun q hq => ?_
    rcases List.mem_cons.1 hq with rfl | hq
    · exact Option.not_isSome_iff_eq_none.1 hsilent
    · exact hfree q hq

/-- Whatever a program plays on a pad may be played there. -/
def Allowed (playable : Pad → Track Binary64 → Prop) (program : Program Binary64) : Prop :=
  ∀ p source track, sourceFor? program p = some source → program.track source = some track →
    playable p track

/-- A pad is bound only to a track that the program has. -/
theorem exists_track_of_sourceFor? {program : Program Binary64} {p source : Pad}
    (h : sourceFor? program p = some source) : ∃ track, program.track source = some track := by
  unfold sourceFor? at h
  split at h
  · have hmem : source ∈ program.pads := List.mem_of_mem_head? h
    exact Option.isSome_iff_exists.1 (PerPad.mem_pads.1 hmem)
  · split at h
    next hsome =>
      cases h
      exact Option.isSome_iff_exists.1 hsome
    next => cases h

theorem Allowed.exists_track {program : Program Binary64} (h : Allowed playable program)
    {p source : Pad} (hsource : sourceFor? program p = some source) :
    ∃ track, program.track source = some track ∧ playable p track := by
  obtain ⟨track, htrack⟩ := exists_track_of_sourceFor? hsource
  exact ⟨track, htrack, h p source track hsource htrack⟩

variable {players : List Player} {program : Program Binary64} {settings : PlaybackSettings}

/-- A new player holds no loop yet. -/
theorem new_spec {bindings : PerPad (Option Pad)} :
    Spec playable (HeldBy playable generous players) (new program settings bindings)
      fun player rig => (player.program = program ∧ player.bindings = bindings ∧ player.Idle) ∧
        HeldBy playable generous players rig := by
  have hid : Spec playable (HeldBy playable generous players) newPlayerId
      fun _ => HeldBy playable generous players := by
    refine Spec.modifyGet fun rig hrig => ?_
    have hstep : Step playable rig { rig with nextPlayer := rig.nextPlayer + 1 } :=
      .bookkeeping rig rig.agenda (rig.nextPlayer + 1)
    exact ⟨.single hstep, hrig.of_step hstep rfl rfl⟩
  refine hid.bind fun id => .pure fun rig hrig => ⟨⟨rfl, rfl, fun pad => ?_⟩, hrig⟩
  exact PerPad.get_const none pad

/-- A player of an allowed program has allowed tracks on its own pads. -/
theorem onOwnPads_spec (hallowed : Allowed playable program) :
    Spec playable (HeldBy playable generous players) (onOwnPads program settings)
      fun out rig => (∀ player, out = .ok player → player.Idle ∧ player.Sound playable) ∧
        HeldBy playable generous players rig := by
  unfold onOwnPads
  split
  · exact .pure fun rig hrig => ⟨fun _ hout => (by cases hout), hrig⟩
  · split
    · exact .pure fun rig hrig => ⟨fun _ hout => (by cases hout), hrig⟩
    · next hgeneric =>
      refine new_spec.bind fun player => .pure fun rig ⟨hnew, hrig⟩ => ⟨?_, hrig⟩
      obtain ⟨hprogram, hbindings, hidle⟩ := hnew
      rintro _ ⟨⟩
      refine ⟨hidle, fun p source hbinding => ?_⟩
      rw [hprogram]
      refine hallowed.exists_track ?_
      rw [sourceFor?, if_neg hgeneric]
      rw [hbindings, PerPad.get_ofFn] at hbinding
      exact hbinding

/-- A player of an allowed program has an allowed track on the one pad that it binds. -/
theorem onPad_spec {pad : Pad} (hallowed : Allowed playable program) :
    Spec playable (HeldBy playable generous players) (onPad pad program settings)
      fun out rig => (∀ player, out = .ok player → player.Idle ∧ player.Sound playable ∧
        ∀ q, player.isBound q = true ↔ q = pad) ∧ HeldBy playable generous players rig := by
  unfold onPad
  split
  · exact .pure fun rig hrig => ⟨fun _ hout => (by cases hout), hrig⟩
  · next source hsource =>
    refine new_spec.bind fun player => .pure fun rig ⟨hnew, hrig⟩ => ⟨?_, hrig⟩
    obtain ⟨hprogram, hbindings, hidle⟩ := hnew
    rintro _ ⟨⟩
    refine ⟨hidle, fun p source' hbinding => ?_, fun q => ?_⟩
    · rw [hprogram]
      by_cases hp : p = pad
      · rw [hbindings, hp, PerPad.get_set_self] at hbinding
        cases hbinding
        exact hallowed.exists_track (hp ▸ hsource)
      · rw [hbindings, PerPad.get_set_of_ne _ _ hp, PerPad.get_const] at hbinding
        cases hbinding
    · rw [isBound, hbindings]
      by_cases hq : q = pad
      · simp [hq]
      · simp [PerPad.get_set_of_ne _ _ hq, hq]

end Player

end LightShow
