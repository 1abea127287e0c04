import LightShow.Proofs.Playback.Reach

namespace LightShow

namespace Stage

/-- The names on the stack, top first. -/
def names (s : Stage) : List PlayerId := s.stack.map (·.id)

/-- The player that an answer hands over. -/
def Answer.player? : Answer → Option PlayerId
  | .ok (.player id) => some id
  | _ => none

/-- How an operation changes the names on a stage: some go, and a new player, if one is made, may
come to lie on the stack or over a pad, but not both. -/
inductive Recast (s : Stage) (fresh : PlayerId) : Bool → Stage → Prop
  | fewer {made : Bool} {after : Stage} (hstack : after.names <:+ s.names)
    (hover : ∀ p id, after.overlay p = some id → s.overlay p = some id) :
    Recast s fresh made after
  | stacked {after : Stage} {kept : List PlayerId} (hstack : after.names = fresh :: kept)
    (hkept : kept <:+ s.names)
    (hover : ∀ p id, after.overlay p = some id → s.overlay p = some id) :
    Recast s fresh true after
  | overlaid {after : Stage} {pad : Pad} (hstack : after.names <:+ s.names)
    (hpad : after.overlay pad = some fresh)
    (hover : ∀ p id, p ≠ pad → after.overlay p = some id → s.overlay p = some id) :
    Recast s fresh true after

variable {s after : Stage} {fresh : PlayerId} {op : Operation} {answer : Answer}

theorem names_modifyTop (s : Stage) (loops : Player → PerPad (Option LoopRef)) :
    (s.modifyTop fun top => { top with loops := loops top }).names = s.names :=
  map_id_modifyTop fun _ => rfl

/-- An operation with a program makes a player unless it is refused. -/
theorem Operation.recruits_of_accepted {program : Program Binary64} (h : op.refusal? = none)
    (hprogram : op.program? = some program) : op.recruits = true := by
  rw [recruits, h, hprogram]
  rfl

/-- The overlay of one pad has been replaced. -/
theorem overlay_eq_of_set {p pad : Pad} {made : Option Player}
    (h : after.overlays = s.overlays.set pad made) (hp : p ≠ pad) :
    after.overlay p = s.overlay p := by
  rw [overlay, h, PerPad.get_set_of_ne _ _ hp, overlay]

/-- Uncovering a pad adds no overlay. -/
theorem overlay_of_bared {pad : Pad} (h : after.overlays = s.overlays.set pad none) :
    ∀ p id, after.overlay p = some id → s.overlay p = some id := by
  intro p id hid
  by_cases hp : p = pad
  · rw [overlay, h, hp, PerPad.get_set_self] at hid
    cases hid
  · rwa [overlay_eq_of_set h hp] at hid

/-- A new player takes the place of the whole stack, or there is none and the stack is gone. -/
theorem Started.recast_alone {made : Option Player} (h : Started fresh made answer) :
    s.Recast fresh true { s with stack := made.toList } := by
  cases h with
  | ok hid => exact .stacked (congrArg (· :: []) hid) List.nil_suffix fun _ _ hid => hid
  | error error => exact .fewer List.nil_suffix fun _ _ hid => hid

/-- However an operation goes, the names change as they should. One case for each operation: which
names go, and where the new one comes to lie. -/
theorem Becomes.recast (h : s.Becomes fresh op after answer) :
    s.Recast fresh op.recruits after := by
  have hsame (pad : Pad) (loop : Option LoopRef) :
      (s.modifyTop fun top => { top with loops := top.loops.set pad loop }).names <:+ s.names :=
    ⟨[], s.names_modifyTop fun top => top.loops.set pad loop⟩
  cases h with
  | refused | untouched => exact .fewer List.suffix_rfl fun _ _ hid => hid
  | setDefault haccepted h | replace haccepted h =>
    rw [Operation.recruits_of_accepted haccepted rfl]
    exact h.recast_alone
  | push loops haccepted h =>
    rw [Operation.recruits_of_accepted haccepted rfl]
    have hbelow : (s.modifyTop fun top => { top with loops }).names = s.names :=
      s.names_modifyTop fun _ => loops
    cases h with
    | ok hid =>
      refine .stacked ?_ List.suffix_rfl fun _ _ hid => hid
      rw [← hid, ← hbelow]
      rfl
    | error error =>
      exact .fewer ⟨[], hbelow⟩ fun _ _ hid => hid
  | popped loops result htop =>
    have htail : (modifyTop { s with stack := s.stack.tail } fun top => { top with loops }).names =
        s.names.tail := (names_modifyTop _ fun _ => loops).trans List.map_tail
    exact .fewer (htail ▸ s.names.tail_suffix) fun _ _ hid => hid
  | @cover pad _ _ _ loop haccepted h =>
    rw [Operation.recruits_of_accepted haccepted rfl]
    cases h with
    | ok hid =>
      refine .overlaid (hsame pad loop) (?_ : overlay _ pad = some fresh) fun p id hp hget => ?_
      · rw [overlay, PerPad.get_set_self, Option.map_some, hid]
      · rwa [overlay_eq_of_set rfl hp] at hget
    | error error => exact .fewer (hsame pad loop) (overlay_of_bared rfl)
  | uncover loop result => exact .fewer (hsame _ loop) (overlay_of_bared rfl)
  | uncoverAll result hstack hover =>
    refine .fewer ⟨[], hstack⟩ fun p id hid => ?_
    obtain ⟨player, hget, hid⟩ := Option.map_eq_some_iff.1 hid
    rw [overlay, hover p player hget, Option.map_some, hid]
  | silence =>
    refine .fewer List.nil_suffix fun p id hid => ?_
    rw [overlay, PerPad.get_const] at hid
    cases hid

/-- The only player that is handed over is the new one. -/
theorem Becomes.player?_eq (h : s.Becomes fresh op after answer) {id : PlayerId}
    (hid : answer.player? = some id) : id = fresh ∧ op.recruits = true := by
  have hstarted {program : Program Binary64} {made : Option Player}
      (haccepted : op.refusal? = none) (hprogram : op.program? = some program)
      (h : Started fresh made answer) : id = fresh ∧ op.recruits = true := by
    cases h with
    | ok => exact ⟨(Option.some.inj hid).symm, Operation.recruits_of_accepted haccepted hprogram⟩
    | error => cases hid
  cases h with
  | refused | untouched | silence => cases hid
  | setDefault haccepted h | replace haccepted h => exact hstarted haccepted rfl h
  | push _ haccepted h | cover _ haccepted h => exact hstarted haccepted rfl h
  | popped _ result | uncover _ result | uncoverAll result => cases result <;> cases hid

/-- The player that covering a pad hands over lies over that pad. -/
theorem Becomes.overlay_eq {pad : Pad} {program : Program Binary64}
    (h : s.Becomes fresh (.cover pad program) after answer) {id : PlayerId}
    (hid : answer.player? = some id) : after.overlay pad = some id := by
  cases h with
  | refused => cases hid
  | cover loop _ h =>
    cases h with
    | ok hfresh =>
      obtain rfl := Option.some.inj hid
      rw [overlay, PerPad.get_set_self, Option.map_some, hfresh]
    | error => cases hid

/-- A name on the stack was there before, unless it is the new player's. -/
theorem Recast.mem_names {made : Bool} (h : s.Recast fresh made after) {id : PlayerId}
    (hid : id ∈ after.names) : id ∈ s.names ∨ made = true ∧ id = fresh := by
  cases h with
  | fewer hstack | overlaid hstack => exact .inl (hstack.subset hid)
  | stacked hstack hkept =>
    rw [hstack] at hid
    rcases List.mem_cons.1 hid with rfl | hid
    · exact .inr ⟨rfl, rfl⟩
    · exact .inl (hkept.subset hid)

/-- Players are numbered from one up to `count` as they are made, and no two have one number. -/
structure Numbered (count : Nat) (s : Stage) : Prop where
  ordered : s.names.Pairwise fun id id' => id'.number < id.number
  apart : ∀ p id, s.overlay p = some id → id ∉ s.names
  distinct : ∀ p q id, s.overlay p = some id → s.overlay q = some id → p = q
  stacked_le : ∀ id ∈ s.names, id.number.toNat ≤ count
  overlay_le : ∀ p id, s.overlay p = some id → id.number.toNat ≤ count

/-- If the new player gets the next number, names stay distinct and in order: every other number is
smaller. -/
theorem Numbered.recast {count : Nat} {made : Bool} (h : s.Numbered count)
    (hrecast : s.Recast fresh made after)
    (hfresh : made = true → fresh.number.toNat = count + 1) :
    after.Numbered (count + made.toNat) := by
  have hle {n : Nat} (hn : n ≤ count) : n ≤ count + made.toNat := Nat.le_add_right_of_le hn
  cases hrecast with
  | fewer hstack hover =>
    refine ⟨h.ordered.sublist hstack.sublist, fun p id hid hmem => ?_, fun p q id hp hq => ?_,
      fun id hid => hle (h.stacked_le id (hstack.subset hid)),
      fun p id hid => hle (h.overlay_le p id (hover p id hid))⟩
    · exact h.apart p id (hover p id hid) (hstack.subset hmem)
    · exact h.distinct p q id (hover p id hp) (hover q id hq)
  | @stacked _ kept hstack hkept hover =>
    have hnew := hfresh rfl
    refine ⟨?_, fun p id hid hmem => ?_, fun p q id hp hq => ?_, fun id hid => ?_,
      fun p id hid => hle (h.overlay_le p id (hover p id hid))⟩
    · rw [hstack, List.pairwise_cons]
      refine ⟨fun id hid => ?_, h.ordered.sublist hkept.sublist⟩
      have hold := h.stacked_le id (hkept.subset hid)
      rw [UInt64.lt_iff_toNat_lt]
      omega
    · rw [hstack] at hmem
      rcases List.mem_cons.1 hmem with rfl | hmem
      · have hold := h.overlay_le p id (hover p id hid)
        omega
      · exact h.apart p id (hover p id hid) (hkept.subset hmem)
    · exact h.distinct p q id (hover p id hp) (hover q id hq)
    · rw [hstack] at hid
      rcases List.mem_cons.1 hid with rfl | hid
      · exact Nat.le_of_eq hnew
      · exact hle (h.stacked_le id (hkept.subset hid))
  | @overlaid _ pad hstack hpad hover =>
    have hnew := hfresh rfl
    have hover' (p : Pad) (id : PlayerId) (hid : after.overlay p = some id) :
        p = pad ∧ id = fresh ∨ s.overlay p = some id := by
      by_cases hp : p = pad
      · subst hp
        exact .inl ⟨rfl, Option.some.inj (hid.symm.trans hpad)⟩
      · exact .inr (hover p id hp hid)
    refine ⟨h.ordered.sublist hstack.sublist, fun p id hid hmem => ?_, fun p q id hp hq => ?_,
      fun id hid => hle (h.stacked_le id (hstack.subset hid)), fun p id hid => ?_⟩
    · rcases hover' p id hid with ⟨_, rfl⟩ | hid
      · have hold := h.stacked_le id (hstack.subset hmem)
        omega
      · exact h.apart p id hid (hstack.subset hmem)
    · rcases hover' p id hp with ⟨rfl, rfl⟩ | hp
      · rcases hover' q id hq with ⟨rfl, _⟩ | hq
        · rfl
        · have hold := h.overlay_le q id hq
          omega
      · rcases hover' q id hq with ⟨rfl, rfl⟩ | hq
        · have hold := h.overlay_le p id hp
          omega
        · exact h.distinct p q id hp hq
    · rcases hover' p id hid with ⟨_, rfl⟩ | hid
      · exact Nat.le_of_eq hnew
      · exact hle (h.overlay_le p id hid)

theorem numbered_new (settings : PlaybackSettings) : (Stage.new settings).Numbered 0 := by
  have hnone (p : Pad) (id : PlayerId) : (Stage.new settings).overlay p ≠ some id := by
    rw [Stage.new, overlay, PerPad.get_const]
    rintro ⟨⟩
  refine ⟨.nil, fun p id hid => absurd hid (hnone p id),
    fun p _ id hid _ => absurd hid (hnone p id), fun id hid => ?_,
    fun p id hid => absurd hid (hnone p id)⟩
  cases hid

/-- The first name is that of the top. -/
theorem head?_names (s : Stage) : s.names.head? = s.top := List.head?_map

end Stage

namespace Performance

/-- The players that the operations hand over, one after another. -/
def issued (s : Performance) (events : List Event) : List PlayerId :=
  (s.record events).filterMap fun seen => seen.1.player?

/-- How many players are made. -/
def made (events : List Event) : Nat := (operations events).countP (·.recruits)

variable {generous : Prop} {s : Performance} {count : Nat}

/-- All is in order, and `count` players have been made. -/
structure Numbered (generous : Prop) (count : Nat) (s : Performance) : Prop where
  ready : s.Ready (fun _ _ => True) generous
  next : s.rig.nextPlayer = UInt64.ofNat (count + 1)
  stage : s.stage.Numbered count

theorem made_operation (op : Stage.Operation) (rest : List Event) :
    made (.operation op :: rest) = op.recruits.toNat + made rest := by
  rw [made, operations_operation, List.countP_cons, Nat.add_comm, ← made]
  cases op.recruits <;> rfl

theorem made_append (events later : List Event) :
    made (events ++ later) = made events + made later := by
  rw [made, operations, List.filterMap_append, List.countP_append]
  rfl

theorem issued_operation (s : Performance) (op : Stage.Operation) (rest : List Event) :
    s.issued (.operation op :: rest) =
      (s.respond op).2.player?.toList ++ (s.respond op).1.issued rest := by
  rw [issued, record_operation, List.filterMap_cons]
  cases (s.respond op).2.player? <;> rfl

theorem run_operation (s : Performance) (op : Stage.Operation) (rest : List Event) :
    s.run (.operation op :: rest) = (s.respond op).1.run rest := by
  rw [← happen_operation]
  rfl

/-- An operation numbers a new player next. As long as the numbers are not used up none comes up a
second time. -/
theorem Numbered.respond (h : s.Numbered generous count) (op : Stage.Operation)
    (hlt : count + op.recruits.toNat < UInt64.size) :
    (s.respond op).1.Numbered generous (count + op.recruits.toNat) ∧
      (∀ id, (s.respond op).2.player? = some id →
        op.recruits = true ∧ id.number.toNat = count + 1) ∧
      ∀ id ∈ (s.respond op).1.stage.names,
        id ∈ s.stage.names ∨ op.recruits = true ∧ id.number.toNat = count + 1 := by
  obtain ⟨_, hnext, hbecomes⟩ := respond_becomes h.ready op
  -- The counter is a machine word, so its value is the number only as long as it does not wrap.
  have hfresh : op.recruits = true → s.rig.nextPlayer.toNat = count + 1 := by
    intro hrecruits
    rw [hrecruits] at hlt
    rw [h.next]
    exact UInt64.toNat_ofNat_of_lt hlt
  refine ⟨⟨ready_respond h.ready op, ?_, h.stage.recast hbecomes.recast hfresh⟩,
    fun id hid => ?_, fun id hid => ?_⟩
  · rw [hnext, h.next]
    cases op.recruits with
    | true => exact (UInt64.ofNat_add (count + 1) 1).symm
    | false => rfl
  · obtain ⟨rfl, hrecruits⟩ := hbecomes.player?_eq hid
    exact ⟨hrecruits, hfresh hrecruits⟩
  · rcases hbecomes.recast.mem_names hid with hold | ⟨hrecruits, rfl⟩
    · exact .inl hold
    · exact .inr ⟨hrecruits, hfresh hrecruits⟩

/-- Loops that go on by themselves make no player. -/
theorem Numbered.move (h : s.Numbered generous count) (m : Move) :
    (s.happen (.move m)).Numbered generous count :=
  ⟨(ready_happen h.ready (.move m) fun _ _ _ => trivial).2,
    (s.rig.nextPlayer_run [m]).trans h.next, h.stage⟩

/-- After any events there have been made as many players as operations that make one. -/
theorem Numbered.run (h : s.Numbered generous count) (events : List Event)
    (hlt : count + made events < UInt64.size) :
    (s.run events).Numbered generous (count + made events) := by
  induction events generalizing s count with
  | nil => exact h
  | cons event rest ih =>
    cases event with
    | move m => exact ih (h.move m) hlt
    | operation op =>
      rw [made_operation, ← Nat.add_assoc] at hlt ⊢
      obtain ⟨hafter, _⟩ := h.respond op (Nat.lt_of_le_of_lt (Nat.le_add_right _ _) hlt)
      rw [run_operation]
      exact ih hafter hlt

/-- The players that are handed over are new, each with a number above those before. -/
theorem Numbered.issued (h : s.Numbered generous count) (events : List Event)
    (hlt : count + made events < UInt64.size) :
    (∀ id ∈ s.issued events, count < id.number.toNat ∧ id.number.toNat ≤ count + made events) ∧
      (s.issued events).Pairwise fun id id' => id.number < id'.number := by
  induction events generalizing s count with
  | nil => exact ⟨fun _ hid => (by cases hid), .nil⟩
  | cons event rest ih =>
    cases event with
    | move m => exact ih (h.move m) hlt
    | operation op =>
      rw [made_operation, ← Nat.add_assoc] at hlt ⊢
      obtain ⟨hafter, hplayer, _⟩ := h.respond op (Nat.lt_of_le_of_lt (Nat.le_add_right _ _) hlt)
      obtain ⟨hrest, hordered⟩ := ih hafter hlt
      rw [issued_operation]
      cases hfirst : (s.respond op).2.player? with
      | none =>
        refine ⟨fun id hid => ?_, hordered⟩
        obtain ⟨hgt, hle⟩ := hrest id hid
        exact ⟨by omega, hle⟩
      | some first =>
        obtain ⟨hrecruits, hnumber⟩ := hplayer first hfirst
        rw [hrecruits] at hrest ⊢
        simp only [Bool.toNat_true] at hrest ⊢
        refine ⟨fun id hid => ?_, List.pairwise_cons.2 ⟨fun id hid => ?_, hordered⟩⟩
        · rcases List.mem_cons.1 hid with rfl | hid
          · omega
          · have hlater := hrest id hid
            omega
        · have hlater := hrest id hid
          rw [UInt64.lt_iff_toNat_lt]
          omega

/-- A player that is not on the stack, and not a new one, does not get there any more. -/
theorem Numbered.absent (h : s.Numbered generous count) (events : List Event)
    (hlt : count + made events < UInt64.size) {id : PlayerId} (hold : id.number.toNat ≤ count)
    (hid : id ∉ s.stage.names) : id ∉ (s.run events).stage.names := by
  induction events generalizing s count with
  | nil => exact hid
  | cons event rest ih =>
    cases event with
    | move m => exact ih (h.move m) hlt hold hid
    | operation op =>
      rw [made_operation, ← Nat.add_assoc] at hlt
      obtain ⟨hafter, _, hnames⟩ := h.respond op (Nat.lt_of_le_of_lt (Nat.le_add_right _ _) hlt)
      rw [run_operation]
      refine ih hafter hlt (Nat.le_add_right_of_le hold) fun hmem => ?_
      rcases hnames id hmem with hmem | ⟨_, hnew⟩
      · exact hid hmem
      · omega

theorem numbered_new (settings : PlaybackSettings) (actuator : Actuator)
    (agenda : List (List Move)) (launches : List (Option String)) :
    (new settings actuator agenda launches).Numbered (launches = []) 0 :=
  ⟨ready_new settings actuator agenda launches, rfl, Stage.numbered_new settings⟩

/-- The name of a player that is not on the stack is of no use any more: after whatever comes
later, nothing can be popped with it. -/
theorem Numbered.pop_eq (h : s.Numbered generous count) (later : List Event)
    (hlt : count + made later < UInt64.size) {id : PlayerId} (hold : id.number.toNat ≤ count)
    (hid : id ∉ s.stage.names) :
    (s.run later).respond (.pop id) = (s.run later, .ok (.flag false)) := by
  refine respond_pop_of_ne fun htop => h.absent later hlt hold hid ?_
  rw [← Stage.head?_names] at htop
  exact List.mem_of_mem_head? htop

/-- As long as the numbers last, every player that is handed over has a number above those before,
the stack is ordered by number, and no two players on the stage have one name. So a player that has
once left the stack, or has been put over a pad, can never be popped: the attempt changes nothing,
whatever has happened in between. -/
theorem pop_of_stale (settings : PlaybackSettings) (actuator : Actuator)
    (agenda : List (List Move)) (launches : List (Option String)) (events : List Event) :
    let s := new settings actuator agenda launches
    let t := s.run events
    made events < UInt64.size →
      t.rig.nextPlayer = UInt64.ofNat (made events + 1) ∧
      ((s.issued events).Pairwise fun id id' => id.number < id'.number) ∧
      (t.stage.names.Pairwise fun id id' => id'.number < id.number) ∧
      (∀ p q id, t.stage.overlay p = some id → t.stage.overlay q = some id → p = q) ∧
      (∀ p id, t.stage.overlay p = some id → id ∉ t.stage.names) ∧
      (∀ past between later id, events = past ++ between ++ later →
        id ∈ (s.run past).stage.names ∨ id ∈ s.issued past →
        id ∉ (s.run (past ++ between)).stage.names →
        t.respond (.pop id) = (t, .ok (.flag false))) ∧
      ∀ past pad program later id, events = past ++ .operation (.cover pad program) :: later →
        ((s.run past).respond (.cover pad program)).2 = .ok (.player id) →
        t.respond (.pop id) = (t, .ok (.flag false)) := by
  intro s t hlt
  have hnew : s.Numbered (launches = []) 0 := numbered_new settings actuator agenda launches
  rw [← Nat.zero_add (made events)] at hlt
  have ht := hnew.run events hlt
  rw [Nat.zero_add] at ht
  refine ⟨ht.next, (hnew.issued events hlt).2, ht.stage.ordered, ht.stage.distinct, ht.stage.apart,
    fun past between later id hevents hknown hgone => ?_,
    fun past pad program later id hevents hanswer => ?_⟩
  · have ht' : t = (s.run (past ++ between)).run later := by rw [← run_append, ← hevents]
    rw [hevents, made_append, made_append] at hlt
    have hpast := hnew.run past (by omega)
    have hmid := hnew.run (past ++ between) (by rw [made_append]; omega)
    -- The player was made before it left, so every player that is made later has a higher number.
    have hold : id.number.toNat ≤ 0 + made (past ++ between) := by
      rw [made_append]
      rcases hknown with hstacked | hissued
      · have hle := hpast.stage.stacked_le id hstacked
        omega
      · have hle := ((hnew.issued past (by omega)).1 id hissued).2
        omega
    rw [ht']
    exact hmid.pop_eq later (by rw [made_append]; omega) hold hgone
  · have ht' : t = ((s.run past).respond (.cover pad program)).1.run later := by
      rw [← run_operation, ← run_append, ← hevents]
    rw [hevents, made_append, made_operation] at hlt
    have hpast := hnew.run past (by omega)
    obtain ⟨hafter, _⟩ := hpast.respond (.cover pad program) (by omega)
    obtain ⟨_, _, hbecomes⟩ := respond_becomes hpast.ready (.cover pad program)
    have hplayer : ((s.run past).respond (.cover pad program)).2.player? = some id := by
      rw [hanswer]
      rfl
    have hover := hbecomes.overlay_eq hplayer
    rw [ht']
    exact hafter.pop_eq later (by omega) (hafter.stage.overlay_le pad id hover)
      (hafter.stage.apart pad id hover)

/-- A player whose stack has been replaced is named in vain, even while others are pushed and one of
them could not be started. -/
theorem pop_of_stale_replaced :
    let full : Program Binary64 := ⟨.const (some ⟨[.switch ⟨0⟩ .white], ⟨0⟩⟩)⟩
    let s := new .default (fun _ _ => .done) [] [none, none, some "no thread"]
    let past : List Event := [.operation (.push full), .operation (.push full)]
    let between : List Event := [.operation (.cover .left full), .operation (.replace full)]
    let later : List Event := [.operation (.push full), .operation (.uncover .left)]
    let t := s.run (past ++ between ++ later)
    made (past ++ between ++ later) < UInt64.size ∧
      s.issued (past ++ between ++ later) = [⟨2⟩, ⟨3⟩, ⟨4⟩, ⟨5⟩] ∧ t.stage.names = [⟨5⟩, ⟨4⟩] ∧
      t.respond (.pop ⟨2⟩) = (t, .ok (.flag false)) := by
  intro full s past between later t
  have hmade : made (past ++ between ++ later) < UInt64.size := by decide
  have hissued : (⟨2⟩ : PlayerId) ∈ s.issued past := by decide +kernel
  have hgone : (⟨2⟩ : PlayerId) ∉ (s.run (past ++ between)).stage.names := by decide +kernel
  refine ⟨hmade, by decide +kernel, by decide +kernel, ?_⟩
  obtain ⟨_, _, _, _, _, hstale, _⟩ :=
    pop_of_stale .default (fun _ _ => .done) [] [none, none, some "no thread"] _ hmade
  exact hstale past between later ⟨2⟩ rfl (.inr hissued) hgone

end Performance

end LightShow
