import LightShow.Proofs.Playback.Run

namespace LightShow

/-- What can be told of a player without its loops: who it is, what it plays on which pads, and on
which of them a loop has been started and not stopped. How the loops fare is left out. -/
structure Player.Outline where
  id : PlayerId
  program : Program Binary64
  bindings : PerPad (Option Pad)
  playing : PerPad Bool
  deriving DecidableEq, Repr

namespace Player

def outline (p : Player) : Outline where
  id := p.id
  program := p.program
  bindings := p.bindings
  playing := p.loops.map (·.isSome)

namespace Outline

def isBound (o : Outline) (pad : Pad) : Bool := (o.bindings.get pad).isSome

/-- Every track that is bound to a pad is one that the program has. -/
def Sound (o : Outline) : Prop :=
  ∀ p source, o.bindings.get p = some source → (o.program.track source).isSome = true

/-- A player that has just been made. -/
def fresh (id : PlayerId) (program : Program Binary64) (bindings : PerPad (Option Pad)) : Outline :=
  ⟨id, program, bindings, .const false⟩

def silent (o : Outline) : Outline := { o with playing := .const false }

/-- The player after it has been started on all its pads but the excluded ones. -/
def startedExcept (o : Outline) (excluded : List Pad) : Outline :=
  { o with playing := .ofFn fun p => o.isBound p && !excluded.contains p }

def stoppedOn (o : Outline) (pad : Pad) : Outline :=
  { o with playing := o.playing.set pad false }

/-- The player after it has been started on a pad, if it binds that. -/
def startedOn (o : Outline) (pad : Pad) : Outline :=
  { o with playing := o.playing.set pad (o.playing.get pad || o.isBound pad) }

theorem Sound.startedOn {o : Outline} (h : o.Sound) (pad : Pad) : (o.startedOn pad).Sound := h

/-- The player after it has been started on some pads, as far as it binds them. -/
def startedOnAll (o : Outline) (pads : List Pad) : Outline :=
  { o with playing := .ofFn fun q => o.playing.get q || (pads.contains q && o.isBound q) }

theorem startedOnAll_nil (o : Outline) : o.startedOnAll [] = o := by
  have hsame : (PerPad.ofFn fun q => o.playing.get q || ([].contains q && o.isBound q)) =
      o.playing := PerPad.ext_get fun q => by simp
  rw [startedOnAll, hsame]

/-- To start on one pad and then on the rest is to start on all of them. -/
theorem startedOnAll_startedOn (o : Outline) (pad : Pad) (rest : List Pad) :
    (o.startedOn pad).startedOnAll rest = o.startedOnAll (pad :: rest) := by
  have hsame (q : Pad) : ((o.startedOn pad).playing.get q || (rest.contains q && o.isBound q)) =
      (o.playing.get q || ((pad :: rest).contains q && o.isBound q)) := by
    by_cases hq : q = pad
    · subst hq
      cases hbound : o.isBound q <;> simp [startedOn, hbound]
    · have hcons : (pad :: rest).contains q = rest.contains q := by simp [hq]
      rw [hcons, startedOn, PerPad.get_set_of_ne _ _ hq]
  exact congrArg (fun playing => { o with playing := PerPad.ofFn playing }) (funext hsame)

/-- To stop and then to start outside some pads is to start with these excluded. -/
theorem startedOnAll_silent (o : Outline) (excluded : List Pad) :
    o.silent.startedOnAll (o.bindings.pads.filter fun pad => !excluded.contains pad) =
      o.startedExcept excluded := by
  have hsame (q : Pad) : (o.silent.playing.get q ||
      ((o.bindings.pads.filter fun pad => !excluded.contains pad).contains q && o.isBound q)) =
      (o.isBound q && !excluded.contains q) := by
    rw [silent, PerPad.get_const, Bool.false_or, Bool.eq_iff_iff]
    simp only [Bool.and_eq_true, List.contains_iff_mem, List.mem_filter, PerPad.mem_pads, isBound]
    exact ⟨fun h => ⟨h.2, h.1.2⟩, fun h => ⟨⟨h.1, h.2⟩, h.1⟩⟩
  exact congrArg (fun playing => { o with playing := PerPad.ofFn playing }) (funext hsame)

end Outline

/-- The bindings of a player that plays each track on its own pad. -/
def ownPads (program : Program Binary64) : PerPad (Option Pad) :=
  .ofFn fun pad => if (program.track pad).isSome then some pad else none

/-- Why a program cannot be played on its own pads. -/
def refusalOnOwnPads? (program : Program Binary64) : Option PlaybackError :=
  if program.isEmpty then some .emptyProgram
  else if program.isGeneric then some .genericProgram
  else none

/-- A program is refused on its own pads if it is empty or generic, and in no other case. -/
theorem refusalOnOwnPads?_cases (program : Program Binary64) :
    program.isEmpty = true ∧ refusalOnOwnPads? program = some .emptyProgram ∨
    program.isEmpty = false ∧ program.isGeneric = true ∧
      refusalOnOwnPads? program = some .genericProgram ∨
    program.isEmpty = false ∧ program.isGeneric = false ∧ refusalOnOwnPads? program = none := by
  unfold refusalOnOwnPads?
  cases program.isEmpty with
  | true => simp
  | false =>
    cases program.isGeneric with
    | true => simp
    | false => simp

/-- A program that is refused makes no player. -/
theorem onOwnPads_of_refusal {program : Program Binary64} {error : PlaybackError}
    (settings : PlaybackSettings) (h : refusalOnOwnPads? program = some error) :
    onOwnPads program settings = pure (.error error) := by
  unfold onOwnPads
  rcases refusalOnOwnPads?_cases program with ⟨hempty, hrefusal⟩ | ⟨hempty, hgeneric, hrefusal⟩ |
    ⟨_, _, hrefusal⟩
  · cases hrefusal.symm.trans h
    rw [hempty]
    rfl
  · cases hrefusal.symm.trans h
    rw [hempty, hgeneric]
    rfl
  · cases hrefusal.symm.trans h

/-- A program that is not refused makes a player with its own pads bound. -/
theorem onOwnPads_of_accepted {program : Program Binary64} (settings : PlaybackSettings)
    (h : refusalOnOwnPads? program = none) :
    onOwnPads program settings =
      (do return .ok (← new program settings (ownPads program))) := by
  unfold onOwnPads
  rcases refusalOnOwnPads?_cases program with ⟨_, hrefusal⟩ | ⟨_, _, hrefusal⟩ |
    ⟨hempty, hgeneric, _⟩
  · cases hrefusal.symm.trans h
  · cases hrefusal.symm.trans h
  · rw [hempty, hgeneric]
    rfl

/-- The bindings of a player that plays one track on one pad. -/
def singlePad (pad : Pad) (program : Program Binary64) : PerPad (Option Pad) :=
  (PerPad.const none).set pad (sourceFor? program pad)

end Player

namespace Stage

/-- What an operation hands back. -/
inductive Value where
  | player (id : PlayerId)
  | flag (value : Bool)
  | nothing
  deriving DecidableEq, Repr

abbrev Answer := Except PlaybackError Value

/-- Carries out an operation and hands back what comes of it. -/
def respond (s : Stage) : Operation → Control (Stage × Answer)
  | .setDefault program => do
    let (s, result) ← s.setDefault program
    return (s, result.map .player)
  | .push program => do
    let (s, result) ← s.push program
    return (s, result.map .player)
  | .replace program => do
    let (s, result) ← s.replace program
    return (s, result.map .player)
  | .pop id => do
    let (s, result) ← s.pop id
    return (s, result.map .flag)
  | .cover pad program => do
    let (s, result) ← s.cover pad program
    return (s, result.map .player)
  | .uncover pad => do
    let (s, result) ← s.uncover pad
    return (s, result.map .flag)
  | .uncoverAll => do
    let (s, result) ← s.uncoverAll
    return (s, result.map fun () => .nothing)
  | .silence => do
    let s ← s.silence
    return (s, .ok .nothing)

/-- To perform an operation is to respond to it and drop the answer. -/
theorem perform_eq (s : Stage) (op : Operation) :
    s.perform op = (do return (← s.respond op).1) := by
  cases op <;> rfl

/-- What anyone can ask of a stage at any time. -/
structure View where
  top : Option PlayerId
  depth : Nat
  overlay : PerPad (Option PlayerId)
  driver : PerPad (Option PlayerId)
  deriving DecidableEq, Repr

def view (s : Stage) : View := ⟨s.top, s.depth, .ofFn s.overlay, .ofFn s.driver⟩

namespace Operation

/-- The program of an operation does not do for it. -/
def Invalid : Operation → Prop
  | setDefault program => ∃ p, program.track p = none
  | push program | replace program => program.size < 2
  | cover pad program => program.size ≠ 1 ∧ program.track pad = none
  | pop _ | uncover _ | uncoverAll | silence => False

/-- What an operation answers if its program does not do for it. -/
def refusal? : Operation → Option PlaybackError
  | setDefault program => if program.isFull then none else some (.padsMissing program.size)
  | push program | replace program => Player.refusalOnOwnPads? program
  | cover pad program =>
    if (Player.sourceFor? program pad).isSome then none else some (.noTrackFor pad)
  | pop _ | uncover _ | uncoverAll | silence => none

/-- What can be refused beforehand are faults of the request. -/
theorem kind_of_refusal? {op : Operation} {e : PlaybackError} (h : op.refusal? = some e) :
    e.kind = .request := by
  cases op with
  | setDefault _ | cover _ _ =>
    simp only [refusal?, Option.ite_none_left_eq_some, Option.some.injEq] at h
    rw [← h.2]
    rfl
  | push program | replace program =>
    simp only [refusal?] at h
    rcases Player.refusalOnOwnPads?_cases program with ⟨_, hrefusal⟩ | ⟨_, _, hrefusal⟩ |
      ⟨_, _, hrefusal⟩
    · cases hrefusal.symm.trans h
      rfl
    · cases hrefusal.symm.trans h
      rfl
    · cases hrefusal.symm.trans h
  | pop _ | uncover _ | uncoverAll | silence => cases h

end Operation

end Stage

namespace Program

/-- A program is empty if it has no track. -/
theorem isEmpty_iff {program : Program Binary64} : program.isEmpty = true ↔ program.size = 0 := by
  rw [isEmpty, List.isEmpty_iff, size, List.length_eq_zero_iff]

/-- A program is full if every pad has a track. -/
theorem isFull_iff {program : Program Binary64} :
    program.isFull = true ↔ ∀ p, (program.track p).isSome = true := by
  simp only [isFull, List.all_eq_true, Pad.mem_all, true_implies]

theorem size_of_isFull {program : Program Binary64} (h : program.isFull = true) :
    program.size = 3 := by
  have hpads : program.pads = Pad.all := List.filter_eq_self.2 fun p _ => isFull_iff.1 h p
  rw [size, hpads]
  rfl

end Program

/-- A full program is never refused on its own pads. -/
theorem Player.refusalOnOwnPads?_of_isFull {program : Program Binary64}
    (h : program.isFull = true) : refusalOnOwnPads? program = none := by
  have hsize := Program.size_of_isFull h
  rcases refusalOnOwnPads?_cases program with ⟨hempty, _⟩ | ⟨_, hgeneric, _⟩ | ⟨_, _, hrefusal⟩
  · rw [Program.isEmpty_iff, hsize] at hempty
    cases hempty
  · rw [Program.isGeneric, hsize] at hgeneric
    cases hgeneric
  · exact hrefusal

namespace Stage

namespace Operation

/-- A program can be bound to a pad if it is generic or has a track for it. -/
theorem isSome_sourceFor?_iff {program : Program Binary64} {pad : Pad} :
    (Player.sourceFor? program pad).isSome = true ↔
      program.size = 1 ∨ (program.track pad).isSome = true := by
  unfold Player.sourceFor?
  split
  next hgeneric =>
    have hsize : program.size = 1 := of_decide_eq_true hgeneric
    obtain ⟨source, hpads⟩ := List.length_eq_one_iff.1 hsize
    simp [hsize, hpads]
  next hgeneric =>
    have hsize : program.size ≠ 1 := fun hsize => hgeneric (decide_eq_true hsize)
    split
    next htrack => simp [htrack]
    next htrack => simp [hsize, htrack]

/-- An operation is refused exactly if its program does not do for it. -/
theorem isSome_refusal?_iff {op : Operation} : op.refusal?.isSome = true ↔ op.Invalid := by
  cases op with
  | setDefault program =>
    have hfull : program.isFull = true ↔ ¬∃ p, program.track p = none := by
      rw [Program.isFull_iff]
      simp [Option.ne_none_iff_isSome]
    by_cases h : program.isFull = true
    · simp only [refusal?, h, if_true, Option.isSome_none, Invalid, Bool.false_eq_true, false_iff]
      exact hfull.1 h
    · simp only [refusal?, h, if_false, Option.isSome_some, Invalid, true_iff, Bool.false_eq_true]
      exact Classical.not_not.1 fun hnot => h (hfull.2 hnot)
  | push program | replace program =>
    have hempty : program.isEmpty = true ↔ program.size = 0 := Program.isEmpty_iff
    simp only [refusal?, Invalid]
    rcases Player.refusalOnOwnPads?_cases program with ⟨hsome, hrefusal⟩ |
      ⟨_, hgeneric, hrefusal⟩ | ⟨hsome, hgeneric, hrefusal⟩
    · rw [hrefusal, hempty.1 hsome]
      decide
    · have hsize : program.size = 1 := of_decide_eq_true hgeneric
      rw [hrefusal, hsize]
      decide
    · have hzero : program.size ≠ 0 := fun hsize => by simp [hempty.2 hsize] at hsome
      have hone : program.size ≠ 1 := of_decide_eq_false hgeneric
      simp only [hrefusal, Option.isSome_none, Bool.false_eq_true, false_iff]
      omega
  | cover pad program =>
    have hsource : (Player.sourceFor? program pad).isSome = true ↔
        program.size = 1 ∨ (program.track pad).isSome = true := isSome_sourceFor?_iff
    by_cases h : (Player.sourceFor? program pad).isSome = true
    · simp only [refusal?, h, if_true, Option.isSome_none, Invalid, Bool.false_eq_true, false_iff]
      rintro ⟨hsize, htrack⟩
      rcases hsource.1 h with hone | hsome
      · exact hsize hone
      · rw [htrack] at hsome
        cases hsome
    · simp only [refusal?, h, if_false, Option.isSome_some, Invalid, true_iff, Bool.false_eq_true]
      rw [hsource, not_or, Option.not_isSome_iff_eq_none] at h
      exact h
  | pop _ | uncover _ | uncoverAll | silence => simp [refusal?, Invalid]

end Operation

/-- What can be told of a stage without its loops, and the number of the next player. -/
structure Outline where
  /-- The stacked players, top first. -/
  stack : List Player.Outline
  overlays : PerPad (Option Player.Outline)
  nextPlayer : UInt64
  deriving DecidableEq, Repr

namespace Outline

def top (o : Outline) : Option PlayerId := o.stack.head?.map (·.id)

/-- A new player is made and started above what is left of the stack. -/
def play (o : Outline) (program : Program Binary64) (left : List Player.Outline) : Outline :=
  let player := Player.Outline.fresh ⟨o.nextPlayer⟩ program (Player.ownPads program)
  { o with
    stack := player.startedExcept o.overlays.pads :: left
    nextPlayer := o.nextPlayer + 1 }

/-- The outline after something has been done to the top of the stack, if there is one. -/
def modifyTop (o : Outline) (f : Player.Outline → Player.Outline) : Outline :=
  { o with stack := o.stack.modifyHead f }

@[simp] theorem overlays_modifyTop (o : Outline) (f : Player.Outline → Player.Outline) :
    (o.modifyTop f).overlays = o.overlays := rfl

def uncovered (o : Outline) (pad : Pad) : Outline :=
  { o.modifyTop (·.startedOn pad) with overlays := o.overlays.set pad none }

/-- The outline after an operation that is not refused. -/
def after (o : Outline) : Operation → Outline
  | .setDefault program => o.play program []
  | .push program => o.play program (o.modifyTop (·.silent)).stack
  | .replace program => o.play program []
  | .pop id =>
    if o.top = some id then
      { o with stack := o.stack.tail }.modifyTop (·.startedExcept o.overlays.pads)
    else o
  | .cover pad program =>
    let player := Player.Outline.fresh ⟨o.nextPlayer⟩ program (Player.singlePad pad program)
    { o.modifyTop (·.stoppedOn pad) with
      overlays := o.overlays.set pad (some (player.startedExcept []))
      nextPlayer := o.nextPlayer + 1 }
  | .uncover pad => o.uncovered pad
  | .uncoverAll => o.overlays.pads.foldl uncovered o
  | .silence => { o with stack := [], overlays := .const none }

/-- What an operation hands back if it is not refused. -/
def value (o : Outline) : Operation → Value
  | .setDefault _ | .push _ | .replace _ | .cover _ _ => .player ⟨o.nextPlayer⟩
  | .pop id => .flag (o.top = some id)
  | .uncover pad => .flag (o.overlays.get pad).isSome
  | .uncoverAll | .silence => .nothing

/-- How an operation goes, as far as this can be told without the loops. -/
def respond (o : Outline) (op : Operation) : Outline × Answer :=
  match op.refusal? with
  | some error => (o, .error error)
  | none => (o.after op, .ok (o.value op))

end Outline

end Stage

end LightShow
