import LightShow.Proofs.Playback.Tending
import Mathlib.Data.Set.Insert
import Mathlib.Order.WellFounded

namespace LightShow

open Control Rig

/-- Nothing that is done brings it about that threads are refused. -/
theorem Rig.launches_handle {rig : Rig} (h : rig.launches = []) (event : Handling) :
    (rig.handle event).launches = [] := by
  have hwilling : rig.Willing rig.nextPlayer := ⟨h, rfl⟩
  cases event with
  | move m => exact (hwilling.run [m]).launches
  | start pad program source settings =>
    cases htrack : program.track source with
    | none =>
      rw [handle, LoopRef.start, htrack]
      exact h
    | some track =>
      exact (LoopRef.yields_start (htrack ▸ rfl) rig hwilling).1.launches
  | requestStop loop => exact (loop.yields_requestStop rig hwilling).1.launches
  | stop loop => exact (loop.yields_stop rig hwilling).1.launches

theorem Rig.launches_handleAll {rig : Rig} (h : rig.launches = []) (events : List Handling) :
    (rig.handleAll events).launches = [] := by
  induction events generalizing rig with
  | nil => exact h
  | cons event rest ih => exact ih (launches_handle h event)

namespace Player

/-- What can be asked of a player. -/
inductive Request where
  | start
  | startExcept (excluded : List Pad)
  | stop
  | stopOn (pad : Pad)
  | resumeOn (pad : Pad)
  deriving DecidableEq, Repr

namespace Request

/-- The pads on which a player plays after a request, if it binds some pads and played on some. -/
def playing (bound before : Set Pad) : Request → Set Pad
  | start => bound
  | startExcept excluded => bound \ {p | p ∈ excluded}
  | stop => ∅
  | stopOn pad => before \ {pad}
  | resumeOn pad => before ∪ (bound ∩ {pad})

/-- The request has the loop on the pad stopped. -/
def Stops (pad : Pad) : Request → Prop
  | start | startExcept _ | stop => True
  | stopOn p => p = pad
  | resumeOn _ => False

/-- The request has loops started from the beginnings of their tracks. -/
def Starts : Request → Prop
  | start | startExcept _ => True
  | stop | stopOn _ | resumeOn _ => False

/-- Whoever makes the request hears of what is wrong with the loops that it stops. -/
def Reports : Request → Prop
  | start | startExcept _ | resumeOn _ => False
  | stop | stopOn _ => True

/-- What a request does to the outline of a player. -/
def outlined (o : Outline) : Request → Outline
  | start => o.startedExcept []
  | startExcept excluded => o.startedExcept excluded
  | stop => o.silent
  | stopOn pad => o.stoppedOn pad
  | resumeOn pad => o.startedOn pad

end Request

/-- Does what is asked of the player. -/
def serve (p : Player) : Request → Control (Player × Except PlaybackError Unit)
  | .start => p.start
  | .startExcept excluded => p.startExcept excluded
  | .stop => p.stop
  | .stopOn pad => p.stopOn pad
  | .resumeOn pad => p.resumeOn pad

variable {p after : Player} {rig rig' : Rig} {pad : Pad} {request : Request}

/-- A request comes to what the outline tells, and if it does not report it is granted. -/
theorem yields_serve (hsound : p.outline.Sound) {n : UInt64} (request : Request) :
    Yields n (p.serve request) n fun out => out.1.outline = request.outlined p.outline ∧
      (¬request.Reports → out.2 = .ok ()) := by
  have hgranted {good : Player → Prop} {x : Control (Player × Except PlaybackError Unit)} {q : Prop}
      (h : Grants n x n good ()) : Yields n x n fun out => good out.1 ∧ (q → out.2 = .ok ()) :=
    Yields.mono h fun _ hout => ⟨hout.1, fun _ => hout.2⟩
  cases request with
  | start => exact hgranted (grants_startExcept hsound [])
  | startExcept excluded => exact hgranted (grants_startExcept hsound excluded)
  | resumeOn pad => exact hgranted (grants_resumeOn hsound pad)
  | stop =>
    refine p.yields_stop.mono fun out hout => ⟨?_, fun h => absurd trivial h⟩
    rw [hout]
    exact p.outline_silent
  | stopOn pad => exact (p.yields_stopOn pad).mono fun out hout => ⟨hout, fun h => absurd trivial h⟩

/-- The pads on which a player plays are those that the outline tells. -/
theorem playing_of_outline (h : after.outline = request.outlined p.outline) :
    {q | after.isPlaying q = true} =
      request.playing {q | p.isBound q = true} {q | p.isPlaying q = true} := by
  ext q
  have hplaying : after.isPlaying q = (request.outlined p.outline).playing.get q := by
    rw [← h, get_playing_outline]
  have hset (value : Bool) (pad : Pad) : (p.outline.playing.set pad value).get q =
      if q = pad then value else p.isPlaying q := by
    by_cases hq : q = pad
    · rw [if_pos hq, hq, PerPad.get_set_self]
    · rw [if_neg hq, PerPad.get_set_of_ne _ _ hq, get_playing_outline]
  have hbound : p.outline.isBound q = p.isBound q := rfl
  rw [Set.mem_ofPred_eq, hplaying]
  cases request with
  | start => simp [Request.outlined, Request.playing, Outline.startedExcept, hbound]
  | startExcept excluded =>
    simp [Request.outlined, Request.playing, Outline.startedExcept, hbound]
  | stop => simp [Request.outlined, Request.playing, Outline.silent]
  | stopOn pad =>
    simp only [Request.outlined, Request.playing, Outline.stoppedOn, hset]
    by_cases hq : q = pad <;> simp [hq]
  | resumeOn pad =>
    simp only [Request.outlined, Request.playing, Outline.startedOn, hset, get_playing_outline]
    by_cases hq : q = pad
    · subst hq
      simp [hbound]
    · simp [hq]

/-- The player has its loops in hand, and threads are to be had for more. -/
structure Tends (p : Player) (rig : Rig) : Prop where
  sound : p.outline.Sound
  launches : rig.launches = []
  /-- No call has been made to the name of a loop that is still to come. -/
  booked : ∀ n, rig.loops[n]? = none → rig.dealings n = []
  inHand : ∀ pad ref, p.loops.get pad = some ref → ref.InHand pad rig
  apart : ∀ pad pad' ref ref', p.loops.get pad = some ref → p.loops.get pad' = some ref' →
    ref.number = ref'.number → pad = pad'

/-- The player keeps its loops in hand while nobody else stops them. -/
theorem Tends.carries (h : p.Tends rig) {awaited : Nat → Prop}
    (hcarries : ∀ n, rig.Carries (awaited n) n rig') (hlaunches : rig'.launches = [])
    (hfree : ∀ pad ref, p.loops.get pad = some ref → ¬awaited ref.number) : p.Tends rig' where
  sound := h.sound
  launches := hlaunches
  booked n hnone := by
    rw [(hcarries n).absent hnone, h.booked n ((hcarries n).getElem?_eq_none hnone)]
  inHand pad ref href :=
    (h.inHand pad ref href).carries ((hcarries ref.number).mono (hfree pad ref href))
  apart := h.apart

/-- A player that gives up some loops has the rest in hand. -/
theorem Tends.fewer (h : p.Tends rig) {loops : PerPad (Option LoopRef)}
    (hfewer : ∀ pad ref, loops.get pad = some ref → p.loops.get pad = some ref) :
    Tends { p with loops } rig where
  sound := h.sound
  launches := h.launches
  booked := h.booked
  inHand pad ref href := h.inHand pad ref (hfewer pad ref href)
  apart pad pad' ref ref' href href' :=
    h.apart pad pad' ref ref' (hfewer _ _ href) (hfewer _ _ href')

/-- A player takes one more loop in hand, if that is another one. -/
theorem Tends.set (h : p.Tends rig) {ref : LoopRef} (hhand : ref.InHand pad rig)
    (hnew : ∀ q ref', p.loops.get q = some ref' → ref'.number ≠ ref.number) :
    Tends { p with loops := p.loops.set pad (some ref) } rig := by
  refine ⟨h.sound, h.launches, h.booked, fun q ref' href => ?_,
    fun q q' ref' ref'' href href' heq => ?_⟩
  · rcases PerPad.get_set_eq_some_iff.1 href with ⟨rfl, ⟨⟩⟩ | ⟨_, hold⟩
    · exact hhand
    · exact h.inHand q ref' hold
  · rcases PerPad.get_set_eq_some_iff.1 href with ⟨rfl, ⟨⟩⟩ | ⟨_, hold⟩ <;>
      rcases PerPad.get_set_eq_some_iff.1 href' with ⟨rfl, ⟨⟩⟩ | ⟨_, hold'⟩
    · rfl
    · exact absurd heq.symm (hnew _ _ hold')
    · exact absurd heq (hnew _ _ hold)
    · exact h.apart q q' ref' ref'' hold hold' heq

/-- Loops have been started for a player, and nothing else has been done to its loops. -/
structure Opened (p : Player) (rig : Rig) (after : Player) (rig' : Rig) : Prop where
  tends : after.Tends rig'
  carries : ∀ n, rig.Carries False n rig'
  fresh : ∀ q ref, after.loops.get q = some ref →
    p.loops.get q = some ref ∨ rig.loops[ref.number]? = none

theorem Tends.opened_self (h : p.Tends rig) : p.Opened rig p rig :=
  ⟨h, fun _ => .refl rig, fun _ _ href => .inl href⟩

/-- Loops may be started for a player one after another. -/
theorem Opened.trans {mid : Player} {rigMid : Rig} (h : p.Opened rig mid rigMid)
    (h' : mid.Opened rigMid after rig') : p.Opened rig after rig' where
  tends := h'.tends
  carries n := (h.carries n).trans (h'.carries n)
  fresh q ref href := by
    rcases h'.fresh q ref href with hold | hnone
    · exact h.fresh q ref hold
    · exact .inr ((h.carries ref.number).getElem?_eq_none hnone)

/-- A player that has its loops in hand can always start one more, and does so on this pad only. -/
theorem Tends.startOn (h : p.Tends rig) (pad : Pad) :
    ∃ after rig', (p.startOn pad).run rig = ((after, .ok ()), rig') ∧ p.Opened rig after rig' ∧
      ∀ q, q ≠ pad → after.loops.get q = p.loops.get q := by
  unfold Player.startOn
  split
  next => exact ⟨p, rig, rfl, h.opened_self, fun _ _ => rfl⟩
  next source hbinding =>
    obtain ⟨ref, rig', hstart, hlaunches, hcarries, hhand, hfresh⟩ :=
      LoopRef.start_opens pad p.program p.settings (h.sound pad source hbinding) h.launches h.booked
    have htends : p.Tends rig' := h.carries hcarries hlaunches fun _ _ _ => not_false
    have hnew (q : Pad) (ref' : LoopRef) (href : p.loops.get q = some ref') :
        ref'.number ≠ ref.number := by
      intro heq
      obtain ⟨_, l, hget, _⟩ := h.inHand q ref' href
      rw [heq, hfresh] at hget
      cases hget
    have helsewhere (q : Pad) (hq : q ≠ pad) :
        (p.loops.set pad (some ref)).get q = p.loops.get q := PerPad.get_set_of_ne _ _ hq
    refine ⟨{ p with loops := p.loops.set pad (some ref) }, rig', ?_,
      ⟨htends.set hhand hnew, hcarries, fun q ref' href => ?_⟩, helsewhere⟩
    · rw [StateT.run_bind, hstart]
      rfl
    · rcases PerPad.get_set_eq_some_iff.1 href with ⟨_, ⟨⟩⟩ | ⟨_, hold⟩
      · exact .inr hfresh
      · exact .inl hold

/-- A player can start loops on several pads, by induction on their list. -/
theorem Tends.startOnAll (h : p.Tends rig) (pads : List Pad) :
    p.Opened rig ((p.startOnAll pads).run rig).1.1 ((p.startOnAll pads).run rig).2 := by
  induction pads generalizing p rig with
  | nil => exact h.opened_self
  | cons pad rest ih =>
    obtain ⟨mid, rigMid, hrun, hopened, _⟩ := h.startOn pad
    have hrest : (p.startOnAll (pad :: rest)).run rig = (mid.startOnAll rest).run rigMid := by
      rw [Player.startOnAll, StateT.run_bind, hrun]
      rfl
    rw [hrest]
    exact hopened.trans (ih hopened.tends)

/-- Of what there is to complain of in some loops, the first in pad order is handed on. -/
theorem firstError_eq_error_iff {entries : List (Pad × LoopRef)}
    {results : List (Except PlaybackError Unit)} {complaint : Pad × LoopRef → PlaybackError → Prop}
    (h : List.Forall₂ (fun entry result => ∀ error, result = .error error ↔ complaint entry error)
      entries results) (hordered : entries.Pairwise fun a b => a.1.index < b.1.index)
    {error : PlaybackError} : firstError results = .error error ↔
      ∃ entry ∈ entries, complaint entry error ∧ ∀ earlier ∈ entries,
        earlier.1.index < entry.1.index → ∀ error', ¬complaint earlier error' := by
  induction h with
  | nil => simp [firstError]
  | @cons entry result rest results hanswer _ ih =>
    obtain ⟨hbehind, hordered⟩ := List.pairwise_cons.1 hordered
    cases result with
    | error cause =>
      have hcause : complaint entry cause := (hanswer cause).1 rfl
      constructor
      · rintro ⟨⟩
        refine ⟨entry, List.mem_cons_self, hcause, fun earlier hearlier hlt => ?_⟩
        rcases List.mem_cons.1 hearlier with rfl | hearlier
        · exact absurd hlt (UInt8.lt_irrefl _)
        · exact absurd hlt (UInt8.lt_asymm (hbehind earlier hearlier))
      · rintro ⟨other, hother, hcomplaint, hfirst⟩
        rcases List.mem_cons.1 hother with rfl | hother
        · exact (hanswer error).2 hcomplaint
        · exact absurd hcause (hfirst entry List.mem_cons_self (hbehind other hother) cause)
    | ok u =>
      have hsilent (error' : PlaybackError) : ¬complaint entry error' := fun hcomplaint =>
        nomatch (hanswer error').2 hcomplaint
      rw [firstError, ih hordered]
      constructor
      · rintro ⟨other, hother, hcomplaint, hfirst⟩
        refine ⟨other, List.mem_cons_of_mem _ hother, hcomplaint, fun earlier hearlier hlt => ?_⟩
        rcases List.mem_cons.1 hearlier with rfl | hearlier
        · exact hsilent
        · exact hfirst earlier hearlier hlt
      · rintro ⟨other, hother, hcomplaint, hfirst⟩
        rcases List.mem_cons.1 hother with rfl | hother
        · exact absurd hcomplaint (hsilent error)
        · exact ⟨other, hother, hcomplaint, fun earlier hearlier =>
            hfirst earlier (List.mem_cons_of_mem _ hearlier)⟩

/-- What a request does to the loops that a player has, and what is answered about them. -/
structure Treats (p : Player) (rig : Rig) (request : Request) (after : Player)
    (answer : Except PlaybackError Unit) (rig' : Rig) : Prop where
  /-- Every loop that is stopped comes to its end, whatever is wrong with the others. -/
  ended : ∀ pad ref, request.Stops pad → p.loops.get pad = some ref → ref.Ended rig'
  kept : ∀ pad ref, ¬request.Stops pad → p.loops.get pad = some ref →
    after.loops.get pad = some ref
  /-- A start leaves no loop that there was before, be it at work or not. -/
  replaced : request.Starts → ∀ pad ref, after.loops.get pad = some ref →
    rig.loops[ref.number]? = none
  /-- A loop that has not been stopped need not be resumed, be it at work or not. -/
  untouched : ∀ pad, request = .resumeOn pad → p.isPlaying pad = true → after = p ∧ rig' = rig
  /-- The error handed back is about the first pad, in pad order, on which there was something wrong
  with the loop that was stopped. -/
  reported : request.Reports → ∀ error, answer = .error error ↔
    ∃ pad ref, request.Stops pad ∧ p.loops.get pad = some ref ∧ ref.Complaint pad rig' error ∧
      ∀ earlier ref', earlier.index < pad.index → request.Stops earlier →
        p.loops.get earlier = some ref' → ∀ error', ¬ref'.Complaint earlier rig' error'

theorem pairwise_entries (loops : PerPad (Option LoopRef)) :
    loops.entries.Pairwise fun a b => a.1.index < b.1.index := by
  have hall : Pad.all.Pairwise fun a b => a.index < b.index := by decide
  refine List.pairwise_filterMap.2 (hall.imp fun {a b} hlt entry hentry other hother => ?_)
  obtain ⟨_, _, rfl⟩ := Option.map_eq_some_iff.1 hentry
  obtain ⟨_, _, rfl⟩ := Option.map_eq_some_iff.1 hother
  exact hlt

/-- A player that is stopped treats its loops as the request says: all of them come to their end,
and the first complaint is handed back. -/
theorem Tends.stop (h : p.Tends rig) :
    (p.stop.run rig).1.1 = p.silent ∧ p.silent.Tends (p.stop.run rig).2 ∧
      (∃ awaited : Nat → Prop, ∀ n, rig.Carries (awaited n) n (p.stop.run rig).2) ∧
      p.Treats rig .stop p.silent (p.stop.run rig).1.2 (p.stop.run rig).2 := by
  have hordered := pairwise_entries p.loops
  have hhand : ∀ entry ∈ p.loops.entries, entry.2.InHand entry.1 rig := fun entry hentry =>
    h.inHand entry.1 entry.2 (PerPad.mem_entries.1 hentry)
  have hapart : p.loops.entries.Pairwise fun a b => a.2.number ≠ b.2.number := by
    refine hordered.imp_of_mem fun {a b} ha hb hlt heq => ?_
    have hpad := h.apart a.1 b.1 a.2 b.2 (PerPad.mem_entries.1 ha) (PerPad.mem_entries.1 hb) heq
    exact UInt8.lt_irrefl _ (hpad ▸ hlt)
  obtain ⟨hcarries, hended, hanswers⟩ := LoopRef.stopEach_ends hhand hapart
  have hlaunches : (p.stop.run rig).2.launches = [] :=
    (p.yields_stop rig ⟨h.launches, rfl⟩).1.launches
  have hidle (q : Pad) (ref : LoopRef) (href : p.silent.loops.get q = some ref) : False := by
    rw [p.idle_silent q] at href
    cases href
  have hsilent : p.silent.Tends rig := h.fewer fun q ref href => (hidle q ref href).elim
  refine ⟨rfl, hsilent.carries hcarries hlaunches fun q ref href => (hidle q ref href).elim,
    ⟨_, hcarries⟩, ⟨fun q ref _ href => ?_, fun _ _ hnot => absurd trivial hnot, False.elim, nofun,
      fun _ error => ?_⟩⟩
  · exact hended (q, ref) (PerPad.mem_entries.2 href)
  · refine (firstError_eq_error_iff hanswers hordered).trans ?_
    constructor
    · rintro ⟨⟨q, ref⟩, hentry, hcomplaint, hfirst⟩
      exact ⟨q, ref, trivial, PerPad.mem_entries.1 hentry, hcomplaint,
        fun earlier ref' hlt _ href' => hfirst (earlier, ref') (PerPad.mem_entries.2 href') hlt⟩
    · rintro ⟨q, ref, _, href, hcomplaint, hfirst⟩
      exact ⟨(q, ref), PerPad.mem_entries.2 href, hcomplaint, fun earlier hearlier hlt =>
        hfirst earlier.1 earlier.2 hlt trivial (PerPad.mem_entries.1 hearlier)⟩

/-- A player that is started over stops all its loops first and does not tell what was wrong with
them. -/
theorem Tends.startExcept (h : p.Tends rig) (excluded : List Pad) {request : Request}
    (hstarts : request.Starts) :
    ((p.startExcept excluded).run rig).1.1.Tends ((p.startExcept excluded).run rig).2 ∧
      p.Treats rig request ((p.startExcept excluded).run rig).1.1
        ((p.startExcept excluded).run rig).1.2 ((p.startExcept excluded).run rig).2 := by
  obtain ⟨hafter, htends, ⟨awaited, hcarries⟩, htreats⟩ := h.stop
  let pads := p.silent.pads.filter fun pad => !excluded.contains pad
  have hrun : (p.startExcept excluded).run rig =
      (p.silent.startOnAll pads).run (p.stop.run rig).2 := rfl
  rw [hrun]
  have hopened := htends.startOnAll pads
  have hall : ∀ q, request.Stops q ∧ ¬request.Reports ∧ ∀ pad, request ≠ .resumeOn pad := by
    cases request with
    | start | startExcept _ => exact fun _ => ⟨trivial, not_false, nofun⟩
    | stop | stopOn _ | resumeOn _ => exact hstarts.elim
  refine ⟨hopened.tends, ⟨fun q ref _ href => ?_, fun q ref hnot => absurd (hall q).1 hnot,
    fun _ q ref href => ?_, fun q heq => absurd heq ((hall q).2.2 q),
    fun hreports => absurd hreports (hall default).2.1⟩⟩
  · exact (htreats.ended q ref trivial href).carries (hopened.carries ref.number)
  · rcases hopened.fresh q ref href with hold | hnone
    · rw [p.idle_silent q] at hold
      cases hold
    · exact (hcarries ref.number).getElem?_eq_none hnone

/-- A player that leaves a pad stops the loop there and hands back what there is to complain of in
it. -/
theorem Tends.stopOn (h : p.Tends rig) (pad : Pad) :
    ((p.stopOn pad).run rig).1.1.Tends ((p.stopOn pad).run rig).2 ∧
      p.Treats rig (.stopOn pad) ((p.stopOn pad).run rig).1.1 ((p.stopOn pad).run rig).1.2
        ((p.stopOn pad).run rig).2 := by
  unfold Player.stopOn
  split
  next hnone =>
    refine ⟨h, ⟨fun q ref hq href => ?_, fun _ _ _ href => href, False.elim, nofun,
      fun _ error => ?_⟩⟩
    · obtain rfl : pad = q := hq
      cases hnone.symm.trans href
    · refine ⟨nofun, ?_⟩
      rintro ⟨q, ref, hq, href, _⟩
      obtain rfl : pad = q := hq
      cases hnone.symm.trans href
  next ref hget =>
    have helsewhere {q : Pad} {ref' : LoopRef} (href : (p.loops.set pad none).get q = some ref') :
        q ≠ pad ∧ p.loops.get q = some ref' := by
      obtain ⟨_, ⟨⟩⟩ | hold := PerPad.get_set_eq_some_iff.1 href
      exact hold
    obtain ⟨hended, hanswer⟩ := (h.inHand pad ref hget).stop
    have hrun : (do
          let result ← ref.stop
          return ({ p with loops := p.loops.set pad none }, result) : Control _).run rig =
        (({ p with loops := p.loops.set pad none }, (ref.stop.run rig).1), (ref.stop.run rig).2) :=
      rfl
    have hfewer := h.fewer fun q ref' href => (helsewhere href).2
    have hlaunches := (ref.yields_stop rig ⟨h.launches, rfl⟩).1.launches
    rw [hrun]
    -- The loop that has been waited for is not the player's any more. The others still are in its
    -- hand, since no two pads have one loop.
    refine ⟨hfewer.carries (ref.carries_stop rig) hlaunches fun q ref' href heq => ?_,
      ⟨fun q ref' hq href => ?_, fun q ref' hq href => ?_, False.elim, nofun, fun _ error => ?_⟩⟩
    · obtain ⟨hq, href'⟩ := helsewhere href
      exact hq (h.apart q pad ref' ref href' hget heq.symm)
    · obtain rfl : pad = q := hq
      obtain rfl := Option.some.inj (hget.symm.trans href)
      exact hended
    · rw [PerPad.get_set_of_ne _ _ fun heq => hq heq.symm]
      exact href
    · rw [hanswer]
      constructor
      · intro hcomplaint
        refine ⟨pad, ref, rfl, hget, hcomplaint, fun earlier _ hlt hearlier => ?_⟩
        obtain rfl : pad = earlier := hearlier
        exact absurd hlt (UInt8.lt_irrefl _)
      · rintro ⟨q, ref', hq, href, hcomplaint, _⟩
        obtain rfl : pad = q := hq
        obtain rfl := Option.some.inj (hget.symm.trans href)
        exact hcomplaint

/-- A player that takes up a pad stops nothing. -/
theorem Tends.resumeOn (h : p.Tends rig) (pad : Pad) :
    ((p.resumeOn pad).run rig).1.1.Tends ((p.resumeOn pad).run rig).2 ∧
      p.Treats rig (.resumeOn pad) ((p.resumeOn pad).run rig).1.1 ((p.resumeOn pad).run rig).1.2
        ((p.resumeOn pad).run rig).2 := by
  unfold Player.resumeOn
  split
  next =>
    exact ⟨h, nofun, fun _ _ _ href => href, False.elim, fun _ _ _ => ⟨rfl, rfl⟩, False.elim⟩
  next hsilent =>
    obtain ⟨after, rig', hrun, hopened, helsewhere⟩ := h.startOn pad
    rw [hrun]
    refine ⟨hopened.tends, ⟨nofun, fun q ref _ href => ?_, False.elim, ?_, False.elim⟩⟩
    · rw [helsewhere q, href]
      rintro rfl
      exact hsilent (by rw [isPlaying, href]; rfl)
    · rintro q ⟨⟩ hplaying
      exact absurd hplaying hsilent

/-- Each request is treated as it should be. -/
theorem Tends.serve (h : p.Tends rig) (request : Request) :
    ((p.serve request).run rig).1.1.Tends ((p.serve request).run rig).2 ∧
      p.Treats rig request ((p.serve request).run rig).1.1 ((p.serve request).run rig).1.2
        ((p.serve request).run rig).2 := by
  cases request with
  | start => exact h.startExcept [] trivial
  | startExcept excluded => exact h.startExcept excluded trivial
  | stop =>
    obtain ⟨_, htends, _, htreats⟩ := h.stop
    exact ⟨htends, htreats⟩
  | stopOn pad => exact h.stopOn pad
  | resumeOn pad => exact h.resumeOn pad

/-- How a request goes with a player that binds some pads. -/
structure Serves (bound : Set Pad) (p : Player) (rig : Rig) (request : Request) (after : Player)
    (answer : Except PlaybackError Unit) (rig' : Rig) : Prop
    extends p.Treats rig request after answer rig' where
  playing : {q | after.isPlaying q = true} = request.playing bound {q | p.isPlaying q = true}
  granted : ¬request.Reports → answer = .ok ()
  /-- An error is handed back exactly if something was wrong with one of the loops. -/
  fails : request.Reports → ((∃ error, answer = .error error) ↔
    ∃ pad ref error, request.Stops pad ∧ p.loops.get pad = some ref ∧ ref.Complaint pad rig' error)

/-- A player made for a program, with the pads that it binds. -/
inductive Made (program : Program Binary64) (settings : PlaybackSettings) (rig : Rig) :
    Set Pad → Player → Rig → Prop
  | onOwnPads {made : Player} {start : Rig}
    (h : (onOwnPads program settings).run rig = (.ok made, start)) :
    Made program settings rig {q | (program.track q).isSome = true} made start
  | onPad {pad : Pad} {made : Player} {start : Rig}
    (h : (onPad pad program settings).run rig = (.ok made, start)) :
    Made program settings rig {pad} made start

/-- What may come of a player and of the rig. Others may do with their own loops what they like, but
they do not stop those of the player. -/
inductive Reaches (made : Player) (start : Rig) : Player → Rig → Prop
  | refl : Reaches made start made start
  | serve {p : Player} {rig : Rig} (h : Reaches made start p rig) (request : Request) :
    Reaches made start ((p.serve request).run rig).1.1 ((p.serve request).run rig).2
  | handle {p : Player} {rig : Rig} (h : Reaches made start p rig) (event : Handling)
    (hothers : ∀ pad ref, p.loops.get pad = some ref → ¬event.Stops ref.number) :
    Reaches made start p (rig.handle event)

/-- The loops may go on by themselves, for as long as they like. -/
theorem Reaches.run {made : Player} {start : Rig} (h : Reaches made start p rig)
    (moves : List Move) : Reaches made start p (rig.run moves) := by
  induction moves generalizing rig with
  | nil => exact h
  | cons m rest ih => exact ih (h.handle (.move m) fun _ _ _ => not_false)

variable {program : Program Binary64} {settings : PlaybackSettings} {bound : Set Pad}
  {made : Player} {start : Rig}

/-- A new player has no loops. -/
theorem Made.eq (h : Made program settings rig bound made start) :
    ∃ bindings, made = ⟨⟨rig.nextPlayer⟩, program, settings, bindings, .const none⟩ ∧
      start = { rig with nextPlayer := rig.nextPlayer + 1 } ∧ made.outline.Sound ∧
      bound = {q | made.isBound q = true} := by
  cases h with
  | onOwnPads h =>
    cases hrefusal : refusalOnOwnPads? program with
    | some error =>
      rw [onOwnPads_of_refusal settings hrefusal] at h
      cases h
    | none =>
      rw [onOwnPads_of_accepted settings hrefusal] at h
      cases h
      refine ⟨ownPads program, rfl, rfl, sound_fresh_ownPads ⟨rig.nextPlayer⟩ program, ?_⟩
      ext q
      rw [Set.mem_ofPred_eq, Set.mem_ofPred_eq, isBound, ownPads, PerPad.get_ofFn]
      cases (program.track q).isSome <;> simp
  | @onPad pad _ _ h =>
    cases hsource : sourceFor? program pad with
    | none =>
      rw [Player.onPad, hsource] at h
      cases h
    | some source =>
      rw [Player.onPad, hsource] at h
      cases h
      have hsingle : singlePad pad program = (PerPad.const none).set pad (some source) := by
        rw [singlePad, hsource]
      have hsound := sound_fresh_singlePad ⟨rig.nextPlayer⟩ pad program
      rw [hsingle] at hsound
      refine ⟨_, rfl, rfl, hsound, ?_⟩
      ext q
      rw [Set.mem_ofPred_eq, Set.mem_singleton_iff, isBound]
      by_cases hq : q = pad
      · simp [hq]
      · simp [hq, PerPad.get_set_of_ne _ _ hq]

theorem Request.bindings_outlined (request : Request) (o : Outline) :
    (request.outlined o).bindings = o.bindings := by
  cases request <;> rfl

/-- Whatever is asked of a player, it keeps its loops in hand and the pads that it binds. -/
theorem Reaches.tends (hmade : made.Tends start) (h : Reaches made start p rig) :
    p.Tends rig ∧ p.bindings = made.bindings := by
  induction h with
  | refl => exact ⟨hmade, rfl⟩
  | @serve p rig _ request ih =>
    obtain ⟨htends, hbindings⟩ := ih
    obtain ⟨_, houtline, _⟩ := yields_serve htends.sound request rig ⟨htends.launches, rfl⟩
    refine ⟨(htends.serve request).1, ?_⟩
    have hsame := (congrArg Outline.bindings houtline).trans (request.bindings_outlined p.outline)
    exact hsame.trans hbindings
  | @handle p rig _ event hothers ih =>
    obtain ⟨htends, hbindings⟩ := ih
    exact ⟨htends.carries (fun n => rig.carries_handle event)
      (launches_handle htends.launches event) hothers, hbindings⟩

/-- Among the pads with a property there is a first one. -/
theorem exists_first_pad {P : Pad → Prop} (h : ∃ pad, P pad) :
    ∃ pad, P pad ∧ ∀ earlier : Pad, earlier.index < pad.index → ¬P earlier := by
  have hwf := (measure fun pad : Pad => pad.index.toNat).wf
  obtain ⟨pad, hpad, hfirst⟩ := hwf.has_min {pad | P pad} h
  exact ⟨pad, hpad, fun earlier hlt hearlier => hfirst earlier hearlier hlt⟩

/-- A player that has its loops in hand serves every request, as its outline tells where it plays
then. -/
theorem Tends.serves (h : p.Tends rig) (request : Request) :
    p.Serves {q | p.isBound q = true} rig request ((p.serve request).run rig).1.1
      ((p.serve request).run rig).1.2 ((p.serve request).run rig).2 := by
  -- The pads played on are read off the outline, in which faults of loops do not show.
  obtain ⟨_, houtline, hgranted⟩ := yields_serve h.sound request rig ⟨h.launches, rfl⟩
  obtain ⟨_, htreats⟩ := h.serve request
  refine ⟨htreats, playing_of_outline houtline, hgranted, fun hreports => ?_⟩
  constructor
  · rintro ⟨error, herror⟩
    obtain ⟨pad, ref, hstops, href, hcomplaint, _⟩ := (htreats.reported hreports error).1 herror
    exact ⟨pad, ref, error, hstops, href, hcomplaint⟩
  · intro hwrong
    obtain ⟨pad, ⟨ref, error, hstops, href, hcomplaint⟩, hfirst⟩ := exists_first_pad hwrong
    refine ⟨error, (htreats.reported hreports error).2 ⟨pad, ref, hstops, href, hcomplaint, ?_⟩⟩
    exact fun earlier ref' hlt hstops' href' error' hcomplaint' =>
      hfirst earlier hlt ⟨ref', error', hstops', href', hcomplaint'⟩

/-- A player for which threads are to be had plays where it was last told to, whatever becomes of
its loops, and tells what was wrong with them where it stops them. -/
theorem serves_of_made {first : Rig} (hjournal : first.journal = [])
    (hlaunches : first.launches = []) (before : List Handling)
    (hmade : Made program settings (first.handleAll before) bound made start) :
    {q | made.isPlaying q = true} = ∅ ∧
      ∀ p rig, Reaches made start p rig → ∀ request,
        p.Serves bound rig request ((p.serve request).run rig).1.1
          ((p.serve request).run rig).1.2 ((p.serve request).run rig).2 := by
  obtain ⟨bindings, hidle, hstart, hsound, hbound⟩ := hmade.eq
  have hsilent (q : Pad) : made.loops.get q = none := by
    rw [hidle]
    exact PerPad.get_const none q
  have htends : made.Tends start := by
    refine ⟨hsound, ?_, fun n hnone => ?_, fun q ref href => ?_, fun q _ ref _ href => ?_⟩
    · rw [hstart]
      exact launches_handleAll hlaunches before
    · rw [hstart] at hnone ⊢
      have hcarries := first.carries_handleAll before (n := n)
      refine (hcarries.absent hnone).trans ?_
      rw [dealings, hjournal]
      rfl
    · cases (hsilent q).symm.trans href
    · cases (hsilent q).symm.trans href
  refine ⟨?_, fun p rig hreaches request => ?_⟩
  · ext q
    simp [isPlaying, hsilent]
  · obtain ⟨hp, hbindings⟩ := hreaches.tends htends
    have hsame : bound = {q | p.isBound q = true} := by
      rw [hbound]
      ext q
      rw [Set.mem_ofPred_eq, Set.mem_ofPred_eq, isBound, isBound, hbindings]
    rw [hsame]
    exact hp.serves request

/-- The loop on the left pad has a fault and that on the right has been brought down. Both still
count as played until the player is stopped. -/
theorem serves_of_made_unplugged :
    let actuator : Actuator := fun _ call =>
      if call.target = .pad .left then .failed ⟨"unplugged"⟩
      else if call.target = .pad .right then .panicked else .done
    let first := Rig.new actuator []
    let program : Program Binary64 := ⟨.const (some ⟨[.switch ⟨0⟩ .white], ⟨0⟩⟩)⟩
    let bound : Set Pad := {q | (program.track q).isSome = true}
    let made : Player := ⟨⟨1⟩, program, .default, ownPads program, .const none⟩
    let start : Rig := { first with nextPlayer := 2 }
    let started := (made.serve .start).run start
    let p := started.1.1
    let rig := started.2.run (List.replicate 3 (.advance 1) ++ List.replicate 3 (.advance 2))
    let stopped := (p.serve .stop).run rig
    first.journal = [] ∧ first.launches = [] ∧
      Made program .default (first.handleAll []) bound made start ∧ Reaches made start p rig ∧
      p.loops.pads = Pad.all ∧ p.faultOn .left rig = some ⟨"unplugged"⟩ ∧
      stopped.1.2 = .error (.actuator ⟨"unplugged"⟩) ∧
      p.Serves bound rig .stop stopped.1.1 stopped.1.2 stopped.2 := by
  intro actuator first program bound made start started p rig stopped
  have hjournal : first.journal = [] := rfl
  have hlaunches : first.launches = [] := rfl
  have hmade : Made program .default (first.handleAll []) bound made start := .onOwnPads rfl
  have hstarted : Reaches made start p started.2 := Reaches.refl.serve .start
  have hreaches : Reaches made start p rig := by
    unfold rig
    exact hstarted.run _
  have hserves : p.Serves bound rig .stop stopped.1.1 stopped.1.2 stopped.2 := by
    unfold stopped
    exact (serves_of_made hjournal hlaunches [] hmade).2 p rig hreaches .stop
  refine ⟨hjournal, hlaunches, hmade, hreaches, ?_, ?_, ?_, hserves⟩
  · decide +kernel
  · decide +kernel
  · decide +kernel

end Player

end LightShow
