import LightShow.Playback.Stage
import LightShow.Proofs.Playback.Player

namespace LightShow

/-- The player binds one pad and has a loop there, and nowhere else. -/
structure Player.Covers (player : Player) (p : Pad) : Prop where
  isBound : ∀ q, player.isBound q = true ↔ q = p
  isPlaying : ∀ q, player.isPlaying q = true ↔ q = p

theorem Player.loops_eq_none_of_isPlaying {player : Player} {p : Pad}
    (h : ¬player.isPlaying p = true) : player.loops.get p = none :=
  Option.not_isSome_iff_eq_none.1 h

theorem Player.Idle.isPlaying_eq {player : Player} (h : player.Idle) (p : Pad) :
    player.isPlaying p = false := by
  rw [Player.isPlaying, h p]
  rfl

theorem Player.Covers.loops_eq_none {player : Player} {p q : Pad} (h : player.Covers p)
    (hq : q ≠ p) : player.loops.get q = none :=
  loops_eq_none_of_isPlaying fun hplaying => hq ((h.isPlaying q).1 hplaying)

/-- A player that binds one pad and has been started covers that pad. -/
theorem Player.Restarted.covers {before after : Player} {generous : Prop} {p : Pad}
    (h : before.Restarted generous [] after (.ok ()))
    (hbound : ∀ q, before.isBound q = true ↔ q = p) :
    after.Covers p := by
  refine ⟨fun q => by rw [h.same.isBound_eq, hbound], fun q => ⟨fun hplaying => ?_, fun hq => ?_⟩⟩
  · exact (hbound q).1 (h.playing q hplaying).1
  · exact h.complete rfl q ((hbound q).2 hq) List.not_mem_nil

/-- A player of a single pad that could not be started there has no loop. -/
theorem Player.Restarted.idle {before after : Player} {generous : Prop} {p : Pad}
    {error : PlaybackError} (h : before.Restarted generous [] after (.error error))
    (hbound : ∀ q, before.isBound q = true ↔ q = p) : after.Idle := by
  obtain ⟨_, q, hq, _, hsilent⟩ := h.refused error rfl
  refine fun r => loops_eq_none_of_isPlaying fun hplaying => ?_
  have hr : r = p := (hbound r).1 (h.playing r hplaying).1
  rw [hr, ← (hbound q).1 hq, hsilent] at hplaying
  cases hplaying

namespace Stage

/-- Every player on the stage. -/
def players (s : Stage) : List Player := s.stack ++ s.overlays.entries.map (·.2)

theorem mem_overlays {overlays : PerPad (Option Player)} {q : Player} :
    q ∈ overlays.entries.map (·.2) ↔ ∃ p, overlays.get p = some q := by
  rw [List.mem_map]
  constructor
  · rintro ⟨⟨p, _⟩, hentry, rfl⟩
    exact ⟨p, PerPad.mem_entries.1 hentry⟩
  · rintro ⟨p, hget⟩
    exact ⟨(p, q), PerPad.mem_entries.2 hget, rfl⟩

/-- A player is on the stack or over a pad. -/
theorem mem_players {s : Stage} {q : Player} :
    q ∈ s.players ↔ q ∈ s.stack ∨ ∃ p, s.overlays.get p = some q := by
  rw [players, List.mem_append, mem_overlays]

/-- The stage without the overlay of a pad. -/
def without (s : Stage) (pad : Pad) : Stage := { s with overlays := s.overlays.set pad none }

/-- Every player is the overlay of the pad or is still there without that. -/
theorem mem_players_without {s : Stage} {pad : Pad} {q : Player} :
    q ∈ s.players ↔ q ∈ (s.overlays.get pad).toList ++ (s.without pad).players := by
  rw [List.mem_append, Option.mem_toList, mem_players, mem_players]
  constructor
  · rintro (hstack | ⟨p, hget⟩)
    · exact .inr (.inl hstack)
    · by_cases hp : p = pad
      · exact .inl (hp ▸ hget)
      · exact .inr (.inr ⟨p, PerPad.get_set_eq_some_iff.2 (.inr ⟨hp, hget⟩)⟩)
  · rintro (hget | hstack | ⟨p, hget⟩)
    · exact .inr ⟨pad, hget⟩
    · exact .inl hstack
    · obtain ⟨_, ⟨⟩⟩ | ⟨_, hget⟩ := PerPad.get_set_eq_some_iff.1 hget
      exact .inr ⟨p, hget⟩

/-- With an overlay over a free pad there is one more player. -/
theorem mem_players_with {s : Stage} {pad : Pad} {player q : Player}
    (hpad : s.overlays.get pad = none) :
    q ∈ Stage.players { s with overlays := s.overlays.set pad (some player) } ↔
      q ∈ player :: s.players := by
  rw [List.mem_cons, mem_players, mem_players]
  constructor
  · rintro (hstack | ⟨p, hget⟩)
    · exact .inr (.inl hstack)
    · rcases PerPad.get_set_eq_some_iff.1 hget with ⟨_, ⟨⟩⟩ | ⟨_, hget⟩
      · exact .inl rfl
      · exact .inr (.inr ⟨p, hget⟩)
  · rintro (rfl | hstack | ⟨p, hget⟩)
    · exact .inr ⟨pad, PerPad.get_set_self _ _ _⟩
    · exact .inl hstack
    · have hp : p ≠ pad := by
        rintro rfl
        rw [hpad] at hget
        cases hget
      exact .inr ⟨p, PerPad.get_set_eq_some_iff.2 (.inr ⟨hp, hget⟩)⟩

/-- Where the loops of a stage are: below the top there are none, an overlay covers its own pad, and
the top has loops only on pads that it binds and that carry no overlay. On required pads of this
kind it does have one. -/
structure Arranged (required : Pad → Prop) (s : Stage) : Prop where
  waiting : ∀ player ∈ s.stack.tail, player.Idle
  covers : ∀ p overlay, s.overlays.get p = some overlay → overlay.Covers p
  playing : ∀ top ∈ s.stack.head?, ∀ p, top.isPlaying p = true →
    top.isBound p = true ∧ s.overlays.get p = none
  complete : ∀ top ∈ s.stack.head?, ∀ p, required p → top.isBound p = true →
    s.overlays.get p = none → top.isPlaying p = true

/-- The whole stack is suspended. -/
structure Suspended (s : Stage) : Prop where
  idle : ∀ player ∈ s.stack, player.Idle
  covers : ∀ p overlay, s.overlays.get p = some overlay → overlay.Covers p

variable {required required' : Pad → Prop} {s : Stage} {generous : Prop}

/-- An arrangement serves if less is required. -/
theorem Arranged.mono (h : s.Arranged required) (hle : ∀ p, required' p → required p) :
    s.Arranged required' :=
  ⟨h.waiting, h.covers, h.playing, fun top htop p hp => h.complete top htop p (hle p hp)⟩

/-- On a suspended stage all is in place as long as no loop is required. -/
theorem Suspended.arranged (h : s.Suspended) : s.Arranged fun _ => False := by
  refine ⟨fun player hplayer => ?_, h.covers, fun top htop p hplaying => ?_, fun _ _ _ hfalse => ?_⟩
  · exact h.idle player (List.mem_of_mem_tail hplayer)
  · rw [(h.idle top (List.mem_of_mem_head? htop)).isPlaying_eq] at hplaying
    cases hplaying
  · exact hfalse.elim

/-- Without a stack there is nobody of whom a loop could be required. -/
theorem Suspended.arranged_of_nil (h : s.Suspended) (hstack : s.stack = []) :
    s.Arranged required := by
  have hnone : ∀ top, top ∉ s.stack.head? := by
    intro top htop
    rw [hstack] at htop
    cases htop
  exact ⟨h.arranged.waiting, h.covers, fun top htop => absurd htop (hnone top),
    fun top htop => absurd htop (hnone top)⟩

/-- The rest of the stage keeps off the pads that fall to the top. -/
theorem loops_eq_none_of_rest {rest : List Player} {overlays : PerPad (Option Player)}
    (hidle : ∀ player ∈ rest, player.Idle)
    (hcovers : ∀ p overlay, overlays.get p = some overlay → overlay.Covers p) {p : Pad}
    (hp : overlays.get p = none) :
    ∀ q ∈ rest ++ overlays.entries.map (·.2), q.loops.get p = none := by
  intro q hq
  rcases List.mem_append.1 hq with hq | hq
  · exact hidle q hq p
  · obtain ⟨p', hget⟩ := mem_overlays.1 hq
    refine (hcovers p' q hget).loops_eq_none ?_
    rintro rfl
    rw [hp] at hget
    cases hget

/-- A player that has been started outside the overlays can be the top. -/
theorem arranged_of_restarted {settings : PlaybackSettings} {before after : Player}
    {rest : List Player} {overlays : PerPad (Option Player)} {result : Except PlaybackError Unit}
    (hidle : ∀ player ∈ rest, player.Idle)
    (hcovers : ∀ p overlay, overlays.get p = some overlay → overlay.Covers p)
    (h : before.Restarted generous overlays.pads after result) :
    (Stage.mk settings (after :: rest) overlays).Arranged fun _ => generous := by
  have hpads (p : Pad) : p ∉ overlays.pads ↔ overlays.get p = none := by
    rw [PerPad.mem_pads, Option.not_isSome_iff_eq_none]
  refine ⟨hidle, hcovers, fun top htop p hplaying => ?_, fun top htop p hgenerous hbound hp => ?_⟩
  · cases htop
    obtain ⟨hbound, hp⟩ := h.playing p hplaying
    exact ⟨by rw [h.same.isBound_eq, hbound], (hpads p).1 hp⟩
  · cases htop
    rw [h.same.isBound_eq] at hbound
    exact h.complete_of_generous hgenerous hbound ((hpads p).2 hp)

/-- The top may take up a pad that carries no overlay. -/
theorem Arranged.resumed {settings : PlaybackSettings} {before after : Player}
    {rest : List Player} {overlays : PerPad (Option Player)} {result : Except PlaybackError Unit}
    {pad : Pad}
    (h : (Stage.mk settings (before :: rest) overlays).Arranged fun p => generous ∧ p ≠ pad)
    (hpad : overlays.get pad = none) (hstart : before.Started generous [pad] after result) :
    (Stage.mk settings (after :: rest) overlays).Arranged fun _ => generous := by
  have hsame {p : Pad} (hp : p ≠ pad) : after.isPlaying p = before.isPlaying p := by
    rw [Player.isPlaying, hstart.elsewhere p fun hmem => hp (List.mem_singleton.1 hmem)]
    rfl
  refine ⟨h.waiting, h.covers, fun top htop p hplaying => ?_,
    fun top htop p hgenerous hbound hp => ?_⟩
  · cases htop
    rw [hstart.same.isBound_eq]
    by_cases hp : p = pad
    · exact ⟨hstart.bound p (List.mem_singleton.2 hp) hplaying, hp ▸ hpad⟩
    · rw [hsame hp] at hplaying
      exact h.playing before rfl p hplaying
  · cases htop
    rw [hstart.same.isBound_eq] at hbound
    by_cases hpeq : p = pad
    · exact hstart.complete_of_generous hgenerous (List.mem_singleton.2 hpeq) hbound
    · rw [hsame hpeq]
      exact h.complete before rfl p ⟨hgenerous, hpeq⟩ hbound hp

/-- The top may leave a pad alone. -/
theorem Arranged.released {settings : PlaybackSettings} {top : Player} {rest : List Player}
    {overlays : PerPad (Option Player)} {pad : Pad}
    (h : (Stage.mk settings (top :: rest) overlays).Arranged fun p => generous ∧ p ≠ pad) :
    (Stage.mk settings ({ top with loops := top.loops.set pad none } :: rest) overlays).Arranged
      fun p => generous ∧ p ≠ pad := by
  refine ⟨h.waiting, h.covers, fun player hplayer p hplaying => ?_,
    fun player hplayer p hrequired hbound hp => ?_⟩
  · cases hplayer
    by_cases hpeq : p = pad
    · simp [Player.isPlaying, hpeq] at hplaying
    · rw [Player.isPlaying, PerPad.get_set_of_ne _ _ hpeq] at hplaying
      exact h.playing top rfl p hplaying
  · cases hplayer
    rw [Player.isPlaying, PerPad.get_set_of_ne _ _ hrequired.2]
    exact h.complete top rfl p hrequired hbound hp

/-- Once an overlay is removed the top still has no loop on its pad, so none can be required
there. -/
theorem Arranged.without (h : s.Arranged fun _ => generous) (pad : Pad) :
    (s.without pad).Arranged fun p => generous ∧ p ≠ pad := by
  refine ⟨h.waiting, fun p overlay hget => ?_, fun top htop p hplaying => ?_,
    fun top htop p hrequired hbound hp => ?_⟩
  · obtain ⟨_, ⟨⟩⟩ | ⟨_, hget⟩ := PerPad.get_set_eq_some_iff.1 hget
    exact h.covers p overlay hget
  · obtain ⟨hbound, hnone⟩ := h.playing top htop p hplaying
    refine ⟨hbound, ?_⟩
    by_cases hp : p = pad
    · rw [Stage.without, hp, PerPad.get_set_self]
    · rw [Stage.without, PerPad.get_set_of_ne _ _ hp, hnone]
  · rw [Stage.without, PerPad.get_set_of_ne _ _ hrequired.2] at hp
    exact h.complete top htop p hrequired.1 hbound hp

/-- An overlay may take a pad on which the top has no loop. -/
theorem Arranged.covered {pad : Pad} {overlay : Player}
    (h : s.Arranged fun p => generous ∧ p ≠ pad)
    (hclear : ∀ q ∈ s.players, q.loops.get pad = none) (hoverlay : overlay.Covers pad) :
    Stage.Arranged (fun _ => generous)
      { s with overlays := s.overlays.set pad (some overlay) } := by
  refine ⟨h.waiting, fun p other hget => ?_, fun top htop p hplaying => ?_,
    fun top htop p hgenerous hbound hp => ?_⟩
  · rcases PerPad.get_set_eq_some_iff.1 hget with ⟨rfl, ⟨⟩⟩ | ⟨_, hget⟩
    · exact hoverlay
    · exact h.covers p other hget
  · have hp : p ≠ pad := by
      rintro rfl
      have hmem : top ∈ s.players := mem_players.2 (.inl (List.mem_of_mem_head? htop))
      rw [Player.isPlaying, hclear top hmem] at hplaying
      cases hplaying
    obtain ⟨hbound, hnone⟩ := h.playing top htop p hplaying
    exact ⟨hbound, by rw [PerPad.get_set_of_ne _ _ hp, hnone]⟩
  · have hne : p ≠ pad := by
      rintro rfl
      rw [PerPad.get_set_self] at hp
      cases hp
    rw [PerPad.get_set_of_ne _ _ hne] at hp
    exact h.complete top htop p ⟨hgenerous, hne⟩ hbound hp

theorem Arranged.isPlaying_iff (h : s.Arranged required) {top : Player}
    (htop : top ∈ s.stack.head?) {p : Pad} (hp : required p) :
    top.isPlaying p = true ↔ top.isBound p = true ∧ s.overlays.get p = none :=
  ⟨h.playing top htop p, fun ⟨hbound, hnone⟩ => h.complete top htop p hp hbound hnone⟩

/-- An overlay keeps the whole stack off its pad. -/
theorem Arranged.loops_eq_none_of_overlaid (h : s.Arranged required) {p : Pad}
    (hp : s.overlays.get p ≠ none) : ∀ player ∈ s.stack, player.loops.get p = none := by
  intro player hplayer
  cases hstack : s.stack with
  | nil =>
    rw [hstack] at hplayer
    cases hplayer
  | cons top rest =>
    rw [hstack] at hplayer
    rcases List.mem_cons.1 hplayer with rfl | hrest
    · refine Player.loops_eq_none_of_isPlaying fun hplaying => hp ?_
      exact (h.playing player (by rw [hstack]; rfl) p hplaying).2
    · exact h.waiting player (by rwa [hstack]) p

/-- A pad without a driver is one on which no player has a loop. -/
theorem Arranged.loops_eq_none_of_driver (h : s.Arranged required) {p : Pad}
    (hdriver : s.driver p = none) : ∀ q ∈ s.players, q.loops.get p = none := by
  unfold driver at hdriver
  cases hget : s.overlays.get p with
  | some overlay =>
    have hplaying : overlay.isPlaying p = true := ((h.covers p overlay hget).isPlaying p).2 rfl
    simp [hget, hplaying] at hdriver
  | none =>
    intro q hq
    have hrest := loops_eq_none_of_rest h.waiting h.covers hget
    cases hstack : s.stack with
    | nil =>
      rw [players, hstack] at hq
      rw [hstack] at hrest
      exact hrest q hq
    | cons top rest =>
      rw [players, hstack] at hq
      rw [hstack] at hrest
      rcases List.mem_cons.1 hq with rfl | hq
      · refine Player.loops_eq_none_of_isPlaying fun hplaying => ?_
        simp [hget, hstack, hplaying] at hdriver
      · exact hrest q hq

/-- A required pad is driven by its overlay, or else by the top of the stack if that binds the
pad. -/
theorem Arranged.driver_eq (h : s.Arranged required) {p : Pad} (hp : required p) :
    s.driver p = match s.overlays.get p, s.stack.head? with
      | some overlay, _ => some overlay.id
      | none, some top => if top.isBound p then some top.id else none
      | none, none => none := by
  unfold driver
  cases hget : s.overlays.get p with
  | some overlay =>
    have hplaying : overlay.isPlaying p = true := ((h.covers p overlay hget).isPlaying p).2 rfl
    simp [hplaying]
  | none =>
    cases htop : s.stack.head? with
    | none => rfl
    | some top =>
      have hplaying : top.isPlaying p = top.isBound p := by
        rw [Bool.eq_iff_iff, h.isPlaying_iff htop hp, hget]
        simp
      simp [hplaying]

/-- Of the overlays only the one over the pad plays on it, since each covers its own pad. -/
theorem filter_overlays {overlays : PerPad (Option Player)}
    (hcovers : ∀ p overlay, overlays.get p = some overlay → overlay.Covers p) (p : Pad) :
    (overlays.entries.map (·.2)).filter (·.isPlaying p) = (overlays.get p).toList := by
  have hfilter (q : Pad) : (overlays.get q).filter (·.isPlaying p) =
      if q = p then overlays.get p else none := by
    by_cases hq : q = p
    · subst hq
      rw [if_pos rfl]
      cases hget : overlays.get q with
      | none => rfl
      | some overlay =>
        have hplaying : overlay.isPlaying q = true := ((hcovers q overlay hget).isPlaying q).2 rfl
        rw [Option.filter_some, hplaying, if_pos rfl]
    · rw [if_neg hq]
      cases hget : overlays.get q with
      | none => rfl
      | some overlay =>
        have hsilent : overlay.isPlaying p ≠ true := fun hplaying =>
          hq (((hcovers q overlay hget).isPlaying p).1 hplaying).symm
        rw [Option.filter_some, if_neg hsilent]
  rw [PerPad.entries, List.map_filterMap, List.filter_filterMap]
  have hsame : (fun q => Option.filter (·.isPlaying p) (((overlays.get q).map (q, ·)).map (·.2))) =
      fun q => if q = p then overlays.get p else none := by
    funext q
    rw [← hfilter, Option.map_map]
    cases overlays.get q <;> rfl
  rw [hsame]
  cases p <;> cases overlays.get _ <;> rfl

/-- At most one player has a loop on a pad. -/
theorem Arranged.length_filter_players (h : s.Arranged required) (p : Pad) :
    (s.players.filter (·.isPlaying p)).length ≤ 1 := by
  have hrest : s.stack.tail.filter (·.isPlaying p) = [] := by
    rw [List.filter_eq_nil_iff]
    intro player hplayer
    rw [(h.waiting player hplayer).isPlaying_eq]
    simp
  rw [players, List.filter_append, filter_overlays h.covers]
  cases hstack : s.stack with
  | nil => cases s.overlays.get p <;> simp
  | cons top rest =>
    rw [hstack, List.tail_cons] at hrest
    rw [List.filter_cons, hrest]
    split
    next hplaying =>
      have hnone := (h.playing top (by rw [hstack]; rfl) p hplaying).2
      simp [hnone]
    next => cases s.overlays.get p <;> simp

end Stage

end LightShow
