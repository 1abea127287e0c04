import LightShow.Demo

namespace LightShow.Demo

/-- A colour of the palette. -/
def entry (index : UInt8) : ColourRef := .palette index

/-- Events that follow one another from a first beat on, a step of beats apart. -/
def evenly {α : Type} (first step : Rat) (event : α → DemoEvent) (items : List α) :
    List (Rat × DemoEvent) :=
  items.zipIdx.map fun (item, n) => (first + step * n, event item)

def auroraGlide : Demo where
  name := "aurora_glide"
  description := "Cascading pad fades with default transitions."
  overrides := []
  tempo := []
  lanes :=
    [lane .centre 0 [17, 19, 21, 23, 27],
     lane .left 1 [13, 15, 17, 19, 21],
     lane .right 2 [24, 26, 28, 30, 1]]
where
  lane (pad : Pad) (first : Rat) (colours : List UInt8) : Pad × List (Rat × DemoEvent) :=
    (pad, (0, .defaultTransition 0.5) ::
      evenly first 2 (fun colour => .switchDefault (entry colour) 2) colours)

def rainbowCycle : Demo where
  name := "rainbow_cycle"
  description := "Multi-pad literal colour fades with overlapping ramps."
  overrides := []
  tempo := []
  lanes :=
    [lane .centre 0 [⟨0, 255, 128⟩, ⟨64, 0, 255⟩, ⟨255, 64, 0⟩, ⟨0, 128, 255⟩] ⟨255, 0, 192⟩,
     lane .left 1 [⟨255, 200, 0⟩, ⟨0, 180, 255⟩, ⟨180, 0, 255⟩, ⟨0, 255, 200⟩] ⟨255, 120, 0⟩,
     lane .right 0.5 [⟨255, 32, 160⟩, ⟨0, 255, 255⟩, ⟨255, 255, 0⟩, ⟨0, 128, 255⟩] ⟨255, 0, 255⟩]
where
  /-- The last fade holds a beat longer. -/
  lane (pad : Pad) (first : Rat) (colours : List Colour) (last : Colour) :
      Pad × List (Rat × DemoEvent) :=
    (pad, evenly first 2 (fun colour => .fade (.literal colour) 1.5 3 2) colours ++
      [(first + 8, .fade (.literal last) 1.5 3 3)])

def syncPulse : Demo where
  name := "sync_pulse"
  description := "Synchronous pulse patterns using flash commands."
  overrides := []
  tempo := []
  lanes := [lane .centre 1 27, lane .left 4 9, lane .right 17 24]
where
  lane (pad : Pad) (first second : UInt8) : Pad × List (Rat × DemoEvent) :=
    (pad,
      [(0, .flash (entry first) 0.25 0.25 6 3),
       (3, .flash (entry second) 0.125 0.125 10 3),
       (6, .switch (entry 0) 0 4)])

def tripleChase : Demo where
  name := "triple_chase"
  description := "Sequential pad chase with quick swaps to blackout."
  overrides := []
  tempo := []
  lanes := [lane .centre 0 4 2, lane .left 1 6 12, lane .right 2 9 24]
where
  lane (pad : Pad) (offset : Rat) (colour finale : UInt8) : Pad × List (Rat × DemoEvent) :=
    (pad,
      ([0, 3, 6, 9].flatMap fun (cycle : Rat) =>
        [(cycle + offset, .switch (entry colour) 0 0.75),
         (cycle + offset + 0.75, .switch (entry 0) 0 0.25)]) ++
      [(12, .switch (entry finale) 0 1)])

def tempoRamp : Demo where
  name := "tempo_ramp"
  description := "Tempo changes that accelerate flashes and fades."
  overrides := []
  tempo := [(0, 750000), (4, 500000), (8, 350000)]
  lanes :=
    [(.centre,
      [(0, .flash (entry 10) 0.5 0.5 6 4),
       (4, .flash (entry 14) 0.5 0.5 8 4),
       (8, .flash (entry 4) 0.5 0.5 10 4),
       (12, .switch (entry 0) 0 2)]),
     (.left,
      [(0, .fade (entry 17) 2 2 4),
       (4, .fade (entry 19) 2 3 4),
       (8, .fade (entry 21) 2 4 4),
       (12, .blackout 1 2)]),
     (.right,
      [(0, .switch (entry 5) 0 4),
       (4, .switch (entry 7) 0 4),
       (8, .switch (entry 9) 0 4),
       (12, .blackout 0.5 2)])]

def countdownBurst : Demo where
  name := "countdown_burst"
  description := "Countdown pulses with shrinking intervals."
  overrides := []
  tempo := []
  lanes := [lane .centre 1 27 4 1, lane .left 20 14 9 10, lane .right 4 6 27 24]
where
  lane (pad : Pad) (slow medium fast finale : UInt8) : Pad × List (Rat × DemoEvent) :=
    (pad,
      [(0, .flash (entry slow) 1 1 3 4),
       (4, .flash (entry medium) 0.5 0.5 3 3),
       (7, .flash (entry fast) 0.25 0.25 4 2),
       (9, .switch (entry finale) 0 2)])

def strobeWarning : Demo where
  name := "strobe_warning"
  description := "High-intensity strobe showcase."
  overrides := []
  tempo := []
  lanes := [lane .centre 1 4, lane .left 9 1, lane .right 27 22]
where
  lane (pad : Pad) (strobe burst : UInt8) : Pad × List (Rat × DemoEvent) :=
    (pad,
      [(0, .flash (entry strobe) 0.125 0.125 20 6),
       (6, .flash (entry burst) 0.0625 0.0625 24 2),
       (8, .blackout 0.5 2)])

def twinkleField : Demo where
  name := "twinkle_field"
  description := "Asynchronous twinkles with short dwell times."
  overrides := []
  tempo := []
  lanes :=
    [lane .centre 3
      [(0.5, 24, 0.3), (1.8, 10, 0.4), (3.2, 27, 0.3), (4.6, 21, 0.5), (6.5, 9, 0.4),
       (8.4, 14, 0.4), (10.2, 18, 0.5)],
     lane .left 7
      [(0.7, 30, 0.3), (2.1, 12, 0.4), (3.9, 16, 0.4), (5.2, 28, 0.3), (6.8, 8, 0.4),
       (8.9, 26, 0.4), (10.8, 4, 0.5)],
     lane .right 11
      [(0.9, 5, 0.3), (2.4, 19, 0.4), (4, 23, 0.3), (5.7, 15, 0.4), (7.2, 25, 0.4), (9.1, 17, 0.4),
       (11, 29, 0.5)]]
where
  lane (pad : Pad) (finale : UInt8) (twinkles : List (Rat × UInt8 × Rat)) :
      Pad × List (Rat × DemoEvent) :=
    (pad,
      (twinkles.flatMap fun (start, colour, dwell) =>
        [(start, .switch (entry colour) 0 dwell),
         (start + dwell, .switch (entry 0) 0 0.25)]) ++
      [(12, .switch (entry finale) 0 1)])

def waveCascade : Demo where
  name := "wave_cascade"
  description := "Layered wave fades using default transitions."
  overrides := []
  tempo := []
  lanes :=
    [lane .centre 0 [17, 19, 21, 23], lane .left 1 [10, 12, 14, 16], lane .right 2 [24, 26, 28, 30]]
where
  lane (pad : Pad) (first : Rat) (colours : List UInt8) : Pad × List (Rat × DemoEvent) :=
    (pad, (0, .defaultTransition 0.5) ::
      evenly first 3 (fun colour => .fade (entry colour) 2 4 3) colours)

def centreStage : Demo where
  name := "centre_stage"
  description := "Centre spotlight with supporting side pulses."
  overrides := []
  tempo := []
  lanes :=
    [(.centre,
      [(0, .fade (entry 1) 2 2 4),
       (4, .fade (entry 4) 1 1 2),
       (6, .fade (entry 9) 1 1 2),
       (8, .fade (entry 27) 2 2 4),
       (12, .blackout 0.5 2)]),
     (.left,
      [(0, .switch (entry 14) 0.5 12),
       (3, .flash (entry 10) 0.25 0.25 4 2),
       (7, .flash (entry 12) 0.25 0.25 4 2)]),
     (.right,
      [(0, .switch (entry 18) 0.5 12),
       (3.5, .flash (entry 24) 0.25 0.25 4 2),
       (7.5, .flash (entry 26) 0.25 0.25 4 2)])]

def oceanSwell : Demo where
  name := "ocean_swell"
  description := "Slow overlapping fades with blackout finales."
  overrides := []
  tempo := []
  lanes :=
    [(.centre, swell 0 [18, 16, 14] ++ [(11, .switch (entry 0) 0 1)]),
     (.left, swell 1.5 [19, 17, 15]),
     (.right, swell 3 [20, 22, 24])]
where
  swell (first : Rat) (colours : List UInt8) : List (Rat × DemoEvent) :=
    evenly first 3 (fun colour => .fade (entry colour) 3 3 3) colours ++
      [(first + 9, .blackout 1 2)]

def fireworksFinale : Demo where
  name := "fireworks_finale"
  description := "Palette overrides with spark bursts and finale strobe."
  overrides := [(31, ⟨0xFF, 0xEE, 0x66⟩), (30, ⟨0xFF, 0xAA, 0x00⟩)]
  tempo := []
  lanes :=
    [(.centre,
      [(0, .flash (entry 27) 0.25 0.25 4 2),
       (2, .switch (entry 31) 0.5 2),
       (4, .flash (entry 4) 0.125 0.125 8 3),
       (7, .switch (entry 1) 0.25 2),
       (9, .flash (entry 31) 0.125 0.125 6 2),
       (11, .blackout 0.5 1)]),
     (.left,
      [(0, .fade (entry 24) 1.5 2 2),
       (2.5, .flash (entry 31) 0.25 0.25 6 2),
       (5, .fade (entry 17) 1 3 2),
       (9, .flash (entry 31) 0.125 0.125 6 2),
       (11, .blackout 0.5 1)]),
     (.right,
      [(0, .switch (entry 6) 0 1),
       (1, .flash (entry 27) 0.25 0.25 5 2),
       (3.5, .flash (entry 22) 0.25 0.25 6 2),
       (6, .switch (entry 30) 0.5 2),
       (9, .flash (entry 1) 0.125 0.125 6 2),
       (11, .blackout 0.5 1)])]

/-- Every demonstration track, in the order in which they are written out. -/
def all : List Demo :=
  [auroraGlide, rainbowCycle, syncPulse, tripleChase, tempoRamp, countdownBurst, strobeWarning,
    twinkleField, waveCascade, centreStage, oceanSwell, fireworksFinale]

end LightShow.Demo
