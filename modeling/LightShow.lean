import LightShow.Base64
import LightShow.Binary64
import LightShow.Binary64.Decimal
import LightShow.Bytes
import LightShow.Cache
import LightShow.Chunk
import LightShow.Clock
import LightShow.CodecError
import LightShow.Colour
import LightShow.CommandLine
import LightShow.Container
import LightShow.Cue
import LightShow.Demo
import LightShow.Demo.Tracks
import LightShow.Envelope
import LightShow.FileSystem
import LightShow.FileSystem.Error
import LightShow.FileSystem.Path
import LightShow.Generator
import LightShow.Header
import LightShow.Hex
import LightShow.Main
import LightShow.Pad
import LightShow.PadEvent
import LightShow.Palette
import LightShow.Playback.Actuator
import LightShow.Playback.Error
import LightShow.Playback.Loop
import LightShow.Playback.Perform
import LightShow.Playback.Player
import LightShow.Playback.Rig
import LightShow.Playback.Stage
import LightShow.Playback.Timing
import LightShow.Program
import LightShow.Proofs.Binary64.Arithmetic
import LightShow.Proofs.Binary64.Order
import LightShow.Proofs.Binary64.Rounding
import LightShow.Proofs.Binary64.Spans
import LightShow.Proofs.Cache.History
import LightShow.Proofs.Codec.Acceptance
import LightShow.Proofs.Codec.Chunk
import LightShow.Proofs.Codec.Container
import LightShow.Proofs.Codec.Cutting
import LightShow.Proofs.Codec.Event
import LightShow.Proofs.Codec.Failure
import LightShow.Proofs.Codec.Framing
import LightShow.Proofs.Codec.Header
import LightShow.Proofs.Codec.Independence
import LightShow.Proofs.Codec.Malformed
import LightShow.Proofs.Codec.Meaning
import LightShow.Proofs.Codec.Overrides
import LightShow.Proofs.Codec.Parts
import LightShow.Proofs.Codec.Program
import LightShow.Proofs.Codec.Ranges
import LightShow.Proofs.Codec.Reading
import LightShow.Proofs.Codec.Rendering
import LightShow.Proofs.Codec.Stream
import LightShow.Proofs.Codec.StreamOrder
import LightShow.Proofs.Codec.Varint
import LightShow.Proofs.Codec.Words
import LightShow.Proofs.Envelope.Base64
import LightShow.Proofs.Envelope.Detection
import LightShow.Proofs.Envelope.Layout
import LightShow.Proofs.Envelope.Lines
import LightShow.Proofs.Envelope.Transport
import LightShow.Proofs.Outcome
import LightShow.Proofs.Playback.Answers
import LightShow.Proofs.Playback.Arrangement
import LightShow.Proofs.Playback.Conduct
import LightShow.Proofs.Playback.Confined
import LightShow.Proofs.Playback.Control
import LightShow.Proofs.Playback.Course
import LightShow.Proofs.Playback.Cycle
import LightShow.Proofs.Playback.Ending
import LightShow.Proofs.Playback.Holding
import LightShow.Proofs.Playback.Numbering
import LightShow.Proofs.Playback.Obedience
import LightShow.Proofs.Playback.Outline
import LightShow.Proofs.Playback.Pacing
import LightShow.Proofs.Playback.Player
import LightShow.Proofs.Playback.Punctual
import LightShow.Proofs.Playback.Reach
import LightShow.Proofs.Playback.Run
import LightShow.Proofs.Playback.Serving
import LightShow.Proofs.Playback.Stage
import LightShow.Proofs.Playback.Step
import LightShow.Proofs.Playback.Stopping
import LightShow.Proofs.Playback.Tending
import LightShow.Proofs.Playback.Trace
import LightShow.Proofs.Playback.Turn
import LightShow.Proofs.Playback.Willing
import LightShow.Proofs.Score.Canonical
import LightShow.Proofs.Score.Entry
import LightShow.Proofs.Score.Length
import LightShow.Proofs.Score.Palette
import LightShow.Proofs.Score.RoundTrip
import LightShow.Proofs.Sequence
import LightShow.Proofs.Tempo.Canonical
import LightShow.Proofs.Tempo.Exact
import LightShow.Proofs.Tempo.Monotone
import LightShow.Proofs.Tempo.Rates
import LightShow.Proofs.Tempo.Segments
import LightShow.Proofs.Tempo.Time
import LightShow.Proofs.Ticks.Decoding
import LightShow.Proofs.Ticks.Range
import LightShow.Proofs.Ticks.Tally
import LightShow.Proofs.Ticks.Times
import LightShow.Proofs.Ticks.Walk
import LightShow.Proofs.Track.Normal
import LightShow.Reader
import LightShow.Score
import LightShow.Settings
import LightShow.Settings.Document
import LightShow.Stream
import LightShow.Tag
import LightShow.Tempo
import LightShow.Tempo.Events
import LightShow.Toml.Document
import LightShow.Toml.Scalar
import LightShow.Toml.Text
import LightShow.Toml.Value
import LightShow.Track
import LightShow.Varint
