import IconMotion.Json.Source
import IconMotion.Animation.Decode
import IconMotion.Animation.Encode
import IconMotion.Control.Discovery
import IconMotion.Control.Write
import IconMotion.Motion.Sampling
import IconMotion.Motion.Playhead
import IconMotion.Expression.Evaluation
import IconMotion.Live.Player
import IconMotion.Icon.Loading
import IconMotion.CommandLine.Run
import IconMotion.Main
import IconMotion.Proofs.Walk
import IconMotion.Proofs.Channels
import IconMotion.Proofs.Writing
import IconMotion.Proofs.Discovering
import IconMotion.Proofs.Reading
import IconMotion.Proofs.Parallel
import IconMotion.Proofs.Playing
import IconMotion.Proofs.IconRun
import IconMotion.Proofs.ControlValues
import IconMotion.Proofs.Export
import IconMotion.Proofs.Reload
import IconMotion.Proofs.Customization
import IconMotion.Proofs.Sampling
import IconMotion.Proofs.History
import IconMotion.Proofs.Loading
import IconMotion.Proofs.Resetting
import IconMotion.Proofs.Exclusion
import IconMotion.Proofs.Formats
import IconMotion.Proofs.Signs
import IconMotion.Proofs.WholeNumbers
import IconMotion.Proofs.Idioms
import IconMotion.Proofs.Meaning
import IconMotion.Proofs.Placement
import IconMotion.Proofs.Spelling
import IconMotion.Proofs.Layout
import IconMotion.Proofs.Operands
import IconMotion.Proofs.Roundtrip
import IconMotion.Proofs.Instances
import IconMotion.Proofs.Hosting
import IconMotion.Proofs.Following
import IconMotion.Proofs.Overrides
import IconMotion.Proofs.Encoding
import IconMotion.Proofs.Parts
import IconMotion.Proofs.NormalForm
import IconMotion.Proofs.CheckedSampling
import IconMotion.Proofs.CheckedWriting
import IconMotion.Proofs.Panics
import IconMotion.Proofs.ExactArithmetic
import IconMotion.Proofs.Rounds
import IconMotion.Proofs.Stopping
import IconMotion.Proofs.Lenses
import IconMotion.Proofs.Refusals
import IconMotion.Proofs.Independence
import IconMotion.Proofs.Isolation
import IconMotion.Proofs.Ordering
import IconMotion.Proofs.Reverting
import IconMotion.Proofs.Addressable
import IconMotion.Proofs.PathText
import IconMotion.Proofs.Differences
import IconMotion.Proofs.Scanning
import IconMotion.Proofs.Holding
import IconMotion.Proofs.EasingCurve
import IconMotion.Proofs.EasingSearch
import IconMotion.Proofs.EasingRange
import IconMotion.Proofs.Bindings
import IconMotion.Proofs.Singles
import IconMotion.Proofs.Caching
import IconMotion.Proofs.Limits
import IconMotion.Proofs.Progress
import IconMotion.Proofs.HexColors
import IconMotion.Proofs.ColorReading
