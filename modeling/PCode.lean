import PCode.Span
import PCode.Ty
import PCode.Operator
import PCode.Config
import PCode.Outline
import PCode.Scope
import PCode.Stream
import PCode.Text.Quoted
import PCode.Text.Blank
import PCode.Text.Utf8
import PCode.Binary64.Reading
import PCode.Binary64.Shortest
import PCode.Command.Test
import PCode.Main
import PCode.Proofs.Lowering.Frames
import PCode.Proofs.Lowering.Addresses
import PCode.Proofs.Lowering.Calls
import PCode.Proofs.Semantics.Programs
import PCode.Proofs.Lowering.Integrity
import PCode.Proofs.Lowering.Erasure
import PCode.Proofs.Findings
import PCode.Proofs.Resolution.Verdicts
import PCode.Proofs.Typing.Verdicts
import PCode.Proofs.Compilation
import PCode.Proofs.Extension
import PCode.Proofs.Resolution.Stability
import PCode.Proofs.Typing.Stability
import PCode.Proofs.Lowering.Stability
import PCode.Proofs.History
import PCode.Proofs.Renaming
import PCode.Proofs.Resolution.Renaming
import PCode.Proofs.Typing.Renaming
import PCode.Proofs.Lowering.Renaming
import PCode.Proofs.Invariance
import PCode.Proofs.Static.Noted
import PCode.Proofs.Typing.Canonical
import PCode.Proofs.Annotations
import PCode.Proofs.Phases
import PCode.Proofs.FileTree
import PCode.Proofs.Command.Compile
import PCode.Proofs.Lowering.Items
import PCode.Proofs.Listing
import PCode.Proofs.Lowering.Comments
import PCode.Proofs.Binary64.Rounding
import PCode.Proofs.Json.Numerals
import PCode.Proofs.Binary64.Numerals
import PCode.Proofs.Document.Legible
import PCode.Proofs.Document.Encoding
import PCode.Proofs.Document.WellFormed
import PCode.Proofs.Reordering.Signatures
import PCode.Proofs.Lowering.Moving
import PCode.Proofs.Reordering.Placement
import PCode.Proofs.Reordering
import PCode.Proofs.Suite.Schedules
import PCode.Proofs.Text.Utf8
import PCode.Proofs.Json.RoundTrip
import PCode.Proofs.Suite.Golden
import PCode.Proofs.Path
import PCode.Proofs.Suite.RoundTrip
import PCode.Proofs.Flags
import PCode.Proofs.Artifact
import PCode.Proofs.Table
import PCode.Proofs.Excerpt
import PCode.Proofs.Config
import PCode.Proofs.Stream
import PCode.Proofs.Typing.Mismatches
import PCode.Proofs.Wrapping
import PCode.Proofs.Flags.Composition
