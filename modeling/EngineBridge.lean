import EngineBridge.Host.Boundary
import EngineBridge.Host.Codec
import EngineBridge.Main
import EngineBridge.Project.Codec
import EngineBridge.Proofs.Layout.Parts
import EngineBridge.Trial.Engine
import EngineBridge.Trial.Handlers
import EngineBridge.Proofs.Layout.Repr
import EngineBridge.Proofs.Layout.Frame
import EngineBridge.Proofs.Text.Utf8
import EngineBridge.Proofs.Wire.Reader
import EngineBridge.Proofs.Wire.RoundTrip
import EngineBridge.Proofs.Layout.Sizes
import EngineBridge.Proofs.Memory.Marks
import EngineBridge.Proofs.Memory.Values
import EngineBridge.Proofs.Host.Direct
import EngineBridge.Proofs.Export.Trampolines
import EngineBridge.Proofs.Export.Wrappers
import EngineBridge.Proofs.Export.Dispatch
import EngineBridge.Proofs.Wire.Acceptance
import EngineBridge.Proofs.Model.Lowering
import EngineBridge.Proofs.Files.Path
import EngineBridge.Proofs.Manifest.CrossReference
import EngineBridge.Proofs.Export.Disk
import EngineBridge.Proofs.Export.Symbols
import EngineBridge.Proofs.Export.WrapperText
import EngineBridge.Proofs.Project.History
import EngineBridge.Proofs.Host.Lifecycle
import EngineBridge.Proofs.Host.Silence
import EngineBridge.Proofs.Host.Delivery
import EngineBridge.Proofs.Model.Invariants
import EngineBridge.Proofs.Source.Reading
import EngineBridge.Proofs.Source.Rendering
import EngineBridge.Proofs.Source.RoundTrip
import EngineBridge.Proofs.Project.Rejection
import EngineBridge.Proofs.Project.Completion
import EngineBridge.Proofs.Model.Reload
import EngineBridge.Proofs.Host.Index
import EngineBridge.Proofs.Project.Confinement
import EngineBridge.Proofs.Project.Definitions
import EngineBridge.Proofs.Export.FastSet
import EngineBridge.Proofs.Export.Scopes
import EngineBridge.Proofs.Export.Mentions
import EngineBridge.Proofs.Export.Rereading
import EngineBridge.Proofs.Host.Capability
import EngineBridge.Proofs.Model.Resolution
import EngineBridge.Proofs.Manifest.Repeats
import EngineBridge.Proofs.Text.Progress
import EngineBridge.Proofs.Source.Steady
import EngineBridge.Proofs.Source.SteadyTokens
import EngineBridge.Proofs.Source.SteadyGrammar
import EngineBridge.Proofs.Source.SteadyMembers
import EngineBridge.Proofs.Source.SteadyFiles
import EngineBridge.Proofs.Source.Balanced
import EngineBridge.Proofs.Source.Blocks
import EngineBridge.Proofs.Files.Footprint
import EngineBridge.Proofs.Project.Schemas
import EngineBridge.Proofs.Layout.Representable
import EngineBridge.Proofs.Memory.Portable
import EngineBridge.Proofs.Host.Fallback
import EngineBridge.Proofs.Text.Yields
import EngineBridge.Proofs.Model.Origins
import EngineBridge.Proofs.Source.Exported
import EngineBridge.Proofs.Export.Brackets
import EngineBridge.Proofs.Project.Sources
import EngineBridge.Proofs.Project.Rerun
import EngineBridge.Proofs.Memory.Crashes
import EngineBridge.Proofs.Host.Managed
import EngineBridge.Proofs.Export.Collisions
import EngineBridge.Proofs.Export.Companions
import EngineBridge.Proofs.Layout.Foreign
import EngineBridge.Proofs.Memory.Outcomes
import EngineBridge.Proofs.Host.ForeignLayout
import EngineBridge.Proofs.Host.SymbolCalls
import EngineBridge.Proofs.Source.TypeSpelling
import EngineBridge.Proofs.Source.EnumValues
import EngineBridge.Proofs.Model.Denotation
import EngineBridge.Proofs.Project.Arrangement
import EngineBridge.Proofs.Model.Numbering
import EngineBridge.Proofs.Source.Coordinates
