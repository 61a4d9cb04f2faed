import Wiring.Table
import Wiring.Text.Blank
import Wiring.Text.Hex
import Wiring.Identity
import Wiring.TypeRef
import Wiring.Flags
import Wiring.Decl
import Wiring.Universe
import Wiring.Json.Value
import Wiring.Json.Token
import Wiring.Json.Number
import Wiring.Json.Draft
import Wiring.Universe.Encoding
import Wiring.Universe.Decoding
import Wiring.ErrorCode
import Wiring.Diagnostic
import Wiring.Failure
import Wiring.ErrorOr
import Wiring.Definition
import Wiring.Registry
import Wiring.Discovery
import Wiring.Plan
import Wiring.Resolution
import Wiring.Naming
import Wiring.Import
import Wiring.Sheet
import Wiring.Code
import Wiring.Artifact
import Wiring.Generation
import Wiring.CommandLine.FilePath
import Wiring.CommandLine.Arguments
import Wiring.CommandLine.LogFilter
import Wiring.CommandLine.FileTree
import Wiring.CommandLine.Command
import Wiring.Main
import Wiring.Proofs.Sequences
import Wiring.Proofs.DependencyGraph
import Wiring.Proofs.WiringRun
import Wiring.Proofs.FinishedNodes
import Wiring.Proofs.PlanClosure
import Wiring.Proofs.Fallibility
import Wiring.Proofs.Solvability
import Wiring.Proofs.RegistryShape
import Wiring.Proofs.Calls
import Wiring.Proofs.TypedWiring
import Wiring.Proofs.Layout
import Wiring.Proofs.Propagation
import Wiring.Proofs.Numerals
import Wiring.Proofs.Identifiers
import Wiring.Proofs.Splitting
import Wiring.Proofs.ArtifactTable
import Wiring.Proofs.Registration
import Wiring.Proofs.DiscoveredModules
import Wiring.Proofs.UsedModules
import Wiring.Proofs.Linking
import Wiring.Proofs.JsonText
import Wiring.Proofs.FlagsText
import Wiring.Proofs.DeclEncoding
import Wiring.Proofs.DeclNesting
import Wiring.Proofs.UniverseFile
import Wiring.Proofs.FailureCodes
import Wiring.Proofs.Outcomes
import Wiring.Proofs.ImplementedInterface
import Wiring.Proofs.Surface
import Wiring.Proofs.HiddenMembers
import Wiring.Proofs.EmissionInputs
import Wiring.Proofs.LargerCatalog
import Wiring.Proofs.EmbeddedUniverse
import Wiring.Proofs.EmbeddedGeneration
import Wiring.Proofs.FurtherModules
import Wiring.Proofs.TargetOrder
import Wiring.Proofs.BoundNames
import Wiring.Proofs.ExposedTypes
import Wiring.Proofs.ArgumentSwitches
import Wiring.Proofs.WrittenFiles
import Wiring.Proofs.DryRun
import Wiring.Proofs.DepthFirst
import Wiring.Proofs.FailureChains
import Wiring.Proofs.FallibleOrigins
import Wiring.Proofs.CompletionOrder
import Wiring.Proofs.CodeBlocks
import Wiring.Proofs.ComponentFields
import Wiring.Proofs.OwnMethods
import Wiring.Proofs.SpelledLines
import Wiring.Proofs.MentionedPaths
import Wiring.Proofs.FieldAssignments
import Wiring.Proofs.AcceptedDefinitions
import Wiring.Proofs.ConfiguredNames
import Wiring.Proofs.Insertions
import Wiring.Proofs.WorklistPops
import Wiring.Proofs.ImportAliases
import Wiring.Proofs.ResolverSteps
import Wiring.Proofs.ResolverState
import Wiring.Proofs.ResolverOutcome
import Wiring.Proofs.ResolverRuns
