import ClassDiagram.Analysis.Cancellation
import ClassDiagram.Command.Run
import ClassDiagram.Java.Grammar
import ClassDiagram.Json.Settings
import ClassDiagram.Main
import ClassDiagram.Project.FileTree
import ClassDiagram.Render.Format
import ClassDiagram.Proofs.Signature
import ClassDiagram.Proofs.Transparency
import ClassDiagram.Proofs.Consultation
import ClassDiagram.Proofs.Classification
import ClassDiagram.Proofs.AnalysisShape
import ClassDiagram.Proofs.Ownership
import ClassDiagram.Proofs.Schedule
import ClassDiagram.Proofs.Drafting
import ClassDiagram.Proofs.KnownNames
import ClassDiagram.Proofs.References
import ClassDiagram.Proofs.Restriction
import ClassDiagram.Proofs.UnknownTypes
import ClassDiagram.Proofs.SuffixRule
import ClassDiagram.Proofs.Leaves
import ClassDiagram.Proofs.Flattening
import ClassDiagram.Proofs.MemoInvariant
import ClassDiagram.Proofs.EdgeGroups
import ClassDiagram.Proofs.UsageEdges
import ClassDiagram.Proofs.StrictFailures
import ClassDiagram.Proofs.InputOrder
import ClassDiagram.Proofs.DeclaredStubs
import ClassDiagram.Proofs.EdgeShape
import ClassDiagram.Proofs.NameOrder
import ClassDiagram.Proofs.Reachability
import ClassDiagram.Proofs.OwnershipCycles
import ClassDiagram.Proofs.DataFormat
import ClassDiagram.Proofs.Cancellation
import ClassDiagram.Proofs.BrokenFiles
import ClassDiagram.Proofs.CheckedNames
import ClassDiagram.Proofs.NodeIds
import ClassDiagram.Proofs.DrawnEdges
import ClassDiagram.Proofs.BodyScope
import ClassDiagram.Proofs.Sightings
import ClassDiagram.Proofs.Shadowing
import ClassDiagram.Proofs.OpaqueTypes
import ClassDiagram.Proofs.Reading
import ClassDiagram.Proofs.Lexemes
import ClassDiagram.Proofs.WrittenTypes
import ClassDiagram.Proofs.WrittenCode
import ClassDiagram.Proofs.WrittenTrees
import ClassDiagram.Proofs.SourceOrder
import ClassDiagram.Proofs.MemberTypes
import ClassDiagram.Proofs.TypeNames
import ClassDiagram.Proofs.RecordLabels
import ClassDiagram.Proofs.DocumentText
import ClassDiagram.Proofs.Respacing
import ClassDiagram.Proofs.RespacedTypes
import ClassDiagram.Proofs.RespacedCode
import ClassDiagram.Proofs.RespacedTrees
import ClassDiagram.Proofs.RespacedText
import ClassDiagram.Proofs.DotSpacing
import ClassDiagram.Proofs.Lookups
