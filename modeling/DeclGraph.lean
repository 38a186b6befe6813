import DeclGraph.Batch.Claim
import DeclGraph.Batch.Run
import DeclGraph.Invocation.File
import DeclGraph.Invocation.Split
import DeclGraph.Program.World
import DeclGraph.Projection.File
import DeclGraph.Report
import DeclGraph.CommandLine.Command
import DeclGraph.CommandLine.Run
import DeclGraph.TranslationUnit.Basic
import DeclGraph.TranslationUnit.Compilation
import DeclGraph.TranslationUnit.Document
import DeclGraph.TranslationUnit.FrontEnd
import DeclGraph.Proofs.Batch.Atomic
import DeclGraph.Proofs.Batch.Repetition
import DeclGraph.Proofs.Batch.Scope
import DeclGraph.Proofs.Encoding.Isomorphism
import DeclGraph.Proofs.Encoding.Recursion
import DeclGraph.Proofs.Json.Escape
import DeclGraph.Proofs.Json.Reading
import DeclGraph.Proofs.Text.Utf8
import DeclGraph.Proofs.Json.Layout
import DeclGraph.Proofs.Invocation.Document
import DeclGraph.Proofs.Invocation.File
import DeclGraph.Proofs.Batch.Artifact
import DeclGraph.Proofs.Batch.Escape
import DeclGraph.Proofs.Batch.Mirror
import DeclGraph.Proofs.CommandLine.Documents
import DeclGraph.Proofs.CommandLine.Ending
import DeclGraph.Proofs.CommandLine.Split
import DeclGraph.Proofs.Encoding.Renaming
import DeclGraph.Proofs.Encoding.Readback
import DeclGraph.Proofs.TranslationUnit.Enumerations
import DeclGraph.Proofs.TranslationUnit.Records
import DeclGraph.Proofs.TranslationUnit.Types
import DeclGraph.Proofs.Encoding.Termination
import DeclGraph.Proofs.Encoding.Failing
import DeclGraph.Proofs.TranslationUnit.Functions
import DeclGraph.Proofs.TranslationUnit.Halting
import DeclGraph.Encoding.Serializer
import DeclGraph.Projection.Projector
import DeclGraph.Proofs.Batch.Sparing
import DeclGraph.Proofs.Encoding.Inline
import DeclGraph.Proofs.Encoding.Resolution
import DeclGraph.Proofs.Projection.Document
import DeclGraph.Proofs.Projection.Accepted
import DeclGraph.Proofs.CommandLine.Extraction
import DeclGraph.Proofs.Snapshot.Markers
import DeclGraph.Proofs.Invocation.Rebase
import DeclGraph.Proofs.Snapshot.FunctionMap
import DeclGraph.Proofs.Batch.Naming
import DeclGraph.Proofs.Batch.Claimants
import DeclGraph.Proofs.Batch.Collision
import DeclGraph.Proofs.CommandLine.Replies
import DeclGraph.Proofs.TranslationUnit.Macros
import DeclGraph.Proofs.TranslationUnit.Variables
import DeclGraph.Proofs.TranslationUnit.Parents
import DeclGraph.Proofs.Graph.Arrays
import DeclGraph.Proofs.TranslationUnit.Reports
