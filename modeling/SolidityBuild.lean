import SolidityBuild.Main
import SolidityBuild.Proofs.Collection.Closure
import SolidityBuild.Proofs.Collection.Accounting
import SolidityBuild.Proofs.ImportGraph.Construction
import SolidityBuild.Proofs.ImportGraph.Order
import SolidityBuild.Proofs.Collection.Agreement
import SolidityBuild.Proofs.Collection.History
import SolidityBuild.Proofs.Collection.Permanence
import SolidityBuild.Proofs.Collection.Presence
import SolidityBuild.Proofs.Collection.Graph
import SolidityBuild.Proofs.CompilationSet.Units
import SolidityBuild.Proofs.Build.Gathering
import SolidityBuild.Proofs.Build.Buffers
import SolidityBuild.Proofs.Build.SearchOrder
import SolidityBuild.Proofs.Build.BufferOrder
import SolidityBuild.Proofs.FileTree.Walking
import SolidityBuild.Proofs.Compiler.Artifacts
import SolidityBuild.Proofs.Path.Containment
import SolidityBuild.Proofs.Remapping.Choice
import SolidityBuild.Proofs.Remapping.Entry
import SolidityBuild.Proofs.Resolution.Rules
import SolidityBuild.Proofs.Remapping.Agreement
import SolidityBuild.Proofs.Path.Joining
import SolidityBuild.Proofs.Resolution.Candidates
import SolidityBuild.Proofs.Remapping.Packages
import SolidityBuild.Proofs.Source.Exactness
import SolidityBuild.Proofs.CompilationSet.StandardJson
import SolidityBuild.Proofs.CompilationSet.Names
import SolidityBuild.Proofs.Build.Seeding
import SolidityBuild.Proofs.Build.Reporting
import SolidityBuild.Proofs.Path.Forward
import SolidityBuild.Proofs.ImportGraph.Completeness
import SolidityBuild.Proofs.ImportGraph.Indexing
import SolidityBuild.Proofs.CommandLine.Agreement
import SolidityBuild.Proofs.Disk.Canonical
import SolidityBuild.Proofs.Build.NewBuffers
import SolidityBuild.Proofs.ImportGraph.Cycle
import SolidityBuild.Proofs.ImportGraph.PostOrder
import SolidityBuild.Proofs.Collection.PostOrder
import SolidityBuild.Proofs.Path.Appending
import SolidityBuild.Proofs.Path.Attaching
import SolidityBuild.Proofs.Path.Congruence
import SolidityBuild.Proofs.Remapping.Specificity
import SolidityBuild.Proofs.Remapping.Substitution
import SolidityBuild.Proofs.Remapping.Precedence
import SolidityBuild.Proofs.Resolution.Climbing
import SolidityBuild.Proofs.Resolution.Shape
import SolidityBuild.Proofs.Resolution.Confinement
import SolidityBuild.Proofs.Remapping.Reading
import SolidityBuild.Proofs.Remapping.Listing
import SolidityBuild.Proofs.Source.Blanking
import SolidityBuild.Proofs.Source.Forms
import SolidityBuild.Proofs.Collection.Worklist
import SolidityBuild.Proofs.Json.Records
import SolidityBuild.Proofs.Compiler.Reports
import SolidityBuild.Proofs.Path.Descent
import SolidityBuild.Proofs.Manifest.Directories
import SolidityBuild.Proofs.Manifest.RoundTrip
import SolidityBuild.Proofs.Disk.Listing
import SolidityBuild.Proofs.Disk.Unlinked
import SolidityBuild.Proofs.Glob.Reading
import SolidityBuild.Proofs.Glob.Matching
import SolidityBuild.Proofs.Glob.Descending
import SolidityBuild.Proofs.Glob.Limit
import SolidityBuild.Proofs.Glob.Searching
import SolidityBuild.Proofs.Glob.Sources
import SolidityBuild.Proofs.Glob.Blurring
import SolidityBuild.Proofs.Glob.BlurredPaths
import SolidityBuild.Proofs.Glob.Exclusion
import SolidityBuild.Proofs.Build.BuildDirectory
import SolidityBuild.Proofs.Glob.Exactness
