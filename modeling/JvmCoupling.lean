import JvmCoupling.ClassIndex
import JvmCoupling.Command.Run
import JvmCoupling.Main
import JvmCoupling.Proofs.ClassFile.PoolLayout
import JvmCoupling.Proofs.ClassFile.Bytecode
import JvmCoupling.Proofs.ClassFile.Grammar
import JvmCoupling.Proofs.Analysis.CallCoupling
import JvmCoupling.Proofs.Analysis.CallRestriction
import JvmCoupling.Proofs.Analysis.Ancestry
import JvmCoupling.Proofs.Analysis.HierarchyTrees
import JvmCoupling.Proofs.Analysis.Widening
import JvmCoupling.Proofs.ClassFile.Delimiting
import JvmCoupling.Proofs.Graph.CallRows
import JvmCoupling.Proofs.ClassPath.Scheduling
import JvmCoupling.Proofs.ClassPath.Packing
import JvmCoupling.Proofs.Analysis.CallStatistics
import JvmCoupling.Proofs.Analysis.HierarchyStatistics
import JvmCoupling.Proofs.Analysis.LoadOrder
import JvmCoupling.Proofs.ClassFile.Bounds
import JvmCoupling.Proofs.ClassFile.Reader
import JvmCoupling.Proofs.ClassFile.Indexed
import JvmCoupling.Proofs.Graph.HierarchyRows
import JvmCoupling.Proofs.Session.LastAnalysis
import JvmCoupling.Proofs.Storage.Places
import JvmCoupling.Proofs.Text.ReadBack
import JvmCoupling.Proofs.Report.Files
import JvmCoupling.Proofs.Report.LastSave
import JvmCoupling.Proofs.Report.RoundTrip
import JvmCoupling.Proofs.Analysis.TargetTree
import JvmCoupling.Proofs.Analysis.UniversalRoot
import JvmCoupling.Proofs.Analysis.LinkGraph
import JvmCoupling.Proofs.Graph.HierarchyPairs
import JvmCoupling.Proofs.ClassPath.Shadowing
import JvmCoupling.Proofs.Text.Trimming
import JvmCoupling.Proofs.ClassPath.Resolving
import JvmCoupling.Proofs.Analysis.BreadthFirst
import JvmCoupling.Proofs.ClassFile.PoolSlots
import JvmCoupling.Proofs.ClassFile.WordLengths
import JvmCoupling.Proofs.ClassFile.FirstFailure
import JvmCoupling.Proofs.Yaml.Scalars
import JvmCoupling.Proofs.Yaml.Scanning
import JvmCoupling.Proofs.Yaml.Blocks
import JvmCoupling.Proofs.Yaml.Numbers
import JvmCoupling.Proofs.Yaml.Documents
import JvmCoupling.Proofs.Report.Documents
