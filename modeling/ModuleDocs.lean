import ModuleDocs.Main
import ModuleDocs.Proofs.CommandLine.Agreement
import ModuleDocs.Proofs.Descriptor.Cascade
import ModuleDocs.Proofs.Descriptor.CompileOnly
import ModuleDocs.Proofs.Descriptor.Coordinate
import ModuleDocs.Proofs.Descriptor.Excluded
import ModuleDocs.Proofs.Descriptor.Muzzle
import ModuleDocs.Proofs.Descriptor.Nesting
import ModuleDocs.Proofs.Descriptor.Platform
import ModuleDocs.Proofs.Descriptor.Range
import ModuleDocs.Proofs.Descriptor.Reference
import ModuleDocs.Proofs.Document.Convergence
import ModuleDocs.Proofs.Document.Counter
import ModuleDocs.Proofs.Document.Omission
import ModuleDocs.Proofs.Document.Prose
import ModuleDocs.Proofs.Document.Repetition
import ModuleDocs.Proofs.Document.SharedFile
import ModuleDocs.Proofs.Document.Splice
import ModuleDocs.Proofs.Fragment.DisabledNames
import ModuleDocs.Proofs.Fragment.Links
import ModuleDocs.Proofs.Fragment.Rows
import ModuleDocs.Proofs.Fragment.ShownVersion
import ModuleDocs.Proofs.Instrumentation.Attribution
import ModuleDocs.Proofs.Instrumentation.Dependencies
import ModuleDocs.Proofs.Instrumentation.Enrichment
import ModuleDocs.Proofs.Instrumentation.Grouping
import ModuleDocs.Proofs.Instrumentation.Listing
import ModuleDocs.Proofs.Module.AddedLink
import ModuleDocs.Proofs.Module.Companions
import ModuleDocs.Proofs.Module.Container
import ModuleDocs.Proofs.Module.Enumeration
import ModuleDocs.Proofs.Module.Shape
import ModuleDocs.Proofs.Module.Traversal
import ModuleDocs.Proofs.Source.Getter
import ModuleDocs.Proofs.Source.Settings
import ModuleDocs.Proofs.Text.Leftmost
import ModuleDocs.Proofs.Descriptor.Lexeme
import ModuleDocs.Proofs.Descriptor.Search
import ModuleDocs.Proofs.Descriptor.ClosingOffset
