import PayloadSchema.Conformance.Check
import PayloadSchema.Descriptor.Draft
import PayloadSchema.Descriptor.Loading
import PayloadSchema.Json.Writer
import PayloadSchema.Matching.FanOut
import PayloadSchema.Matching.LeafPath
import PayloadSchema.Matching.Search
import PayloadSchema.Path.Indices
import PayloadSchema.Proofs.Tree.Acceptance
import PayloadSchema.Tree.Example
import PayloadSchema.TreeCache
import PayloadSchema.Proofs.Arena.NodeTrees
import PayloadSchema.Proofs.Tree.Branches
import PayloadSchema.Proofs.Tree.Structure
import PayloadSchema.Proofs.Matching.Orderings
import PayloadSchema.Proofs.Matching.Pairings
import PayloadSchema.Proofs.Matching.PlainSearch
import PayloadSchema.Proofs.Matching.SearchNeutrality
import PayloadSchema.Proofs.Matching.PlainMaps
import PayloadSchema.Proofs.Matching.Alignments
import PayloadSchema.Proofs.Matching.Isomorphisms
import PayloadSchema.Proofs.Matching.ExactSearch
import PayloadSchema.Proofs.Path.Reading
import PayloadSchema.Proofs.Tree.Lineage
import PayloadSchema.Proofs.Tree.Addresses
import PayloadSchema.Proofs.Number.Magnitudes
import PayloadSchema.Proofs.Conformance.Faults
import PayloadSchema.Proofs.Conformance.Keywords
import PayloadSchema.Proofs.Json.Keyed
import PayloadSchema.Proofs.Conformance.Positions
import PayloadSchema.Proofs.Conformance.Selection
import PayloadSchema.Proofs.Conformance.Extraction
import PayloadSchema.Proofs.Json.Tokens
import PayloadSchema.Proofs.Json.RoundTrip
import PayloadSchema.Proofs.Conformance.Examples
import PayloadSchema.Proofs.Conformance.Indexing
import PayloadSchema.Proofs.Descriptor.Breaches
import PayloadSchema.Proofs.Tree.Reporting
import PayloadSchema.Proofs.Tree.Renumbering
import PayloadSchema.Proofs.Matching.RenumberedSearch
import PayloadSchema.Proofs.Tree.FirstFailure
import PayloadSchema.Proofs.Tree.Reordering
import PayloadSchema.Proofs.Matching.MapSets
import PayloadSchema.Proofs.Matching.Groupoid
import PayloadSchema.Proofs.Tree.Siblings
import PayloadSchema.Proofs.Matching.SiblingOrder
import PayloadSchema.Proofs.Cache.Recency
import PayloadSchema.Proofs.Cache.History
import PayloadSchema.Proofs.Cache.Transparency
import PayloadSchema.Proofs.Descriptor.Normalization
import PayloadSchema.Proofs.Tree.Rebuilding
import PayloadSchema.Proofs.Arena.ChildOrder
import PayloadSchema.Proofs.Tree.Course
import PayloadSchema.Proofs.Arena.Traversals
import PayloadSchema.Proofs.Matching.Cursor
import PayloadSchema.Proofs.Matching.Enumeration
import PayloadSchema.Matching.Assigner
import PayloadSchema.Matching.Assignment
import PayloadSchema.Proofs.Matching.Assignments
import PayloadSchema.Proofs.Tree.FirstChildren
import PayloadSchema.Proofs.Matching.LeafPaths
import PayloadSchema.Proofs.Matching.FanOutSearch
import PayloadSchema.Proofs.Matching.Workload
import PayloadSchema.Proofs.Arena.Bindings
import PayloadSchema.Proofs.Matching.MaximalMaps
import PayloadSchema.Proofs.Json.Reals
import PayloadSchema.Proofs.Json.Rereading
import PayloadSchema.Proofs.Descriptor.Serialization
import PayloadSchema.Proofs.Descriptor.Sources
