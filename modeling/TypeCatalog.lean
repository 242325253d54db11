import TypeCatalog.Main
import TypeCatalog.Proofs.Acceptance
import TypeCatalog.Proofs.Commit
import TypeCatalog.Proofs.Conformity
import TypeCatalog.Proofs.Cycles
import TypeCatalog.Proofs.Document
import TypeCatalog.Proofs.Flattening
import TypeCatalog.Proofs.Inherited
import TypeCatalog.Proofs.Integrity
import TypeCatalog.Proofs.Journal
import TypeCatalog.Proofs.Json.Layout
import TypeCatalog.Proofs.Json.Reader
import TypeCatalog.Proofs.Json.Token
import TypeCatalog.Proofs.Reachable
import TypeCatalog.Proofs.References
import TypeCatalog.Proofs.Registry
import TypeCatalog.Proofs.Reload
import TypeCatalog.Proofs.Resolution
import TypeCatalog.Proofs.Restatement
import TypeCatalog.Proofs.SchemaText
import TypeCatalog.Proofs.Scope
import TypeCatalog.Proofs.Service
import TypeCatalog.Proofs.SortedMap
import TypeCatalog.Proofs.Spelling
import TypeCatalog.Proofs.Stability
import TypeCatalog.Proofs.Validation
import TypeCatalog.Proofs.Extension
import TypeCatalog.Proofs.Fields
import TypeCatalog.Proofs.Naming
import TypeCatalog.Proofs.Order
import TypeCatalog.Proofs.Startup
import TypeCatalog.Proofs.Reverse
import TypeCatalog.Proofs.Conflicts
import TypeCatalog.Proofs.SharedJournal
import TypeCatalog.Proofs.CyclicBatch
import TypeCatalog.Proofs.Notation
import TypeCatalog.Proofs.NormalDocument
import TypeCatalog.Proofs.Refusal
import TypeCatalog.Proofs.Replay
import TypeCatalog.Proofs.ResolvedDocument
import TypeCatalog.Proofs.Elements
import TypeCatalog.Proofs.Identity
import TypeCatalog.Proofs.Json.Value
import TypeCatalog.Proofs.Lineage.Record
import TypeCatalog.Proofs.Lineage.Text
import TypeCatalog.Proofs.Lineage.Ingestion
import TypeCatalog.Proofs.FailedStart
import TypeCatalog.Proofs.Enumeration
import TypeCatalog.Proofs.ElementLookup
import TypeCatalog.Proofs.Reentry
import TypeCatalog.Proofs.Loading
