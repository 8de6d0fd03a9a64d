import MacroAtlas.Access
import MacroAtlas.Archive.Basic
import MacroAtlas.Archive.CallSites
import MacroAtlas.Archive.Session
import MacroAtlas.Blob.Backend
import MacroAtlas.Blob.Basic
import MacroAtlas.Blob.Directory
import MacroAtlas.Blob.Memory
import MacroAtlas.Bytes
import MacroAtlas.Cache.Basic
import MacroAtlas.Cache.Recency
import MacroAtlas.Cache.Session
import MacroAtlas.Cli.Arguments
import MacroAtlas.Cli.Request
import MacroAtlas.Cli.Run
import MacroAtlas.Config.Basic
import MacroAtlas.Digest.Basic
import MacroAtlas.Digest.Xxh3
import MacroAtlas.FileName
import MacroAtlas.FileTree.Basic
import MacroAtlas.FileTree.Fault
import MacroAtlas.FileTree.Path
import MacroAtlas.Fingerprint
import MacroAtlas.Holders
import MacroAtlas.Json.Interchange
import MacroAtlas.Json.Pretty
import MacroAtlas.Json.Reading
import MacroAtlas.Json.Token
import MacroAtlas.Link
import MacroAtlas.Main
import MacroAtlas.Payload.Basic
import MacroAtlas.Payload.Fault
import MacroAtlas.Payload.Varint
import MacroAtlas.Record
import MacroAtlas.Search
import MacroAtlas.Span
import MacroAtlas.SpanMap.Basic
import MacroAtlas.SpanMap.Projection
import MacroAtlas.SpanMap.Query
import MacroAtlas.Store.Basic
import MacroAtlas.Store.Fault
import MacroAtlas.Text.Hex
import MacroAtlas.Text.LineIndex
import MacroAtlas.Text.Quoted
import MacroAtlas.Text.Unshown
import MacroAtlas.Text.WhiteSpace
import MacroAtlas.Toml.Scalar
import MacroAtlas.Toml.Statement
import MacroAtlas.Toml.Text
import MacroAtlas.Toml.Value
import MacroAtlas.Proofs.Payload.Grammar
import MacroAtlas.Proofs.Payload.Shortest
import MacroAtlas.Proofs.Archive.Plain
import MacroAtlas.Proofs.Cache.Offers
import MacroAtlas.Proofs.Archive.Memory
import MacroAtlas.Proofs.Archive.Removal
import MacroAtlas.Proofs.Archive.Transparency
import MacroAtlas.Proofs.FileName.Canonical
import MacroAtlas.Proofs.Archive.Freshness
import MacroAtlas.Proofs.Search
import MacroAtlas.Proofs.SpanMap.Projection
import MacroAtlas.Proofs.SpanMap.Scan
import MacroAtlas.Proofs.SpanMap.SourceIndex
import MacroAtlas.Proofs.Archive.SiteHistory
import MacroAtlas.Proofs.Cache.RecencyList
import MacroAtlas.Proofs.Cache.Residency
import MacroAtlas.Proofs.Cache.Calls
import MacroAtlas.Proofs.Cache.Bookkeeping
import MacroAtlas.Proofs.Archive.Recording
import MacroAtlas.Proofs.Archive.ReadBack
import MacroAtlas.Proofs.Archive.Containment
import MacroAtlas.Proofs.Cache.Ranking
import MacroAtlas.Proofs.Cache.Following
import MacroAtlas.Proofs.Cache.LeastRecent
import MacroAtlas.Proofs.SpanMap.RoundTrip
import MacroAtlas.Proofs.SpanMap.Acceptance
import MacroAtlas.Proofs.Archive.Integrity
import MacroAtlas.Proofs.Cache.LastAdmitted
import MacroAtlas.Proofs.Blob.Directory
import MacroAtlas.Proofs.Payload.PrefixFree
import MacroAtlas.Proofs.Archive.ForeignPermit
import MacroAtlas.Proofs.Archive.Discard
import MacroAtlas.Proofs.Archive.Collection
import MacroAtlas.Proofs.Archive.Survey
import MacroAtlas.Proofs.Fingerprint
import MacroAtlas.Proofs.Digest.Utf8
import MacroAtlas.Proofs.FileName.Spelling
import MacroAtlas.Proofs.Text.Order
import MacroAtlas.Proofs.Word
import MacroAtlas.Proofs.Text.Utf8Length
import MacroAtlas.Proofs.Text.LineIndex
import MacroAtlas.Proofs.Text.PositionOrder
import MacroAtlas.Proofs.FileName.Order
import MacroAtlas.Proofs.Blob.Listing
import MacroAtlas.Proofs.Archive.Cleaning
import MacroAtlas.Proofs.Cli.Collect
import MacroAtlas.Proofs.SpanMap.LeastCover
import MacroAtlas.Proofs.SpanMap.Coverage
import MacroAtlas.Proofs.SpanMap.Offsets
import MacroAtlas.Proofs.Archive.Coherence
import MacroAtlas.Proofs.Archive.Commutation
import MacroAtlas.Proofs.FileTree.Making
import MacroAtlas.Proofs.Blob.Memory
import MacroAtlas.Proofs.Blob.Housing
import MacroAtlas.Proofs.Blob.Refinement
import MacroAtlas.Proofs.Blob.Workshop
import MacroAtlas.Proofs.Blob.Interruption
import MacroAtlas.Proofs.SpanMap.StableIndex
import MacroAtlas.Proofs.Cache.Accounts
import MacroAtlas.Proofs.FileTree.Grounded
import MacroAtlas.Proofs.Blob.Failure
import MacroAtlas.Proofs.Blob.Grounded
