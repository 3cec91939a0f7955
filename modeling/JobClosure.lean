import JobClosure.CallSite.Crew
import JobClosure.Cancellation
import JobClosure.Instantiation.Survey
import JobClosure.Proofs.CallSite.Crew
import JobClosure.Proofs.CallSite.Edges
import JobClosure.Proofs.CallSite.Extension
import JobClosure.Proofs.CallSite.Graph
import JobClosure.Proofs.CallSite.JobCalls
import JobClosure.Proofs.CallSite.Keys
import JobClosure.Proofs.CallSite.Malformed
import JobClosure.Proofs.CallSite.Order
import JobClosure.Proofs.CallSite.Ownership
import JobClosure.Proofs.CallSite.Partition
import JobClosure.Proofs.Cancellation.Analysis
import JobClosure.Proofs.Cancellation.Request
import JobClosure.Proofs.Except
import JobClosure.Proofs.FileTree.Search
import JobClosure.Proofs.Form.Atom
import JobClosure.Proofs.Form.Layout
import JobClosure.Proofs.Form.Restyled
import JobClosure.Proofs.Form.Unified
import JobClosure.Proofs.Index.Bodies
import JobClosure.Proofs.Index.Extension
import JobClosure.Proofs.Index.Interfaces
import JobClosure.Proofs.Index.Order
import JobClosure.Proofs.Index.Overloads
import JobClosure.Proofs.Index.Queries
import JobClosure.Proofs.Index.Search
import JobClosure.Proofs.Instantiation.Deduplicated
import JobClosure.Proofs.Instantiation.Findings
import JobClosure.Proofs.Instantiation.Frames
import JobClosure.Proofs.Instantiation.Memo
import JobClosure.Proofs.Instantiation.Order
import JobClosure.Proofs.Instantiation.Reachability
import JobClosure.Proofs.Instantiation.Reported
import JobClosure.Proofs.Instantiation.Shadowed
import JobClosure.Proofs.Instantiation.Spelling
import JobClosure.Proofs.Instantiation.Synthesised
import JobClosure.Proofs.Instantiation.Union
import JobClosure.Proofs.Instantiation.Unnamed
import JobClosure.Proofs.Metadata.CanonicalSymbols
import JobClosure.Proofs.Metadata.File
import JobClosure.Proofs.Metadata.Illegible
import JobClosure.Proofs.Metadata.Mirror
import JobClosure.Proofs.Metadata.Read
import JobClosure.Proofs.Metadata.Reordered
import JobClosure.Proofs.Metadata.Rewritten
import JobClosure.Proofs.Metadata.RoundTrip
import JobClosure.Proofs.Metadata.Symbols
import JobClosure.Proofs.Metadata.ThroughFiles
import JobClosure.Proofs.Metadata.Unified
import JobClosure.Proofs.Metadata.Written
import JobClosure.Proofs.Numeral.Binary64
import JobClosure.Proofs.Numeral.Real
import JobClosure.Proofs.Rerun
import JobClosure.Proofs.Snapshot
import JobClosure.Proofs.Spelling.Grammar
import JobClosure.Proofs.Spelling.Nested
import JobClosure.Proofs.Spelling.Positions
import JobClosure.Proofs.Spelling.RoundTrip
import JobClosure.Proofs.Spelling.Scope
import JobClosure.Proofs.Store.Adding
import JobClosure.Proofs.Store.Closure
import JobClosure.Proofs.Store.FailedWrite
import JobClosure.Proofs.Store.Failures
import JobClosure.Proofs.Store.Regrouped
import JobClosure.Proofs.Store.Reload
import JobClosure.Proofs.Store.Target
import JobClosure.Proofs.Store.Teardown
import JobClosure.Proofs.Synthesis
import JobClosure.Proofs.Synthesis.Collected
import JobClosure.Proofs.Synthesis.Members
import JobClosure.Proofs.Synthesis.ReadBack
import JobClosure.Proofs.Synthesis.Replacing
import JobClosure.Proofs.Synthesis.Suffixes
import JobClosure.Proofs.Text.LineEnds
import JobClosure.Proofs.TypeRef.Composition
import JobClosure.Proofs.TypeRef.Mangling
import JobClosure.Request
import JobClosure.Synthesis.Replacing
import JobClosure.TypeRef.Mangling
