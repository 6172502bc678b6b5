import OnDemandFs.Main
import OnDemandFs.Session.Step
import OnDemandFs.Proofs.Broker.Runs
import OnDemandFs.Proofs.Broker.Custody
import OnDemandFs.Proofs.Broker.Outcome
import OnDemandFs.Proofs.Broker.Order
import OnDemandFs.Proofs.Broker.Channels
import OnDemandFs.Proofs.Broker.Overdue
import OnDemandFs.Proofs.Resolve.Reached
import OnDemandFs.Proofs.Resolve.Presented
import OnDemandFs.Proofs.Resolve.Agreement
import OnDemandFs.Proofs.Resolve.Requests
import OnDemandFs.Proofs.Resolve.Asked
import OnDemandFs.Proofs.Resolve.Course
import OnDemandFs.Proofs.Resolve.Frugal
import OnDemandFs.Proofs.Resolve.Listing
import OnDemandFs.Proofs.Disk.Proper
import OnDemandFs.Proofs.Resolve.Remembered
import OnDemandFs.Proofs.Resolve.Confined
import OnDemandFs.Proofs.Disk.Stands
import OnDemandFs.Proofs.Disk.Trees
import OnDemandFs.Proofs.Disk.Publishing
import OnDemandFs.Proofs.Helper.Answers
import OnDemandFs.Proofs.Resolve.Volatile
import OnDemandFs.Proofs.Helper.Freshness
import OnDemandFs.Proofs.Helper.Additions
import OnDemandFs.Proofs.Helper.Unchanged
import OnDemandFs.Proofs.Helper.Mirrors
import OnDemandFs.Proofs.Mirror.Walks
import OnDemandFs.Proofs.Mirror.Operations
import OnDemandFs.Proofs.Reading.Positional
import OnDemandFs.Proofs.Mirror.Again
import OnDemandFs.Proofs.Broker.Handles
import OnDemandFs.Proofs.Mirror.Replies
import OnDemandFs.Proofs.Broker.Turns
import OnDemandFs.Proofs.Mirror.Sessions
import OnDemandFs.Proofs.Mirror.Rest
import OnDemandFs.Proofs.Mirror.Faithful
import OnDemandFs.Proofs.Index.Grammar
import OnDemandFs.Proofs.Store.Transparent
import OnDemandFs.Proofs.Disk.Between
import OnDemandFs.Proofs.Store.Readers
import OnDemandFs.Proofs.Store.Atomic
import OnDemandFs.Proofs.Disk.Numbering
import OnDemandFs.Proofs.Resolve.Outcomes
import OnDemandFs.Proofs.Traffic.Moves
import OnDemandFs.Proofs.Identity.Lasting
import OnDemandFs.Proofs.Mapping.Leases
import OnDemandFs.Proofs.Mapping.Usage
import OnDemandFs.Proofs.Mapping.Pinned
import OnDemandFs.Proofs.Kernel.Pages
import OnDemandFs.Proofs.Kernel.Rows
import OnDemandFs.Proofs.Kernel.Desk
import OnDemandFs.Proofs.Kernel.Attended
import OnDemandFs.Proofs.Broker.Balance
import OnDemandFs.Proofs.Resolve.Catalogue
import OnDemandFs.Proofs.Broker.Spoken
import OnDemandFs.Proofs.Kernel.Spoken
import OnDemandFs.Proofs.Resolve.Bodies
import OnDemandFs.Proofs.Index.Spilled
import OnDemandFs.Proofs.Store.FailSafe
import OnDemandFs.Proofs.Session.Touched
import OnDemandFs.Proofs.Session.Replies
import OnDemandFs.Proofs.Kernel.Paging
import OnDemandFs.Proofs.Kernel.Reads
import OnDemandFs.Proofs.Resolve.Absences
import OnDemandFs.Proofs.Kernel.Listings
import OnDemandFs.Proofs.Broker.Patience
import OnDemandFs.Proofs.Broker.Onward
import OnDemandFs.Proofs.Helper.Service
import OnDemandFs.Proofs.Resolve.Numbered
import OnDemandFs.Proofs.Identity.Parents
import OnDemandFs.Proofs.Identity.Rooted
import OnDemandFs.Proofs.Broker.Taken
import OnDemandFs.Proofs.Kernel.Held
import OnDemandFs.Proofs.Kernel.Ledger
import OnDemandFs.Proofs.Kernel.Apart
import OnDemandFs.Proofs.Kernel.Station
import OnDemandFs.Proofs.Path.Algebra
import OnDemandFs.Proofs.Path.Keys
import OnDemandFs.Proofs.Reading.Splits
