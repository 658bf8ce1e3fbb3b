import MailIndex.Main
import MailIndex.Proofs.Match.Spelling
import MailIndex.Proofs.Match.Lexing
import MailIndex.Proofs.Match.Acceptance
import MailIndex.Proofs.Index.Boundaries
import MailIndex.Proofs.Query.Parts
import MailIndex.Proofs.Query.Joining
import MailIndex.Proofs.Query.Meaning
import MailIndex.Proofs.Query.Reading
import MailIndex.Proofs.Query.Drafts
import MailIndex.Proofs.Query.Following
import MailIndex.Proofs.Query.Translation
import MailIndex.Proofs.Query.Operands
import MailIndex.Proofs.Query.Disjunction
import MailIndex.Proofs.Query.Placement
import MailIndex.Proofs.Query.Parentheses
import MailIndex.Proofs.Query.Wording
import MailIndex.Proofs.Query.Scanning
import MailIndex.Proofs.Query.MinusSign
import MailIndex.Proofs.Query.Juxtaposition
import MailIndex.Proofs.Query.Terms
import MailIndex.Proofs.Store.Ledger
import MailIndex.Proofs.Store.Keys
import MailIndex.Proofs.Store.Succession
import MailIndex.Proofs.Search.Reference
import MailIndex.Proofs.Search.Paging
import MailIndex.Proofs.Search.Literal
import MailIndex.Proofs.Search.Exclusion
import MailIndex.Proofs.Search.Isolation
import MailIndex.Proofs.Message.Recipients
import MailIndex.Proofs.Search.Membership
import MailIndex.Proofs.Reindex.Writes
import MailIndex.Proofs.Reindex.Scope
import MailIndex.Proofs.Reindex.Work
import MailIndex.Proofs.Reindex.Account
import MailIndex.Proofs.Reindex.Result
import MailIndex.Proofs.Reindex.Freshness
import MailIndex.Proofs.Reindex.Moves
import MailIndex.Proofs.Reindex.Trail
import MailIndex.Proofs.Reindex.Course
import MailIndex.Proofs.Reindex.Durable
import MailIndex.Proofs.Reindex.Loads
import MailIndex.Proofs.Reindex.Atomicity
import MailIndex.Proofs.Reindex.Outlook
import MailIndex.Proofs.Reindex.Resumption
import MailIndex.Proofs.Reindex.Interleaving
import MailIndex.Proofs.Reindex.Overtaking
import MailIndex.Proofs.Check.Repair
import MailIndex.Proofs.Check.Cancellation
import MailIndex.Proofs.Check.Recovery
import MailIndex.Proofs.Check.Health
import MailIndex.Proofs.Check.Chronicle
import MailIndex.Proofs.Check.Repetition
import MailIndex.Proofs.Check.Counting
import MailIndex.Proofs.Calendar.Sorting
import MailIndex.Proofs.Calendar.Instant
import MailIndex.Proofs.Text.LowerCase
import MailIndex.Proofs.Text.Blank
import MailIndex.Proofs.Text.Thousands
import MailIndex.Proofs.Message.Addresses
import MailIndex.Proofs.Message.FieldBytes
import MailIndex.Proofs.Message.Preview
import MailIndex.Proofs.Query.Filters
import MailIndex.Proofs.Check.Columns
import MailIndex.Proofs.Search.Senders
import MailIndex.Proofs.Search.Dating
import MailIndex.Proofs.Search.Complements
import MailIndex.Proofs.Store.Recording
import MailIndex.Proofs.Store.Commits
import MailIndex.Proofs.Store.Retention
import MailIndex.Proofs.Reindex.Reporting
import MailIndex.Proofs.Glob.Meaning
import MailIndex.Proofs.Reindex.Bystanders
import MailIndex.Proofs.Store.Groups
import MailIndex.Proofs.Check.Staleness
import MailIndex.Proofs.Check.Accounting
import MailIndex.Proofs.Ingest.Rerun
import MailIndex.Proofs.Search.Numbering
import MailIndex.Proofs.Toml.Integers
import MailIndex.Proofs.Search.Limits
import MailIndex.Proofs.Search.Dropping
