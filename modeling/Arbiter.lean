import Arbiter.Address.Basic
import Arbiter.Address.Domain
import Arbiter.Address.Folding
import Arbiter.Address.Host
import Arbiter.Address.Percent
import Arbiter.Address.Punycode
import Arbiter.Address.Reader
import Arbiter.Cache
import Arbiter.Chance.Digest
import Arbiter.Chance.Generator
import Arbiter.Chance.Weighted
import Arbiter.Chat.Conversation
import Arbiter.Chat.Message
import Arbiter.Command.Basic
import Arbiter.Command.Collaborators
import Arbiter.Command.Confirm
import Arbiter.Command.Directory
import Arbiter.Command.Exit
import Arbiter.Command.Help
import Arbiter.Command.Host
import Arbiter.Command.Run
import Arbiter.Constant
import Arbiter.Cycle.Check
import Arbiter.Cycle.Decision
import Arbiter.Cycle.Run
import Arbiter.Cycle.Services
import Arbiter.Decimal.Dyadic
import Arbiter.Decimal.Layout
import Arbiter.Decimal.Places
import Arbiter.Decimal.Power
import Arbiter.Decimal.Shortest
import Arbiter.Explanation.Abstract
import Arbiter.Explanation.Line
import Arbiter.Explanation.Specific
import Arbiter.Failure
import Arbiter.Http.Credentials
import Arbiter.Http.Message
import Arbiter.Http.Offline
import Arbiter.Journal
import Arbiter.Json.Basic
import Arbiter.Json.Numeral
import Arbiter.Json.Quoted
import Arbiter.Json.Reader
import Arbiter.Json.Shape
import Arbiter.Json.Skip
import Arbiter.Json.Writer
import Arbiter.Main
import Arbiter.Market.Basic
import Arbiter.Market.Pass
import Arbiter.Market.Record
import Arbiter.Market.Request
import Arbiter.Notice
import Arbiter.Outcome.Basic
import Arbiter.Outcome.Combine
import Arbiter.Outcome.Conform
import Arbiter.Outcome.Odds
import Arbiter.Outcome.Ranking
import Arbiter.Pass.Basic
import Arbiter.Pass.Trigger
import Arbiter.Pass.Value
import Arbiter.Platform.Client
import Arbiter.Platform.CodeHost
import Arbiter.Platform.Listing
import Arbiter.Platform.Message
import Arbiter.Platform.Scale
import Arbiter.Platform.Slug
import Arbiter.Proofs.Chance.Reciprocal
import Arbiter.Proofs.Chance.Weighted
import Arbiter.Proofs.Cycle.Audit
import Arbiter.Proofs.Cycle.AuditTrail
import Arbiter.Proofs.Cycle.Creations
import Arbiter.Proofs.Cycle.Dealings
import Arbiter.Proofs.Cycle.Events
import Arbiter.Proofs.Cycle.Exits
import Arbiter.Proofs.Cycle.Explained
import Arbiter.Proofs.Cycle.Independent
import Arbiter.Proofs.Cycle.Justified
import Arbiter.Proofs.Cycle.Law
import Arbiter.Proofs.Cycle.Loop
import Arbiter.Proofs.Cycle.Pacing
import Arbiter.Proofs.Cycle.Polling
import Arbiter.Proofs.Cycle.Proposal
import Arbiter.Proofs.Cycle.Queue
import Arbiter.Proofs.Cycle.Rehearsal
import Arbiter.Proofs.Cycle.RehearsedCycle
import Arbiter.Proofs.Cycle.Sendable
import Arbiter.Proofs.Cycle.Told
import Arbiter.Proofs.Cycle.Visit
import Arbiter.Proofs.Cycle.VisitAudit
import Arbiter.Proofs.Cycle.Warrant
import Arbiter.Proofs.Cycle.WrittenOnce
import Arbiter.Proofs.Double.Arithmetic
import Arbiter.Proofs.Double.Bits
import Arbiter.Proofs.Double.Hundredths
import Arbiter.Proofs.Double.Kinds
import Arbiter.Proofs.Double.Order
import Arbiter.Proofs.Double.Rounding
import Arbiter.Proofs.Double.Shares
import Arbiter.Proofs.Explanation.Annotated
import Arbiter.Proofs.Explanation.Glossary
import Arbiter.Proofs.Explanation.Lines
import Arbiter.Proofs.Explanation.Market
import Arbiter.Proofs.Explanation.Trigger
import Arbiter.Proofs.Explanation.Value
import Arbiter.Proofs.Explanation.Whole
import Arbiter.Proofs.Journal
import Arbiter.Proofs.Json.Canonical
import Arbiter.Proofs.Json.Numeral
import Arbiter.Proofs.Json.Written
import Arbiter.Proofs.Market.Finite
import Arbiter.Proofs.Market.RoundTrip
import Arbiter.Proofs.Market.Stored
import Arbiter.Proofs.Outcome.Combine
import Arbiter.Proofs.Outcome.Exact
import Arbiter.Proofs.Outcome.Finite
import Arbiter.Proofs.Outcome.Odds
import Arbiter.Proofs.Outcome.Ranking
import Arbiter.Proofs.Outcome.Shape
import Arbiter.Proofs.Outcome.Weights
import Arbiter.Proofs.Pass.Draws
import Arbiter.Proofs.Pass.Durable
import Arbiter.Proofs.Pass.Faults
import Arbiter.Proofs.Pass.Law
import Arbiter.Proofs.Pass.LeftToRight
import Arbiter.Proofs.Pass.Memory
import Arbiter.Proofs.Pass.Moment
import Arbiter.Proofs.Pass.Odds
import Arbiter.Proofs.Pass.Once
import Arbiter.Proofs.Pass.RandomAnswer
import Arbiter.Proofs.Pass.Reached
import Arbiter.Proofs.Pass.Reads
import Arbiter.Proofs.Pass.Truth
import Arbiter.Proofs.Pass.Union
import Arbiter.Proofs.Pass.Weights
import Arbiter.Proofs.Platform.Closing
import Arbiter.Proofs.Platform.Creation
import Arbiter.Proofs.Platform.Slug
import Arbiter.Proofs.Rule.Blame
import Arbiter.Proofs.Rule.Children
import Arbiter.Proofs.Rule.Constants
import Arbiter.Proofs.Rule.Drawing
import Arbiter.Proofs.Rule.Nodes
import Arbiter.Proofs.Rule.Reading
import Arbiter.Proofs.Rule.Refusals
import Arbiter.Proofs.Rule.RoundTrip
import Arbiter.Proofs.Rule.Stored
import Arbiter.Proofs.Rule.Timestamps
import Arbiter.Proofs.Rule.WellFormed
import Arbiter.Proofs.SortedMap
import Arbiter.Proofs.Store.Ledger
import Arbiter.Proofs.Store.Numbers
import Arbiter.Proofs.Store.Rows
import Arbiter.Proofs.Text.Digits
import Arbiter.Proofs.Text.Runs
import Arbiter.Proofs.Time.Calendar
import Arbiter.Proofs.Time.Written
import Arbiter.Proofs.World
import Arbiter.Record.Decoder
import Arbiter.Record.Outside
import Arbiter.Rule.Arguments
import Arbiter.Rule.Basic
import Arbiter.Rule.Fault
import Arbiter.Rule.Kind
import Arbiter.Rule.Reader
import Arbiter.Rule.Writer
import Arbiter.Settings.Assignment
import Arbiter.Settings.Basic
import Arbiter.Settings.Secrets
import Arbiter.Snapshot
import Arbiter.SortedMap
import Arbiter.Store.Archive
import Arbiter.Store.Basic
import Arbiter.Store.Location
import Arbiter.Store.Record
import Arbiter.Store.Table
import Arbiter.Text.Blank
import Arbiter.Text.Hidden
import Arbiter.Text.Number
import Arbiter.Text.Quoted
import Arbiter.Time.Calendar
import Arbiter.Time.Instant
import Arbiter.Time.Reader
import Arbiter.Time.Writer
import Arbiter.Toml.Reader
import Arbiter.Toml.Table
import Arbiter.Toml.Text
import Arbiter.Toml.Word
