import TradingRules.CommandLine.Arguments
import TradingRules.CommandLine.Execution
import TradingRules.CommandLine.Folder
import TradingRules.Digest.Sha2
import TradingRules.Exchange.Client
import TradingRules.Exchange.Method
import TradingRules.Exchange.Provider
import TradingRules.Exchange.Quotation
import TradingRules.Exchange.Secret
import TradingRules.Exchange.Token
import TradingRules.Exchange.Trading
import TradingRules.Graph.Basic
import TradingRules.Graph.Kind
import TradingRules.Indicator
import TradingRules.Interpreter
import TradingRules.Json.Reader
import TradingRules.Json.Writer
import TradingRules.Log.Center
import TradingRules.Logic.CompileError
import TradingRules.Logic.Compiled
import TradingRules.Logic.Condition
import TradingRules.Logic.Control
import TradingRules.Logic.Evaluation
import TradingRules.Logic.Operator
import TradingRules.Main
import TradingRules.Market.Basic
import TradingRules.Market.History
import TradingRules.Market.Refresh
import TradingRules.Market.Threads
import TradingRules.Number.Binary
import TradingRules.Number.Decimal
import TradingRules.Number.Numeral
import TradingRules.Order.Dispatch
import TradingRules.Proofs.Exchange.Amounts
import TradingRules.Proofs.Exchange.Answers
import TradingRules.Proofs.Exchange.HighestPrice
import TradingRules.Proofs.Exchange.Misfits
import TradingRules.Proofs.Exchange.Orders
import TradingRules.Proofs.Exchange.PlainAmounts
import TradingRules.Proofs.Exchange.Sales
import TradingRules.Proofs.Exchange.Traces
import TradingRules.Proofs.Graph.Acceptance
import TradingRules.Proofs.Graph.Additions
import TradingRules.Proofs.Graph.Blame
import TradingRules.Proofs.Graph.Copies
import TradingRules.Proofs.Graph.Derivation
import TradingRules.Proofs.Graph.Reading
import TradingRules.Proofs.Graph.Reordering
import TradingRules.Proofs.Graph.RoundTrip
import TradingRules.Proofs.Graph.Unfolding
import TradingRules.Proofs.Indicator.Strength
import TradingRules.Proofs.Interpreter.Blindness
import TradingRules.Proofs.Interpreter.Continuity
import TradingRules.Proofs.Interpreter.Course
import TradingRules.Proofs.Interpreter.Details
import TradingRules.Proofs.Interpreter.Dispatch
import TradingRules.Proofs.Interpreter.Independence
import TradingRules.Proofs.Interpreter.Lifecycle
import TradingRules.Proofs.Interpreter.Parsing
import TradingRules.Proofs.Interpreter.Recovery
import TradingRules.Proofs.Interpreter.Restraint
import TradingRules.Proofs.Interpreter.Trading
import TradingRules.Proofs.Interpreter.Undisturbed
import TradingRules.Proofs.Interpreter.WarmUps
import TradingRules.Proofs.Json.Encodable
import TradingRules.Proofs.Lists
import TradingRules.Proofs.Log.Buffers
import TradingRules.Proofs.Logic.Account
import TradingRules.Proofs.Logic.Averages
import TradingRules.Proofs.Logic.Periods
import TradingRules.Proofs.Logic.Readiness
import TradingRules.Proofs.Logic.Snags
import TradingRules.Proofs.Logic.Sorts
import TradingRules.Proofs.Market.Alignment
import TradingRules.Proofs.Market.Bars
import TradingRules.Proofs.Market.Cadence
import TradingRules.Proofs.Market.Consolidation
import TradingRules.Proofs.Market.Disposal
import TradingRules.Proofs.Market.Jobs
import TradingRules.Proofs.Market.Lookups
import TradingRules.Proofs.Market.Redelivery
import TradingRules.Proofs.Market.Shortfall
import TradingRules.Proofs.Market.Turns
import TradingRules.Proofs.Market.Usage
import TradingRules.Proofs.Number.Doubles
import TradingRules.Proofs.Number.Nearest
import TradingRules.Proofs.Number.Numerals
import TradingRules.Proofs.Service.Bodies
import TradingRules.Proofs.Service.Calls
import TradingRules.Proofs.Service.Crowds
import TradingRules.Proofs.Service.Deletion
import TradingRules.Proofs.Service.Routines
import TradingRules.Proofs.Sorting.Permutation
import TradingRules.Proofs.Sorting.Stable
import TradingRules.Proofs.Store.Book
import TradingRules.Proofs.Store.Existence
import TradingRules.Proofs.Store.Files
import TradingRules.Proofs.Store.Index
import TradingRules.Proofs.Store.Refinement
import TradingRules.Proofs.Store.Representation
import TradingRules.Proofs.Store.Steps
import TradingRules.Proofs.Supervisor.Boundary
import TradingRules.Proofs.Supervisor.Conclusion
import TradingRules.Proofs.Supervisor.Finality
import TradingRules.Proofs.Supervisor.Handshake
import TradingRules.Proofs.Supervisor.Inbox
import TradingRules.Proofs.Supervisor.Interval
import TradingRules.Proofs.Supervisor.Journal
import TradingRules.Proofs.Supervisor.Moments
import TradingRules.Proofs.Supervisor.Trading
import TradingRules.Proofs.Supervisor.Upkeep
import TradingRules.Proofs.Supervisor.Waning
import TradingRules.Proofs.Value.Execution
import TradingRules.Proofs.Value.Fields
import TradingRules.Proofs.Value.Keys
import TradingRules.Proofs.Value.Marks
import TradingRules.Proofs.Value.Names
import TradingRules.Proofs.Value.Order
import TradingRules.Proofs.Value.Outcome
import TradingRules.Proofs.Value.Readings
import TradingRules.Proofs.Worker.Attendance
import TradingRules.Proofs.Worker.Correlation
import TradingRules.Proofs.Worker.Grid
import TradingRules.Proofs.Worker.Inquiries
import TradingRules.Proofs.Worker.Notices
import TradingRules.Proofs.Worker.Pacing
import TradingRules.Proofs.Worker.Phases
import TradingRules.Proofs.Worker.Protocol
import TradingRules.Service.Address
import TradingRules.Service.Call
import TradingRules.Service.Routes
import TradingRules.Service.Routine
import TradingRules.Sorting.Basic
import TradingRules.Sorting.Gallop
import TradingRules.Sorting.Merge
import TradingRules.Store.Basic
import TradingRules.Supervisor.Basic
import TradingRules.Supervisor.OneShot
import TradingRules.Supervisor.Session
import TradingRules.Text.Base64
import TradingRules.Text.Character
import TradingRules.Text.Encoding
import TradingRules.Text.Lower
import TradingRules.Text.Printable
import TradingRules.Text.Quoted
import TradingRules.Text.Surrogate
import TradingRules.Text.Utf8
import TradingRules.Value.Arithmetic
import TradingRules.Value.Basic
import TradingRules.Value.Copy
import TradingRules.Value.Display
import TradingRules.Value.Fault
import TradingRules.Value.Item
import TradingRules.Value.Sorted
import TradingRules.Worker.Basic
import TradingRules.Worker.Proxy
import TradingRules.Worker.Schedule
import TradingRules.Worker.Traffic
