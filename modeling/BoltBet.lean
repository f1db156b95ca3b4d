import BoltBet.Amqp.Broker
import BoltBet.Amqp.Messages
import BoltBet.Api.Footprint
import BoltBet.Api.Machine
import BoltBet.Api.Progress
import BoltBet.Api.Refinement
import BoltBet.Api.Rules
import BoltBet.Api.Statements
import BoltBet.Api.Store
import BoltBet.Api.Tables
import BoltBet.Async.Alone
import BoltBet.Async.Guarded
import BoltBet.Async.History
import BoltBet.Async.Knowledge
import BoltBet.Async.Link
import BoltBet.Async.Progress
import BoltBet.Async.Refinement
import BoltBet.Async.Rely
import BoltBet.Async.Sequential
import BoltBet.Async.Serial
import BoltBet.Async.Terminal
import BoltBet.Betting.FailedPlacement
import BoltBet.Betting.FastPath
import BoltBet.Betting.Funding
import BoltBet.Betting.LateBets
import BoltBet.Betting.Messages
import BoltBet.Betting.PayoutRange
import BoltBet.Betting.Pending
import BoltBet.Betting.Retries
import BoltBet.Betting.Scoped
import BoltBet.Betting.StatusMachine
import BoltBet.Bookmaker.Abstraction
import BoltBet.Bookmaker.Books
import BoltBet.Bookmaker.Calls
import BoltBet.Bookmaker.Refinement
import BoltBet.Edge.Cache
import BoltBet.Edge.Lockout
import BoltBet.Edge.Payload
import BoltBet.Edge.RateLimit
import BoltBet.Edge.Token
import BoltBet.Format
import BoltBet.Http.Access
import BoltBet.Http.Routes
import BoltBet.Identity.Accounts
import BoltBet.Identity.Cookie
import BoltBet.Identity.Custody
import BoltBet.Identity.Exchange
import BoltBet.Identity.History
import BoltBet.Identity.IssuedTokens
import BoltBet.Identity.Logout
import BoltBet.Identity.Machine
import BoltBet.Identity.Passwords
import BoltBet.Identity.Revocation
import BoltBet.Identity.Service
import BoltBet.Identity.Tables
import BoltBet.Ledger.Requests
import BoltBet.Listing.Pages
import BoltBet.Listing.Queries
import BoltBet.Market.OneResult
import BoltBet.Market.PartialFailure
import BoltBet.Market.Payout
import BoltBet.Market.Publishing
import BoltBet.Market.Recovery
import BoltBet.Market.Terminal
import BoltBet.Number.Decimal
import BoltBet.Number.Double
import BoltBet.Rabbitmq.Consumers
import BoltBet.Rabbitmq.Published
import BoltBet.Rabbitmq.Topology
import BoltBet.Realtime.Owners
import BoltBet.Settlement.Redelivery
import BoltBet.Settlement.Stranded
import BoltBet.Text.Base64
import BoltBet.Text.Json
import BoltBet.Text.Money
import BoltBet.Text.Regex
import BoltBet.Text.Stringify
import BoltBet.Text.Utf8
import BoltBet.Wallet.Alone
import BoltBet.Wallet.Atomic
import BoltBet.Wallet.AuditTrail
import BoltBet.Wallet.Creation
import BoltBet.Wallet.DepositKeys
import BoltBet.Wallet.Idempotency
import BoltBet.Wallet.Ledger
import BoltBet.Wallet.Locking
import BoltBet.Web.Amounts
import BoltBet.Web.Client
import BoltBet.Web.Logout
import BoltBet.Web.Online
import BoltBet.Web.OwnWallet
import BoltBet.Web.SingleFlight
import BoltBet.Web.Tab
