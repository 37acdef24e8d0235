import ContextServer.Roster
import ContextServer.Json.Printer
import ContextServer.Json.Reader
import ContextServer.Arguments
import ContextServer.Envelope.Message
import ContextServer.Envelope.Notification
import ContextServer.Page
import ContextServer.UriTemplate
import ContextServer.Utf8
import ContextServer.Blank
import ContextServer.Clock
import ContextServer.Catalog
import ContextServer.ToolGroups
import ContextServer.ResultCache
import ContextServer.TokenBucket.Exact
import ContextServer.Sessions
import ContextServer.InFlight
import ContextServer.Notifier
import ContextServer.Logging
import ContextServer.Completion
import ContextServer.Sampling
import ContextServer.Elicitation
import ContextServer.Server.Processing
import ContextServer.Main
import ContextServer.Proofs.Notifications.Stream
import ContextServer.Proofs.Requests.Correlation
import ContextServer.Proofs.Server.Replies
import ContextServer.Proofs.Sessions.Handshakes
import ContextServer.Proofs.Tools.Replacement
import ContextServer.Proofs.Groups.Index
import ContextServer.Proofs.Json.Canonical
import ContextServer.Proofs.Tools.Listing
import ContextServer.Proofs.Cache.Transparency
import ContextServer.Proofs.Json.Reading
import ContextServer.Proofs.Envelope.RoundTrip
import ContextServer.Proofs.Server.Refusals
import ContextServer.Proofs.Sessions.Refusals
import ContextServer.Proofs.Json.Extension
import ContextServer.Proofs.Server.Batches
import ContextServer.Proofs.Json.Numerals
import ContextServer.Proofs.Decimal.Writing
import ContextServer.Proofs.Json.Spelling
import ContextServer.Proofs.Server.Echo
import ContextServer.Proofs.Server.Kept
import ContextServer.Proofs.Server.Unanswered
import ContextServer.Proofs.Json.OneLine
import ContextServer.Proofs.Server.Emissions
import ContextServer.Proofs.HostLoop.Lines
import ContextServer.Proofs.HostLoop.Conversation
import ContextServer.Proofs.Server.Admission
import ContextServer.Proofs.Notifications.Tokens
import ContextServer.Proofs.Json.Agreement
import ContextServer.Proofs.Requests.InFlight
import ContextServer.Proofs.Tools.Containment
import ContextServer.Proofs.HostLoop.Undecodable
import ContextServer.Proofs.Rosters
import ContextServer.Proofs.Cache.Hits
import ContextServer.Proofs.Cache.Retention
import ContextServer.Proofs.Groups.Consistency
import ContextServer.Proofs.Resources.Matching
import ContextServer.Proofs.Registrations
import ContextServer.Proofs.Resources.Filling
import ContextServer.Proofs.Resources.Resolution
import ContextServer.Proofs.Paging.Cursors
import ContextServer.Proofs.Paging.Listings
import ContextServer.Proofs.Sessions.Lifetimes
import ContextServer.Proofs.TokenBucket.Windows
import ContextServer.Proofs.Server.Unserved
import ContextServer.Proofs.Requests.Outbox
import ContextServer.Proofs.Requests.Cancellations
import ContextServer.Proofs.Json.MemberOrder
import ContextServer.Proofs.Settings.MemberOrder
import ContextServer.Proofs.Settings.Applied
