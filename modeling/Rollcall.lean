import Rollcall.Text.Quoted
import Rollcall.Text.Outline
import Rollcall.Decimal
import Rollcall.Duration
import Rollcall.Json.Reader
import Rollcall.Json.Writer
import Rollcall.GuildSelection
import Rollcall.Limits
import Rollcall.Payload.Command
import Rollcall.Payload.Event
import Rollcall.MemberCache
import Rollcall.Nonce
import Rollcall.Registry
import Rollcall.Delivery
import Rollcall.MemberPredicate
import Rollcall.Hub.Actions
import Rollcall.Session
import Rollcall.Workbench
import Rollcall.Peer.Reply
import Rollcall.Peer.Responder
import Rollcall.Peer.Uplink
import Rollcall.Arguments
import Rollcall.Settings
import Rollcall.Exchange
import Rollcall.Survey
import Rollcall.Main
import Rollcall.Proofs.Order
import Rollcall.Proofs.Release
import Rollcall.Proofs.Course
import Rollcall.Proofs.Holding
import Rollcall.Proofs.Calls
import Rollcall.Proofs.Gathering
import Rollcall.Proofs.Arrival
import Rollcall.Proofs.Tasks
import Rollcall.Proofs.Streams
import Rollcall.Proofs.Rest
import Rollcall.Proofs.Room
import Rollcall.Proofs.Readers
import Rollcall.Proofs.Ledger
import Rollcall.Proofs.Stall
import Rollcall.Proofs.Ending
import Rollcall.Proofs.Finality
import Rollcall.Proofs.LateWork
import Rollcall.Proofs.Handover
import Rollcall.Proofs.Separation
import Rollcall.Proofs.Drained
import Rollcall.Proofs.Sole
import Rollcall.Proofs.Standstill
import Rollcall.Proofs.Reading
import Rollcall.Proofs.Outlook
import Rollcall.Proofs.Calm
import Rollcall.Proofs.Backpressure
import Rollcall.Proofs.Settling
import Rollcall.Proofs.Starting
import Rollcall.Proofs.Asking
import Rollcall.Proofs.Outlet
import Rollcall.Proofs.Refusals
import Rollcall.Proofs.Commands
import Rollcall.Proofs.Replies
import Rollcall.Proofs.Rosters
import Rollcall.Proofs.Agreement
import Rollcall.Proofs.Responses
import Rollcall.Proofs.Exchanges
import Rollcall.Proofs.Handling
import Rollcall.Proofs.Queue
import Rollcall.Proofs.Looping
import Rollcall.Proofs.Interruption
import Rollcall.Proofs.Desk
import Rollcall.Proofs.Completion
import Rollcall.Proofs.Rounds
import Rollcall.Proofs.Sifting
import Rollcall.Proofs.Opening
import Rollcall.Proofs.Filtering
import Rollcall.Proofs.Desks
import Rollcall.Proofs.Issuing
import Rollcall.Proofs.Sweeping
import Rollcall.Proofs.Deadlines
import Rollcall.Proofs.Accounting
import Rollcall.Proofs.Entries
import Rollcall.Proofs.Numerals
import Rollcall.Proofs.Visits
import Rollcall.Proofs.Spellings
import Rollcall.Proofs.Layout
import Rollcall.Proofs.Lowercase
import Rollcall.Proofs.Pieces
import Rollcall.Proofs.LastPut
