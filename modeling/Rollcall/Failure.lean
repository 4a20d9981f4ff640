import Rollcall.Duration
import Rollcall.Intents
import Rollcall.Payload.Fault

/-!
# Failures of a request

One constructor for each cause. A transport failure is what a shard reports when it could not send a
command; a decoding failure carries the fault of the payload.
-/

namespace Rollcall

structure TransportFailure where
  context : String
deriving DecidableEq, Repr

inductive Failure where
  | missingIntent (intent : Intents)
  | shardNotFound (guild : GuildId)
  | invalidRequest (reason : String)
  | nonceExhausted (attempts : Nat)
  | sendFailed (cause : TransportFailure)
  | cancelled
  | timedOut (after : Duration)
  | decode (fault : Payload.Fault)
deriving DecidableEq, Repr

def TransportFailure.message (f : TransportFailure) : String := "Transport error: " ++ f.context

namespace Failure

def kind : Failure → String
  | missingIntent _ => "MissingIntent"
  | shardNotFound _ => "ShardNotFound"
  | invalidRequest _ => "InvalidRequest"
  | nonceExhausted _ => "NonceExhausted"
  | sendFailed _ => "SendFailed"
  | cancelled => "Cancelled"
  | timedOut _ => "TimedOut"
  | decode _ => "Decode"

def message : Failure → String
  | missingIntent intent => "Missing intent: " ++ intent.text
  | shardNotFound guild => "No shard for guild " ++ guild.digits
  | invalidRequest reason => "Invalid request: " ++ reason
  | nonceExhausted attempts => "No free nonce after " ++ toString attempts ++ " attempts"
  | sendFailed cause => "Send failed: " ++ cause.message
  | cancelled => "Request cancelled"
  | timedOut after => "Request timed out after " ++ after.text
  | decode fault => "Decode error: " ++ fault.message

open Text in
def outline (f : Failure) : Outline :=
  match f with
  | missingIntent intent => .record f.kind [("intent", intent.outline)] true
  | shardNotFound guild => .record f.kind [("guild_id", .atom guild.label)] true
  | invalidRequest reason => .record f.kind [("reason", .atom (quoted reason))] true
  | nonceExhausted attempts => .record f.kind [("attempts", .atom (toString attempts))] true
  | sendFailed cause =>
    .variant f.kind [.record "TransportError" [("context", .atom (quoted cause.context))] true]
  | cancelled => .atom f.kind
  | timedOut after => .record f.kind [("after", .atom after.text)] true
  | decode fault =>
    .variant f.kind [.atom ("Error(" ++ quoted fault.message ++ ", line: 0, column: 0)")]

end Failure
end Rollcall
