import Rollcall.Member
import Rollcall.Payload.Decoder

/-!
# The command that asks for members

A shard is handed a frame: the number of the command and its data. The peer answers frames of this
number and passes over all others.
-/

namespace Rollcall

open Payload

/-- Asks for the members of a guild: those named, or those whose username starts with the query, at
most `limit` of them. -/
structure MemberCommand where
  guild : GuildId
  query : Option String := none
  limit : Option UInt32 := none
  presences : Bool := false
  users : Option (List UserId) := none
  nonce : String
deriving DecidableEq, Repr

namespace MemberCommand

def name : String := "RequestGuildMembers"

def ofObject (fields : List (String × Json)) : Except Fault MemberCommand := do
  let guild ← ofKey fields "guild_id" (decodeId .guild)
  let limit ← ofKey fields "limit" (decodeOption decodeWord32)
  let nonce ← ofKey fields "nonce" decodeString
  let presences ← ofKey fields "presences" decodeBool
  let query ← ofKey fields "query" (decodeOption decodeString)
  let users ← ofKey fields "user_ids" (decodeOption (decodeList (decodeId .user)))
  return {
    guild := ← orElse (.missingField "guild_id") guild
    query := query.join
    limit := limit.join
    presences := presences.getD false
    users := users.join
    nonce := ← orElse (.missingField "nonce") nonce }

def ofArray (items : List Json) : Except Fault MemberCommand := do
  let guild ← orElse (.tooShort 0 name 6) (← ofPlace items 0 (decodeId .guild))
  let query ← ofPlace items 1 (decodeOption decodeString)
  let limit ← ofPlace items 2 (decodeOption decodeWord32)
  let presences ← ofPlace items 3 decodeBool
  let users ← ofPlace items 4 (decodeOption (decodeList (decodeId .user)))
  let nonce ← orElse (.tooShort 5 name 6) (← ofPlace items 5 decodeString)
  atMost 6 items
  return {
    guild, query := query.join, limit := limit.join, presences := presences.getD false
    users := users.join, nonce }

def ofJson : Decoder MemberCommand
  | .object fields => ofObject fields
  | .array items => ofArray items
  | v => wrong v (.record name)

def toJson (c : MemberCommand) : Json :=
  .objectOf (
    [("guild_id", ofId c.guild)] ++
    entryOf "query" .string c.query ++
    entryOf "limit" ofWord32 c.limit ++
    [("presences", .bool c.presences)] ++
    entryOf "user_ids" (fun ids => .array (ids.map ofId)) c.users ++
    [("nonce", .string c.nonce)])

def opcode : UInt64 := 8

def toFrame (c : MemberCommand) : Json :=
  .objectOf [("op", .number (.unsigned opcode)), ("d", c.toJson)]

/-- The command in a frame; nothing if the frame has another number. Absent data counts as `null`.
-/
def ofFrame (frame : Json) : Except Fault (Option MemberCommand) :=
  match frame.get? "op" with
  | some (.number (.unsigned n)) =>
    if n = opcode then (ofJson ((frame.get? "d").getD .null)).map some else .ok none
  | _ => .ok none

open Text in
def outline (c : MemberCommand) : Outline :=
  .record name
    [("guild_id", .atom c.guild.label), ("query", .ofOption stringOutline c.query),
      ("limit", .ofOption (fun n => .atom (toString n.toNat)) c.limit),
      ("presences", .atom (boolText c.presences)),
      ("user_ids", .ofOption (fun ids => .sequence (ids.map fun i => .atom i.label)) c.users),
      ("nonce", stringOutline c.nonce)] true

def commandOutline (c : MemberCommand) : Text.Outline := .variant name [c.outline]

end MemberCommand
end Rollcall
