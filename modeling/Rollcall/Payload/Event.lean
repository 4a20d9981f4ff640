import Rollcall.Payload.Member

/-!
# Events

What a shard reads off the wire is a kind and a payload. A chunk of members is decoded; events of
all other kinds are known by their kind only.
-/

namespace Rollcall

open Payload

/-- One of `count` parts of the answer to a member command. Ids that name no member of the guild are
listed as not found. -/
structure Chunk where
  guild : GuildId
  members : List Member := []
  index : UInt32
  count : UInt32
  notFound : List UserId := []
  nonce : Option String := none
deriving DecidableEq, Repr

namespace Chunk

def name : String := "GuildMembersChunk"

def ofObject (fields : List (String × Json)) : Except Fault Chunk := do
  let count ← ofKey fields "chunk_count" decodeWord32
  let index ← ofKey fields "chunk_index" decodeWord32
  let guild ← ofKey fields "guild_id" (decodeId .guild)
  let members ← ofKey fields "members" (decodeList Member.ofJson)
  let nonce ← ofKey fields "nonce" (decodeOption decodeString)
  let notFound ← ofKey fields "not_found" (decodeList (decodeId .user))
  return {
    guild := ← orElse (.missingField "guild_id") guild
    members := members.getD []
    index := ← orElse (.missingField "chunk_index") index
    count := ← orElse (.missingField "chunk_count") count
    notFound := notFound.getD []
    nonce := nonce.join }

def ofArray (items : List Json) : Except Fault Chunk := do
  let guild ← orElse (.tooShort 0 name 6) (← ofPlace items 0 (decodeId .guild))
  let members ← ofPlace items 1 (decodeList Member.ofJson)
  let index ← orElse (.tooShort 2 name 6) (← ofPlace items 2 decodeWord32)
  let count ← orElse (.tooShort 3 name 6) (← ofPlace items 3 decodeWord32)
  let notFound ← ofPlace items 4 (decodeList (decodeId .user))
  let nonce ← ofPlace items 5 (decodeOption decodeString)
  atMost 6 items
  return {
    guild, members := members.getD [], index, count, notFound := notFound.getD []
    nonce := nonce.join }

def ofJson : Decoder Chunk
  | .object fields => ofObject fields
  | .array items => ofArray items
  | v => wrong v (.record name)

def toJson (c : Chunk) : Json :=
  .objectOf (
    [("guild_id", ofId c.guild), ("members", .array (c.members.map Member.toJson)),
      ("chunk_index", ofWord32 c.index), ("chunk_count", ofWord32 c.count)] ++
    (if c.notFound.isEmpty then [] else [("not_found", .array (c.notFound.map ofId))]) ++
    entryOf "nonce" .string c.nonce)

def stamped (c : Chunk) : List Member := c.members.map (Member.inGuild c.guild)

open Text in
def outline (c : Chunk) : Outline :=
  .record name
    [("guild_id", .atom c.guild.label), ("members", .sequence (c.members.map Member.outline)),
      ("chunk_index", .atom (toString c.index.toNat)),
      ("chunk_count", .atom (toString c.count.toNat)),
      ("not_found", .sequence (c.notFound.map fun i => .atom i.label)),
      ("nonce", .ofOption stringOutline c.nonce)] true

end Chunk

structure Dispatch where
  kind : String
  data : Json

inductive Event where
  | chunk (c : Chunk)
  | other (kind : String)
deriving DecidableEq, Repr

namespace Event

def chunkKind : String := "GUILD_MEMBERS_CHUNK"

def ofDispatch (d : Dispatch) : Except Fault Event :=
  if d.kind = chunkKind then (Chunk.ofJson d.data).map chunk else .ok (other d.kind)

def ofDispatches (ds : List Dispatch) : List Event := ds.filterMap fun d => (ofDispatch d).toOption

open Text in
def outline : Event → Outline
  | chunk c => .variant Chunk.name [c.outline]
  | other kind => .record "Other" [("kind", stringOutline kind)] true

end Event

def Chunk.toDispatch (c : Chunk) : Dispatch := ⟨Event.chunkKind, c.toJson⟩

end Rollcall
