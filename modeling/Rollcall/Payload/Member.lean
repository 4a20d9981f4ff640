import Rollcall.Member
import Rollcall.Payload.Decoder

/-!
# Users and members as JSON

Optional fields are left out when they hold nothing.
-/

namespace Rollcall

open Payload

namespace User

def ofObject (fields : List (String × Json)) : Except Fault User := do
  let bot ← ofKey fields "bot" decodeBool
  let globalName ← ofKey fields "global_name" (decodeOption decodeString)
  let id ← ofKey fields "id" (decodeId .user)
  let username ← ofKey fields "username" decodeString
  return {
    id := ← orElse (.missingField "id") id
    username := ← orElse (.missingField "username") username
    globalName := globalName.join
    bot := bot.getD false }

def ofArray (items : List Json) : Except Fault User := do
  let id ← orElse (.tooShort 0 "User" 4) (← ofPlace items 0 (decodeId .user))
  let username ← orElse (.tooShort 1 "User" 4) (← ofPlace items 1 decodeString)
  let globalName ← ofPlace items 2 (decodeOption decodeString)
  let bot ← ofPlace items 3 decodeBool
  atMost 4 items
  return { id, username, globalName := globalName.join, bot := bot.getD false }

def ofJson : Decoder User
  | .object fields => ofObject fields
  | .array items => ofArray items
  | v => wrong v (.record "User")

def toJson (u : User) : Json :=
  .objectOf (
    [("id", ofId u.id), ("username", .string u.username)] ++
    entryOf "global_name" .string u.globalName ++
    [("bot", .bool u.bot)])

end User

namespace Member

def ofObject (fields : List (String × Json)) : Except Fault Member := do
  let guild ← ofKey fields "guild_id" (decodeId .guild)
  let joinedAt ← ofKey fields "joined_at" decodeString
  let nick ← ofKey fields "nick" (decodeOption decodeString)
  let roles ← ofKey fields "roles" (decodeList decodeWord64)
  let user ← ofKey fields "user" User.ofJson
  return {
    guild := guild.getD ⟨0⟩
    user := ← orElse (.missingField "user") user
    nick := nick.join
    roles := roles.getD []
    joinedAt := joinedAt.getD "" }

def ofArray (items : List Json) : Except Fault Member := do
  let guild ← ofPlace items 0 (decodeId .guild)
  let user ← orElse (.tooShort 1 "Member" 5) (← ofPlace items 1 User.ofJson)
  let nick ← ofPlace items 2 (decodeOption decodeString)
  let roles ← ofPlace items 3 (decodeList decodeWord64)
  let joinedAt ← ofPlace items 4 decodeString
  atMost 5 items
  return {
    guild := guild.getD ⟨0⟩, user, nick := nick.join, roles := roles.getD []
    joinedAt := joinedAt.getD "" }

def ofJson : Decoder Member
  | .object fields => ofObject fields
  | .array items => ofArray items
  | v => wrong v (.record "Member")

def toJson (m : Member) : Json :=
  .objectOf (
    [("guild_id", ofId m.guild), ("user", m.user.toJson)] ++
    entryOf "nick" .string m.nick ++
    [("roles", .array (m.roles.map ofWord64)), ("joined_at", .string m.joinedAt)])

end Member
end Rollcall
