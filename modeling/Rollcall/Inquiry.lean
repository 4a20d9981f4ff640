import Rollcall.Limits
import Rollcall.Payload.Command

/-!
# Inquiries

What a caller asks for before a request is made of it: some members of a guild, and a filter on what
comes back. To ask for all members is to ask for those whose name starts with nothing, without a
limit.
-/

namespace Rollcall

inductive Scope where
  | users (ids : List UserId)
  -- the members whose username starts with a text, at most `limit` of them; 0 is no limit
  | query (text : String) (limit : UInt32)
deriving DecidableEq, Repr

structure Inquiry where
  guild : GuildId
  scope : Scope
  filter : Option (Member → Bool) := none

namespace Inquiry

def users (guild : GuildId) (ids : List UserId) : Inquiry := { guild, scope := .users ids }

def query (guild : GuildId) (text : String) (limit : UInt32) : Inquiry :=
  { guild, scope := .query text limit }

def all (guild : GuildId) : Inquiry := query guild "" 0

def filtered (guild : GuildId) (keep : Member → Bool) : Inquiry :=
  { all guild with filter := some keep }

def refusal? (i : Inquiry) (limits : Limits) : Option Failure :=
  match i.scope with
  | .query _ _ => none
  | .users ids =>
    if limits.idsPerRequest.toNat < ids.length then
      some (.invalidRequest ("at most " ++ toString limits.idsPerRequest.toNat ++
        " user ids per request, got " ++ toString ids.length))
    else none

def command (i : Inquiry) (nonce : String) (presences : Bool) : MemberCommand :=
  match i.scope with
  | .users ids => { guild := i.guild, users := some ids, presences, nonce }
  | .query text limit =>
    { guild := i.guild, query := some text, limit := some limit, presences, nonce }

open Text in
def outline (i : Inquiry) : Outline :=
  let scope : Outline := match i.scope with
    | .users ids => .variant "UserIds" [.sequence (ids.map fun u => .atom u.label)]
    | .query text limit =>
      .record "Query" [("query", stringOutline text), ("limit", .atom (toString limit.toNat))] true
  .record "MemberRequest"
    [("guild_id", .atom i.guild.label), ("scope", scope),
      ("filtered", .atom (boolText i.filter.isSome))] true

end Inquiry
end Rollcall
