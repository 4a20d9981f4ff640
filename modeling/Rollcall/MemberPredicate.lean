import Rollcall.Member

/-!
# Predicates on members

The tests on a member that can be written down.
-/

namespace Rollcall

inductive MemberPredicate where
  | constant (keep : Bool)
  | usernameStarts (start : String)
  | displayNameStarts (start : String)
  | isBot (bot : Bool)
  | hasNick (nick : Bool)
  | hasRole (role : UInt64)
  | inGuild (guild : GuildId)
  -- the user's id leaves this remainder
  | remainder (divisor : UInt64) (rest : UInt64)
deriving DecidableEq, Repr

def MemberPredicate.holds (p : MemberPredicate) (m : Member) : Bool :=
  match p with
  | constant keep => keep
  | usernameStarts start => start.toList.isPrefixOf m.user.username.toList
  | displayNameStarts start => start.toList.isPrefixOf m.displayName.toList
  | isBot bot => m.user.bot == bot
  | hasNick nick => m.nick.isSome == nick
  | hasRole role => m.roles.contains role
  | inGuild guild => m.guild = guild
  | remainder divisor rest => m.user.id.bits % divisor == rest

end Rollcall
