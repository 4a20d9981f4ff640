import Rollcall.Failure
import Rollcall.Request

/-!
# Shards

A shard carries the commands of the guilds that fall to it. It takes a command at once, refuses it,
or keeps whoever hands it over waiting until it is let go.
-/

namespace Rollcall

inductive SendMode where
  | accept
  | hold
  | refuse (context : String)
deriving DecidableEq, Repr

inductive SendResult where
  | sent
  | refused (cause : TransportFailure)
deriving DecidableEq, Repr

structure Shard where
  number : UInt32
  intents : Intents
  mode : SendMode := .accept
  -- who is kept waiting, the longest first
  held : List TaskId := []
deriving Repr

namespace Shard

def route (count : Nat) (guild : GuildId) : Except Failure Nat :=
  if count = 0 then .error (.shardNotFound guild)
  else .ok (guild.shardIndex (UInt64.ofNat count)).toNat

end Shard

/-- The end of a command that was held: `hold` counts as accepting. -/
def SendMode.result : SendMode → SendResult
  | .refuse context => .refused ⟨context⟩
  | _ => .sent

end Rollcall
