import Rollcall.Payload.Command
import Rollcall.Shard

/-!
# Uplinks

An uplink frames the commands of a shard and hands them on, until its far end has gone.
-/

namespace Rollcall

structure Uplink where
  shard : UInt32
  intents : Intents
  connected : Bool := true
deriving DecidableEq, Repr

namespace Uplink

def disconnect (u : Uplink) : Uplink := { u with connected := false }

def send (u : Uplink) (c : MemberCommand) : Except TransportFailure Json :=
  if u.connected then .ok c.toFrame
  else .error ⟨"shard " ++ toString u.shard.toNat ++ " is disconnected"⟩

end Uplink
end Rollcall
