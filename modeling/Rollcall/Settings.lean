import Rollcall.Limits
import Rollcall.Options

/-!
# Settings

Options that have been found usable: there is at least one of each thing that is counted, and the
limits are not refused.
-/

namespace Rollcall

structure Settings where
  shards : Nat
  guilds : Nat
  members : Nat
  chunkSize : Nat
  chunkDelay : Duration
  query : String
  queryLimit : UInt32
  presences : Bool
  exclude : List GuildId
  limits : Limits
deriving DecidableEq, Repr

inductive SettingsFault where
  -- there are none of a thing, by its name
  | none (what : String)
  | limits (f : Failure)
deriving DecidableEq, Repr

def SettingsFault.message : SettingsFault → String
  | .none what => what ++ " must be greater than 0"
  | .limits f => f.message

namespace Settings

def limitsOf (o : Options) : Limits :=
  { capacity := o.capacity
    timeout := if o.timeout = 0 then none else some (.ofMillis o.timeout.toNat) }

/-- The settings of the options, unless there is a fault; the first one counts. -/
def ofOptions (o : Options) : Except SettingsFault Settings :=
  if o.shards = 0 then .error (.none "shards")
  else if o.guilds = 0 then .error (.none "guilds")
  else if o.members = 0 then .error (.none "members")
  else if o.chunkSize = 0 then .error (.none "chunk_size")
  else match (limitsOf o).check with
    | .error f => .error (.limits f)
    | .ok () => .ok {
        shards := o.shards.toNat
        guilds := o.guilds.toNat
        members := o.members.toNat
        chunkSize := o.chunkSize.toNat
        chunkDelay := .ofMillis o.chunkDelay.toNat
        query := o.query
        queryLimit := o.queryLimit
        presences := o.presences
        exclude := o.exclude.map (⟨·⟩)
        limits := limitsOf o }

end Settings
end Rollcall
