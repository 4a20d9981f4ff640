import Rollcall.Snowflake
import Rollcall.Text.Outline

/-!
# Guilds to be asked for at once

A selection says for each guild whether its members are asked for as soon as it is available. A
list of guilds counts as a set: neither order nor repetition matters.
-/

namespace Rollcall

inductive GuildSelection where
  | nothing
  | everything
  | only (guilds : List GuildId)
  | except (guilds : List GuildId)
deriving DecidableEq, Repr

namespace GuildSelection

def selects (s : GuildSelection) (guild : GuildId) : Bool :=
  match s with
  | nothing => false
  | everything => true
  | only guilds => guilds.contains guild
  | .except guilds => !guilds.contains guild

def sameSet (a b : List GuildId) : Bool := a.all b.contains && b.all a.contains

/-- Whether two selections are written alike, up to the order and repetition of their guilds. -/
def alike : GuildSelection → GuildSelection → Bool
  | nothing, nothing => true
  | everything, everything => true
  | only a, only b => sameSet a b
  | .except a, .except b => sameSet a b
  | _, _ => false

open Text in
def outline : GuildSelection → Outline
  | nothing => .atom "None"
  | everything => .atom "All"
  | only guilds => .variant "Include" [.set (guilds.eraseDups.map fun g => .atom g.label)]
  | .except guilds => .variant "Exclude" [.set (guilds.eraseDups.map fun g => .atom g.label)]

end GuildSelection
end Rollcall
