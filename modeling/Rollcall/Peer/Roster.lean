import Rollcall.Payload.Command
import Std.Data.ExtTreeMap

/-!
# Rosters

The members of the guilds that a peer answers for, in the order in which they joined. Ids follow
from the place of a member; names and bots are drawn. Users are looked up by their ids, and a query
finds members by the start of their names only (`mem_startingWith`).
-/

namespace Rollcall

/-! ## Draws -/

/-- What is drawn for one member: which name it has, counted around, and whether it is a bot. -/
structure Draw where
  name : Nat
  bot : Bool
deriving DecidableEq, Repr

abbrev Draws := Nat → Draw

/-- Draws that walk through the names in strides of seven; every tenth is a bot. -/
def Draws.regular (seed : Nat) : Draws := fun k => ⟨seed + 7 * k, (seed + k) % 10 = 9⟩

structure Roster where
  guild : GuildId
  members : List Member
deriving DecidableEq, Repr

structure Selection where
  found : List Member
  notFound : List UserId := []
deriving DecidableEq, Repr

namespace Roster

/-! ## Generating -/

def names : List String :=
  ["alice", "alan", "albert", "alma", "bob", "bea", "carol", "dave", "erin", "frank", "grace",
    "heidi", "ivan", "judy", "mallory", "niaj", "olivia", "peggy", "rupert", "sybil", "trent",
    "victor", "walter"]

/-- The timestamps of the first guild and of the first member of a guild. The next guild is one
later, so that neighbouring guilds fall to neighbouring shards. -/
def firstGuild : UInt64 := 19403000000
def firstUser : UInt64 := 20000000000

def guildId (index : Nat) : GuildId := .ofParts (firstGuild + UInt64.ofNat index) 0 0

def userId (place : Nat) : UserId :=
  .ofParts (firstUser + UInt64.ofNat place) 0 (UInt64.ofNat place)

def username (place : Nat) (d : Draw) : String :=
  names.getD (d.name % names.length) "" ++ toString place

def member (guild : GuildId) (place : Nat) (d : Draw) : Member :=
  { guild, user := { id := userId place, username := username place d, bot := d.bot } }

def generate (guild : GuildId) (size : Nat) (draws : Draws) : Roster :=
  ⟨guild, (List.range size).map fun i => member guild i (draws i)⟩

/-- Rosters of one size for the guilds from the first one on, in ascending order; they draw one
after the other. -/
def generateAll (guilds size : Nat) (draws : Draws) : List Roster :=
  (List.range guilds).map fun g => generate (guildId g) size fun i => draws (g * size + i)

/-! ## Selecting -/

variable (r : Roster)

abbrev Places := Std.ExtTreeMap UserId Nat compare

/-- The places of the members by their ids. Of members with one id the last counts. -/
def places : Places :=
  r.members.zipIdx.foldl (fun places (m, place) => places.insert m.user.id place) ∅

def find? (places : Places) (id : UserId) : Option Member :=
  places[id]?.bind fun place => r.members[place]?

/-- Small letters for capitals. Names have none but ASCII letters, so of all other characters only
the Kelvin sign matters, whose small letter is an ASCII one. -/
def lowerChar (c : Char) : Char := if c = '\u212A' then 'k' else c.toLower

def lower (s : String) : List Char := s.toList.map lowerChar

def startsWith (query : String) (m : Member) : Bool :=
  (lower query).isPrefixOf (lower m.user.username)

/-- The members whose name starts with a query, at most `limit` of them; 0 is no limit. -/
def startingWith (query : String) (limit : Nat) : List Member :=
  let found := r.members.filter (startsWith query)
  if limit = 0 then found else found.take limit

/-- What a command asks for. Named users come before a query. -/
def select (c : MemberCommand) : Selection :=
  match c.users with
  | some ids =>
    let places := r.places
    ⟨ids.filterMap (r.find? places), ids.filter fun id => !places.contains id⟩
  | none => ⟨r.startingWith (c.query.getD "") ((c.limit.getD 0).toNat), []⟩

theorem mem_startingWith {r : Roster} {query : String} {limit : Nat} {m : Member}
    (h : m ∈ r.startingWith query limit) : m ∈ r.members ∧ startsWith query m := by
  unfold startingWith at h
  split at h
  · simpa using h
  · simpa using List.mem_of_mem_take h

end Roster
end Rollcall
