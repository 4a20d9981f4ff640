import Rollcall.Member
import Std.Data.ExtTreeMap

/-!
# The member cache

Members by guild and user; the last one put is kept. Main statement: `getElem?_put`, a put changes
what is under its own guild and user and nothing else.
-/

namespace Rollcall

/-- Keys are ordered by guild and then by user. -/
structure CacheKey where
  guild : GuildId
  user : UserId
deriving DecidableEq, Repr

namespace CacheKey

instance : Ord CacheKey := ⟨compareLex (compareOn guild) (compareOn user)⟩

instance : Std.TransOrd CacheKey :=
  inferInstanceAs (Std.TransCmp (compareLex (compareOn guild) (compareOn user)))

instance : Std.LawfulEqOrd CacheKey where
  eq_of_compare {a b} h := by
    obtain ⟨g, u⟩ := a
    obtain ⟨g', u'⟩ := b
    have h : (compare g g').then (compare u u') = .eq := h
    rw [Ordering.then_eq_eq] at h
    simp only [Std.LawfulEqCmp.compare_eq_iff_eq] at h
    simp [h]

end CacheKey

structure MemberCache where
  entries : Std.ExtTreeMap CacheKey Member compare := ∅

namespace MemberCache

def empty : MemberCache := {}

def keyOf (m : Member) : CacheKey := ⟨m.guild, m.user.id⟩

def put (c : MemberCache) (m : Member) : MemberCache := ⟨c.entries.insert (keyOf m) m⟩

def putAll (c : MemberCache) (ms : List Member) : MemberCache := ms.foldl put c

def get? (c : MemberCache) (guild : GuildId) (user : UserId) : Option Member :=
  c.entries[(⟨guild, user⟩ : CacheKey)]?

def size (c : MemberCache) : Nat := c.entries.size

def isEmpty (c : MemberCache) : Bool := c.size = 0

def guildMembers (c : MemberCache) (guild : GuildId) : List Member :=
  (c.entries.toList.filter fun e => e.1.guild = guild).map (·.2)

theorem getElem?_put (c : MemberCache) (m : Member) (key : CacheKey) :
    (c.put m).entries[key]? = if keyOf m = key then some m else c.entries[key]? := by
  simp [put, Std.ExtTreeMap.getElem?_insert]

end MemberCache
end Rollcall
