import Mathlib.Data.List.Induction
import Mathlib.Data.List.Nodup
import Rollcall.Peer.Responder
import Rollcall.Proofs.Layout
import Rollcall.Proofs.Lowercase

/-!
# Generated rosters

A look-up in a roster finds members by their ids, and an id that no member has is not found
(`Roster.found_users`, `Roster.notFound_users`). The members of a generated roster are in its guild,
and as long as their places leave room for their timestamps, their ids increase, so each has an id
of its own. Main statement: `selection_exact`.
-/

namespace Rollcall

namespace Roster

variable {r : Roster} {m m' : Member} {guilds size : Nat} {draws : Draws}

/-! ## Looking up -/

def has (r : Roster) (id : UserId) : Bool := r.members.any fun m => m.user.id = id

theorem has_iff {id : UserId} : r.has id = true ↔ ∃ m ∈ r.members, m.user.id = id := by
  simp [has]

theorem places_concat (guild : GuildId) (ms : List Member) (m : Member) :
    (⟨guild, ms ++ [m]⟩ : Roster).places =
      (⟨guild, ms⟩ : Roster).places.insert m.user.id ms.length := by
  simp [places, List.zipIdx_append]

theorem getElem?_places_concat (guild : GuildId) (ms : List Member) (m : Member) (id : UserId) :
    (⟨guild, ms ++ [m]⟩ : Roster).places[id]? =
      if m.user.id = id then some ms.length else (⟨guild, ms⟩ : Roster).places[id]? := by
  rw [places_concat, Std.ExtTreeMap.getElem?_insert]
  simp

theorem member_at_place {id : UserId} {place : Nat} (h : r.places[id]? = some place) :
    ∃ m, r.members[place]? = some m ∧ m.user.id = id := by
  obtain ⟨guild, ms⟩ := r
  induction ms using List.reverseRecOn generalizing place with
  | nil => simp [places] at h
  | append_singleton ms last ih =>
    rw [getElem?_places_concat] at h
    by_cases hid : last.user.id = id
    · rw [if_pos hid, Option.some.injEq] at h
      exact ⟨last, by simp [← h], hid⟩
    · rw [if_neg hid] at h
      obtain ⟨m, hm, hm'⟩ := ih h
      obtain ⟨hlt, -⟩ := List.getElem?_eq_some_iff.mp hm
      exact ⟨m, (List.getElem?_append_left hlt).trans hm, hm'⟩

theorem contains_places (r : Roster) (id : UserId) : r.places.contains id = r.has id := by
  obtain ⟨guild, ms⟩ := r
  induction ms using List.reverseRecOn with
  | nil => simp [places, has]
  | append_singleton ms last ih =>
    rw [places_concat, Std.ExtTreeMap.contains_insert, ih, Bool.eq_iff_iff]
    simp [has, or_comm]

theorem mem_of_find? {id : UserId} (h : r.find? r.places id = some m) :
    m ∈ r.members ∧ m.user.id = id := by
  obtain ⟨place, hplace, hm⟩ := Option.bind_eq_some_iff.mp h
  obtain ⟨m', hm', hid⟩ := member_at_place hplace
  obtain rfl := Option.some.inj (hm.symm.trans hm')
  exact ⟨List.mem_of_getElem? hm, hid⟩

theorem find?_eq_none_iff {id : UserId} : r.find? r.places id = none ↔ r.has id = false := by
  rw [← contains_places, Std.ExtTreeMap.contains_eq_isSome_getElem?, find?]
  cases hplace : r.places[id]? with
  | none => simp
  | some place =>
    obtain ⟨m, hm, -⟩ := member_at_place hplace
    simp [hm]

variable {c : MemberCommand} {ids : List UserId}

theorem found_users (hc : c.users = some ids) :
    (r.select c).found.map (·.user.id) = ids.filter r.has := by
  simp only [select, hc, List.map_filterMap]
  rw [← List.filterMap_eq_filter]
  apply List.filterMap_congr
  intro id _
  cases hfind : r.find? r.places id with
  | none => simp [Option.guard, find?_eq_none_iff.mp hfind]
  | some m =>
    obtain ⟨hm, hid⟩ := mem_of_find? hfind
    simp [has_iff.mpr ⟨m, hm, hid⟩, hid]

theorem notFound_users (hc : c.users = some ids) :
    (r.select c).notFound = ids.filter fun id => !r.has id := by
  simp only [select, hc, contains_places]

theorem mem_of_found (hm : m ∈ (r.select c).found) : m ∈ r.members := by
  unfold select at hm
  split at hm
  · obtain ⟨id, -, hfind⟩ := List.mem_filterMap.mp hm
    exact (mem_of_find? hfind).1
  · exact (mem_startingWith hm).1

/-! ## Generating -/

/-- Whether the timestamps of all members have their place in the ids. -/
def Fits (size : Nat) : Prop := size ≤ 2 ^ 42 - firstUser.toNat

theorem timestamp_userId {place : Nat} (hlt : place < 2 ^ 42 - firstUser.toNat) :
    (userId place).timestamp.toNat = firstUser.toNat + place := by
  have hfirst : firstUser.toNat = 20000000000 := rfl
  have hsize : UInt64.size = 2 ^ 64 := rfl
  have hplace : (UInt64.ofNat place).toNat = place := UInt64.toNat_ofNat_of_lt' (by omega)
  rw [userId, Snowflake.timestamp_ofParts, UInt64.toNat_add, hplace]
  omega

theorem generated (hr : r ∈ generateAll guilds size draws) :
    ∃ g draws', r = generate (guildId g) size draws' := by
  obtain ⟨g, -, rfl⟩ := List.mem_map.mp hr
  exact ⟨g, _, rfl⟩

theorem has_generate {guild : GuildId} {id : UserId} :
    (generate guild size draws).has id = true ↔ ∃ place < size, userId place = id := by
  simp [has, generate, member]

theorem guild_of_mem (hr : r ∈ generateAll guilds size draws) (hm : m ∈ r.members) :
    m.guild = r.guild := by
  obtain ⟨g, draws', rfl⟩ := generated hr
  obtain ⟨i, -, rfl⟩ := List.mem_map.mp hm
  rfl

theorem ids_increase (guild : GuildId) (hfits : Fits size) (draws : Draws) :
    (generate guild size draws).members.Pairwise fun m m' => compare m.user.id m'.user.id = .lt := by
  rw [generate, List.pairwise_map]
  apply List.Pairwise.imp_of_mem _ List.pairwise_lt_range
  intro i j hi hj hij
  have hplace {k : Nat} (hk : k ∈ List.range size) : k < 2 ^ 42 - firstUser.toNat :=
    Nat.lt_of_lt_of_le (List.mem_range.mp hk) hfits
  have htime : compare (userId i).timestamp (userId j).timestamp = .lt := by
    rw [compare_toNat, timestamp_userId (hplace hi), timestamp_userId (hplace hj)]
    exact Nat.compare_eq_lt.mpr (Nat.add_lt_add_left hij _)
  rw [member, member, Snowflake.compare_parts, htime]
  rfl

theorem nodup_ids (hinc : r.members.Pairwise fun m m' => compare m.user.id m'.user.id = .lt) :
    (r.members.map (·.user.id)).Nodup := by
  apply List.pairwise_map.mpr
  apply hinc.imp
  intro m m' hlt hid
  have hself : compare m'.user.id m'.user.id = .eq := Std.ReflCmp.compare_self
  rw [hid, hself] at hlt
  cases hlt

theorem eq_of_id (hr : r ∈ generateAll guilds size draws) (hfits : Fits size) (hm : m ∈ r.members)
    (hm' : m' ∈ r.members) (hid : m'.user.id = m.user.id) : m' = m := by
  obtain ⟨g, draws', rfl⟩ := generated hr
  exact List.inj_on_of_nodup_map (nodup_ids (ids_increase _ hfits draws')) hm' hm hid

theorem place_of_member (hnodup : (r.members.map (·.user.id)).Nodup) {place : Nat}
    (hm : r.members[place]? = some m) : r.places[m.user.id]? = some place := by
  have hhas : r.places.contains m.user.id = true := by
    rw [contains_places, has_iff]
    exact ⟨m, List.mem_of_getElem? hm, rfl⟩
  rw [Std.ExtTreeMap.contains_eq_isSome_getElem?] at hhas
  obtain ⟨place', hplace⟩ := Option.isSome_iff_exists.mp hhas
  obtain ⟨m', hm', hid⟩ := member_at_place hplace
  have hsame : (r.members.map (·.user.id))[place]? = (r.members.map (·.user.id))[place']? := by
    rw [List.getElem?_map, List.getElem?_map, hm, hm', Option.map_some, Option.map_some, hid]
  obtain ⟨hlt, -⟩ := List.getElem?_eq_some_iff.mp hm
  rw [hplace, (List.getElem?_inj (by rwa [List.length_map]) hnodup).mp hsame]

/-! ## Selecting by name -/

theorem filter_startsWith {low : String → List Char} (hlow : Lowercasing low) (guild : GuildId)
    (size : Nat) (draws : Draws) (query : String) :
    (generate guild size draws).members.filter (startsWith query) =
      (generate guild size draws).beginningWith low query := by
  apply List.filter_congr
  intro m hm
  obtain ⟨place, -, rfl⟩ := List.mem_map.mp hm
  have hname : ∀ c ∈ (member guild place (draws place)).user.username.toList, IsAscii c :=
    isAscii_username place (draws place)
  exact startsWith_eq hlow hname query

theorem found_named (hc : c.users = none) :
    (r.select c).found = r.startingWith (c.query.getD "") (c.limit.getD 0).toNat ∧
      (r.select c).notFound = [] := by
  simp only [select, hc, and_self]

end Roster

open Roster

/-- **Selection is exact.** A generated roster whose members' timestamps fit has increasing ids in
the order of joining, so no two members share one, and the place under an id is that of its member.
A command that names users gets, in the order of the naming and as often as each is named, the
members that have the ids, and as not found the ids that no member has; its query and its limit make
no difference. Any other command gets, in the order of joining, the members whose name begins with
the query, in whichever way small letters are made of both: all of them if the limit is 0 or absent,
else the first so many. -/
theorem selection_exact (guild : GuildId) {size : Nat} (hfits : Fits size) (draws : Draws)
    {r : Roster} (hr : r = generate guild size draws) :
    r.members.Pairwise (fun m m' => compare m.user.id m'.user.id = .lt) ∧
    (r.members.map (·.user.id)).Nodup ∧
    (∀ (place : Nat) (m : Member), r.members[place]? = some m → r.places[m.user.id]? = some place) ∧
    (∀ c ids, c.users = some ids →
      (r.select c).found.map (·.user.id) = ids.filter r.has ∧
      (∀ m ∈ (r.select c).found, m ∈ r.members) ∧
      (r.select c).notFound = ids.filter (fun id => !r.has id) ∧
      ∀ query limit, r.select { c with query, limit } = r.select c) ∧
    ∀ c low, c.users = none → Lowercasing low →
      (r.select c).notFound = [] ∧
      (c.limit.getD 0 = 0 → (r.select c).found = r.beginningWith low (c.query.getD "")) ∧
      ∀ n, c.limit = some n → n ≠ 0 →
        (r.select c).found = (r.beginningWith low (c.query.getD "")).take n.toNat := by
  have hinc := ids_increase guild hfits draws
  rw [← hr] at hinc
  refine ⟨hinc, nodup_ids hinc, fun place m => place_of_member (nodup_ids hinc),
    fun c ids hc => ⟨found_users hc, fun m => mem_of_found, notFound_users hc, fun query limit => ?_⟩,
    fun c low hc hlow => ?_⟩
  · simp only [select, hc]
  · obtain ⟨hfound, hnone⟩ := found_named (r := r) hc
    have hnames : r.members.filter (startsWith (c.query.getD "")) =
        r.beginningWith low (c.query.getD "") := by
      rw [hr]
      exact filter_startsWith hlow guild size draws _
    refine ⟨hnone, fun hlimit => ?_, fun n hn hpos => ?_⟩
    · rw [hfound, hlimit, startingWith, hnames]
      rfl
    · have hpos : n.toNat ≠ 0 := fun h => hpos (UInt32.toNat_inj.mp h)
      rw [hfound, hn, Option.getD_some, startingWith, hnames]
      exact if_neg hpos

/-- A roster in which the sequence numbers of the ids have come around. -/
def crowdedRoster : Roster := .generate ⟨1⟩ 4097 (.regular 0)

def crowdedCommand : MemberCommand :=
  { guild := ⟨1⟩, users := some [userId 4096, ⟨5⟩, userId 0, userId 4096], query := some "bob"
    limit := some 1, nonce := "x" }

theorem crowded_selects :
    Fits 4097 ∧
      (crowdedRoster.select crowdedCommand).found.map (·.user.id) =
        [userId 4096, userId 0, userId 4096] ∧
      (crowdedRoster.select crowdedCommand).notFound = [⟨5⟩] ∧
      (crowdedRoster.select { crowdedCommand with users := none }).found =
        (crowdedRoster.beginningWith lower "bob").take 1 := by
  have hfits : Fits 4097 := by
    unfold Fits
    decide
  obtain ⟨-, -, -, husers, hnames⟩ := selection_exact (r := crowdedRoster) ⟨1⟩ hfits _ rfl
  obtain ⟨hfound, -, hnotFound, -⟩ := husers crowdedCommand _ rfl
  obtain ⟨-, -, hlimited⟩ := hnames { crowdedCommand with users := none } lower rfl lowercasing_lower
  have hmember {place : Nat} (hlt : place < 4097) : crowdedRoster.has (userId place) = true :=
    has_generate.mpr ⟨place, hlt, rfl⟩
  have hstranger : crowdedRoster.has ⟨5⟩ = false := by
    rw [← Bool.not_eq_true, crowdedRoster, has_generate]
    rintro ⟨place, hlt, hid⟩
    have htime := timestamp_userId (Nat.lt_of_lt_of_le hlt hfits)
    rw [hid] at htime
    exact absurd htime (Nat.ne_of_lt (Nat.lt_of_lt_of_le (by decide) (Nat.le_add_right _ place)))
  refine ⟨hfits, hfound.trans ?_, hnotFound.trans ?_, hlimited 1 rfl (by decide)⟩
  · simp [hmember, hstranger]
  · simp [hmember, hstranger]

theorem Peer.roster_of_guild {p : Peer} {guild : GuildId} {r : Roster}
    (hr : p.roster? guild = some r) : r ∈ p.rosters ∧ r.guild = guild :=
  ⟨List.mem_of_find?_eq_some hr, by simpa using List.find?_some hr⟩

end Rollcall
