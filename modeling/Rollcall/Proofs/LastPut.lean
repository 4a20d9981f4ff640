import Mathlib.Data.Finset.Card
import Mathlib.Data.List.Induction
import Rollcall.MemberCache

/-!
# Caches after puts

One put changes what is under one key, so after many puts there is under a key what was put there
last (`MemberCache.getElem?_putAll`), and puts under different keys may change places
(`MemberCache.put_comm`). Main statement: `last_put_counts`.
-/

namespace Rollcall

namespace MemberCache

variable {c : MemberCache} {key : CacheKey} {m m' : Member} {ms : List Member}

/-! ## One put -/

theorem ext_getElem? {c' : MemberCache} (h : ∀ key : CacheKey, c.entries[key]? = c'.entries[key]?) :
    c = c' := by
  obtain ⟨entries⟩ := c
  obtain ⟨entries'⟩ := c'
  exact congrArg mk (Std.ExtTreeMap.ext_getElem? fun key => h key)

theorem put_comm (hne : keyOf m ≠ keyOf m') (c : MemberCache) :
    (c.put m).put m' = (c.put m').put m := by
  apply ext_getElem?
  intro key
  rw [getElem?_put, getElem?_put, getElem?_put, getElem?_put]
  by_cases hkey : keyOf m = key
  · have hother : keyOf m' ≠ key := fun h => hne (hkey.trans h.symm)
    simp [hkey, hother]
  · simp [hkey]

/-! ## Puts in a row -/

def LastUnder (key : CacheKey) (m : Member) (ms : List Member) : Prop :=
  ∃ earlier later, ms = earlier ++ m :: later ∧ keyOf m = key ∧ ∀ m' ∈ later, keyOf m' ≠ key

theorem putAll_concat (c : MemberCache) (ms : List Member) (m : Member) :
    c.putAll (ms ++ [m]) = (c.putAll ms).put m := List.foldl_concat ..

theorem getElem?_putAll (c : MemberCache) (ms : List Member) (key : CacheKey) :
    (c.putAll ms).entries[key]? =
      (ms.reverse.find? fun m => keyOf m = key).or c.entries[key]? := by
  induction ms using List.reverseRecOn with
  | nil => rfl
  | append_singleton ms m ih =>
    rw [putAll_concat, getElem?_put, List.reverse_concat, List.find?_cons, ih]
    by_cases hkey : keyOf m = key
    · simp [hkey]
    · simp [hkey]

theorem get?_putAll (c : MemberCache) (ms : List Member) (guild : GuildId) (user : UserId) :
    (c.putAll ms).get? guild user =
      (ms.reverse.find? fun m => m.guild = guild ∧ m.user.id = user).or (c.get? guild user) := by
  simp only [get?, getElem?_putAll, keyOf, CacheKey.mk.injEq]

theorem get?_of_put (hm : m ∈ ms) (c : MemberCache) : ∃ last ∈ ms, last.guild = m.guild ∧
    last.user.id = m.user.id ∧ (c.putAll ms).get? m.guild m.user.id = some last := by
  rw [get?_putAll]
  cases hlast : ms.reverse.find? fun x => x.guild = m.guild ∧ x.user.id = m.user.id with
  | none =>
    have hno := List.find?_eq_none.mp hlast m (List.mem_reverse.mpr hm)
    simp at hno
  | some last =>
    have hkey := List.find?_some hlast
    simp only [decide_eq_true_eq] at hkey
    exact ⟨last, List.mem_reverse.mp (List.mem_of_find?_eq_some hlast), hkey.1, hkey.2, rfl⟩

theorem getElem?_empty_putAll (ms : List Member) (key : CacheKey) :
    (empty.putAll ms).entries[key]? = ms.reverse.find? fun m => keyOf m = key := by
  have hnone : empty.entries[key]? = none := Std.ExtTreeMap.getElem?_empty
  rw [getElem?_putAll, hnone, Option.or_none]

theorem some_under_iff : (empty.putAll ms).entries[key]? = some m ↔ LastUnder key m ms := by
  rw [getElem?_empty_putAll, List.find?_eq_some_iff_append]
  constructor
  · rintro ⟨hkey, later, earlier, hsplit, hlater⟩
    refine ⟨earlier.reverse, later.reverse, ?_, of_decide_eq_true hkey, ?_⟩
    · rw [← List.reverse_reverse ms, hsplit]
      simp
    · intro m' hm'
      simpa using hlater m' (List.mem_reverse.mp hm')
  · rintro ⟨earlier, later, rfl, hkey, hlater⟩
    refine ⟨decide_eq_true hkey, later.reverse, earlier.reverse, by simp, ?_⟩
    intro m' hm'
    simpa using hlater m' (List.mem_reverse.mp hm')

theorem none_under_iff :
    (empty.putAll ms).entries[key]? = none ↔ ∀ m ∈ ms, keyOf m ≠ key := by
  rw [getElem?_empty_putAll, List.find?_eq_none]
  simp

theorem keyOf_under (h : (empty.putAll ms).entries[key]? = some m) : keyOf m = key := by
  obtain ⟨earlier, later, -, hkey, -⟩ := some_under_iff.mp h
  exact hkey

theorem putAll_swap (hne : keyOf m ≠ keyOf m') (c : MemberCache) (earlier later : List Member) :
    c.putAll (earlier ++ m :: m' :: later) = c.putAll (earlier ++ m' :: m :: later) := by
  rw [putAll, putAll, List.foldl_append, List.foldl_append]
  exact congrArg (later.foldl put) (put_comm hne _)

/-! ## Counts and guilds -/

theorem mem_keys_putAll : key ∈ (empty.putAll ms).entries.keys ↔ key ∈ ms.map keyOf := by
  rw [Std.ExtTreeMap.mem_keys, Std.ExtTreeMap.mem_iff_isSome_getElem?, ← Option.ne_none_iff_isSome,
    ne_eq, none_under_iff]
  simp

theorem size_putAll (ms : List Member) :
    (empty.putAll ms).size = (ms.map keyOf).toFinset.card := by
  rw [size, ← Std.ExtTreeMap.length_keys, ← List.toFinset_card_of_nodup Std.ExtTreeMap.nodup_keys]
  congr 1
  ext key
  rw [List.mem_toFinset, List.mem_toFinset, mem_keys_putAll]

theorem mem_guildMembers {guild : GuildId} :
    m ∈ c.guildMembers guild ↔ ∃ user, c.get? guild user = some m := by
  rw [guildMembers, List.mem_map]
  constructor
  · rintro ⟨⟨⟨guild', user⟩, m'⟩, he, rfl⟩
    obtain ⟨hentry, hguild⟩ := List.mem_filter.mp he
    obtain rfl : guild' = guild := of_decide_eq_true hguild
    exact ⟨user, Std.ExtTreeMap.mem_toList_iff_getElem?_eq_some.mp hentry⟩
  · rintro ⟨user, hget⟩
    refine ⟨(⟨guild, user⟩, m), List.mem_filter.mpr ⟨?_, decide_eq_true rfl⟩, rfl⟩
    exact Std.ExtTreeMap.mem_toList_iff_getElem?_eq_some.mpr hget

theorem nodup_guildMembers (ms : List Member) (guild : GuildId) :
    (((empty.putAll ms).guildMembers guild).map keyOf).Nodup := by
  have hkeys : ((empty.putAll ms).guildMembers guild).map keyOf =
      ((empty.putAll ms).entries.toList.filter fun e => e.1.guild = guild).map (·.1) := by
    rw [guildMembers, List.map_map]
    apply List.map_congr_left
    intro e he
    exact keyOf_under (Std.ExtTreeMap.mem_toList_iff_getElem?_eq_some.mp (List.mem_filter.mp he).1)
  have hall : ((empty.putAll ms).entries.toList.map (·.1)).Nodup := by
    rw [Std.ExtTreeMap.map_fst_toList_eq_keys]
    exact Std.ExtTreeMap.nodup_keys
  rw [hkeys]
  exact hall.sublist (List.filter_sublist.map _)

end MemberCache

open MemberCache

/-- **The last put counts.** In a cache into which members have been put one after the other, every
member is under its own guild and user. Found for a guild and a user is the last member that was put
of them, or nothing if none was. The size is the number of different guilds and users, and the
members of a guild are those found for it and some user, each user once. Two neighbouring puts for
different guilds or users might as well have come the other way around. -/
theorem last_put_counts (ms : List Member) {c : MemberCache} (hc : c = empty.putAll ms) :
    (∀ (key : CacheKey) (m : Member), c.entries[key]? = some m → keyOf m = key) ∧
    (∀ guild user, (∀ m, c.get? guild user = some m ↔ LastUnder ⟨guild, user⟩ m ms) ∧
      (c.get? guild user = none ↔ ∀ m ∈ ms, keyOf m ≠ ⟨guild, user⟩)) ∧
    c.size = (ms.map keyOf).toFinset.card ∧
    (∀ guild, ((c.guildMembers guild).map keyOf).Nodup ∧
      ∀ m, m ∈ c.guildMembers guild ↔ ∃ user, c.get? guild user = some m) ∧
    ∀ earlier m m' later, ms = earlier ++ m :: m' :: later → keyOf m ≠ keyOf m' →
      empty.putAll (earlier ++ m' :: m :: later) = c := by
  subst hc
  refine ⟨fun key m => keyOf_under, fun guild user => ⟨fun m => some_under_iff, none_under_iff⟩,
    size_putAll ms, fun guild => ⟨nodup_guildMembers ms guild, fun m => mem_guildMembers⟩, ?_⟩
  rintro earlier m m' later rfl hne
  exact (putAll_swap hne empty earlier later).symm

def renamedPuts : List Member :=
  let m (guild : UInt64) (name : String) : Member :=
    { guild := ⟨guild⟩, user := { id := ⟨10⟩, username := name } }
  [m 1 "a", m 1 "renamed", m 2 "a"]

theorem renamed_counts :
    (empty.putAll renamedPuts).get? ⟨1⟩ ⟨10⟩ = renamedPuts[1]? ∧
      (empty.putAll renamedPuts).get? ⟨3⟩ ⟨10⟩ = none ∧
      (empty.putAll renamedPuts).size = 2 ∧
      empty.putAll [renamedPuts[0], renamedPuts[2], renamedPuts[1]] = empty.putAll renamedPuts := by
  obtain ⟨-, hfound, hsize, -, hswap⟩ := last_put_counts renamedPuts rfl
  refine ⟨((hfound _ _).1 _).mpr ⟨[renamedPuts[0]], [renamedPuts[2]], rfl, rfl, ?_⟩,
    (hfound _ _).2.mpr ?_, hsize, hswap [renamedPuts[0]] _ _ [] rfl ?_⟩
  · decide
  · decide
  · decide

end Rollcall
