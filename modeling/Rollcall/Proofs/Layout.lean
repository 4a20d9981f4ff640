import Mathlib.Algebra.Group.Nat.Defs
import Rollcall.Snowflake

/-!
# The layout of ids

An id is the number whose digits are its parts (`Snowflake.toNat_parts`): the sequence number counts
once, the machine `2 ^ 12` times and the timestamp `2 ^ 22` times. So the parts are had back from the
id and the id from its parts, and ids are ordered as their parts are. Main statement:
`layout_lossless`.
-/

namespace Rollcall

theorem compare_toNat (a b : UInt64) : compare a b = compare a.toNat b.toNat := by
  change compareOfLessAndEq a b = compareOfLessAndEq a.toNat b.toNat
  simp only [compareOfLessAndEq, UInt64.lt_iff_toNat_lt, ← UInt64.toNat_inj]

theorem compare_digits {base low low' : Nat} (hlow : low < base) (hlow' : low' < base)
    (high high' : Nat) : compare (high * base + low) (high' * base + low') =
      (compare high high').then (compare low low') := by
  have next {i j : Nat} (hij : i < j) : i * base + base ≤ j * base := by
    rw [← Nat.succ_mul]
    exact Nat.mul_le_mul_right base hij
  rcases Nat.lt_trichotomy high high' with hlt | rfl | hgt
  · have := next hlt
    rw [Nat.compare_eq_lt.mpr hlt, Nat.compare_eq_lt.mpr (by omega)]
    rfl
  · rw [Nat.compare_eq_eq.mpr rfl]
    simp only [Nat.compare_eq_ite_lt, Nat.add_lt_add_iff_left]
    rfl
  · have := next hgt
    rw [Nat.compare_eq_gt.mpr hgt, Nat.compare_eq_gt.mpr (by omega)]
    rfl

namespace Snowflake

variable {kind : IdKind}

/-! ## Parts -/

theorem toNat_timestamp (id : Snowflake kind) : id.timestamp.toNat = id.bits.toNat / 2 ^ 22 := by
  rw [timestamp, UInt64.toNat_shiftRight]
  exact Nat.shiftRight_eq_div_pow _ 22

theorem toNat_machine (id : Snowflake kind) :
    id.machine.toNat = id.bits.toNat / 2 ^ 12 % 2 ^ 10 := by
  rw [machine, UInt64.toNat_and, UInt64.toNat_shiftRight]
  exact (Nat.and_two_pow_sub_one_eq_mod _ 10).trans
    (congrArg (· % 2 ^ 10) (Nat.shiftRight_eq_div_pow _ 12))

theorem toNat_sequence (id : Snowflake kind) : id.sequence.toNat = id.bits.toNat % 2 ^ 12 := by
  rw [sequence, UInt64.toNat_and]
  exact Nat.and_two_pow_sub_one_eq_mod _ 12

theorem toNat_parts (id : Snowflake kind) : id.bits.toNat =
    id.timestamp.toNat * 2 ^ 22 + (id.machine.toNat * 2 ^ 12 + id.sequence.toNat) := by
  rw [toNat_timestamp, toNat_machine, toNat_sequence]
  omega

theorem machine_lt (id : Snowflake kind) : id.machine.toNat < 2 ^ 10 := by
  rw [toNat_machine]
  exact Nat.mod_lt _ (by decide)

theorem sequence_lt (id : Snowflake kind) : id.sequence.toNat < 2 ^ 12 := by
  rw [toNat_sequence]
  exact Nat.mod_lt _ (by decide)

/-- The digits of an id are the parts that it is made from, each cut to its width. -/
theorem toNat_ofParts (t m s : UInt64) : (ofParts t m s : Snowflake kind).bits.toNat =
    t.toNat % 2 ^ 42 * 2 ^ 22 + (m.toNat % 2 ^ 10 * 2 ^ 12 + s.toNat % 2 ^ 12) := by
  have htime : (t <<< 22).toNat = (t.toNat % 2 ^ 42) <<< 22 := by
    have hwide : (t <<< 22).toNat = t.toNat <<< 22 % 2 ^ 64 := UInt64.toNat_shiftLeft t 22
    rw [hwide, Nat.shiftLeft_eq, Nat.shiftLeft_eq]
    omega
  have hmachine : ((m &&& 0x3ff) <<< 12).toNat = (m.toNat % 2 ^ 10) <<< 12 := by
    have hwide : ((m &&& 0x3ff) <<< 12).toNat = (m.toNat &&& 2 ^ 10 - 1) <<< 12 % 2 ^ 64 :=
      UInt64.toNat_shiftLeft _ 12
    rw [hwide, Nat.and_two_pow_sub_one_eq_mod, Nat.shiftLeft_eq]
    omega
  have hsequence : (s &&& 0xfff).toNat = s.toNat % 2 ^ 12 :=
    Nat.and_two_pow_sub_one_eq_mod s.toNat 12
  -- The parts lie side by side, so taking their bits together is adding them.
  have hlow : (m.toNat % 2 ^ 10) <<< 12 + s.toNat % 2 ^ 12 < 2 ^ 22 := by
    rw [Nat.shiftLeft_eq]
    omega
  rw [ofParts, UInt64.toNat_or, UInt64.toNat_or, htime, hmachine, hsequence, Nat.or_assoc,
    ← Nat.shiftLeft_add_eq_or_of_lt (Nat.mod_lt _ (by decide)),
    ← Nat.shiftLeft_add_eq_or_of_lt hlow]
  simp only [Nat.shiftLeft_eq]

theorem timestamp_ofParts (t m s : UInt64) :
    (ofParts t m s : Snowflake kind).timestamp.toNat = t.toNat % 2 ^ 42 := by
  rw [toNat_timestamp, toNat_ofParts]
  omega

theorem machine_ofParts (t m s : UInt64) :
    (ofParts t m s : Snowflake kind).machine.toNat = m.toNat % 2 ^ 10 := by
  rw [toNat_machine, toNat_ofParts]
  omega

theorem sequence_ofParts (t m s : UInt64) :
    (ofParts t m s : Snowflake kind).sequence.toNat = s.toNat % 2 ^ 12 := by
  rw [toNat_sequence, toNat_ofParts]
  omega

theorem ofParts_parts (id : Snowflake kind) :
    ofParts id.timestamp id.machine id.sequence = id := by
  have hword := id.bits.toNat_lt
  apply Snowflake.ext
  rw [← UInt64.toNat_inj, toNat_ofParts, toNat_timestamp, toNat_machine, toNat_sequence]
  omega

/-! ## Order -/

theorem compare_toNat_bits (a b : Snowflake kind) :
    compare a b = compare a.bits.toNat b.bits.toNat := compare_toNat a.bits b.bits

theorem compare_parts (a b : Snowflake kind) : compare a b =
    (compare a.timestamp b.timestamp).then
      ((compare a.machine b.machine).then (compare a.sequence b.sequence)) := by
  have low (id : Snowflake kind) : id.machine.toNat * 2 ^ 12 + id.sequence.toNat < 2 ^ 22 := by
    have := id.machine_lt
    have := id.sequence_lt
    omega
  rw [compare_toNat_bits, toNat_parts a, toNat_parts b, compare_digits (low a) (low b),
    compare_digits a.sequence_lt b.sequence_lt]
  simp only [compare_toNat]

/-! ## Shards -/

theorem toNat_shardIndex {n : UInt64} (hn : 0 < n) (id : Snowflake kind) :
    (id.shardIndex n).toNat = id.timestamp.toNat % n.toNat := by
  rw [shardIndex, if_neg (by rintro rfl; exact absurd hn (by decide)), UInt64.toNat_mod]

end Snowflake

open Snowflake

/-- **The layout of ids is lossless.** An id has the parts that it is made from, each cut to its
width, and it is made of its own parts. Ids are ordered by timestamp, then by machine, then by
sequence number. Of one shard or more, which one has an id is told by the timestamp alone, and an id
that is one millisecond later falls to the next shard around. -/
theorem layout_lossless {kind : IdKind} :
    (∀ t m s : UInt64, (ofParts t m s : Snowflake kind).timestamp.toNat = t.toNat % 2 ^ 42 ∧
      (ofParts t m s : Snowflake kind).machine.toNat = m.toNat % 2 ^ 10 ∧
      (ofParts t m s : Snowflake kind).sequence.toNat = s.toNat % 2 ^ 12) ∧
    (∀ id : Snowflake kind, ofParts id.timestamp id.machine id.sequence = id) ∧
    (∀ a b : Snowflake kind, compare a b = (compare a.timestamp b.timestamp).then
      ((compare a.machine b.machine).then (compare a.sequence b.sequence))) ∧
    ∀ n : UInt64, 0 < n →
      (∀ id : Snowflake kind, id.shardIndex n < n) ∧
      (∀ a b : Snowflake kind, a.timestamp = b.timestamp → a.shardIndex n = b.shardIndex n) ∧
      ∀ a b : Snowflake kind, b.timestamp.toNat = a.timestamp.toNat + 1 →
        (b.shardIndex n).toNat = ((a.shardIndex n).toNat + 1) % n.toNat := by
  refine ⟨fun t m s => ⟨timestamp_ofParts t m s, machine_ofParts t m s, sequence_ofParts t m s⟩,
    ofParts_parts, compare_parts, fun n hn => ⟨fun id => ?_, fun a b hab => ?_, fun a b hab => ?_⟩⟩
  · rw [UInt64.lt_iff_toNat_lt, toNat_shardIndex hn]
    exact Nat.mod_lt _ hn
  · rw [shardIndex, shardIndex, hab]
  · rw [toNat_shardIndex hn, toNat_shardIndex hn, hab, Nat.mod_add_mod]

theorem first_shard_follows_last :
    (0 : UInt64) < 4 ∧ (ofParts 7 1023 4095 : GuildId).shardIndex 4 = 3 ∧
      ((ofParts 8 0 0 : GuildId).shardIndex 4).toNat = 0 := by
  obtain ⟨-, -, -, hshards⟩ := @layout_lossless .guild
  obtain ⟨-, -, hnext⟩ := hshards 4 (by decide)
  have hlast : (ofParts 7 1023 4095 : GuildId).shardIndex 4 = 3 := by decide
  refine ⟨by decide, hlast, ?_⟩
  rw [hnext (ofParts 7 1023 4095) (ofParts 8 0 0) (by decide), hlast]
  decide

end Rollcall
