import Mathlib.Data.List.TakeWhile
import Rollcall.Json.Reader
import Rollcall.Proofs.Encoding

/-!
# How ids are written

An id is a whole number below the bound, or a string that is a numeral. A whole number is taken for
what it is by the reader of JSON (`Json.read?_toString`, `Json.read?_negative`), and a string alike
whether it stands in JSON or on its own. Main statement: `ids_follow_one_grammar`.
-/

namespace Rollcall

/-! ## Whole numbers in JSON -/

theorem eq_zero_of_toDigits {n : Nat} :
    ∀ {ds : List Char}, Nat.toDigits 10 n = '0' :: ds → n = 0 := by
  induction n using Nat.strongRecOn with
  | ind n ih =>
    intro ds h
    rcases Nat.lt_or_ge n 10 with hlt | hge
    · rw [Nat.toDigits_of_lt_base hlt, List.cons.injEq] at h
      have hall : ∀ n < 10, Nat.digitChar n = '0' → n = 0 := by decide
      exact hall n hlt h.1
    · -- The digits of a tenth come first, and they do not begin with zero.
      rw [Nat.toDigits_of_base_le (by decide) hge] at h
      obtain ⟨c, cs, hcs⟩ := List.exists_cons_of_ne_nil (Nat.toDigits_ne_nil (n := n / 10) (b := 10))
      rw [hcs, List.cons_append, List.cons.injEq] at h
      have hzero := ih (n / 10) (by omega) (hcs.trans (by rw [h.1]))
      omega

namespace Json

def signOf (negative : Bool) : List Char := if negative then ['-'] else []

def literal (negative : Bool) (n : Nat) : List Char := signOf negative ++ Nat.toDigits 10 n

theorem exists_literal_eq_cons (negative : Bool) (n : Nat) :
    ∃ c cs, literal negative n = c :: cs ∧ (c.isDigit = true ∨ c = '-') := by
  cases negative with
  | true => exact ⟨'-', _, rfl, .inr rfl⟩
  | false =>
    obtain ⟨c, cs, hcs⟩ := List.exists_cons_of_ne_nil (Nat.toDigits_ne_nil (n := n) (b := 10))
    exact ⟨c, cs, hcs, .inl (Decimal.isDigit_toDigits n c (hcs ▸ List.mem_cons_self))⟩

theorem readValue_number {c : Char} (hc : c.isDigit = true ∨ c = '-') (cs : List Char) (fuel : Nat) :
    readValue (fuel + 1) (c :: cs) =
      (readNumber (c :: cs)).map fun (n, rest) => (.number n, rest) := by
  have hne : ∀ b : Char, b.isDigit = false → b ≠ '-' → c ≠ b := by
    rintro b hb hm rfl
    rcases hc with hc | hc
    · rw [hc] at hb
      cases hb
    · exact hm hc
  have hblank : isBlank c = false := by
    simp [isBlank, hne ' ' (by decide) (by decide), hne '\n' (by decide) (by decide),
      hne '\t' (by decide) (by decide), hne '\r' (by decide) (by decide)]
  have hskip : skipBlanks (c :: cs) = c :: cs := by
    rw [skipBlanks, List.dropWhile_cons_of_neg (by rw [hblank]; exact Bool.false_ne_true)]
  have hother {b : Char} {rest : List Char} (h : c :: cs = b :: rest) (hb : b.isDigit = false)
      (hm : b ≠ '-') : False := hne b hb hm (List.cons.inj h).1
  rw [readValue, hskip]
  split
  case h_7 => rfl
  all_goals
    rename_i h
    exact (hother h (by decide) (by decide)).elim

theorem readNumber_literal (negative : Bool) (n : Nat) :
    readNumber (literal negative n) =
      (numberOf? negative (Nat.toDigits 10 n) none none).map fun v => (v, []) := by
  have hdigits := Decimal.isDigit_toDigits n
  unfold readNumber
  split
  rename_i sign cs heq
  have hsign : negative = sign ∧ cs = Nat.toDigits 10 n := by
    cases negative with
    | true =>
      cases heq
      exact ⟨rfl, rfl⟩
    | false =>
      simp only [literal, signOf, Bool.false_eq_true, if_false, List.nil_append] at heq
      split at heq
      · rename_i h
        exact absurd (hdigits '-' (h ▸ List.mem_cons_self)) (by decide)
      · cases heq
        exact ⟨rfl, rfl⟩
  obtain ⟨rfl, rfl⟩ := hsign
  rw [List.dropWhile_eq_nil_iff.mpr hdigits]
  dsimp only
  rw [List.takeWhile_eq_self_iff.mpr hdigits]
  split
  · rename_i h
    exact absurd h Nat.toDigits_ne_nil
  · rename_i h
    obtain rfl := eq_zero_of_toDigits h
    cases h
  · simp only [readPlaces, readExponent, Option.bind_eq_bind, Option.bind_some]
    cases numberOf? negative (Nat.toDigits 10 n) none none <;> rfl

theorem read?_literal (negative : Bool) (n : Nat) :
    read? (String.ofList (literal negative n)) =
      (numberOf? negative (Nat.toDigits 10 n) none none).map .number := by
  obtain ⟨c, cs, hcs, hc⟩ := exists_literal_eq_cons negative n
  have hread := readNumber_literal negative n
  rw [hcs] at hread
  rw [read?, String.toList_ofList, hcs, readValue_number hc, hread]
  cases numberOf? negative (Nat.toDigits 10 n) none none <;> rfl

theorem decimalValue_toDigits (n : Nat) : decimalValue (Nat.toDigits 10 n) = n :=
  Nat.ofDigitChars_ten_toDigits

theorem ofList_literal_false (n : Nat) : String.ofList (literal false n) = toString n :=
  Nat.toString_eq_ofList_toDigits.symm

theorem ofList_literal_true (n : Nat) : String.ofList (literal true n) = "-" ++ toString n := by
  rw [Nat.toString_eq_ofList_toDigits]
  exact String.ofList_append

theorem read?_toString (n : UInt64) : read? (toString n.toNat) = some (.number (.unsigned n)) := by
  have hlt : n.toNat < 0x10000000000000000 := n.toNat_lt
  rw [← ofList_literal_false, read?_literal, numberOf?, decimalValue_toDigits]
  simp [hlt]

/-- A whole number that no word holds is read as a double, if at all. -/
theorem read?_toString_large {n : Nat} (hge : 0x10000000000000000 ≤ n) {v : Json}
    (hv : read? (toString n) = some v) : ∃ x, v = .number (.float x) := by
  have hno : ¬n < 0x10000000000000000 := Nat.not_lt.mpr hge
  rw [← ofList_literal_false, read?_literal, numberOf?, decimalValue_toDigits] at hv
  simp only [hno, Option.isNone_none, Bool.not_false, Bool.and_true, decide_false, Bool.and_false,
    Bool.false_eq_true, if_false, Bool.false_and, Option.map_map] at hv
  obtain ⟨x, -, rfl⟩ := Option.map_eq_some_iff.mp hv
  exact ⟨x, rfl⟩

theorem read?_negative {n : UInt64} (hpos : 0 < n.toNat) (hle : n.toNat ≤ 0x8000000000000000) :
    read? ("-" ++ toString n.toNat) = some (.number (.negative n)) := by
  rw [← ofList_literal_true, read?_literal, numberOf?, decimalValue_toDigits]
  simp [hpos, hle]

end Json

/-! ## Ids -/

namespace Snowflake

variable {kind : IdKind} {s : String}

def bound : Nat := 0x10000000000000000

theorem bound_pos : 0 < bound := by decide

theorem bits_lt (id : Snowflake kind) : id.bits.toNat < bound := id.bits.toNat_lt

theorem bits_ofNat {n : Nat} (hlt : n < bound) :
    (⟨UInt64.ofNat n⟩ : Snowflake kind).bits.toNat = n := UInt64.toNat_ofNat_of_lt hlt

theorem read_eq (s : String) : (read s : Except Decimal.Fault (Snowflake kind)) =
    (Decimal.readChars bound s.toList).map fun n => ⟨UInt64.ofNat n⟩ := by
  rw [read, Decimal.readWord, Decimal.read, bound]
  cases Decimal.readChars 0x10000000000000000 s.toList <;> rfl

theorem read_eq_ok_iff {id : Snowflake kind} :
    read s = .ok id ↔ Decimal.Numeral s.toList id.bits.toNat := by
  rw [read_eq]
  constructor
  · intro h
    cases hr : Decimal.readChars bound s.toList with
    | error f =>
      rw [hr] at h
      cases h
    | ok n =>
      rw [hr] at h
      cases h
      obtain ⟨hn, hlt⟩ := (Decimal.readChars_eq_ok_iff bound_pos).mp hr
      rwa [bits_ofNat hlt]
  · intro hn
    rw [hn.readChars id.bits_lt, Except.map, UInt64.ofNat_toNat]

theorem read_eq_error_iff {f : Decimal.Fault} :
    (read s : Except _ (Snowflake kind)) = .error f ↔ Decimal.FirstFault bound s.toList f := by
  rw [read_eq, ← Decimal.readChars_eq_error_iff bound_pos]
  cases Decimal.readChars bound s.toList with
  | error g => exact ⟨fun h => by cases h; rfl, fun h => by cases h; rfl⟩
  | ok n => exact ⟨nofun, nofun⟩

end Snowflake

namespace Payload

variable {kind : IdKind}

theorem decodeId_string (s : String) :
    decodeId kind (.string s) = (Snowflake.read s).mapError (.unreadableId kind s) := by
  simp only [decodeId]
  cases Snowflake.read s <;> rfl

theorem decodeId_string_eq_ok_iff {s : String} {id : Snowflake kind} :
    decodeId kind (.string s) = .ok id ↔ Decimal.Numeral s.toList id.bits.toNat := by
  rw [decodeId_string, ← Snowflake.read_eq_ok_iff]
  cases Snowflake.read s <;> simp [Except.mapError]

theorem decodeId_string_eq_error_iff {s : String} {f : Fault} :
    decodeId kind (.string s) = .error f ↔
      ∃ cause, f = .unreadableId kind s cause ∧
        Decimal.FirstFault Snowflake.bound s.toList cause := by
  simp only [← @Snowflake.read_eq_error_iff kind, decodeId_string]
  cases Snowflake.read s <;> simp [Except.mapError, eq_comm]

theorem decodeId_eq_ok_iff {v : Json} {id : Snowflake kind} :
    decodeId kind v = .ok id ↔ v = .number (.unsigned id.bits) ∨
      ∃ s, v = .string s ∧ Decimal.Numeral s.toList id.bits.toNat := by
  cases v with
  | number n =>
    cases n with
    | unsigned n => simp [decodeId, Snowflake.ext_iff, eq_comm]
    | negative n => simp [decodeId]
    | float x => simp [decodeId, wrong]
  | string s => simp [decodeId_string_eq_ok_iff]
  | _ => simp [decodeId, wrong]

end Payload

open Payload

/-- **Ids follow one grammar.** A JSON value is an id just if it is a whole number without sign that
a word holds, or a string that writes such a number: at most one `+` and then digits, at least one.
The same strings are ids outside of JSON. A string that is none is refused for its leftmost fault, in
JSON and outside of it, and a whole number below zero for being negative. Each id is read back from
its digits and from its JSON. -/
theorem ids_follow_one_grammar (kind : IdKind) :
    (∀ (v : Json) (id : Snowflake kind), decodeId kind v = .ok id ↔
      v = .number (.unsigned id.bits) ∨
        ∃ s, v = .string s ∧ Decimal.Numeral s.toList id.bits.toNat) ∧
    (∀ (s : String) (id : Snowflake kind),
      Snowflake.read s = .ok id ↔ Decimal.Numeral s.toList id.bits.toNat) ∧
    (∀ (s : String) (cause : Decimal.Fault),
      (Snowflake.read s : Except _ (Snowflake kind)) = .error cause ↔
        Decimal.FirstFault Snowflake.bound s.toList cause) ∧
    (∀ (s : String) (f : Fault), decodeId kind (.string s) = .error f ↔
      ∃ cause, f = .unreadableId kind s cause ∧
        Decimal.FirstFault Snowflake.bound s.toList cause) ∧
    (∀ n : UInt64, decodeId kind (.number (.negative n)) = .error (.negativeId kind n)) ∧
    -- the literals of whole numbers
    (∀ n : UInt64, (Json.read? (toString n.toNat)).map (decodeId kind) = some (.ok ⟨n⟩)) ∧
    (∀ n, Snowflake.bound ≤ n → ∀ v, Json.read? (toString n) = some v →
      ∀ id, decodeId kind v ≠ .ok id) ∧
    (∀ n : UInt64, 0 < n.toNat → n.toNat ≤ 0x8000000000000000 →
      (Json.read? ("-" ++ toString n.toNat)).map (decodeId kind) =
        some (.error (.negativeId kind n))) ∧
    ∀ id : Snowflake kind, Snowflake.read id.digits = .ok id ∧ decodeId kind (ofId id) = .ok id := by
  refine ⟨fun v id => decodeId_eq_ok_iff, fun s id => Snowflake.read_eq_ok_iff,
    fun s cause => Snowflake.read_eq_error_iff, fun s f => decodeId_string_eq_error_iff,
    fun n => rfl, fun n => ?_, fun n hge v hv id hid => ?_, fun n hpos hle => ?_,
    fun id => ⟨id.read_digits, (readsBack_id kind id).1⟩⟩
  · rw [Json.read?_toString]
    rfl
  · obtain ⟨x, rfl⟩ := Json.read?_toString_large hge hv
    cases hid
  · rw [Json.read?_negative hpos hle]
    rfl

/-- The last digit before the letter brings the number to the bound, so that is the fault. -/
theorem overflow_before_letter :
    decodeId .guild (.string "+018446744073709551616x") =
        .error (.unreadableId .guild "+018446744073709551616x" .overflow) ∧
      (Snowflake.read "+018446744073709551615" : Except _ GuildId) = .ok ⟨0xffffffffffffffff⟩ ∧
      (∀ v, Json.read? "18446744073709551616" = some v →
        ∀ id : GuildId, decodeId .guild v ≠ .ok id) ∧
      (Json.read? "-5").map (decodeId .guild) = some (.error (.negativeId .guild 5)) := by
  obtain ⟨-, hread, -, hfault, -, -, hlarge, hnegative, -⟩ := ids_follow_one_grammar .guild
  have hstart : Decimal.ReadableTo Snowflake.bound "+018446744073709551616x".toList
      "01844674407370955161".toList '6' ['x'] :=
    ⟨by decide +kernel, List.all_eq_true.mp (by decide +kernel), by decide +kernel⟩
  have hoverflow := Decimal.FirstFault.tooLarge hstart (by decide) (by decide +kernel)
  have hlast : Decimal.Numeral "+018446744073709551615".toList 0xffffffffffffffff :=
    ⟨by decide +kernel, List.all_eq_true.mp (by decide +kernel), by decide +kernel⟩
  exact ⟨(hfault _ _).mpr ⟨_, rfl, hoverflow⟩, (hread _ _).mpr hlast,
    hlarge 18446744073709551616 (by decide), hnegative 5 (by decide) (by decide)⟩

end Rollcall
