import Mathlib.Data.List.Forall2
import Mathlib.Data.List.GetD
import Rollcall.Peer.Roster
import Rollcall.Proofs.Digits

/-!
# Small letters

A lowercasing gives every character its small letters, and no more is said here about characters
beyond ASCII than that all but one of them stay beyond it. Names have none but ASCII characters, so
whether a name starts with a query is the same for every lowercasing (`Roster.startsWith_eq`).
-/

namespace Rollcall.Roster

def IsAscii (c : Char) : Prop := c.val < 128

instance : DecidablePred IsAscii := fun c => inferInstanceAs (Decidable (c.val < 128))

def kelvinSign : Char := '\u212A'

/-- What becomes of a character in small letters. From a character beyond ASCII there can come
several, but one of them is beyond ASCII too, unless it is the Kelvin sign. -/
inductive Lowers : Char → List Char → Prop where
  | ascii {c : Char} : IsAscii c → Lowers c [c.toLower]
  | kelvin : Lowers kelvinSign ['k']
  | beyond {c d : Char} {cs : List Char} :
      ¬IsAscii c → c ≠ kelvinSign → d ∈ cs → ¬IsAscii d → Lowers c cs

/-- What becomes of a character may depend on where in the text it stands. -/
def Lowercasing (low : String → List Char) : Prop :=
  ∀ s, ∃ parts, List.Forall₂ Lowers s.toList parts ∧ low s = parts.flatten

/-! ## Characters -/

theorem isAscii_toLower {c : Char} (hc : IsAscii c) : IsAscii c.toLower := by
  unfold IsAscii Char.toLower at *
  grind

theorem toLower_of_beyond {c : Char} (hc : ¬IsAscii c) : c.toLower = c := by
  unfold IsAscii Char.toLower at *
  grind

theorem not_isAscii_kelvinSign : ¬IsAscii kelvinSign := by decide

theorem lowerChar_of_ne {c : Char} (hc : c ≠ kelvinSign) : lowerChar c = c.toLower := if_neg hc

theorem lowerChar_ascii {c : Char} (hc : IsAscii c) : lowerChar c = c.toLower :=
  lowerChar_of_ne (by rintro rfl; exact not_isAscii_kelvinSign hc)

theorem isAscii_lowerChar {c : Char} (hc : IsAscii c) : IsAscii (lowerChar c) := by
  rw [lowerChar_ascii hc]
  exact isAscii_toLower hc

theorem lowers_lowerChar (c : Char) : Lowers c [lowerChar c] := by
  by_cases hc : IsAscii c
  · rw [lowerChar_ascii hc]
    exact .ascii hc
  · by_cases hk : c = kelvinSign
    · rw [hk]
      exact .kelvin
    · rw [lowerChar_of_ne hk, toLower_of_beyond hc]
      exact .beyond hc hk List.mem_cons_self hc

/-- Only what is beyond ASCII and stays there can become something other than it becomes here. -/
theorem Lowers.eq_or_beyond {c : Char} {part : List Char} (h : Lowers c part) :
    part = [lowerChar c] ∨ ¬IsAscii (lowerChar c) ∧ ∃ d ∈ part, ¬IsAscii d := by
  cases h with
  | ascii hc =>
    left
    rw [lowerChar_ascii hc]
  | kelvin =>
    left
    rfl
  | beyond hc hk hd hbeyond =>
    right
    rw [lowerChar_of_ne hk, toLower_of_beyond hc]
    exact ⟨hc, _, hd, hbeyond⟩

/-! ## Texts -/

theorem lowercasing_lower : Lowercasing lower := by
  intro s
  refine ⟨s.toList.map fun c => [lowerChar c], ?_, List.map_eq_flatMap⟩
  rw [List.forall₂_map_right_iff, List.forall₂_same]
  exact fun c _ => lowers_lowerChar c

theorem flatten_prefix {cs : List Char} {parts : List (List Char)}
    (hparts : List.Forall₂ Lowers cs parts) {text : List Char} (htext : ∀ c ∈ text, IsAscii c) :
    parts.flatten <+: text ↔ cs.map lowerChar <+: text := by
  induction hparts generalizing text with
  | nil => simp
  | @cons c part cs parts hpart _ ih =>
    rw [List.flatten_cons, List.map_cons]
    rcases hpart.eq_or_beyond with rfl | ⟨hc, d, hd, hbeyond⟩
    · cases text with
      | nil => simp
      | cons b text =>
        rw [List.singleton_append, List.cons_prefix_cons, List.cons_prefix_cons,
          ih fun c hc => htext c (List.mem_cons_of_mem b hc)]
    · -- Neither text is the start of one that is ASCII only.
      constructor
      · intro hstart
        exact absurd (htext d (hstart.subset (List.mem_append_left _ hd))) hbeyond
      · intro hstart
        exact absurd (htext _ (hstart.subset List.mem_cons_self)) hc

theorem flatten_ascii {cs : List Char} {parts : List (List Char)}
    (hparts : List.Forall₂ Lowers cs parts) (hcs : ∀ c ∈ cs, IsAscii c) :
    parts.flatten = cs.map lowerChar := by
  induction hparts with
  | nil => rfl
  | @cons c part cs parts hpart _ ih =>
    have hc : IsAscii (lowerChar c) := isAscii_lowerChar (hcs c List.mem_cons_self)
    rw [List.flatten_cons, List.map_cons, ih fun c hc => hcs c (List.mem_cons_of_mem _ hc),
      hpart.eq_or_beyond.resolve_right fun h => h.1 hc, List.singleton_append]

def beginningWith (r : Roster) (low : String → List Char) (query : String) : List Member :=
  r.members.filter fun m => (low query).isPrefixOf (low m.user.username)

/-- Whether a name starts with a query is the same for every lowercasing. -/
theorem startsWith_eq {low : String → List Char} (hlow : Lowercasing low) {m : Member}
    (hname : ∀ c ∈ m.user.username.toList, IsAscii c) (query : String) :
    startsWith query m = (low query).isPrefixOf (low m.user.username) := by
  obtain ⟨parts, hparts, hquery⟩ := hlow query
  obtain ⟨nameParts, hnameParts, hlowName⟩ := hlow m.user.username
  have hascii : ∀ c ∈ m.user.username.toList.map lowerChar, IsAscii c := by
    intro c hc
    obtain ⟨b, hb, rfl⟩ := List.mem_map.mp hc
    exact isAscii_lowerChar (hname b hb)
  rw [startsWith, hquery, hlowName, flatten_ascii hnameParts hname, Bool.eq_iff_iff,
    List.isPrefixOf_iff_prefix, List.isPrefixOf_iff_prefix, flatten_prefix hparts hascii, lower, lower]

/-! ## Names -/

theorem isAscii_of_isDigit {c : Char} (hc : c.isDigit = true) : IsAscii c := by
  unfold IsAscii
  unfold Char.isDigit at hc
  grind

theorem isAscii_names : ∀ name ∈ names, ∀ c ∈ name.toList, IsAscii c := by
  have hall : (names.all fun name => name.toList.all fun c => IsAscii c) = true := by decide
  intro name hname c hc
  exact of_decide_eq_true (List.all_eq_true.mp (List.all_eq_true.mp hall name hname) c hc)

theorem isAscii_username (place : Nat) (d : Draw) :
    ∀ c ∈ (username place d).toList, IsAscii c := by
  have hplace : d.name % names.length < names.length := Nat.mod_lt _ (by decide)
  intro c hc
  rw [username, String.toList_append, List.mem_append, List.getD_eq_getElem _ _ hplace] at hc
  rcases hc with hc | hc
  · exact isAscii_names _ (List.getElem_mem hplace) c hc
  · have hdigits : (toString place).toList = Nat.toDigits 10 place := by
      rw [Nat.toString_eq_ofList_toDigits, String.toList_ofList]
    rw [hdigits] at hc
    exact isAscii_of_isDigit (Decimal.isDigit_toDigits place c hc)

end Rollcall.Roster
