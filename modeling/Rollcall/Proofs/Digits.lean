import Mathlib.Data.List.Induction
import Rollcall.Snowflake

/-!
# Decimal digits

A text is a numeral if it is at most one `+` and then digits, one or more (`Decimal.Numeral`). Below
the bound it is read to the number that it writes; any other text has a leftmost fault
(`Decimal.FirstFault`), and that is the one that reading it gives. So the digits of an id give the id
back (`Snowflake.read_digits`).
-/

namespace Rollcall

namespace Decimal

def afterSign : List Char → List Char
  | '+' :: cs => cs
  | cs => cs

structure Numeral (cs : List Char) (n : Nat) : Prop where
  nonempty : afterSign cs ≠ []
  digits : ∀ c ∈ afterSign cs, c.isDigit = true
  value : Nat.ofDigitChars 10 (afterSign cs) 0 = n

/-- The text can be read up to `c`: what stands before are digits of a number below the bound. -/
structure ReadableTo (bound : Nat) (cs ds : List Char) (c : Char) (rest : List Char) : Prop where
  split : afterSign cs = ds ++ c :: rest
  digits : ∀ d ∈ ds, d.isDigit = true
  below : Nat.ofDigitChars 10 ds 0 < bound

inductive FirstFault (bound : Nat) (cs : List Char) : Fault → Prop
  | empty (h : cs = []) : FirstFault bound cs .empty
  | loneSign (h : cs = ['+']) : FirstFault bound cs .invalidDigit
  | stranger {ds c rest} (h : ReadableTo bound cs ds c rest) (hc : c.isDigit = false) :
      FirstFault bound cs .invalidDigit
  | tooLarge {ds c rest} (h : ReadableTo bound cs ds c rest) (hc : c.isDigit = true)
      (hge : bound ≤ Nat.ofDigitChars 10 (ds ++ [c]) 0) : FirstFault bound cs .overflow

variable {bound : Nat} {cs : List Char}

/-! ## Reading digits -/

theorem digit?_of_isDigit {c : Char} (hc : c.isDigit = true) : digit? c = some (c.toNat - 48) := by
  simp only [Char.isDigit, Bool.and_eq_true, decide_eq_true_eq] at hc
  exact if_pos ⟨hc.1, hc.2⟩

theorem digit?_of_not_isDigit {c : Char} (hc : c.isDigit = false) : digit? c = none := by
  refine if_neg fun h => ?_
  have hd : c.isDigit = true := by
    simp only [Char.isDigit, Bool.and_eq_true, decide_eq_true_eq]
    exact h
  rw [hd] at hc
  cases hc

theorem le_ofDigitChars (cs : List Char) : ∀ acc, acc ≤ Nat.ofDigitChars 10 cs acc := by
  induction cs with
  | nil =>
    intro acc
    simp only [Nat.ofDigitChars_nil, Nat.le_refl]
  | cons c cs ih =>
    intro acc
    rw [Nat.ofDigitChars_cons]
    have hle := ih (10 * acc + (c.toNat - '0'.toNat))
    omega

theorem readFrom_append {ds : List Char} (hds : ∀ d ∈ ds, d.isDigit = true) (rest : List Char) :
    ∀ acc, Nat.ofDigitChars 10 ds acc < bound →
      readFrom bound acc (ds ++ rest) = readFrom bound (Nat.ofDigitChars 10 ds acc) rest := by
  induction ds with
  | nil =>
    intro acc _
    rw [Nat.ofDigitChars_nil, List.nil_append]
  | cons d ds ih =>
    intro acc hlt
    rw [Nat.ofDigitChars_cons] at hlt ⊢
    have hle := le_ofDigitChars ds (10 * acc + (d.toNat - '0'.toNat))
    have hstep : 10 * acc + (d.toNat - 48) < bound := Nat.lt_of_le_of_lt hle hlt
    simp only [List.cons_append, readFrom, digit?_of_isDigit (hds d List.mem_cons_self), if_pos hstep]
    exact ih (fun d hd => hds d (List.mem_cons_of_mem _ hd)) _ hlt

theorem readChars_eq (hne : afterSign cs ≠ []) :
    readChars bound cs = readFrom bound 0 (afterSign cs) := by
  unfold readChars
  split
  · exact absurd rfl hne
  · exact absurd rfl hne
  · rfl
  · rename_i hsign
    congr 1
    unfold afterSign
    split
    · exact absurd rfl (hsign _)
    · rfl

theorem Numeral.readChars {n : Nat} (h : Numeral cs n) (hlt : n < bound) :
    readChars bound cs = .ok n := by
  have hvalue : Nat.ofDigitChars 10 (afterSign cs) 0 < bound := h.value.symm ▸ hlt
  have hread := readFrom_append h.digits [] 0 hvalue
  rw [List.append_nil] at hread
  rw [readChars_eq h.nonempty, hread, h.value]
  rfl

theorem ReadableTo.readChars {ds rest : List Char} {c : Char} (h : ReadableTo bound cs ds c rest) :
    readChars bound cs = readFrom bound (Nat.ofDigitChars 10 ds 0) (c :: rest) := by
  have hne : afterSign cs ≠ [] := by
    rw [h.split]
    simp
  rw [readChars_eq hne, h.split, readFrom_append h.digits _ 0 h.below]

theorem FirstFault.readChars {f : Fault} (h : FirstFault bound cs f) :
    readChars bound cs = .error f := by
  cases h with
  | empty h => rw [h]; rfl
  | loneSign h => rw [h]; rfl
  | stranger h hc =>
    rw [h.readChars]
    simp only [readFrom, digit?_of_not_isDigit hc]
  | @tooLarge ds c rest h hc hge =>
    rw [Nat.ofDigitChars_append, Nat.ofDigitChars_cons, Nat.ofDigitChars_nil] at hge
    have hno : ¬10 * Nat.ofDigitChars 10 ds 0 + (c.toNat - 48) < bound := Nat.not_lt.mpr hge
    rw [h.readChars]
    simp only [readFrom, digit?_of_isDigit hc, if_neg hno]

/-! ## All texts -/

/-- Either all characters are digits of a number below the bound, or there is a first one at which
that ends. -/
theorem digits_or_stop (hb : 0 < bound) (cs : List Char) :
    ((∀ c ∈ cs, c.isDigit = true) ∧ Nat.ofDigitChars 10 cs 0 < bound) ∨
    ∃ ds c rest, cs = ds ++ c :: rest ∧ (∀ d ∈ ds, d.isDigit = true) ∧
      Nat.ofDigitChars 10 ds 0 < bound ∧
      (c.isDigit = false ∨ c.isDigit = true ∧ bound ≤ Nat.ofDigitChars 10 (ds ++ [c]) 0) := by
  induction cs using List.reverseRecOn with
  | nil => exact .inl ⟨nofun, hb⟩
  | append_singleton ds c ih =>
    rcases ih with ⟨hds, hlt⟩ | ⟨ds', c', rest, rfl, hstop⟩
    · cases hc : c.isDigit with
      | false => exact .inr ⟨ds, c, [], rfl, hds, hlt, .inl hc⟩
      | true =>
        by_cases hlt' : Nat.ofDigitChars 10 (ds ++ [c]) 0 < bound
        · refine .inl ⟨fun d hd => ?_, hlt'⟩
          rcases List.mem_append.mp hd with hd | hd
          · exact hds d hd
          · rwa [List.mem_singleton.mp hd]
        · exact .inr ⟨ds, c, [], rfl, hds, hlt, .inr ⟨hc, Nat.not_lt.mp hlt'⟩⟩
    · exact .inr ⟨ds', c', rest ++ [c], by simp, hstop⟩

theorem numeral_or_firstFault (hb : 0 < bound) (cs : List Char) :
    (∃ n, Numeral cs n ∧ n < bound) ∨ ∃ f, FirstFault bound cs f := by
  by_cases hne : afterSign cs = []
  · right
    unfold afterSign at hne
    split at hne
    · subst hne
      exact ⟨_, .loneSign rfl⟩
    · exact ⟨_, .empty hne⟩
  · rcases digits_or_stop hb (afterSign cs) with
      ⟨hds, hlt⟩ | ⟨ds, c, rest, hs, hds, hlt, hc | ⟨hc, hge⟩⟩
    · exact .inl ⟨_, ⟨hne, hds, rfl⟩, hlt⟩
    · exact .inr ⟨_, .stranger ⟨hs, hds, hlt⟩ hc⟩
    · exact .inr ⟨_, .tooLarge ⟨hs, hds, hlt⟩ hc hge⟩

theorem readChars_eq_ok_iff (hb : 0 < bound) {n : Nat} :
    readChars bound cs = .ok n ↔ Numeral cs n ∧ n < bound := by
  refine ⟨fun hread => ?_, fun ⟨hn, hlt⟩ => hn.readChars hlt⟩
  rcases numeral_or_firstFault hb cs with ⟨m, hm, hlt⟩ | ⟨f, hf⟩
  · rw [hm.readChars hlt] at hread
    cases hread
    exact ⟨hm, hlt⟩
  · rw [hf.readChars] at hread
    cases hread

theorem readChars_eq_error_iff (hb : 0 < bound) {f : Fault} :
    readChars bound cs = .error f ↔ FirstFault bound cs f := by
  refine ⟨fun hread => ?_, FirstFault.readChars⟩
  rcases numeral_or_firstFault hb cs with ⟨m, hm, hlt⟩ | ⟨g, hg⟩
  · rw [hm.readChars hlt] at hread
    cases hread
  · rw [hg.readChars] at hread
    cases hread
    exact hg

/-! ## Numbers as they are written -/

theorem isDigit_toDigits (n : Nat) : ∀ c ∈ Nat.toDigits 10 n, c.isDigit = true :=
  fun _ hc => Nat.isDigit_of_mem_toDigits (by decide) (by decide) hc

theorem numeral_toDigits (n : Nat) : Numeral (Nat.toDigits 10 n) n := by
  have hsign : afterSign (Nat.toDigits 10 n) = Nat.toDigits 10 n := by
    unfold afterSign
    split
    · rename_i h
      exact absurd (isDigit_toDigits n '+' (h ▸ List.mem_cons_self)) (by decide)
    · rfl
  refine ⟨?_, ?_, ?_⟩
  · rw [hsign]
    exact Nat.toDigits_ne_nil
  · rw [hsign]
    exact isDigit_toDigits n
  · rw [hsign]
    exact Nat.ofDigitChars_ten_toDigits

theorem read_toString {bound n : Nat} (hlt : n < bound) : read bound (toString n) = .ok n := by
  have hlist : (toString n).toList = Nat.toDigits 10 n := by simp
  rw [read, hlist, (numeral_toDigits n).readChars hlt]

theorem readWord_toString (n : UInt64) : readWord (toString n.toNat) = .ok n := by
  have hlt : n.toNat < 0x10000000000000000 := n.toNat_lt
  rw [readWord, read_toString hlt]
  simp [Except.map]

end Decimal

theorem Snowflake.read_digits {kind : IdKind} (id : Snowflake kind) : read id.digits = .ok id := by
  rw [read, digits, Decimal.readWord_toString]
  rfl

end Rollcall
