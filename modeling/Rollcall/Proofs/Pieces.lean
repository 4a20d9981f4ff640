import Mathlib.Algebra.Order.Floor.Div
import Rollcall.Peer.Reply

/-!
# Pieces

A list that is cut into pieces of one size loses nothing (`flatten_pieces`), and all pieces are full
but the last (`pieces_full`). So their number is the quotient of the lengths rounded up
(`length_pieces`), which is how many chunks a reply declares: the batches that it takes are the
pieces (`MemberCommand.reply_eq`).
-/

namespace Rollcall

variable {α : Type} {size : Nat}

/-- Cuts a list into pieces of `size`, of which the last may be shorter. No list is cut into
nothing: an empty one is one piece. -/
def pieces {α : Type} (size : Nat) (xs : List α) : List (List α) :=
  if size = 0 ∨ (xs.drop size).isEmpty then [xs]
  else xs.take size :: pieces size (xs.drop size)
termination_by xs.length
decreasing_by
  rename_i h
  simp only [not_or, List.isEmpty_iff, List.drop_eq_nil_iff] at h
  simp only [List.length_drop]
  omega

theorem pieces_ne_nil (size : Nat) (xs : List α) : pieces size xs ≠ [] := by
  unfold pieces
  split <;> simp

theorem flatten_pieces (size : Nat) (xs : List α) : (pieces size xs).flatten = xs := by
  fun_induction pieces size xs with
  | case1 => simp
  | case2 xs _ ih => simp [ih]

theorem length_le_of_uncut {xs : List α} (hsize : 0 < size)
    (huncut : size = 0 ∨ (xs.drop size).isEmpty) : xs.length ≤ size := by
  rcases huncut with hzero | hempty
  · omega
  · exact List.drop_eq_nil_iff.mp (List.isEmpty_iff.mp hempty)

/-- All pieces but the last are full, and only the piece of an empty list is empty. -/
theorem pieces_full (hsize : 0 < size) (xs : List α) : ∃ full last,
    pieces size xs = full ++ [last] ∧ (∀ piece ∈ full, piece.length = size) ∧
      last.length ≤ size ∧ (last = [] → xs = []) := by
  fun_induction pieces size xs with
  | case1 xs huncut => exact ⟨[], xs, rfl, nofun, length_le_of_uncut hsize huncut, id⟩
  | case2 xs hmore ih =>
    simp only [not_or, List.isEmpty_iff, List.drop_eq_nil_iff, Nat.not_le] at hmore
    obtain ⟨full, last, hpieces, hfull, hlength, hempty⟩ := ih
    refine ⟨xs.take size :: full, last, by rw [hpieces, List.cons_append], fun piece hm => ?_,
      hlength, fun hnil => ?_⟩
    · rcases List.mem_cons.mp hm with rfl | hm
      · exact List.length_take_of_le (Nat.le_of_lt hmore.2)
      · exact hfull piece hm
    · have := List.drop_eq_nil_iff.mp (hempty hnil)
      omega

theorem ceilDiv_of_last {last : Nat} (hpos : 0 < last) (hlast : last ≤ size) (full : Nat) :
    (full * size + last) ⌈/⌉ size = full + 1 := by
  rw [Nat.ceilDiv_eq_add_pred_div]
  apply Nat.div_eq_of_lt_le
  · rw [Nat.succ_mul]
    omega
  · rw [Nat.succ_mul, Nat.succ_mul]
    omega

theorem length_pieces (hsize : 0 < size) (xs : List α) :
    (pieces size xs).length = max 1 (xs.length ⌈/⌉ size) := by
  obtain ⟨full, last, hpieces, hfull, hlast, hempty⟩ := pieces_full hsize xs
  have htotal : xs.length = full.length * size + last.length := by
    rw [← flatten_pieces size xs, hpieces, List.flatten_concat, List.length_append,
      List.length_flatten, List.map_congr_left hfull, List.map_const', List.sum_replicate_nat]
  rw [hpieces, List.length_append, List.length_singleton]
  rcases Nat.eq_zero_or_pos last.length with hzero | hpos
  · have hnil : xs = [] := hempty (List.length_eq_zero_iff.mp hzero)
    rw [hnil, List.length_nil, hzero] at htotal
    have hnone : full.length = 0 := by
      rcases Nat.mul_eq_zero.mp htotal.symm with hnone | hnone
      · exact hnone
      · omega
    rw [hnil, hnone, List.length_nil, zero_ceilDiv]
    rfl
  · rw [htotal, ceilDiv_of_last hpos hlast]
    exact (Nat.max_eq_right (Nat.le_add_left 1 _)).symm

theorem batches_pieces (hsize : 0 < size) (xs : List α) :
    batches size (pieces size xs).length xs = pieces size xs := by
  fun_induction pieces size xs with
  | case1 xs huncut =>
    exact congrArg ([·]) (List.take_of_length_le (length_le_of_uncut hsize huncut))
  | case2 xs _ ih => exact congrArg (xs.take size :: ·) ih

theorem length_pieces_eq_chunkCount (hsize : 0 < size) (xs : List α) :
    (pieces size xs).length = chunkCount size xs.length := by
  rw [length_pieces hsize, Nat.ceilDiv_eq_add_pred_div, chunkCount]

theorem chunkCount_self (length : Nat) : chunkCount length length = 1 := by
  have hquotient : (length + length - 1) / length ≤ 1 := by
    rcases Nat.eq_zero_or_pos length with rfl | hpos
    · decide
    · exact Nat.le_of_lt_succ (Nat.div_lt_of_lt_mul (by omega))
  exact Nat.max_eq_left hquotient

namespace MemberCommand

theorem reply_eq (size : Nat) (c : MemberCommand) (s : Selection) : c.reply size s =
    if (pieces size s.found).length < 0x100000000 then
      (pieces size s.found).mapIdx fun i ms => c.chunk s.notFound (pieces size s.found).length ms i
    else [] := by
  rcases Nat.eq_zero_or_pos size with rfl | hsize
  · have hone : pieces 0 s.found = [s.found] := by simp [pieces]
    have hall : batches s.found.length 1 s.found = [s.found] :=
      congrArg ([·]) (List.take_of_length_le (Nat.le_refl _))
    rw [reply, if_pos rfl, chunkCount_self, hone, hall]
    rfl
  · rw [reply, if_neg (Nat.ne_of_gt hsize), ← length_pieces_eq_chunkCount hsize,
      batches_pieces hsize]

end MemberCommand
end Rollcall
