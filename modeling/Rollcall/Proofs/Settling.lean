import Rollcall.Proofs.Rest

/-!
# Settling

When nothing more comes from outside, the tasks run on as long as one of them need not wait. The
weight of the hub bounds how long that is: a hand-over that fills a channel, a reader that empties it
and a loop that fetches its next event all make the hub lighter, so they cannot wake each other for
ever. The rounds of `Hub.settle` therefore end at rest, and their budget never cuts them short.
-/

namespace Rollcall

namespace Hub

/-- The tasks of a list run in that order, each for one segment and none while it has to wait. -/
inductive Runs : Hub → List TaskId → Hub → Prop
  | nil (h : Hub) : Runs h [] h
  | cons {h g k : Hub} {t : TaskId} {ts : List TaskId} (ha : h.advance t = some g)
      (hr : Runs g ts k) : Runs h (t :: ts) k

variable {h g k : Hub} {t : TaskId} {ts us : List TaskId}

theorem Runs.append (hr : h.Runs ts g) (hs : g.Runs us k) : h.Runs (ts ++ us) k := by
  induction hr with
  | nil h => exact hs
  | cons ha hr ih => exact .cons ha (ih hs)

theorem Runs.length_add_weight (hr : h.Runs ts g) : ts.length + g.weight ≤ h.weight := by
  induction hr with
  | nil h => simp
  | cons ha hr ih =>
    have hlt := weight_lt_of_advance ha
    simp only [List.length_cons]
    omega

theorem Runs.weight_lt (hr : h.Runs ts g) (hts : ts ≠ []) : g.weight < h.weight := by
  have hle := hr.length_add_weight
  have hpos := List.length_pos_iff.mpr hts
  omega

theorem Runs.eq_of_nil (hr : h.Runs [] g) : g = h := by
  cases hr
  rfl

/-- Steps of which each takes at least one segment cannot go on for ever. -/
theorem no_endless_run (f : Nat → Hub) :
    ¬ ∀ n, ∃ ts, ts ≠ [] ∧ (f n).Runs ts (f (n + 1)) := by
  intro hf
  have hbound : ∀ n, n + (f n).weight ≤ (f 0).weight := by
    intro n
    induction n with
    | zero => simp
    | succ n ih =>
      obtain ⟨ts, hts, hr⟩ := hf n
      have hlt := hr.weight_lt hts
      omega
  have hlast := hbound ((f 0).weight + 1)
  omega

/-! ## Rounds -/

theorem runTask_runs (t : TaskId) (budget : Nat) : ∀ h : Hub,
    ∃ n, h.Runs (List.replicate n t) (Cooperation.runTask advance t budget h).2 ∧
      ((Cooperation.runTask advance t budget h).1 = true ↔ n ≠ 0) := by
  induction budget with
  | zero =>
    intro h
    exact ⟨0, .nil h, by simp [Cooperation.runTask]⟩
  | succ budget ih =>
    intro h
    simp only [Cooperation.runTask]
    cases ha : h.advance t with
    | none => exact ⟨0, .nil h, by simp⟩
    | some g =>
      obtain ⟨n, hr, -⟩ := ih g
      exact ⟨n + 1, .cons ha hr, by simp⟩

theorem runTask_idle {budget : Nat} (hb : 0 < budget)
    (hidle : (Cooperation.runTask advance t budget h).1 = false) : h.advance t = none := by
  cases budget with
  | zero => omega
  | succ budget =>
    cases ha : h.advance t with
    | none => rfl
    | some g => simp [Cooperation.runTask, ha] at hidle

theorem round_runs (budget : Nat) (ids : List TaskId) : ∀ h : Hub,
    ∃ ts, h.Runs ts (Cooperation.round advance budget ids h).2 ∧
      ((Cooperation.round advance budget ids h).1 = true ↔ ts ≠ []) := by
  induction ids with
  | nil =>
    intro h
    exact ⟨[], .nil h, by simp [Cooperation.round]⟩
  | cons t ids ih =>
    intro h
    obtain ⟨n, hr, hn⟩ := runTask_runs t budget h
    obtain ⟨ts, hrs, hts⟩ := ih (Cooperation.runTask advance t budget h).2
    refine ⟨List.replicate n t ++ ts, hr.append hrs, ?_⟩
    simp only [Cooperation.round, Bool.or_eq_true, hn, hts]
    by_cases hz : n = 0
    · simp [hz]
    · simp [hz]

theorem round_idle {budget : Nat} (hb : 0 < budget) (ids : List TaskId) : ∀ h : Hub,
    (Cooperation.round advance budget ids h).1 = false → ∀ t ∈ ids, h.advance t = none := by
  induction ids with
  | nil =>
    intro h _ t ht
    cases ht
  | cons t ids ih =>
    intro h hidle t' ht'
    simp only [Cooperation.round, Bool.or_eq_false_iff] at hidle
    have hwait := runTask_idle hb hidle.1
    have hsame : (Cooperation.runTask advance t budget h).2 = h := by
      cases budget with
      | zero => omega
      | succ budget => simp [Cooperation.runTask, hwait]
    rw [hsame] at hidle
    rcases List.mem_cons.mp ht' with rfl | hmem
    · exact hwait
    · exact ih h hidle.2 t' hmem

theorem quiet_of_idle {budget : Nat} (hb : 0 < budget)
    (hidle : (Cooperation.round advance budget (List.range h.tasks.size) h).1 = false) :
    h.Quiet := by
  intro t
  by_cases ht : t < h.tasks.size
  · exact round_idle hb _ h hidle t (List.mem_range.mpr ht)
  · apply advance_of_gone
    simp [task?, Nat.le_of_not_lt ht]

/-- Rounds come to rest when there may be more of them than the hub weighs. -/
theorem settle_runs {budget : Nat} (hb : 0 < budget) (rounds : Nat) : ∀ h : Hub,
    h.weight < rounds →
    (∃ ts, h.Runs ts
      (Cooperation.settle advance (fun h => List.range h.tasks.size) budget rounds h)) ∧
    (Cooperation.settle advance (fun h => List.range h.tasks.size) budget rounds h).Quiet := by
  induction rounds with
  | zero =>
    intro h hlt
    omega
  | succ rounds ih =>
    intro h hlt
    obtain ⟨ts, hr, hts⟩ := round_runs budget (List.range h.tasks.size) h
    have hidle := quiet_of_idle (h := h) hb
    simp only [Cooperation.settle]
    generalize Cooperation.round advance budget (List.range h.tasks.size) h = x at hr hts hidle
    obtain ⟨moved, g⟩ := x
    cases moved with
    | false =>
      have hnil : ts = [] := by simpa using hts
      subst hnil
      have hsame : g = h := hr.eq_of_nil
      subst hsame
      exact ⟨⟨[], .nil g⟩, hidle rfl⟩
    | true =>
      have hlt' := hr.weight_lt (hts.mp rfl)
      obtain ⟨⟨us, hs⟩, hquiet⟩ := ih g (by simp only at hlt'; omega)
      exact ⟨⟨ts ++ us, hr.append hs⟩, hquiet⟩

theorem settle_rests (h : Hub) : (∃ ts, h.Runs ts h.settle) ∧ h.settle.Quiet :=
  settle_runs (Nat.succ_pos _) _ h (Nat.lt_succ_self _)

/-- **The tasks settle.** The weight of a state bounds the segments of every schedule, so from no
state can the tasks run on for ever, whether a step is one segment or as many as a task has until it
waits; and the rounds of `settle` are a schedule that ends at rest. -/
theorem settling (h : Hub) :
    (∀ ts g, h.Runs ts g → ts.length + g.weight ≤ h.weight) ∧
    (¬ ∃ f : Nat → Hub, f 0 = h ∧ ∀ n, ∃ ts, ts ≠ [] ∧ (f n).Runs ts (f (n + 1))) ∧
    (∃ ts, h.Runs ts h.settle) ∧ h.settle.Quiet := by
  refine ⟨fun ts g hr => hr.length_add_weight, ?_, h.settle_rests⟩
  rintro ⟨f, -, hf⟩
  exact no_endless_run f hf

end Hub
end Rollcall
