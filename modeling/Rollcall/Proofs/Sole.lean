import Rollcall.Proofs.Calls
import Rollcall.Proofs.Tasks

/-!
# One queue, one outcome

Every loop is started with a queue of its own, so no two tasks take events from one queue
(`loop_sole`). A task that has ended is gone, and has one outcome (`finished_sole`).
-/

namespace Rollcall
namespace Hub

/-! ## Loops -/

def IsLoop (h : Hub) (t : TaskId) (index : Nat) : Prop :=
  ∃ current, h.task? t = some (.loop index current)

section

variable {h g : Hub} {t t' : TaskId} {index : Nat}

theorem Spawns.index_eq {a : Action} {current : Option Delivery}
    (hs : h.Spawns a (.loop index current)) : index = h.loops.size := by
  cases hs
  rfl

theorem isLoop_segment (hl : (h.perform (.segment t')).IsLoop t index) : h.IsLoop t index := by
  obtain ⟨current, ht⟩ := hl
  by_cases e : t = t'
  · subst e
    cases h.segment_cases t with
    | waits hadv he => exact ⟨current, he ▸ ht⟩
    | goesOn task task' g ht' hm hf he hself =>
      cases hself.symm.trans ht
      obtain ⟨current', rfl⟩ := loop_of_moved hm
      exact ⟨current', ht'⟩
    | ends task g o ht' hm hf he hself => cases hself.symm.trans ht
  · exact ⟨current, (task?_segment e).symm.trans ht⟩

/-- A loop was there before an action, or has been started with a new queue. -/
theorem isLoop_perform {a : Action} (hl : (h.perform a).IsLoop t index) :
    h.IsLoop t index ∨ (t = h.tasks.size ∧ index = h.loops.size) := by
  obtain ⟨current, ht⟩ := hl
  cases h.retasks a with
  | kept he =>
    rw [task?_of_tasks he] at ht
    exact .inl ⟨current, ht⟩
  | @started task hs he =>
    rw [task?_of_tasks he, task?_spawn] at ht
    split at ht
    · rename_i e
      cases ht
      exact .inr ⟨e, hs.index_eq⟩
    · exact .inl ⟨current, ht⟩
  | released ha hj hheld ht' hs he =>
    rw [task?_of_set he ht'] at ht
    split at ht
    · cases ht
    · exact .inl ⟨current, ht⟩
  | dropped ha ht' he =>
    rw [task?_of_set he ht'] at ht
    split at ht
    · cases ht
    · exact .inl ⟨current, ht⟩
  | segment t' ha =>
    subst ha
    exact .inl (isLoop_segment ⟨current, ht⟩)

theorem loop_sole {h : Hub} (hn : h.IsNew) {past : List Action}
    (ht : (h.after past).IsLoop t index) (ht' : (h.after past).IsLoop t' index) : t = t' := by
  induction past with
  | nil =>
    obtain ⟨limits, selection, shards, caching, nonces, rfl⟩ := hn.eq
    obtain ⟨current, ht⟩ := ht
    cases ht
  | cons a past ih =>
    -- The number of a new loop is one that no loop has had.
    have old {t : TaskId} (hl : (h.after past).IsLoop t index) :
        index ≠ (h.after past).loops.size := by
      obtain ⟨current, ht⟩ := hl
      exact Nat.ne_of_lt (loop_lt hn ht)
    rcases isLoop_perform ht with hl | ⟨hsize, hnew⟩
    · rcases isLoop_perform ht' with hl' | ⟨-, hnew'⟩
      · exact ih hl hl'
      · exact absurd hnew' (old hl)
    · rcases isLoop_perform ht' with hl' | ⟨hsize', -⟩
      · exact absurd hnew (old hl')
      · exact hsize.trans hsize'.symm

end

/-! ## Outcomes -/

theorem gone_perform {h : Hub} {t : TaskId} (hlt : t < h.tasks.size) (hnone : h.task? t = none)
    (a : Action) : t < (h.perform a).tasks.size ∧ (h.perform a).task? t = none := by
  refine ⟨Nat.lt_of_lt_of_le hlt (h.size_le_after [] [a]), ?_⟩
  by_cases ha : a = .segment t
  · subst ha
    exact gone_segment hnone t
  · cases h.perform_task a t ha with
    | kept he => exact he.trans hnone
    | started task ht => exact absurd ht (Nat.ne_of_lt hlt)
    | released c id result ht => cases hnone.symm.trans ht
    | dropped ha he => exact he

section

variable {h : Hub} (hn : h.IsNew) {t : TaskId} {o o' : Outcome}
include hn

theorem gone_of_finished {past : List Action} (ho : (t, o) ∈ (h.after past).finished) :
    t < (h.after past).tasks.size ∧ (h.after past).task? t = none := by
  induction past with
  | nil =>
    obtain ⟨limits, selection, shards, caching, nonces, rfl⟩ := hn.eq
    simp [after] at ho
  | cons a past ih =>
    rcases (h.after past).finished_perform a with
      he | ⟨t', task, g, o', rfl, ht, -, -, he, hself⟩
    · rw [after, he] at ho
      obtain ⟨hlt, hnone⟩ := ih ho
      exact gone_perform hlt hnone a
    · rw [after, he] at ho
      rcases Array.mem_push.mp ho with ho | ho
      · obtain ⟨hlt, hnone⟩ := ih ho
        exact gone_perform hlt hnone (.segment t')
      · cases ho
        exact ⟨Nat.lt_of_lt_of_le (lt_of_task? ht) (h.size_le_after past [.segment _]), hself⟩

theorem finished_sole {past : List Action} (ho : (t, o) ∈ (h.after past).finished)
    (ho' : (t, o') ∈ (h.after past).finished) : o = o' := by
  induction past with
  | nil =>
    obtain ⟨limits, selection, shards, caching, nonces, rfl⟩ := hn.eq
    simp [after] at ho
  | cons a past ih =>
    rcases (h.after past).finished_perform a with he | ⟨t', task, g, p, -, ht, -, -, he, -⟩
    · rw [after, he] at ho ho'
      exact ih ho ho'
    · have fresh {q : Outcome} (hq : (t', q) ∈ (h.after past).finished) : False := by
        cases (gone_of_finished hn hq).2.symm.trans ht
      rw [after, he] at ho ho'
      rcases Array.mem_push.mp ho with hold | hlast
      · rcases Array.mem_push.mp ho' with hold' | hlast'
        · exact ih hold hold'
        · cases hlast'
          exact (fresh hold).elim
      · cases hlast
        rcases Array.mem_push.mp ho' with hold' | hlast'
        · exact (fresh hold').elim
        · cases hlast'
          rfl

end

section

variable {h : Hub} {t : TaskId} {o : Outcome}

theorem mem_finished_after {past : List Action} {e : TaskId × Outcome}
    (he : e ∈ (h.after past).finished) (later : List Action) :
    e ∈ (h.after (later ++ past)).finished := by
  induction later with
  | nil => exact he
  | cons a later ih => exact mem_finished_perform ih a

theorem gone_after {past : List Action} (hnone : (h.after past).task? t = none)
    (ts : List TaskId) : (h.after (ts.map .segment ++ past)).task? t = none := by
  induction ts with
  | nil => exact hnone
  | cons t' ts ih => exact gone_segment ih t'

theorem finished_of_gone {past : List Action} (hnone : (h.after past).task? t = none)
    (ts : List TaskId) (ho : (t, o) ∈ (h.after (ts.map .segment ++ past)).finished) :
    (t, o) ∈ (h.after past).finished := by
  induction ts with
  | nil => exact ho
  | cons t' ts ih =>
    apply ih
    rcases (h.after (ts.map .segment ++ past)).finished_perform (.segment t') with
      he | ⟨t₁, task, g, p, ha, ht, -, -, he, -⟩
    · exact he ▸ ho
    · cases ha
      have hfin : ((h.after (ts.map .segment ++ past)).perform (.segment t')).finished = _ :=
        congrArg finished he
      rcases Array.mem_push.mp (hfin ▸ ho) with ho | hlast
      · exact ho
      · cases hlast
        cases (gone_after hnone ts).symm.trans ht

end

end Hub
end Rollcall
