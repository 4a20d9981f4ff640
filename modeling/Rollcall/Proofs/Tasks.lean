import Rollcall.Proofs.Segment

/-!
# Tasks of a hub

An action that is not a segment starts a task, has a shard let one go, or drops one, and otherwise
leaves the tasks as they are (`retasks`). So a task that is gone has either ended by itself or been
dropped (`ended_or_dropped`), and a loop always has its queue (`loop_lt`).
-/

namespace Rollcall
namespace Hub

inductive Spawns (h : Hub) : Action → Task → Prop
  | stream (i : Inquiry) : Spawns h (.callStream i) (.call { inquiry := i, goal := .stream })
  | underToken (i : Inquiry) (token : Token) :
      Spawns h (.collect i token) (.call { inquiry := i, goal := .members (some token) })
  | plain (i : Inquiry) : Spawns h (.callMembers i)
      (.call { inquiry := i, goal := .members none, timeout := h.limits.timeout })
  | handler (e : Event) : Spawns h (.dispatch e) (.handler e)
  | loop : Spawns h .run (.loop h.loops.size none)
  | reader (id : RequestId) (goal : ReadGoal) : Spawns h (.read id goal) (.reader id goal [])

inductive Retasks (h : Hub) (a : Action) (h' : Hub) : Prop
  | kept (he : h'.tasks = h.tasks)
  | started {task : Task} (hs : h.Spawns a task) (he : h'.tasks = (h.spawn task).2.tasks)
  | released {j place : Nat} {result : SendResult} {shard : Shard} {t : TaskId} {c : Call}
      {id : RequestId} (ha : a = .release j place result) (hj : h.shards[j]? = some shard)
      (hheld : shard.held[place]? = some t) (ht : h.task? t = some (.call c))
      (hs : c.stage = .sending id none)
      (he : h'.tasks =
        (h.setTask t (some (.call { c with stage := .sending id (some result) }))).tasks)
  | dropped {t : TaskId} {task : Task} (ha : a = .dropTask t) (ht : h.task? t = some task)
      (he : h'.tasks = (h.setTask t none).tasks)
  | segment (t : TaskId) (ha : a = .segment t)

theorem task?_of_tasks {h h' : Hub} (he : h'.tasks = h.tasks) (t : TaskId) :
    h'.task? t = h.task? t := by
  rw [task?, he, task?]

theorem task?_spawn (h : Hub) (task : Task) (t : TaskId) :
    (h.spawn task).2.task? t = if t = h.tasks.size then some task else h.task? t := by
  simp only [task?, spawn, Array.getElem?_push]
  split <;> rfl

theorem task?_of_set {h h' : Hub} {t : TaskId} {task : Task} {x : Option Task}
    (he : h'.tasks = (h.setTask t x).tasks) (ht : h.task? t = some task) (t' : TaskId) :
    h'.task? t' = if t' = t then x else h.task? t' :=
  (task?_of_tasks he t').trans (task?_setTask rfl (lt_of_task? ht) t')

theorem retasks_release (h : Hub) (j place : Nat) (result : SendResult) :
    h.Retasks (.release j place result) (h.release j place result).2 := by
  unfold release
  split
  · exact .kept rfl
  rename_i shard hj
  split
  · exact .kept rfl
  rename_i t hheld
  simp only
  split
  · rename_i c ht
    split
    · rename_i id hs
      exact .released rfl hj hheld ht hs rfl
    · exact .kept rfl
  · exact .kept rfl

theorem retasks_dropTask (h : Hub) (t : TaskId) :
    h.Retasks (.dropTask t) (h.dropTask t).2 := by
  unfold dropTask
  cases ht : h.task? t with
  | none => exact .kept rfl
  | some task => exact .dropped rfl ht (by simp only [setTask, tasks_abandon])

theorem retasks (h : Hub) (a : Action) : h.Retasks a (h.perform a) := by
  cases a with
  | callStream i => exact .started (.stream i) rfl
  | collect i token => exact .started (.underToken i token) rfl
  | callMembers i => exact .started (.plain i) rfl
  | dispatch e => exact .started (.handler e) rfl
  | run => exact .started .loop rfl
  | read id goal =>
    simp only [perform]
    split
    · exact .started (.reader id goal) rfl
    · exact .kept rfl
  | push index events =>
    simp only [perform, push]
    split <;> exact .kept rfl
  | recv id =>
    simp only [perform]
    split <;> exact .kept rfl
  | discard id =>
    simp only [perform]
    split <;> exact .kept rfl
  | cancelToken token =>
    simp only [perform, cancelToken]
    split <;> exact .kept rfl
  | release j place result => exact h.retasks_release j place result
  | dropTask t => exact h.retasks_dropTask t
  | segment t => exact .segment t rfl
  | _ => exact .kept rfl

/-! ## One task -/

def Fresh (h : Hub) : Task → Prop
  | .call c => c.stage = .starting
  | .loop index _ => index < h.loops.size
  | _ => True

inductive Touches (h : Hub) (t : TaskId) (a : Action) (h' : Hub) : Prop
  | kept (he : h'.task? t = h.task? t) (hlt : t < h'.tasks.size → t < h.tasks.size)
  | started (task : Task) (ht : t = h.tasks.size) (he : h'.task? t = some task)
      (hf : h'.Fresh task)
  | released (c : Call) (id : RequestId) (result : SendResult) (ht : h.task? t = some (.call c))
      (hs : c.stage = .sending id none)
      (he : h'.task? t = some (.call { c with stage := .sending id (some result) }))
  | dropped (ha : a = .dropTask t) (he : h'.task? t = none)

theorem Spawns.fresh {h : Hub} {a : Action} {task : Task} (hs : h.Spawns a task) :
    (h.perform a).Fresh task := by
  cases hs with
  | stream i => rfl
  | underToken i token => rfl
  | plain i => rfl
  | handler e => trivial
  | loop => simp [Fresh, perform, run, spawn]
  | reader id goal => trivial

theorem perform_task (h : Hub) (a : Action) (t : TaskId) (ha : a ≠ .segment t) :
    h.Touches t a (h.perform a) := by
  cases h.retasks a with
  | kept he => exact .kept (task?_of_tasks he t) fun hlt => he ▸ hlt
  | @started task hs he =>
    have htask := (task?_of_tasks he t).trans (h.task?_spawn task t)
    by_cases e : t = h.tasks.size
    · rw [if_pos e] at htask
      exact .started task e htask hs.fresh
    · rw [if_neg e] at htask
      refine .kept htask fun hlt => ?_
      rw [he, spawn, Array.size_push] at hlt
      exact Nat.lt_of_le_of_ne (Nat.le_of_lt_succ hlt) e
  | @released j place result shard t' c id ha' hj hheld ht hs he =>
    have htask := task?_of_set he ht t
    by_cases e : t = t'
    · subst e
      rw [if_pos rfl] at htask
      exact .released c id result ht hs htask
    · rw [if_neg e] at htask
      exact .kept htask fun hlt => (size_setTask h t' _) ▸ he ▸ hlt
  | @dropped t' task ha' ht he =>
    have htask := task?_of_set he ht t
    by_cases e : t = t'
    · subst e
      rw [if_pos rfl] at htask
      exact .dropped ha' htask
    · rw [if_neg e] at htask
      exact .kept htask fun hlt => (size_setTask h t' _) ▸ he ▸ hlt
  | segment t' ha' =>
    subst ha'
    obtain ⟨htask, hsize⟩ := (h.segment_cases t').ne fun e => ha (e ▸ rfl)
    exact .kept htask fun hlt => hsize ▸ hlt

/-! ## What only grows -/

theorem mem_finished_perform {h : Hub} {e : TaskId × Outcome} (hm : e ∈ h.finished) (a : Action) :
    e ∈ (h.perform a).finished := by
  rcases h.finished_perform a with he | ⟨t, task, g, o, -, -, -, -, he, -⟩
  · rw [he]
    exact hm
  · rw [he]
    exact Array.mem_push_of_mem _ hm

/-- No token is taken back, and no queue is taken away. -/
theorem perform_grows (h : Hub) (a : Action) :
    (∀ token ∈ h.cancelledTokens, token ∈ (h.perform a).cancelledTokens) ∧
      h.loops.size ≤ (h.perform a).loops.size := by
  have same {g : Hub} (htokens : g.cancelledTokens = h.cancelledTokens)
      (hloops : g.loops.size = h.loops.size) :
      (∀ token ∈ h.cancelledTokens, token ∈ g.cancelledTokens) ∧ h.loops.size ≤ g.loops.size := by
    rw [htokens, hloops]
    exact ⟨fun _ hm => hm, Nat.le_refl _⟩
  cases h.reframes a with
  | kept hf => exact same (congrArg Frame.tokens hf) (congrArg Frame.loops hf)
  | queued hf =>
    have htokens : (h.perform a).cancelledTokens = h.cancelledTokens := congrArg Frame.tokens hf
    have hloops : (h.perform a).loops.size = h.loops.size + 1 := congrArg Frame.loops hf
    rw [htokens, hloops]
    exact ⟨fun _ hm => hm, Nat.le_succ _⟩
  | cancelled token hf =>
    have htokens : (h.perform a).cancelledTokens = token :: h.cancelledTokens :=
      congrArg Frame.tokens hf
    have hloops : (h.perform a).loops.size = h.loops.size := congrArg Frame.loops hf
    rw [htokens, hloops]
    exact ⟨fun _ hm => List.mem_cons_of_mem _ hm, Nat.le_refl _⟩
  | advanced d hf => exact same (congrArg Frame.tokens hf) (congrArg Frame.loops hf)
  | ended t task g o ha ht hm hf he =>
    rw [he]
    exact same (congrArg Frame.tokens hf) (congrArg Frame.loops hf)

end Hub

/-! ## Every history -/

namespace Hub

inductive Becomes : Task → Task → Prop
  | call (c c' : Call) : Becomes (.call c) (.call c')
  | reader (id : RequestId) (goal : ReadGoal) (got got' : List Member) :
      Becomes (.reader id goal got) (.reader id goal got')
  | handler (e : Event) (d : Delivery) : Becomes (.handler e) (.delivering d)
  | delivering (d d' : Delivery) : Becomes (.delivering d) (.delivering d')
  | loop (index : Nat) (current current' : Option Delivery) :
      Becomes (.loop index current) (.loop index current')

theorem becomes_of_moved {h h' : Hub} {t : TaskId} {task task' : Task}
    (hm : h.advanceTask t task = .moved h' task') : Becomes task task' := by
  have handled {m : Move Hub Delivery Unit} (hm : handlerMove m = .moved h' task') :
      ∃ d, task' = .delivering d := by
    cases m <;> cases hm
    exact ⟨_, rfl⟩
  have looped {index : Nat} {current : Option Delivery} {m : Move Hub Delivery Unit}
      (hm : loopMove index m = .moved h' task') : Becomes (.loop index current) task' := by
    cases m <;> cases hm <;> exact .loop index current _
  unfold advanceTask at hm
  cases task with
  | call c =>
    simp only at hm
    split at hm <;> cases hm
    exact .call c _
  | reader id goal got =>
    simp only [advanceReader] at hm
    split at hm
    · cases hm
    split at hm
    · split at hm <;> cases hm
      exact .reader id goal got _
    · cases hm
    · cases hm
  | handler e =>
    obtain ⟨d, rfl⟩ := handled hm
    exact .handler e d
  | delivering d =>
    obtain ⟨d', rfl⟩ := handled hm
    exact .delivering d d'
  | loop index current =>
    simp only [advanceLoop] at hm
    split at hm
    · cases hm
    split at hm
    · split at hm
      · cases hm
      · exact looped hm
    · split at hm
      · cases hm
      split at hm
      · exact looped hm
      · split at hm <;> cases hm

theorem loop_of_moved {h h' : Hub} {t : TaskId} {task : Task} {index : Nat}
    {current : Option Delivery} (hm : h.advanceTask t task = .moved h' (.loop index current)) :
    ∃ current', task = .loop index current' := by
  cases becomes_of_moved hm with
  | loop index current' => exact ⟨current', rfl⟩

theorem ended_or_dropped {h : Hub} (hn : h.IsNew) {t : TaskId} {past : List Action}
    (hlt : t < (h.after past).tasks.size) (hnone : (h.after past).task? t = none) :
    (∃ o, (t, o) ∈ (h.after past).finished) ∨ .dropTask t ∈ past := by
  induction past with
  | nil =>
    obtain ⟨limits, selection, shards, caching, nonces, rfl⟩ := hn.eq
    exact absurd hlt (Nat.not_lt_zero t)
  | cons a past ih =>
    have earlier (h0 : (h.after past).task? t = none) (h1 : t < (h.after past).tasks.size) :
        (∃ o, (t, o) ∈ (h.after (a :: past)).finished) ∨ .dropTask t ∈ a :: past := by
      rcases ih h1 h0 with ⟨o, ho⟩ | hd
      · exact .inl ⟨o, mem_finished_perform ho a⟩
      · exact .inr (List.mem_cons_of_mem _ hd)
    by_cases ha : a = .segment t
    · subst ha
      cases (h.after past).segment_cases t with
      | waits hadv he =>
        rw [after, he] at hlt hnone
        exact earlier hnone hlt
      | goesOn task task' g ht hm hf he hself =>
        rw [after, hself] at hnone
        cases hnone
      | ends task g o ht hm hf he hself =>
        rw [after, he]
        exact .inl ⟨o, Array.mem_push_self⟩
    · cases (h.after past).perform_task a t ha with
      | kept he hsize => exact earlier (he.symm.trans hnone) (hsize hlt)
      | started task ht he =>
        rw [after, he] at hnone
        cases hnone
      | released c id result ht hs he =>
        rw [after, he] at hnone
        cases hnone
      | dropped ha he => exact .inr (ha ▸ List.mem_cons_self)

theorem loop_lt {h : Hub} (hn : h.IsNew) {t : TaskId} {index : Nat} {past : List Action}
    {current : Option Delivery} (ht : (h.after past).task? t = some (.loop index current)) :
    index < (h.after past).loops.size := by
  induction past generalizing current with
  | nil =>
    obtain ⟨limits, selection, shards, caching, nonces, rfl⟩ := hn.eq
    cases ht
  | cons a past ih =>
    have hgrows := ((h.after past).perform_grows a).2
    by_cases ha : a = .segment t
    · subst ha
      cases (h.after past).segment_cases t with
      | waits hadv he =>
        rw [after, he] at ht ⊢
        exact ih ht
      | goesOn task task' g ht' hm hf he hself =>
        rw [after, hself] at ht
        cases ht
        obtain ⟨current', rfl⟩ := loop_of_moved hm
        exact Nat.lt_of_lt_of_le (ih ht') hgrows
      | ends task g o ht' hm hf he hself =>
        rw [after, hself] at ht
        cases ht
    · cases (h.after past).perform_task a t ha with
      | kept he hsize => exact Nat.lt_of_lt_of_le (ih (he.symm.trans ht)) hgrows
      | started task ht' he hf =>
        rw [after, he] at ht
        cases ht
        exact hf
      | released c id result ht' hs he =>
        rw [after, he] at ht
        cases ht
      | dropped ha he =>
        rw [after, he] at ht
        cases ht

end Hub
end Rollcall
