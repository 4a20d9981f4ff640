import Rollcall.Proofs.Gathering
import Rollcall.Proofs.Readers

/-!
# Who asks

A call asks one and the same thing from the action that starts it to its end. It goes on by segments
of its own, and when it waits for a shard it is let go by a release that names its place in line.
`Hub.Follows` lists what can have happened to a call that is there after an action.
-/

namespace Rollcall

inductive Action.Asks (i : Inquiry) : Action → Prop
  | stream : Asks i (.callStream i)
  | underToken (token : Token) : Asks i (.collect i token)
  | plain : Asks i (.callMembers i)

variable {c c' : Call}

/-- A call as it runs: its time is counted from its first segment. -/
def Call.running (c : Call) (now : Duration) : Call :=
  match c.stage with
  | .starting => c.timed now
  | _ => c

@[simp] theorem Call.running_inquiry (c : Call) (now : Duration) :
    (c.running now).inquiry = c.inquiry := by
  unfold running
  split <;> rfl

@[simp] theorem Call.running_goal (c : Call) (now : Duration) :
    (c.running now).goal = c.goal := by
  unfold running
  split <;> rfl

@[simp] theorem Call.running_timeout (c : Call) (now : Duration) :
    (c.running now).timeout = c.timeout := by
  unfold running
  split <;> rfl

theorem Call.running_of_starting (hs : c.stage = .starting) (now : Duration) :
    c.running now = c.timed now := by
  rw [running, hs]

theorem Call.running_of_begun (hs : c.stage ≠ .starting) (now : Duration) :
    c.running now = c := by
  unfold running
  split
  · exact absurd ‹_› hs
  · rfl

namespace Hub

variable {h g : Hub} {t : TaskId}

/-! ## Segments of a call -/

structure Moves (h : Hub) (c c' : Call) : Prop where
  running : ∃ stage, c' = { c.running h.now with stage }
  begun : c'.stage ≠ .starting
  untold : ∀ id result, c'.stage ≠ .sending id (some result)

theorem advanceCall_moves (hm : h.advanceCall t c = .moved g c') : h.Moves c c' := by
  unfold advanceCall at hm
  cases hs : c.stage with
  | starting =>
    simp only [hs, advanceStart] at hm
    split at hm
    · exact absurd hm expire_ne_moved
    split at hm
    · cases hm
    split at hm
    · cases hm
    · cases hm
    · cases hm
      exact ⟨⟨_, by rw [Call.running_of_starting hs]⟩, by simp, by simp⟩
    · obtain rfl := afterSend_moves hm
      exact ⟨⟨_, by rw [Call.running_of_starting hs]⟩, by simp, by simp⟩
  | sending id result =>
    have hrun : c.running h.now = c := Call.running_of_begun (by simp [hs]) _
    rw [hs] at hm
    cases result with
    | none => exact absurd hm expire_ne_moved
    | some result =>
      simp only at hm
      split at hm
      · exact absurd hm expire_ne_moved
      · obtain rfl := afterSend_moves hm
        exact ⟨⟨_, by rw [hrun]⟩, by simp, by simp⟩
  | reading id got =>
    have hrun : c.running h.now = c := Call.running_of_begun (by simp [hs]) _
    simp only [hs, advanceReading] at hm
    split at hm
    · exact absurd hm expire_ne_moved
    split at hm
    · cases hm
    split at hm
    · cases hm
      exact ⟨⟨_, by rw [hrun]⟩, by simp, by simp⟩
    · cases hm
    · cases hm

theorem call_of_moved {task : Task} (hm : h.advanceTask t task = .moved g (.call c)) :
    ∃ c₀, task = .call c₀ ∧ h.advanceCall t c₀ = .moved g c := by
  cases becomes_of_moved hm with
  | call c₀ =>
    obtain ⟨c', he, hcall⟩ := advanceCall_of_moved hm
    cases he
    exact ⟨c₀, rfl, hcall⟩

/-! ## Actions -/

inductive Follows (h : Hub) (a : Action) (t : TaskId) (c : Call) : Prop
  | started (ht : t = h.tasks.size) (ha : a.Asks c.inquiry) (hs : c.stage = .starting)
      (hd : c.deadline = none) (hp : c.goal = .members none → c.timeout = h.limits.timeout)
  | kept (ht : h.task? t = some (.call c))
  | went {c₀ : Call} (ha : a = .segment t) (ht : h.task? t = some (.call c₀)) (hm : h.Moves c₀ c)
  | released {c₀ : Call} {id : RequestId} {result : SendResult} {j place : Nat} {shard : Shard}
      (ha : a = .release j place result) (ht : h.task? t = some (.call c₀))
      (hs : c₀.stage = .sending id none) (hc : c = { c₀ with stage := .sending id (some result) })
      (hj : h.shards[j]? = some shard) (hheld : shard.held[place]? = some t)

theorem Spawns.asks {a : Action} (hs : h.Spawns a (.call c)) : a.Asks c.inquiry ∧
    c.stage = .starting ∧ c.deadline = none ∧
      (c.goal = .members none → c.timeout = h.limits.timeout) := by
  cases hs with
  | stream i => exact ⟨.stream, rfl, rfl, nofun⟩
  | underToken i token => exact ⟨.underToken token, rfl, rfl, nofun⟩
  | plain i => exact ⟨.plain, rfl, rfl, fun _ => rfl⟩

theorem follows {a : Action} (ht : (h.perform a).task? t = some (.call c)) : h.Follows a t c := by
  cases h.retasks a with
  | kept he =>
    rw [task?_of_tasks he] at ht
    exact .kept ht
  | @started task hs he =>
    rw [task?_of_tasks he, task?_spawn] at ht
    split at ht
    · rename_i e
      cases ht
      obtain ⟨ha, hstage, hd, hp⟩ := hs.asks
      exact .started e ha hstage hd hp
    · exact .kept ht
  | released ha hj hheld ht' hs he =>
    rw [task?_of_set he ht'] at ht
    split at ht
    · rename_i e
      subst e
      exact .released ha ht' hs (by cases ht; rfl) hj hheld
    · exact .kept ht
  | dropped ha ht' he =>
    rw [task?_of_set he ht'] at ht
    split at ht
    · cases ht
    · exact .kept ht
  | segment t' ha =>
    subst ha
    by_cases e : t = t'
    · subst e
      cases h.segment_cases t with
      | waits hadv he =>
        rw [he] at ht
        exact .kept ht
      | goesOn task task' g ht' hm hf he hself =>
        cases ht.symm.trans hself
        obtain ⟨c₀, rfl, hcall⟩ := call_of_moved hm
        exact .went rfl ht' (advanceCall_moves hcall)
      | ends task g o ht' hm hf he hself => cases ht.symm.trans hself
    · rw [task?_segment e] at ht
      exact .kept ht

/-! ## Histories -/

theorem called_of_call {j : List Occurrence} {s : Scene} (hr : Reached j s)
    (ht : s.tasks t = some (.call c)) : .called t c.goal ∈ j := by
  induction hr generalizing c with
  | new nonces => cases ht
  | @step j os s s' hr h ih =>
    rcases h.task ht with h0 | ⟨task, h0, hgo⟩ | ⟨-, ⟨c', he, hos, -⟩ | hnone⟩
    · exact List.mem_append_left _ (ih h0)
    · obtain ⟨c₀, rfl, hgoal, -⟩ := hgo.call
      rw [hgoal]
      exact List.mem_append_left _ (ih h0)
    · cases he
      rw [hos]
      exact List.mem_append_right _ List.mem_cons_self
    · cases hnone

theorem called_of_made {j : List Occurrence} {s : Scene} (hr : Reached j s)
    {id : RequestId}
    (hm : .made t id ∈ j) : ∃ goal, .called t goal ∈ j := by
  induction hr with
  | new nonces => cases hm
  | @step j os s s' hr h ih =>
    rcases List.mem_append.mp hm with hm | hm
    · obtain ⟨goal, hc⟩ := ih hm
      exact ⟨goal, List.mem_append_left _ hc⟩
    · obtain ⟨⟨c, ht, -⟩, -⟩ := h.made hm
      exact ⟨c.goal, List.mem_append_left _ (called_of_call hr ht)⟩

def Asked (h : Hub) (past : List Action) (t : TaskId) (i : Inquiry) : Prop :=
  ∃ later a earlier, past = later ++ a :: earlier ∧ a.Asks i ∧ t = (h.after earlier).tasks.size

theorem asked (hn : h.IsNew) {past : List Action} (ht : (h.after past).task? t = some (.call c)) :
    h.Asked past t c.inquiry := by
  induction past generalizing c with
  | nil =>
    obtain ⟨limits, selection, shards, caching, nonces, rfl⟩ := hn.eq
    cases ht
  | cons a past ih =>
    have before {c₀ : Call} (h0 : (h.after past).task? t = some (.call c₀))
        (hi : c₀.inquiry = c.inquiry) : h.Asked (a :: past) t c.inquiry := by
      obtain ⟨later, a', earlier, rfl, ha, hsize⟩ := ih h0
      exact ⟨a :: later, a', earlier, rfl, hi ▸ ha, hsize⟩
    cases follows ht with
    | started ht ha hs => exact ⟨[], a, past, rfl, ha, ht⟩
    | kept h0 => exact before h0 rfl
    | went ha h0 hm =>
      obtain ⟨stage, rfl⟩ := hm.running
      exact before h0 (by simp)
    | released ha h0 hs hc =>
      subst hc
      exact before h0 rfl

theorem Asked.lt {past : List Action} {i : Inquiry} (ha : h.Asked past t i) :
    t < (h.after past).tasks.size := by
  obtain ⟨later, a, earlier, rfl, hask, rfl⟩ := ha
  have hfirst : (h.after earlier).tasks.size < (h.after (a :: earlier)).tasks.size := by
    cases hask <;> simp [after, perform, callStream, collect, callMembers, spawn]
  exact Nat.lt_of_lt_of_le hfirst (h.size_le_after (a :: earlier) later)

theorem asked_unique {past : List Action} {i i' : Inquiry} (ha : h.Asked past t i)
    (ha' : h.Asked past t i') : i = i' := by
  induction past with
  | nil =>
    obtain ⟨later, a, earlier, he, -⟩ := ha
    simp at he
  | cons x past ih =>
    obtain ⟨later, a, earlier, he, hask, hsize⟩ := ha
    obtain ⟨later', a', earlier', he', hask', hsize'⟩ := ha'
    cases later with
    | nil =>
      obtain ⟨rfl, rfl⟩ := List.cons.inj he
      cases later' with
      | nil =>
        obtain ⟨rfl, -⟩ := List.cons.inj he'
        cases hask <;> cases hask' <;> rfl
      | cons y later' =>
        obtain ⟨-, he'⟩ := List.cons.inj he'
        have hlt := Asked.lt ⟨later', a', earlier', he', hask', hsize'⟩
        exact absurd hsize (Nat.ne_of_lt hlt)
    | cons y later =>
      obtain ⟨-, he⟩ := List.cons.inj he
      cases later' with
      | nil =>
        obtain ⟨-, rfl⟩ := List.cons.inj he'
        have hlt := Asked.lt ⟨later, a, earlier, he, hask, hsize⟩
        exact absurd hsize' (Nat.ne_of_lt hlt)
      | cons y' later' =>
        obtain ⟨-, he'⟩ := List.cons.inj he'
        exact ih ⟨later, a, earlier, he, hask, hsize⟩ ⟨later', a', earlier', he', hask', hsize'⟩

theorem inquiry_kept {past : List Action} (later : List Action)
    (ht : (h.after past).task? t = some (.call c))
    (ht' : (h.after (later ++ past)).task? t = some (.call c')) : c'.inquiry = c.inquiry := by
  induction later generalizing c' with
  | nil =>
    cases ht.symm.trans ht'
    rfl
  | cons a later ih =>
    rw [List.cons_append] at ht'
    cases follows ht' with
    | started hsize =>
      have hlt := lt_of_task? ht
      exact absurd (hsize ▸ hlt) (Nat.not_lt_of_le (h.size_le_after past later))
    | kept h0 => exact ih h0
    | went ha h0 hm =>
      obtain ⟨stage, rfl⟩ := hm.running
      have hi := ih h0
      rwa [← Call.running_inquiry _ (h.after (later ++ past)).now] at hi
    | released ha h0 hs hc =>
      subst hc
      have hi := ih h0
      exact hi

theorem released_before (hn : h.IsNew) {past : List Action} {id : RequestId} {result : SendResult}
    (ht : (h.after past).task? t = some (.call c)) (hs : c.stage = .sending id (some result)) :
    ∃ later j place earlier shard, past = later ++ .release j place result :: earlier ∧
      (h.after earlier).shards[j]? = some shard ∧ shard.held[place]? = some t ∧
      ∃ c₀, (h.after earlier).task? t = some (.call c₀) ∧ c₀.inquiry = c.inquiry := by
  induction past generalizing c with
  | nil =>
    obtain ⟨limits, selection, shards, caching, nonces, rfl⟩ := hn.eq
    cases ht
  | cons a past ih =>
    cases follows ht with
    | started ht ha hs' => cases hs.symm.trans hs'
    | kept h0 =>
      obtain ⟨later, j, place, earlier, shard, rfl, hrest⟩ := ih h0 hs
      exact ⟨a :: later, j, place, earlier, shard, rfl, hrest⟩
    | went ha h0 hm => exact absurd hs (hm.untold id result)
    | released ha h0 hs' hc hj hheld =>
      subst hc
      cases hs
      exact ⟨[], _, _, past, _, by rw [ha]; rfl, hj, hheld, _, h0, rfl⟩

end Hub
end Rollcall
