import Rollcall.Proofs.Holding

/-!
# Calls and their requests

What the journal says of a call agrees with where the call stands: a call holds the stream of the
one request it has made, and what it has gathered is what was given out of it. A call for members
that has ended leaves no request behind that waits (`Reached.held_of_waiting`).
-/

namespace Rollcall

namespace Task

def goal? : Task → Option Call.Goal
  | call c => some c.goal
  | _ => none

theorem Attends.goal? {task : Task} (ha : task.Attends) : task.goal? = none := by
  cases task with
  | call => cases ha
  | reader => rfl
  | handler => rfl
  | delivering => rfl
  | loop => rfl

inductive Goes (t : TaskId) (n : RequestId) : Task → List Occurrence → Task → Prop
  | make {c : Call} (hs : c.stage = .starting) (now : Duration) (result : Option SendResult) :
      Goes t n (.call c) [.made t n] (.call { c.timed now with stage := .sending n result })
  | release {c : Call} {id : RequestId} (hs : c.stage = .sending id none) (result : SendResult) :
      Goes t n (.call c) [] (.call { c with stage := .sending id (some result) })
  | begin {c : Call} {id : RequestId} {result : Option SendResult}
      (hs : c.stage = .sending id result) :
      Goes t n (.call c) [] (.call { c with stage := .reading id [] })
  | gather {c : Call} {id : RequestId} {got : List Member} (hs : c.stage = .reading id got)
      (m : Member) :
      Goes t n (.call c) [.yielded id m] (.call { c with stage := .reading id (m :: got) })
  | take (id : RequestId) (goal : ReadGoal) (got : List Member) (m : Member) :
      Goes t n (.reader id goal got) [.yielded id m] (.reader id goal (m :: got))
  | attend {task task' : Task} {os : List Occurrence} (ha : task.Attends) (ha' : task'.Attends) :
      Goes t n task os task'

theorem Goes.goal? {t : TaskId} {n : RequestId} {task task' : Task} {os : List Occurrence}
    (h : Goes t n task os task') : task'.goal? = task.goal? := by
  cases h with
  | make => rfl
  | release => rfl
  | begin => rfl
  | gather => rfl
  | take => rfl
  | attend ha ha' => rw [ha.goal?, ha'.goal?]

theorem Goes.call {t : TaskId} {n : RequestId} {task : Task} {c : Call} {os : List Occurrence}
    (h : Goes t n task os (.call c)) :
    ∃ c₀, task = .call c₀ ∧ c.goal = c₀.goal ∧ c.timeout = c₀.timeout ∧
      (c.deadline = c₀.deadline ∨ ∃ now, c.deadline = (c₀.timed now).deadline) := by
  cases h with
  | make hs now => exact ⟨_, rfl, rfl, rfl, .inr ⟨now, rfl⟩⟩
  | release => exact ⟨_, rfl, rfl, rfl, .inl rfl⟩
  | begin => exact ⟨_, rfl, rfl, rfl, .inl rfl⟩
  | gather => exact ⟨_, rfl, rfl, rfl, .inl rfl⟩
  | attend ha ha' => cases ha'

theorem Attends.of_delivery {task : Task} {d : Delivery} (hd : task.delivery? = some d) :
    task.Attends := by
  cases task with
  | call => cases hd
  | reader => cases hd
  | handler => trivial
  | delivering => trivial
  | loop => trivial

end Task

namespace Change

variable {s s' : Scene} {os : List Occurrence} {t : TaskId}

/-- A task that is there after a change was there before as it is, or has gone on, or is new. -/
theorem task {task' : Task} (h : Change s os s') (ht' : s'.tasks t = some task') :
    s.tasks t = some task' ∨ (∃ task, s.tasks t = some task ∧
      task.Goes t s.book.requests.size os task') ∨
    (t = s.started ∧ ((∃ c, task' = .call c ∧ os = [.called t c.goal] ∧ c.stage = .starting ∧
      c.deadline = none ∧ ∀ token, c.goal = .members (some token) → c.timeout = none) ∨
      task'.goal? = none)) := by
  have spawned {ss : List RequestId} {task : Task}
      (h : (Scene.spawn { s with streams := ss } task).tasks t = some task') :
      s.tasks t = some task' ∨ (t = s.started ∧ task' = task) := by
    simp only [Scene.spawn, Function.update_apply] at h
    split at h
    · rename_i e
      cases h
      exact .inr ⟨e, rfl⟩
    · exact .inl h
  have set {b : Book} {ss : List RequestId} {t₀ : TaskId} {x : Option Task}
      (h : (Scene.set { s with book := b, streams := ss } t₀ x).tasks t = some task') :
      s.tasks t = some task' ∨ (t = t₀ ∧ x = some task') := by
    simp only [Scene.set, Function.update_apply] at h
    split at h
    · rename_i e
      exact .inr ⟨e, h⟩
    · exact .inl h
  have goes {b : Book} {ss : List RequestId} {t₀ : TaskId} {x : Option Task} {task : Task}
      (h : (Scene.set { s with book := b, streams := ss } t₀ x).tasks t = some task')
      (ht : s.tasks t₀ = some task)
      (hg : x = some task' → task.Goes t₀ s.book.requests.size os task') :
      s.tasks t = some task' ∨ ∃ task, s.tasks t = some task ∧
        task.Goes t s.book.requests.size os task' := by
    rcases set h with h | ⟨e, h⟩
    · exact .inl h
    · rw [e]
      exact .inr ⟨task, ht, hg h⟩
  cases h with
  | call hs hd =>
    rcases spawned ht' with h | ⟨e, rfl⟩
    · exact .inl h
    · exact .inr (.inr ⟨e, .inl ⟨_, rfl, by rw [e], hs, hd⟩⟩)
  | attend ha =>
    rcases spawned ht' with h | ⟨e, rfl⟩
    · exact .inl h
    · exact .inr (.inr ⟨e, .inr ha.goal?⟩)
  | read =>
    rcases spawned ht' with h | ⟨e, rfl⟩
    · exact .inl h
    · exact .inr (.inr ⟨e, .inr rfl⟩)
  | recv => exact .inl ht'
  | cancel => exact .inl ht'
  | discard => exact .inl ht'
  | shutdown => exact .inl ht'
  | draw => exact .inl ht'
  | make ht hs hf hb now result =>
    obtain ⟨nonce, -, rfl, -⟩ := Book.registerWith_some hb
    exact (goes ht' ht fun e => by cases e; exact .make hs now result).imp_right .inl
  | release ht hs result =>
    exact (goes ht' ht fun e => by cases e; exact .release hs result).imp_right .inl
  | handOut ht => exact (goes ht' ht fun e => by cases e).imp_right .inl
  | begin ht hs => exact (goes ht' ht fun e => by cases e; exact .begin hs).imp_right .inl
  | gather ht hs => exact (goes ht' ht fun e => by cases e; exact .gather hs _).imp_right .inl
  | take ht => exact (goes ht' ht fun e => by cases e; exact .take _ _ _ _).imp_right .inl
  | leave ht => exact (goes ht' ht fun e => by cases e).imp_right .inl
  | stop ht => exact (goes ht' ht fun e => by cases e).imp_right .inl
  | arrive ht ha hd hc hn hq hs ha' =>
    exact (goes ht' ht fun e => by cases e; exact .attend ha ha').imp_right .inl
  | advance ht hd hb ha' =>
    exact (goes ht' ht fun e => by cases e; exact .attend (.of_delivery hd) ha').imp_right .inl
  | settle ht hd hb hl =>
    exact (goes ht' ht fun e => .attend (.of_delivery hd) (hl _ e).1).imp_right .inl
  | interrupt ht => exact (goes ht' ht fun e => by cases e).imp_right .inl

theorem made {id : RequestId} (h : Change s os s') (hm : .made t id ∈ os) :
    (∃ c, s.tasks t = some (.call c) ∧ c.stage = .starting) ∧ id = s.book.requests.size ∧
      s'.book.requests.size = s.book.requests.size + 1 ∧ s'.stream? t = some id := by
  cases h with
  | @make t₀ c build i b ht hs hf hb result =>
    cases List.mem_singleton.mp hm
    obtain ⟨nonce, -, rfl, hreq, -⟩ := Book.registerWith_some hb
    refine ⟨⟨c, ht, hs⟩, rfl, by simp [Scene.set, hreq], ?_⟩
    rw [Scene.stream?_set, if_pos rfl]
    rfl
  | _ => simp at hm

theorem called {g : Call.Goal} (h : Change s os s') (hm : .called t g ∈ os) :
    t = s.started ∧ ∃ c, s'.tasks t = some (.call c) ∧ c.goal = g := by
  cases h with
  | @call c hs hd =>
    cases List.mem_singleton.mp hm
    exact ⟨rfl, c, by simp [Scene.spawn], rfl⟩
  | _ => simp at hm

theorem started_le (h : Change s os s') : s.started ≤ s'.started := by
  cases h with
  | call => exact Nat.le_succ _
  | attend => exact Nat.le_succ _
  | read => exact Nat.le_succ _
  | _ => exact Nat.le_refl _

theorem yielded_of_held {id : RequestId} (h : Change s os s') (ho : s.Owned)
    (hs : s.stream? t = some id) (hsame : s'.tasks t = s.tasks t) : yielded os id = [] := by
  have other {i : RequestId} {m : Member} (hne : i ≠ id) : yielded [.yielded i m] id = [] := by
    simp [yielded, hne]
  have hold : s.Holds (some t) id := hs
  cases h with
  | recv hid hb =>
    refine other ?_
    rintro rfl
    cases ho.sole (x := none) hid hold
  | @gather t₀ c i got m b ht hst hb =>
    refine other ?_
    rintro rfl
    have hi : s.Holds (some t₀) i := (Scene.stream?_of_task ht).trans (by simp [Task.stream?, hst])
    cases ho.sole hi hold
    rw [ht] at hsame
    simp only [Scene.set, Function.update_self, Option.some.injEq, Task.call.injEq] at hsame
    have hstage := congrArg Call.stage hsame
    rw [hst] at hstage
    simp at hstage
  | @take t₀ goal i got m b ht hb =>
    refine other ?_
    rintro rfl
    have hi : s.Holds (some t₀) i := Scene.stream?_of_task ht
    cases ho.sole hi hold
    rw [ht] at hsame
    simp [Scene.set] at hsame
  | _ => rfl

/-- A stream stays with the task that holds it, until its request no longer waits or a call hands it
to the caller. -/
theorem stream_kept {id : RequestId} (h : Change s os s') (hu : s.tasks s.started = none)
    (hb : s.book.Sound) (hs : s.stream? t = some id) : s'.stream? t = some id ∨
      (∀ r, s'.book.requests[id]? = some r → ¬r.Waiting) ∨
      ∃ c, s.tasks t = some (.call c) ∧ c.goal = .stream ∧ id ∈ s'.streams := by
  obtain ⟨task, ht, hst⟩ := Option.bind_eq_some_iff.mp hs
  have started {ss : List RequestId} (task : Task) :
      (Scene.spawn { s with streams := ss } task).stream? t = some id := by
    rw [Scene.stream?_spawn, if_neg]
    · exact hs
    · rintro rfl
      rw [hu] at ht
      cases ht
  have set {b : Book} {ss : List RequestId} {t₀ : TaskId} {x : Option Task} {task₀ : Task}
      (h0 : s.tasks t₀ = some task₀) (hx : x.bind Task.stream? = task₀.stream?) :
      (Scene.set { s with book := b, streams := ss } t₀ x).stream? t = some id := by
    rw [Scene.stream?_set]
    split
    · rename_i e
      rw [hx, ← Scene.stream?_of_task h0, ← e, hs]
    · exact hs
  have quiet {task₀ : Task} {t₀ : TaskId} (h0 : s.tasks t₀ = some task₀)
      (hx : task₀.stream? = none) {b : Book} {x : Option Task} (hx' : x.bind Task.stream? = none) :
      (Scene.set { s with book := b } t₀ x).stream? t = some id :=
    set h0 (hx'.trans hx.symm)
  cases h with
  | call => exact .inl (started _)
  | attend => exact .inl (started _)
  | read => exact .inl (started _)
  | recv => exact .inl hs
  | cancel => exact .inl hs
  | discard => exact .inl hs
  | shutdown => exact .inl hs
  | draw => exact .inl hs
  | @make t₀ c build i b h0 hst =>
    left
    rw [Scene.stream?_set]
    split
    · rename_i e
      rw [e, Scene.stream?_of_task h0] at hs
      simp [Task.stream?, hst] at hs
    · exact hs
  | release h0 hst => exact .inl (set h0 (by simp [Task.stream?, hst]))
  | @handOut t₀ c i result h0 hst hg =>
    rw [Scene.stream?_set]
    split
    · rename_i e
      rw [e, Scene.stream?_of_task h0] at hs
      simp only [Task.stream?, hst, Option.some.injEq] at hs
      exact .inr (.inr ⟨c, e ▸ h0, hg, List.mem_append_right _ (by simp [hs])⟩)
    · exact .inl hs
  | begin h0 hst => exact .inl (set h0 (by simp [Task.stream?, hst]))
  | gather h0 hst => exact .inl (set h0 (by simp [Task.stream?, hst]))
  | take h0 => exact .inl (set h0 rfl)
  | @leave t₀ task₀ i h0 hst =>
    rw [Scene.stream?_set]
    split
    · rename_i e
      right; left
      rw [e, Scene.stream?_of_task h0, hst] at hs
      cases hs
      exact fun r hr => hb.not_waiting_of_dropStream hr
    · exact .inl hs
  | stop h0 hi => exact .inl (set h0 hi.1.symm)
  | arrive h0 ha hd hc hn hq hst ha' => exact .inl (quiet h0 ha.stream? ha'.stream?)
  | advance h0 hd hadv ha' => exact .inl (quiet h0 (Task.stream?_of_delivery hd) ha'.stream?)
  | @settle t₀ task₀ last d b out h0 hd hadv hl =>
    refine .inl (quiet h0 (Task.stream?_of_delivery hd) ?_)
    cases last with
    | none => rfl
    | some task' => exact (hl task' rfl).1.stream?
  | interrupt h0 hd => exact .inl (quiet h0 (Task.stream?_of_delivery hd) rfl)

end Change

/-- Calls that are started in a series of changes have numbers that were not given before. -/
theorem Changes.started_le_of_called {s s' : Scene} {os : List Occurrence} {t : TaskId}
    {g : Call.Goal} (h : Changes s os s') : s.started ≤ s'.started ∧
      (.called t g ∈ os → s.started ≤ t) := by
  induction h with
  | none => exact ⟨Nat.le_refl _, fun hm => nomatch hm⟩
  | more hs hc ih =>
    refine ⟨Nat.le_trans ih.1 hc.started_le, fun hm => ?_⟩
    rcases List.mem_append.mp hm with hm | hm
    · exact ih.2 hm
    · rw [(hc.called hm).1]
      exact ih.1

/-! ## Every history -/

namespace Reached

variable {j : List Occurrence} {s : Scene} {t : TaskId}

theorem called_lt (hr : Reached j s) {g : Call.Goal} (hc : .called t g ∈ j) : t < s.started := by
  induction hr with
  | new nonces => cases hc
  | @step j os s s' hr h ih =>
    rcases List.mem_append.mp hc with hc | hc
    · exact Nat.lt_of_lt_of_le (ih hc) h.started_le
    · obtain ⟨rfl, c, ht, -⟩ := h.called hc
      exact Nat.lt_of_not_le fun hle => by
        rw [(hr.step h).unstarted _ hle] at ht
        cases ht

theorem goal (hr : Reached j s) {g : Call.Goal} (hc : .called t g ∈ j) {task : Task}
    (ht : s.tasks t = some task) : task.goal? = some g := by
  induction hr generalizing task with
  | new nonces => cases hc
  | @step j os s s' hr h ih =>
    rcases List.mem_append.mp hc with hc | hc
    · rcases h.task ht with h0 | ⟨task', h0, hg⟩ | ⟨e, -⟩
      · exact ih hc h0
      · rw [hg.goal?]
        exact ih hc h0
      · exact absurd e (Nat.ne_of_lt (hr.called_lt hc))
    · obtain ⟨-, c, h0, rfl⟩ := h.called hc
      rw [ht] at h0
      cases h0
      rfl

theorem untimed (hr : Reached j s) {c : Call} (ht : s.tasks t = some (.call c)) {token : Token}
    (hg : c.goal = .members (some token)) : c.timeout = none ∧ c.deadline = none := by
  induction hr generalizing c with
  | new nonces => cases ht
  | @step j os s s' hr h ih =>
    rcases h.task ht with h0 | ⟨task, h0, hgo⟩ | ⟨-, ⟨c', he, -, -, hnone, hd⟩ | hn⟩
    · exact ih h0 hg
    · obtain ⟨c₀, rfl, hgoal, htime, hdead⟩ := hgo.call
      obtain ⟨htime₀, hdead₀⟩ := ih h0 (hgoal.symm.trans hg)
      refine ⟨htime.trans htime₀, ?_⟩
      rcases hdead with hdead | ⟨now, hdead⟩
      · exact hdead.trans hdead₀
      · rw [hdead, Call.timed, htime₀]
        rfl
    · cases he
      exact ⟨hd token hg, hnone⟩
    · cases hn

theorem deadline (hr : Reached j s) {c : Call} (ht : s.tasks t = some (.call c)) {token : Token}
    (hg : c.goal = .members (some token)) : c.deadline = none :=
  (hr.untimed ht hg).2

theorem made_lt (hr : Reached j s) {id : RequestId} (hm : .made t id ∈ j) :
    t < s.started ∧ id < s.book.requests.size := by
  induction hr with
  | new nonces => cases hm
  | @step j os s s' hr h ih =>
    rcases List.mem_append.mp hm with hm | hm
    · obtain ⟨ht, hid⟩ := ih hm
      refine ⟨Nat.lt_of_lt_of_le ht h.started_le, ?_⟩
      obtain ⟨r', hr', -⟩ := hr.later h _ _ (Array.getElem?_eq_getElem hid)
      exact (Array.getElem?_eq_some_iff.mp hr').1
    · obtain ⟨⟨c, ht, -⟩, rfl, hsize, -⟩ := h.made hm
      refine ⟨Nat.lt_of_lt_of_le (Nat.lt_of_not_le fun hle => ?_) h.started_le,
        hsize ▸ Nat.lt_succ_self _⟩
      rw [hr.unstarted _ hle] at ht
      cases ht

theorem made_iff (hr : Reached j s) {c : Call} (ht : s.tasks t = some (.call c))
    (id : RequestId) : .made t id ∈ j ↔ (Task.call c).stream? = some id := by
  induction hr generalizing c with
  | new nonces => cases ht
  | @step j os s s' hr h ih =>
    -- A call makes nothing but when it is starting, and it is not afterwards.
    have nothing {c₀ : Call} (h0 : s.tasks t = some (.call c₀))
        (hne : c₀.stage = .starting → c.stage = .starting) :
        .made t id ∈ j ++ os ↔ .made t id ∈ j := by
      refine ⟨fun hm => ?_, List.mem_append_left _⟩
      rcases List.mem_append.mp hm with hm | hm
      · exact hm
      · obtain ⟨⟨c₁, h1, hs⟩, -, -, hst⟩ := h.made hm
        rw [h0] at h1
        cases h1
        rw [Scene.stream?_of_task ht] at hst
        simp [Task.stream?, hne hs] at hst
    rcases h.task ht with h0 | ⟨task, h0, hg⟩ | ⟨e, ⟨c', he, hos, hs, -⟩ | hn⟩
    · rw [nothing h0 fun e => e]
      exact ih h0
    · cases hg with
      | @make c₀ hs result =>
        have hnone : .made t id ∉ j := by
          rw [ih h0]
          simp [Task.stream?, hs]
        simp [Task.stream?, hnone, eq_comm]
      | release hs =>
        rw [nothing h0 (by simp [hs]), ih h0]
        simp [Task.stream?, hs]
      | begin hs =>
        rw [nothing h0 (by simp [hs]), ih h0]
        simp [Task.stream?, hs]
      | gather hs =>
        rw [nothing h0 (by simp [hs]), ih h0]
        simp [Task.stream?, hs]
      | attend ha ha' => cases ha'
    · cases he
      have hnone : .made t id ∉ j ++ os := by
        intro hm
        rw [hos] at hm
        rcases List.mem_append.mp hm with hm | hm
        · exact absurd e (Nat.ne_of_lt (hr.made_lt hm).1)
        · simp at hm
      simp [Task.stream?, hs, hnone]
    · cases hn

theorem made_unique (hr : Reached j s) {id i : RequestId} (hm : .made t id ∈ j)
    (hi : .made t i ∈ j) : id = i := by
  induction hr with
  | new nonces => cases hm
  | @step j os s s' hr h ih =>
    have fresh {i i' : RequestId} (hm : .made t i ∈ j) (hi : .made t i' ∈ os) : False := by
      obtain ⟨⟨c, h0, hs⟩, -⟩ := h.made hi
      have hst := (hr.made_iff h0 i).mp hm
      simp [Task.stream?, hs] at hst
    rcases List.mem_append.mp hm with hm | hm
    · rcases List.mem_append.mp hi with hi | hi
      · exact ih hm hi
      · exact (fresh hm hi).elim
    · rcases List.mem_append.mp hi with hi | hi
      · exact (fresh hi hm).elim
      · rw [(h.made hm).2.1, (h.made hi).2.1]

theorem gathered (hr : Reached j s) {c : Call} (ht : s.tasks t = some (.call c)) :
    (∀ id got, c.stage = .reading id got → got = (yielded j id).reverse) ∧
    ∀ id result, c.stage = .sending id result → yielded j id = [] := by
  induction hr generalizing c with
  | new nonces => cases ht
  | @step j os s s' hr h ih =>
    rcases h.task ht with h0 | ⟨task, h0, hg⟩ | ⟨e, ⟨c', he, hos, hs, -⟩ | hn⟩
    · have hold {id : RequestId} (hs : (Task.call c).stream? = some id) : yielded os id = [] :=
        h.yielded_of_held hr.owned ((Scene.stream?_of_task h0).trans hs) (ht.trans h0.symm)
      refine ⟨fun id got hs => ?_, fun id result hs => ?_⟩
      · rw [yielded_append, hold (by simp [Task.stream?, hs]), List.append_nil]
        exact (ih h0).1 id got hs
      · rw [yielded_append, hold (by simp [Task.stream?, hs]), List.append_nil]
        exact (ih h0).2 id result hs
    · cases hg with
      | @make c₀ hs result =>
        refine ⟨fun id got he => by simp at he, fun id res he => ?_⟩
        simp only [Call.Stage.sending.injEq] at he
        obtain ⟨rfl, rfl⟩ := he
        have hread := hr.read s.book.requests.size
        rw [Book.read, Book.view, Array.getElem?_eq_none (Nat.le_refl _)] at hread
        rw [yielded_append, List.reverse_eq_nil_iff.mp hread.symm]
        rfl
      | release hs result =>
        refine ⟨fun id got he => by simp at he, fun id res he => ?_⟩
        simp only [Call.Stage.sending.injEq] at he
        obtain ⟨rfl, rfl⟩ := he
        rw [List.append_nil]
        exact (ih h0).2 _ _ hs
      | begin hs =>
        refine ⟨fun id got he => ?_, fun id res he => by simp at he⟩
        simp only [Call.Stage.reading.injEq] at he
        obtain ⟨rfl, rfl⟩ := he
        rw [List.append_nil, (ih h0).2 _ _ hs]
        rfl
      | gather hs m =>
        refine ⟨fun id got he => ?_, fun id res he => by simp at he⟩
        simp only [Call.Stage.reading.injEq] at he
        obtain ⟨rfl, rfl⟩ := he
        rw [yielded_append, List.reverse_append, ← (ih h0).1 _ _ hs]
        simp [yielded]
      | attend ha ha' => cases ha'
    · cases he
      exact ⟨fun id got he => by simp [hs] at he, fun id res he => by simp [hs] at he⟩
    · cases hn

/-- A call for members holds the stream of its request for as long as the request waits. -/
theorem held_of_waiting (hr : Reached j s) {token : Option Token} {id : RequestId} {r : Request}
    (hc : .called t (.members token) ∈ j) (hm : .made t id ∈ j)
    (hq : s.book.requests[id]? = some r) (hw : r.Waiting) : s.stream? t = some id := by
  induction hr generalizing r with
  | new nonces => cases hc
  | @step j os s s' hr h ih =>
    rcases List.mem_append.mp hm with hm | hm
    · have hc : .called t (.members token) ∈ j := by
        rcases List.mem_append.mp hc with hc | hc
        · exact hc
        · exact absurd (h.called hc).1 (Nat.ne_of_lt (hr.made_lt hm).1)
      obtain ⟨r', hr', hl⟩ := hr.later h _ _ (Array.getElem?_eq_getElem (hr.made_lt hm).2)
      rw [hq] at hr'
      cases hr'
      have hst := ih hc hm (Array.getElem?_eq_getElem (hr.made_lt hm).2) (hl.waiting hw)
      rcases h.stream_kept (hr.unstarted _ (Nat.le_refl _)) hr.sound hst with
        hst | hno | ⟨c, h0, hg, -⟩
      · exact hst
      · exact absurd hw (hno r hq)
      · have hgoal := hr.goal hc h0
        simp [Task.goal?, hg] at hgoal
    · exact (h.made hm).2.2.2

end Reached

theorem Hub.size_le_after (h : Hub) (past later : List Action) :
    (h.after past).tasks.size ≤ (h.after (later ++ past)).tasks.size := by
  obtain ⟨os, -, hch⟩ := h.changes_append past later
  exact (hch.started_le_of_called (t := 0) (g := .stream)).1

end Rollcall
