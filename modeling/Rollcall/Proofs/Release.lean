import Rollcall.Proofs.Gathering
import Rollcall.Proofs.Tasks

/-!
# What a cancelled token releases

A call that watches a cancelled token ends as soon as it runs, with one exception: while it waits
for the shard to let its command go, it does not look at the token. Once no task can move, the call
is either still held by the shard, or it has ended and nothing of its request is left. Main
statement: `resolved_unless_held`.
-/

namespace Rollcall

/-! ## Quiet hubs -/

theorem Hub.quiet_of_lt {h : Hub} (hq : ∀ t < h.tasks.size, h.advance t = none) : h.Quiet := by
  intro t
  by_cases ht : t < h.tasks.size
  · exact hq t ht
  · have hnone : h.task? t = none := by
      rw [task?, Array.getElem?_eq_none (Nat.le_of_not_lt ht)]
      rfl
    rw [advance, hnone]

namespace Delivery

variable {d : Delivery} {t : TaskId} {b : Book} {r : Request}

theorem proceed_ne_blocked {last : Bool} {rest : List Member} {n k : Nat} :
    d.proceed t b r.filter last rest n k ≠ .blocked := by
  unfold proceed
  intro h
  split at h <;> cases h

theorem begin_ne_blocked {ms : List Member} : d.begin t b r ms ≠ .blocked := by
  unfold begin
  intro h
  split at h
  · cases h
  split at h
  · cases h
  exact proceed_ne_blocked h

/-- The head of a line moves on if it has not begun, or if the request is cancelled. -/
theorem advance_ne_blocked (hq : b.requests[d.request]? = some r) (hh : r.line.head? = some t)
    (hc : ∀ m rest n k, d.stage = .placing m rest n k → r.cancelled = true) :
    d.advance t b ≠ .blocked := by
  unfold advance
  rw [hq]
  cases hs : d.stage with
  | arriving ms =>
    simp only
    split
    · exact begin_ne_blocked
    · simp
  | inLine ms =>
    simp only [hh, if_true]
    exact begin_ne_blocked
  | placing m rest n k =>
    simp only [hc m rest n k hs, Bool.true_or, if_true]
    intro h
    cases h

end Delivery

namespace Hub

variable {h : Hub} {t : TaskId}

theorem blocked_of_stuck (hadv : h.advance t = none) {task : Task} (ht : h.task? t = some task) :
    h.advanceTask t task = .blocked := by
  unfold advance at hadv
  simp only [ht] at hadv
  cases hm : h.advanceTask t task with
  | blocked => rfl
  | moved g task' =>
    simp only [hm] at hadv
    cases hadv
  | done g o =>
    simp only [hm] at hadv
    cases hadv

theorem blocked_of_quiet (hq : h.Quiet) {task : Task} (ht : h.task? t = some task) :
    h.advanceTask t task = .blocked :=
  blocked_of_stuck (hq t) ht

theorem handlerMove_ne_blocked {m : Move Hub Delivery Unit} (hm : m ≠ .blocked) :
    handlerMove m ≠ .blocked := by
  cases m with
  | blocked => exact absurd rfl hm
  | moved => simp [handlerMove]
  | done => simp [handlerMove]

theorem loopMove_ne_blocked {m : Move Hub Delivery Unit} (hm : m ≠ .blocked) (index : Nat) :
    loopMove index m ≠ .blocked := by
  cases m with
  | blocked => exact absurd rfl hm
  | moved => simp [loopMove]
  | done => simp [loopMove]

theorem deliver_ne_blocked {d : Delivery} (hb : d.advance t h.book ≠ .blocked) :
    h.deliver t d ≠ .blocked := by
  unfold deliver
  split
  · exact absurd ‹_› hb
  · simp
  · simp

theorem advanceTask_ne_blocked {task : Task} {d : Delivery} (hd : task.delivery? = some d)
    (hl : ∀ index current, task = .loop index current → index < h.loops.size)
    (hb : d.advance t h.book ≠ .blocked) : h.advanceTask t task ≠ .blocked := by
  cases task with
  | call c => cases hd
  | reader id goal got => cases hd
  | handler e => cases hd
  | delivering d' =>
    cases hd
    exact handlerMove_ne_blocked (deliver_ne_blocked hb)
  | loop index current =>
    cases hd
    rw [advanceTask, advanceLoop, Array.getElem?_eq_getElem (hl index _ rfl)]
    simp only
    split
    · simp
    · exact loopMove_ne_blocked (deliver_ne_blocked hb) index

/-- When no task can move, no chunk stands at a request that no longer waits. -/
theorem no_delivery_of_quiet (hn : h.IsNew) {past : List Action} (hq : (h.after past).Quiet)
    {id : RequestId} {r : Request} (hr : (h.after past).book.requests[id]? = some r)
    (hw : ¬r.Waiting) {d : Delivery} (hd : (h.after past).delivery? t = some d) :
    d.request ≠ id := by
  rintro rfl
  have hreach := Reached.after hn past
  obtain ⟨r', hr', hm⟩ := hreach.lined.listed hd
  have hsame : r' = r := Option.some.inj (hr'.symm.trans hr)
  subst hsame
  -- The head of the line can move, whoever that is.
  obtain ⟨t₀, ts, hline⟩ := List.exists_cons_of_ne_nil (List.ne_nil_of_mem hm)
  have hhead : r'.line.head? = some t₀ := by rw [hline, List.head?_cons]
  obtain ⟨d₀, h0, hid⟩ := hreach.lined.holds hr' (List.mem_of_mem_head? hhead)
  obtain ⟨task, ht, hdel⟩ := Option.bind_eq_some_iff.mp h0
  rw [← hid] at hr'
  have hmoves : d₀.advance t₀ (h.after past).book ≠ .blocked := by
    refine Delivery.advance_ne_blocked hr' hhead fun m rest n k hs => ?_
    obtain ⟨q, hq', -, ho⟩ := hreach.lined.placing h0 hs
    rw [hr'] at hq'
    cases hq'
    cases hc : r'.cancelled with
    | true => rfl
    | false => exact absurd ((hreach.sound.request _ _ hr').waiting_of_open hc ho) hw
  have hloops (index : Nat) (current : Option Delivery) (he : task = .loop index current) :
      index < (h.after past).loops.size := loop_lt hn (he ▸ ht)
  exact advanceTask_ne_blocked hdel hloops hmoves (blocked_of_quiet hq ht)

/-! ## Calls with a cancelled token -/

/-- Whether a call is with the shard, or on its way back from it. -/
def Sends (h : Hub) (t : TaskId) : Prop :=
  ∃ c id result, h.task? t = some (.call c) ∧ c.stage = .sending id result

def Held (h : Hub) (t : TaskId) : Prop :=
  ∃ c id, h.task? t = some (.call c) ∧ c.stage = .sending id none

section

variable {c : Call} {token : Token} (hg : c.goal = .members (some token)) (hd : c.deadline = none)
  (hc : h.tokenCancelled (some token) = true)
include hg hd hc

/-- What a call does next whose token is cancelled: it waits if it is held, and reads on for once if
its command has been sent just now; otherwise it ends, with the failure of the shard if there was
one. -/
theorem advanceCall_of_cancelled (t : TaskId) :
    (∃ id, c.stage = .sending id none ∧ h.advanceCall t c = .blocked) ∨
    (∃ id, h.advanceCall t c = .moved h { c with stage := .reading id [] }) ∨
    (∃ id result cause g, c.stage = .sending id result ∧
      h.advanceCall t c = .done g (.failed (.sendFailed cause))) ∨
    ∃ g, h.advanceCall t c = .done g (.failed .cancelled) := by
  have hwatch : h.tokenCancelled (watched c.goal) = true := by rw [hg]; exact hc
  unfold advanceCall
  cases hs : c.stage with
  | starting =>
    right; right; right
    refine ⟨h, ?_⟩
    simp only [advanceStart, if_pos hwatch]
  | sending id result =>
    cases result with
    | none =>
      left
      refine ⟨id, rfl, ?_⟩
      simp only [expire, hd]
    | some result =>
      cases result with
      | sent =>
        right; left
        refine ⟨id, ?_⟩
        simp only [afterSend, hg]
      | refused cause =>
        right; right; left
        exact ⟨id, _, cause, h.dropStream id, rfl, rfl⟩
  | reading id got =>
    right; right; right
    refine ⟨h.dropStream id, ?_⟩
    simp only [advanceReading, if_pos hwatch]

theorem held_of_blocked (hm : h.advanceCall t c = .blocked) : ∃ id, c.stage = .sending id none := by
  rcases advanceCall_of_cancelled hg hd hc t with
    ⟨id, hs, -⟩ | ⟨id, he⟩ | ⟨id, result, cause, g, -, he⟩ | ⟨g, he⟩
  · exact ⟨id, hs⟩
  · cases hm.symm.trans he
  · cases hm.symm.trans he
  · cases hm.symm.trans he

theorem not_sending_of_moved {g : Hub} {c' : Call} (hm : h.advanceCall t c = .moved g c')
    (id : RequestId) (result : Option SendResult) : c'.stage ≠ .sending id result := by
  rcases advanceCall_of_cancelled hg hd hc t with
    ⟨i, -, he⟩ | ⟨i, he⟩ | ⟨i, r, cause, g, -, he⟩ | ⟨g, he⟩
  · cases hm.symm.trans he
  · cases hm.symm.trans he
    simp
  · cases hm.symm.trans he
  · cases hm.symm.trans he

theorem outcome_of_done {g : Hub} {o : Outcome} (hm : h.advanceCall t c = .done g o) :
    o = .failed .cancelled ∨
      ∃ id result cause, c.stage = .sending id result ∧ o = .failed (.sendFailed cause) := by
  rcases advanceCall_of_cancelled hg hd hc t with
    ⟨i, -, he⟩ | ⟨i, he⟩ | ⟨i, result, cause, g, hs, he⟩ | ⟨g, he⟩
  · cases hm.symm.trans he
  · cases hm.symm.trans he
  · cases hm.symm.trans he
    exact .inr ⟨i, result, cause, hs, rfl⟩
  · cases hm.symm.trans he
    exact .inl rfl

end

theorem tokenCancelled_perform {token : Token} (hc : h.tokenCancelled (some token) = true)
    (a : Action) : (h.perform a).tokenCancelled (some token) = true := by
  simp only [tokenCancelled, Option.any_some, List.contains_iff_mem] at hc ⊢
  exact (h.perform_grows a).1 token hc

/-- A task that is there and is known to have been started as a call, sooner or later, is one. -/
theorem call_of_called (hn : h.IsNew) (later : List Action) {past : List Action}
    {goal : Call.Goal} (hc : .called t goal ∈ h.journal (later ++ past)) {task : Task}
    (ht : (h.after past).task? t = some task) : ∃ c, task = .call c ∧ c.goal = goal := by
  obtain ⟨os, hj, hch⟩ := h.changes_append past later
  have hcalled : .called t goal ∈ h.journal past := by
    rw [hj] at hc
    rcases List.mem_append.mp hc with hc | hc
    · exact hc
    · exact absurd (lt_of_task? ht) (Nat.not_lt_of_le (hch.started_le_of_called.2 hc))
  have hgoal := (Reached.after hn past).goal hcalled ht
  cases task with
  | call c => exact ⟨c, rfl, Option.some.inj hgoal⟩
  | _ => cases hgoal

structure Fated (start : Hub) (t : TaskId) (token : Token) (h : Hub) : Prop where
  token : h.tokenCancelled (some token) = true
  sends : h.Sends t → start.Sends t
  outcome : ∀ o, (t, o) ∈ h.finished → (t, o) ∈ start.finished ∨ o = .failed .cancelled ∨
    (start.Sends t ∧ ∃ cause, o = .failed (.sendFailed cause))

def Watches (h : Hub) (t : TaskId) (token : Token) : Prop :=
  ∀ task, h.task? t = some task →
    ∃ c, task = .call c ∧ c.goal = .members (some token) ∧ c.deadline = none

theorem Fated.sends_perform {start : Hub} {token : Token} (hf : Fated start t token h)
    (hcall : h.Watches t token) {a : Action} (hs : (h.perform a).Sends t) : start.Sends t := by
  obtain ⟨c', id, result, ht', hs'⟩ := hs
  by_cases ha : a = .segment t
  · subst ha
    cases h.segment_cases t with
    | waits hadv he =>
      rw [he] at ht'
      exact hf.sends ⟨c', id, result, ht', hs'⟩
    | goesOn task task' g ht hm hframe he hself =>
      obtain ⟨c, rfl, hg, hd⟩ := hcall task ht
      obtain ⟨c₁, rfl, hnext⟩ := advanceCall_of_moved hm
      rw [hself] at ht'
      cases ht'
      exact absurd hs' (not_sending_of_moved hg hd hf.token hnext id result)
    | ends task g o ht hm hframe he hself =>
      rw [hself] at ht'
      cases ht'
  · cases h.perform_task a t ha with
    | kept he => exact hf.sends ⟨c', id, result, he.symm.trans ht', hs'⟩
    | started task ht he hfresh =>
      rw [he] at ht'
      cases ht'
      cases hs'.symm.trans hfresh
    | released c i r ht hs => exact hf.sends ⟨c, i, none, ht, hs⟩
    | dropped ha he =>
      rw [he] at ht'
      cases ht'

theorem Fated.outcome_perform {start : Hub} {token : Token} (hf : Fated start t token h)
    (hcall : h.Watches t token) {a : Action} {o : Outcome} (ho : (t, o) ∈ (h.perform a).finished) :
    (t, o) ∈ start.finished ∨ o = .failed .cancelled ∨
      (start.Sends t ∧ ∃ cause, o = .failed (.sendFailed cause)) := by
  rcases h.finished_perform a with he | ⟨t', task, g, o', rfl, ht, hm, -, he, -⟩
  · rw [he] at ho
    exact hf.outcome o ho
  · rw [he] at ho
    rcases Array.mem_push.mp ho with ho | ho
    · exact hf.outcome o ho
    · cases ho
      obtain ⟨c, rfl, hg, hd⟩ := hcall task ht
      rcases outcome_of_done hg hd hf.token (advanceCall_of_done hm) with
        rfl | ⟨id, result, cause, hs, rfl⟩
      · exact .inr (.inl rfl)
      · exact .inr (.inr ⟨hf.sends ⟨c, id, result, ht, hs⟩, cause, rfl⟩)

theorem Fated.perform {start : Hub} {token : Token} (hf : Fated start t token h)
    (hcall : h.Watches t token) (a : Action) : Fated start t token (h.perform a) where
  token := tokenCancelled_perform hf.token a
  sends := hf.sends_perform hcall
  outcome _ := hf.outcome_perform hcall

theorem fated (hn : h.IsNew) {start : List Action} {token : Token}
    (htok : (h.after start).tokenCancelled (some token) = true) (rest later : List Action)
    (hc : .called t (.members (some token)) ∈ h.journal (later ++ (rest ++ start))) :
    Fated (h.after start) t token (h.after (rest ++ start)) := by
  -- The call may be started after any of the actions in between.
  induction rest generalizing later with
  | nil => exact ⟨htok, fun hs => hs, fun _ ho => .inl ho⟩
  | cons a rest ih =>
    have hc : .called t (.members (some token)) ∈ h.journal ((later ++ [a]) ++ (rest ++ start)) := by
      rw [List.append_assoc]
      exact hc
    refine (ih _ hc).perform (fun task ht => ?_) a
    obtain ⟨c, rfl, hg⟩ := call_of_called hn _ hc ht
    exact ⟨c, rfl, hg, (Reached.after hn _).deadline ht hg⟩

end Hub

/-- **A cancelled token resolves a call, unless the shard holds it.** Let the token that a call
watches be cancelled after `start`, and let no task be able to move after `rest` as well. Then either
the call is held by the shard, as it was sending already at `start`; or it is gone, by itself unless
it was dropped. If it has ended only after `start`, it was with a cancellation, or with the failure
of the shard if it was sending at `start`. Nothing of its request is registered, and no chunk stands
at its request. -/
theorem resolved_unless_held {h : Hub} (hn : h.IsNew) (start rest : List Action) {t : TaskId}
    {token : Token} (hc : .called t (.members (some token)) ∈ h.journal (rest ++ start))
    (htok : (h.after start).tokenCancelled (some token) = true)
    (hq : (h.after (rest ++ start)).Quiet) :
    ((h.after start).Sends t ∧ (h.after (rest ++ start)).Held t) ∨
    ((h.after (rest ++ start)).task? t = none ∧
      ((∃ o, (t, o) ∈ (h.after (rest ++ start)).finished) ∨ .dropTask t ∈ rest ++ start) ∧
      (∀ o, (t, o) ∈ (h.after (rest ++ start)).finished → (t, o) ∈ (h.after start).finished ∨
        o = .failed .cancelled ∨
        ((h.after start).Sends t ∧ ∃ cause, o = .failed (.sendFailed cause))) ∧
      ∀ id, .made t id ∈ h.journal (rest ++ start) →
        (∀ n, (h.after (rest ++ start)).book.registry.get? n ≠ some id) ∧
        ∀ t' d, (h.after (rest ++ start)).delivery? t' = some d → d.request ≠ id) := by
  have hr := Reached.after hn (rest ++ start)
  have hf : Hub.Fated (h.after start) t token (h.after (rest ++ start)) :=
    Hub.fated hn htok rest [] hc
  cases ht : (h.after (rest ++ start)).task? t with
  | some task =>
    left
    obtain ⟨c, rfl, hg⟩ := Hub.call_of_called hn [] hc ht
    obtain ⟨id, hs⟩ := Hub.held_of_blocked hg (hr.deadline ht hg) hf.token
      (Hub.advanceCall_of_blocked (Hub.blocked_of_quiet hq ht))
    exact ⟨hf.sends ⟨c, id, none, ht, hs⟩, c, id, ht, hs⟩
  | none =>
    right
    refine ⟨rfl, Hub.ended_or_dropped hn (hr.called_lt hc) ht, hf.outcome, fun id hm => ?_⟩
    refine ⟨hr.not_registered hc hm ht, fun t' d hd => ?_⟩
    obtain ⟨r, hq'⟩ : ∃ r, (h.after (rest ++ start)).book.requests[id]? = some r :=
      ⟨_, Array.getElem?_eq_getElem (hr.made_lt hm).2⟩
    refine Hub.no_delivery_of_quiet hn hq hq' (fun hw => ?_) hd
    have hst := hr.held_of_waiting hc hm hq' hw
    have hgone : (h.after (rest ++ start)).scene.tasks t = none := ht
    simp [Scene.stream?, hgone] at hst

/-- The token of a call is cancelled while the call waits: for the shard if that holds commands, else
for members. -/
def cancelledWaiting : List Action := [.cancelToken "t", .segment 0, .collect (.all ⟨1⟩) "t"]

theorem cancelledWaiting_resolved :
    .called 0 (.members (some "t")) ∈
        (Hub.sample .accept).journal ([.segment 0, .segment 0] ++ cancelledWaiting) ∧
      ((Hub.sample .accept).after cancelledWaiting).tokenCancelled (some "t") = true ∧
      ((Hub.sample .accept).after ([.segment 0, .segment 0] ++ cancelledWaiting)).Quiet ∧
      ((Hub.sample .accept).after ([.segment 0, .segment 0] ++ cancelledWaiting)).task? 0 = none ∧
      ∀ n, ((Hub.sample .accept).after
        ([.segment 0, .segment 0] ++ cancelledWaiting)).book.registry.get? n ≠ some 0 := by
  have hc : .called 0 (.members (some "t")) ∈
      (Hub.sample .accept).journal ([.segment 0, .segment 0] ++ cancelledWaiting) :=
    List.mem_of_mem_head? rfl
  have hq : ((Hub.sample .accept).after ([.segment 0, .segment 0] ++ cancelledWaiting)).Quiet := by
    apply Hub.quiet_of_lt
    intro t ht
    obtain rfl := Nat.lt_one_iff.mp ht
    rfl
  have hm : .made 0 0 ∈
      (Hub.sample .accept).journal ([.segment 0, .segment 0] ++ cancelledWaiting) :=
    List.mem_of_mem_tail (List.mem_of_mem_head? rfl)
  refine ⟨hc, rfl, hq, ?_⟩
  rcases resolved_unless_held (Hub.sample_isNew .accept) cancelledWaiting [.segment 0, .segment 0]
    hc rfl hq with ⟨-, c, id, ht, -⟩ | ⟨hnone, -, -, hclear⟩
  · cases ht
  · exact ⟨hnone, (hclear 0 hm).1⟩

/-- A cancelled token does not resolve every call: a shard may hold the command for good. -/
theorem not_always_resolved :
    ¬∀ (h : Hub) (past : List Action) (t : TaskId) (token : Token), h.IsNew →
      .called t (.members (some token)) ∈ h.journal past →
      (h.after past).tokenCancelled (some token) = true → (h.after past).Quiet →
      (h.after past).task? t = none := by
  intro hall
  have hq : ((Hub.sample .hold).after cancelledWaiting).Quiet := by
    apply Hub.quiet_of_lt
    intro t ht
    obtain rfl := Nat.lt_one_iff.mp ht
    rfl
  have hnone := hall (.sample .hold) cancelledWaiting 0 "t" (Hub.sample_isNew .hold)
    (List.mem_of_mem_head? rfl) rfl hq
  cases hnone

end Rollcall
