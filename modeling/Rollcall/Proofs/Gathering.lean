import Rollcall.Proofs.Calls
import Rollcall.Proofs.Segment

/-!
# Calls for members are all or nothing

A call for members that ends with members ends with all that its request ever yields, and the
request is complete; a call that ends in any other way leaves no registered request behind. There
are seven ways for a call to end (`Hub.ending`). Main statement: `members_all_or_nothing`.
-/

namespace Rollcall

/-! ## Complete requests -/

theorem Delivery.Turn.placed_of_closed {t : TaskId} {declared : UInt32} {r r' : Request}
    {stage : Stage} {out : Stage ⊕ Delivered} (h : Turn t declared r stage r' out)
    (hc : r.senderOpen = false) (hs : ∀ m rest n k, stage ≠ .placing m rest n k) :
    r'.channel.placed = r.channel.placed := by
  cases h with
  | first head sender => rfl
  | late => rfl
  | refused => rfl
  | nothing head sender =>
    rw [hc] at sender
    cases sender
  | next => exact absurd rfl (hs _ _ _ _)
  | cut => exact absurd rfl (hs _ _ _ _)
  | last => exact absurd rfl (hs _ _ _ _)

def Scene.Completed (s : Scene) (id : RequestId) (ms : List Member) : Prop :=
  ∃ r, s.book.requests[id]? = some r ∧ r.complete = true ∧ r.channel.placed = ms

theorem Reached.completed {j os : List Occurrence} {s s' : Scene} (hr : Reached j s)
    (h : Change s os s') {id : RequestId} {ms : List Member} (hq : s.Completed id ms) :
    s'.Completed id ms := by
  obtain ⟨r, hq, hc, rfl⟩ := hq
  have hclosed := (hr.sound.request id r hq).sender_of_complete hc
  obtain ⟨q, hq', hl⟩ := hr.later h id r hq
  refine ⟨q, hq', hl.complete hc, ?_⟩
  obtain ⟨r', hr', hsame | ⟨t, d, out, hd, rfl, hturn⟩⟩ := hr.places h hq
  · rw [hq'] at hr'
    cases hr'
    exact hsame
  · rw [hq'] at hr'
    cases hr'
    refine hturn.placed_of_closed hclosed fun m rest n k hs => ?_
    obtain ⟨r₀, h0, -, ho⟩ := hr.lined.placing hd hs
    rw [hq] at h0
    cases h0
    rw [hclosed] at ho
    cases ho

theorem Book.isCancelled_eq {b : Book} {id : RequestId} {r : Request}
    (hq : b.requests[id]? = some r) : b.isCancelled id = r.cancelled := by
  unfold isCancelled
  rw [hq]

theorem Book.exists_of_isCancelled {b : Book} {id : RequestId} (h : b.isCancelled id = true) :
    ∃ r, b.requests[id]? = some r ∧ r.cancelled = true := by
  cases hq : b.requests[id]? with
  | none => simp [isCancelled, hq] at h
  | some r => exact ⟨r, rfl, (isCancelled_eq hq).symm.trans h⟩

theorem Hub.isCancelled_after {h : Hub} (hn : h.IsNew) {past : List Action} {id : RequestId}
    (hc : (h.after past).isCancelled id = true) (later : List Action) :
    (h.after (later ++ past)).isCancelled id = true := by
  have stays := Hub.keep (P := fun s => ∃ r, s.book.requests[id]? = some r ∧ r.cancelled = true) hn
    (Book.exists_of_isCancelled hc) (fun hr h ⟨r, hq, hd⟩ => by
      obtain ⟨r', hq', hl⟩ := hr.later h id r hq
      exact ⟨r', hq', hl.cancelled hd⟩) later
  obtain ⟨r, hq, hd⟩ := stays
  exact (Book.isCancelled_eq hq).trans hd

/-! ## How a call ends -/

namespace Reached

variable {j : List Occurrence} {s : Scene} {t : TaskId} {c : Call} {id : RequestId}

/-- A call that finds its stream at an end, though its request is not cancelled, has gathered all
members that were placed, and the request is complete. -/
theorem gathered_all (hr : Reached j s) (ht : s.tasks t = some (.call c)) {got : List Member}
    (hs : c.stage = .reading id got) (he : (s.book.recv id).1 = .ended)
    (hd : s.book.isCancelled id = false) : s.Completed id got.reverse := by
  have hold : s.Holds (some t) id :=
    (Scene.stream?_of_task ht).trans (by simp [Task.stream?, hs])
  obtain ⟨r, hq, hl⟩ := Option.map_eq_some_iff.mp (hr.owned.listening hold)
  rw [Book.isCancelled_eq hq] at hd
  rw [Book.recv_eq hq, Request.reading, if_neg (by simp [hd])] at he
  -- The stream is read, so it can only be at an end because the sender is closed.
  have hunread : r.channel.unread = [] ∧ r.senderOpen = false := by
    cases hu : r.channel.unread with
    | cons m ms => simp [hu] at he
    | nil => simpa [hu, Channel.isListening, hl] using he
  have hcomplete : r.complete = true := by
    cases hc : r.complete with
    | true => rfl
    | false => exact absurd ⟨hc, hd⟩ ((hr.sound.request id r hq).of_closed hunread.2)
  have hread : r.channel.read = got :=
    (hr.read_eq hq).trans ((hr.gathered ht).1 id got hs).symm
  refine ⟨r, hq, hcomplete, ?_⟩
  rw [Channel.placed, hunread.1, hread, List.append_nil]

theorem not_registered (hr : Reached j s) {token : Option Token}
    (hc : .called t (.members token) ∈ j) (hm : .made t id ∈ j) (ht : s.tasks t = none)
    (n : String) : s.book.registry.get? n ≠ some id := by
  intro hn
  obtain ⟨r, hq, -, hw⟩ := (hr.sound.registered n id).mp hn
  have hst := hr.held_of_waiting hc hm hq hw
  simp [Scene.stream?, ht] at hst

end Reached

namespace Hub

variable {h h' : Hub} {t : TaskId} {c : Call} {o : Outcome}

theorem advanceCall_of_blocked (hm : h.advanceTask t (.call c) = .blocked) :
    h.advanceCall t c = .blocked := by
  rw [advanceTask] at hm
  cases hc : h.advanceCall t c with
  | blocked => rfl
  | moved g c' => simp [hc] at hm
  | done g o => simp [hc] at hm

theorem advanceCall_of_moved {task : Task} (hm : h.advanceTask t (.call c) = .moved h' task) :
    ∃ c', task = .call c' ∧ h.advanceCall t c = .moved h' c' := by
  rw [advanceTask] at hm
  cases hc : h.advanceCall t c with
  | blocked => simp [hc] at hm
  | moved g c' =>
    simp only [hc] at hm
    cases hm
    exact ⟨c', rfl, rfl⟩
  | done g o => simp [hc] at hm

theorem advanceCall_of_done (hm : h.advanceTask t (.call c) = .done h' o) :
    h.advanceCall t c = .done h' o := by
  rw [advanceTask] at hm
  cases hc : h.advanceCall t c with
  | blocked => simp [hc] at hm
  | moved g c' => simp [hc] at hm
  | done g o =>
    simp only [hc] at hm
    cases hm
    rfl

/-- How a call hears what became of its command: it has been told, or it makes its request and is told
at once. -/
inductive Hears (h : Hub) (t : TaskId) (c : Call) (id : RequestId) (result : SendResult) : Prop
  | told (hs : c.stage = .sending id (some result))
  | atOnce {g : Hub} (hs : c.stage = .starting) (htoken : h.tokenCancelled (watched c.goal) = false)
      (hst : h.start t c.inquiry = (.sent id (some result), g))

inductive Ending (h : Hub) (t : TaskId) (c : Call) (g : Hub) (o : Outcome) : Prop
  | expired (d : Deadline) (hd : c.deadline = some d) (hdue : d.due.nanos ≤ h.now.nanos)
      (ho : o = .failed (.timedOut d.after))
  | cancelled (ho : o = .failed .cancelled)
  | refused (f : Failure) (hs : c.stage = .starting) (hst : h.start t c.inquiry = (.failed f, g))
      (ho : o = .failed f)
  | oversized (hs : c.stage = .starting) (hst : h.start t c.inquiry = (.oversized, g))
      (ho : o = .oversized)
  | unsent (id : RequestId) (cause : TransportFailure) (hh : h.Hears t c id (.refused cause))
      (ho : o = .failed (.sendFailed cause))
  | opened (id : RequestId) (hg : c.goal = .stream) (hh : h.Hears t c id .sent)
      (ho : o = .stream id (g.book.nonceOf id))
  | gathered (id : RequestId) (got : List Member) (hs : c.stage = .reading id got)
      (htoken : h.tokenCancelled (watched c.goal) = false) (hend : (h.book.recv id).1 = .ended)
      (hlive : h.book.isCancelled id = false) (ho : o = .members got.reverse)
      (he : g = h.dropStream id)

theorem ending_expire (t : TaskId) (hm : h.expire c = .done h' o) : h.Ending t c h' o := by
  unfold expire at hm
  split at hm
  · cases hm
  rename_i d hd
  split at hm
  · cases hm
  rename_i hdue
  cases hm
  exact .expired d hd (Nat.le_of_not_lt hdue) rfl

theorem ending_afterSend {h₀ : Hub} {c₀ : Call} (hgoal : c₀.goal = c.goal) {id : RequestId}
    {result : SendResult} (hh : h.Hears t c id result)
    (hm : h₀.afterSend c₀ id result = .done h' o) : h.Ending t c h' o := by
  unfold afterSend at hm
  cases result with
  | refused cause =>
    cases hm
    exact .unsent id cause hh rfl
  | sent =>
    simp only [hgoal] at hm
    split at hm
    · rename_i hg
      cases hm
      exact .opened id hg hh rfl
    · cases hm

theorem ending_advanceStart (hs : c.stage = .starting) (hm : h.advanceStart t c = .done h' o) :
    h.Ending t c h' o := by
  unfold advanceStart at hm
  split at hm
  · cases hm
    exact .cancelled rfl
  rename_i htoken
  split at hm
  · rename_i f g hst
    cases hm
    exact .refused f hs hst rfl
  · rename_i g hst
    cases hm
    exact .oversized hs hst rfl
  · cases hm
  · rename_i id result g hst
    exact ending_afterSend (c.timed_goal h.now)
      (.atOnce hs (Bool.not_eq_true _ ▸ htoken) hst) hm

theorem ending_advanceReading (t : TaskId) {id : RequestId} {got : List Member}
    (hs : c.stage = .reading id got) (hm : h.advanceReading c id got = .done h' o) :
    h.Ending t c h' o := by
  unfold advanceReading at hm
  split at hm
  · cases hm
    exact .cancelled rfl
  rename_i htoken
  split at hm
  · cases hm
  · cases hm
  · rename_i b hb
    split at hm
    · cases hm
      exact .cancelled rfl
    · rename_i hlive
      cases hm
      exact .gathered id got hs (by simpa using htoken) (by rw [hb]) (by simpa using hlive) rfl rfl

/-- **Every call that ends ends in one of these ways.** -/
theorem ending (hm : h.advanceCall t c = .done h' o) : h.Ending t c h' o := by
  unfold advanceCall at hm
  simp only at hm
  split at hm
  · exact ending_expire t hm
  cases hs : c.stage with
  | starting =>
    rw [hs] at hm
    exact ending_advanceStart hs hm
  | sending id result =>
    rw [hs] at hm
    cases result with
    | none => cases hm
    | some result => exact ending_afterSend rfl (.told hs) hm
  | reading id got =>
    rw [hs] at hm
    exact ending_advanceReading t hs hm

/-- A call for members ends with members only when it finds its stream at an end that is not a
cancellation; otherwise it ends with a failure, or without having been sent. -/
theorem advanceCall_done {token : Option Token} (hg : c.goal = .members token)
    (hm : h.advanceCall t c = .done h' o) :
    (∃ id got, c.stage = .reading id got ∧ h.tokenCancelled token = false ∧
      (h.book.recv id).1 = .ended ∧ h.book.isCancelled id = false ∧
      o = .members got.reverse ∧ h' = h.dropStream id) ∨ o = .oversized ∨ ∃ f, o = .failed f := by
  cases ending hm with
  | expired d hd hdue ho => exact .inr (.inr ⟨_, ho⟩)
  | cancelled ho => exact .inr (.inr ⟨_, ho⟩)
  | refused f hs hst ho => exact .inr (.inr ⟨_, ho⟩)
  | oversized hs hst ho => exact .inr (.inl ho)
  | unsent id cause hh ho => exact .inr (.inr ⟨_, ho⟩)
  | opened id hstream => cases hg.symm.trans hstream
  | gathered id got hs htoken hend hlive ho he =>
    rw [hg] at htoken
    exact .inl ⟨id, got, hs, htoken, hend, hlive, ho, he⟩

end Hub

theorem Hub.ended_call {h : Hub} (hn : h.IsNew) {past : List Action} {a : Action} {t : TaskId}
    {token : Option Token} {o : Outcome} (hc : .called t (.members token) ∈ h.journal past)
    (ho : (h.after (a :: past)).finished = (h.after past).finished.push (t, o)) :
    ∃ c h', a = .segment t ∧ (h.after past).task? t = some (.call c) ∧ c.goal = .members token ∧
      (h.after past).advanceCall t c = .done h' o ∧ h'.frame = (h.after past).frame ∧
      (h.after past).perform (.segment t) =
        { h'.setTask t none with finished := (h.after past).finished.push (t, o) } ∧
      (h.after (.segment t :: past)).task? t = none := by
  rcases (h.after past).finished_perform a with
    hsame | ⟨t', task, h', o', rfl, ht, hm, hf, he, hself⟩
  · have hsize := congrArg Array.size (hsame.symm.trans ho)
    rw [Array.size_push] at hsize
    exact absurd hsize (Nat.ne_of_lt (Nat.lt_succ_self _))
  · rw [after, he] at ho
    have hpair : (t', o') = (t, o) := (Array.push_eq_push.mp ho).1
    cases hpair
    have hgoal := (Reached.after hn past).goal hc ht
    cases task with
    | call c =>
      exact ⟨c, h', rfl, ht, Option.some.inj hgoal, advanceCall_of_done hm, hf, he, hself⟩
    | _ => cases hgoal

/-- **A call for members gives all or nothing.** Let a call end at some action. If it gives members,
these are all that is ever placed in the channel of its request, which is complete then and never
cancelled, before or after, and the token of the call is not cancelled. If it ends in any other way,
no request of the call is registered. So a call whose request is ever cancelled gives no members. -/
theorem members_all_or_nothing {h : Hub} (hn : h.IsNew) (past : List Action) (a : Action)
    {t : TaskId} {token : Option Token} {o : Outcome}
    (hc : .called t (.members token) ∈ h.journal past)
    (ho : (h.after (a :: past)).finished = (h.after past).finished.push (t, o)) :
    ((∃ ms id, o = .members ms ∧ .made t id ∈ h.journal past ∧
        (h.after (a :: past)).tokenCancelled token = false ∧
        (∀ earlier, earlier <:+ past → (h.after earlier).isCancelled id = false) ∧
        ∀ later, ∃ r, (h.after (later ++ a :: past)).book.requests[id]? = some r ∧
          r.complete = true ∧ r.cancelled = false ∧ r.channel.placed = ms) ∨
      ((o = .oversized ∨ ∃ f, o = .failed f) ∧ ∀ id, .made t id ∈ h.journal (a :: past) →
        ∀ n, (h.after (a :: past)).book.registry.get? n ≠ some id)) ∧
    ∀ earlier id, earlier <:+ a :: past → .made t id ∈ h.journal (a :: past) →
      (h.after earlier).isCancelled id = true → ∀ ms, o ≠ .members ms := by
  have hr := Reached.after hn past
  obtain ⟨c, h', rfl, ht, hg, hm, -, he, hnone⟩ := Hub.ended_call hn hc ho
  rcases Hub.advanceCall_done hg hm with ⟨id, got, hs, htok, hend, hlive, rfl, rfl⟩ | hfail
  · have hmade : .made t id ∈ h.journal past := (hr.made_iff ht id).mpr (by simp [Task.stream?, hs])
    have before : ∀ earlier, earlier <:+ past → (h.after earlier).isCancelled id = false := by
      rintro earlier ⟨later, rfl⟩
      by_contra hd
      cases (Hub.isCancelled_after hn (by simpa using hd) later).symm.trans hlive
    have whole (later : List Action) : ∃ r,
        (h.after (later ++ .segment t :: past)).book.requests[id]? = some r ∧
          r.complete = true ∧ r.cancelled = false ∧ r.channel.placed = got.reverse := by
      obtain ⟨r, hq, hcomplete, hplaced⟩ := Hub.keep (P := fun s => s.Completed id got.reverse) hn
        (hr.gathered_all ht hs hend hlive) (fun hr hc => hr.completed hc) (later ++ [.segment t])
      rw [List.append_assoc, List.singleton_append] at hq
      have hsound := (Reached.after hn (later ++ .segment t :: past)).sound.request id r hq
      exact ⟨r, hq, hcomplete, hsound.cancelled_of_complete hcomplete, hplaced⟩
    refine ⟨.inl ⟨_, id, rfl, hmade, ?_, before, whole⟩, fun earlier i hsuf hi hdead => ?_⟩
    · rw [Hub.after, he]
      exact htok
    · obtain rfl := (Reached.after hn (.segment t :: past)).made_unique
        (List.mem_append_left _ hmade) hi
      rcases List.suffix_cons_iff.mp hsuf with rfl | hsuf
      · obtain ⟨r, hq, -, hd, -⟩ := whole []
        cases hd.symm.trans ((Book.isCancelled_eq hq).symm.trans hdead)
      · rw [before earlier hsuf] at hdead
        cases hdead
  · refine ⟨.inr ⟨hfail, fun id hmade => ?_⟩, fun earlier id _ _ _ ms => ?_⟩
    · exact (Reached.after hn (.segment t :: past)).not_registered (List.mem_append_left _ hc) hmade
        hnone
    · rcases hfail with rfl | ⟨f, rfl⟩ <;> simp

/-- A call that ends when it runs once more: its request is complete, and all members are read. -/
def lastRead : List Action :=
  [.segment 0, .segment 1, .segment 1, .segment 1, .dispatch (.chunk (.sample [.sample "a"])),
    .segment 0, .collect (.all ⟨1⟩) "t"]

theorem lastRead_all :
    ∃ id : RequestId, ∀ later : List Action, ∃ r,
      ((Hub.sample .accept).after (later ++ .segment 0 :: lastRead)).book.requests[id]? = some r ∧
        r.complete = true ∧ r.cancelled = false ∧ r.channel.placed = [Member.sample "a"] := by
  have hc : .called 0 (.members (some "t")) ∈ (Hub.sample .accept).journal lastRead :=
    List.mem_of_mem_head? rfl
  have ho : ((Hub.sample .accept).after (.segment 0 :: lastRead)).finished =
      ((Hub.sample .accept).after lastRead).finished.push (0, .members [.sample "a"]) := rfl
  rcases (members_all_or_nothing (Hub.sample_isNew .accept) lastRead _ hc ho).1 with
    ⟨ms, id, hms, -, -, -, hlater⟩ | ⟨hfail, -⟩
  · cases hms
    exact ⟨id, hlater⟩
  · simp at hfail

end Rollcall
