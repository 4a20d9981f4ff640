import Rollcall.Proofs.Change

/-!
# What actions change

Every action, a segment of a task included, is a series of changes of the scene, and the journal
tells of each (`perform_changes`). So every history leads to a scene that is reached
(`Reached.after`). What no move of a task changes is changed by few actions only (`reframes`).
-/

namespace Rollcall

def Move.All {σ τ ρ : Type} (P : σ → Prop) : Move σ τ ρ → Prop
  | .blocked => True
  | .moved s _ => P s
  | .done s _ => P s

/-! ## Scenes of hubs -/

theorem Book.recv_unread {b : Book} {id : RequestId} (h : ∀ m, (b.recv id).1 ≠ .member m) :
    (b.recv id).2 = b := by
  cases hr : b.requests[id]? with
  | none => rw [recv_none hr]
  | some r =>
    rw [recv_eq hr] at h ⊢
    have hsame : r.afterReading = r := by
      unfold Request.afterReading
      split
      · rfl
      · rename_i hc
        simp only [Request.reading, hc] at h
        cases hu : r.channel.unread with
        | nil => simp [Channel.take, hu]
        | cons m ms => rw [hu] at h; exact absurd rfl (h m)
    have harr : b.requests.modify id Request.afterReading = b.requests := by
      apply Array.ext_getElem?
      intro i
      rw [Array.getElem?_modify]
      by_cases hi : id = i
      · subst hi; simp [hr, hsame]
      · simp [hi]
    simp only [Book.modify, harr]

namespace Hub

variable {h h' : Hub} {t : TaskId}

theorem lt_of_task? {task : Task} (ht : h.task? t = some task) : t < h.tasks.size := by
  rcases Nat.lt_or_ge t h.tasks.size with hlt | hge
  · exact hlt
  · rw [task?, Array.getElem?_eq_none hge] at ht
    cases ht

theorem scene_setTask {task : Task} (ht : h.task? t = some task) (hs : h'.tasks = h.tasks)
    (x : Option Task) : (h'.setTask t x).scene = h'.scene.set t x := by
  have hlt := lt_of_task? ht
  simp only [scene, Scene.set, setTask, Array.size_setIfInBounds]
  congr 1
  funext i
  simp only [task?, Function.update_apply, Array.getElem?_setIfInBounds]
  by_cases hi : i = t
  · subst hi; simp [hs, hlt]
  · simp [hi, Ne.symm hi]

theorem scene_spawn (h : Hub) (task : Task) : (h.spawn task).2.scene = h.scene.spawn task := by
  simp only [scene, Scene.spawn, spawn, Array.size_push]
  congr 1
  funext i
  simp only [task?, Function.update_apply, Array.getElem?_push]
  by_cases hi : i = h.tasks.size
  · simp [hi]
  · simp [hi]

theorem set_set (s : Scene) (t : TaskId) (x y : Option Task) : (s.set t x).set t y = s.set t y := by
  simp only [Scene.set, Function.update_idem]

theorem set_self {s : Scene} {x : Option Task} (h : s.tasks t = x) : s.set t x = s := by
  simp only [Scene.set, ← h, Function.update_eq_self]

/-! ## Segments -/

structure Frame where
  tasks : Array (Option Task)
  finished : Array (TaskId × Outcome)
  tokens : List Token
  loops : Nat
  limits : Limits
  now : Duration

def frame (h : Hub) : Frame :=
  ⟨h.tasks, h.finished, h.cancelledTokens, h.loops.size, h.limits, h.now⟩

theorem frame_withLoops (h : Hub) (index : Nat) (f : EventLoop → EventLoop) :
    frame { h with loops := h.loops.modify index f } = h.frame := by
  simp only [frame, Array.size_modify]

theorem frame_stopLoop (h : Hub) (index : Nat) : (h.stopLoop index).frame = h.frame :=
  h.frame_withLoops index _

/-- What a move of task `t` has to be for the journal to tell of it: the changes that are written
down lead from the scene `s` to where the move ends. A task that goes on goes on as `wrap` says, one
that is done is followed by `last`. -/
def Leads {τ ρ : Type} (h : Hub) (s : Scene) (t : TaskId) (os : List Occurrence) (wrap : τ → Task)
    (last : Option Task) : Move Hub τ ρ → Prop
  | .blocked => os = []
  | .moved h' x => h'.frame = h.frame ∧ Changes s os (h'.scene.set t (some (wrap x)))
  | .done h' _ => h'.frame = h.frame ∧ Changes s os (h'.scene.set t last)

theorem Leads.of_frame {τ ρ : Type} {s : Scene} {os : List Occurrence} {wrap : τ → Task}
    {last : Option Task} {m : Move Hub τ ρ} (hl : Leads h' s t os wrap last m)
    (hf : h'.frame = h.frame) : Leads h s t os wrap last m := by
  cases m with
  | blocked => exact hl
  | moved h'' x => exact ⟨hl.1.trans hf, hl.2⟩
  | done h'' o => exact ⟨hl.1.trans hf, hl.2⟩

theorem Leads.after {τ ρ : Type} {s s' : Scene} {os os' : List Occurrence} {wrap : τ → Task}
    {last : Option Task} {m : Move Hub τ ρ} (hl : Leads h' s' t os' wrap last m)
    (hf : h'.frame = h.frame) (hc : Changes s os s') (hm : m ≠ .blocked) :
    Leads h s t (os ++ os') wrap last m := by
  cases m with
  | blocked => exact absurd rfl hm
  | moved h'' x => exact ⟨hl.1.trans hf, hc.trans hl.2⟩
  | done h'' o => exact ⟨hl.1.trans hf, hc.trans hl.2⟩

theorem yields_of_member {id : RequestId} {m : Member} {b : Book}
    (hb : h.book.recv id = (.member m, b)) : h.yields id = [.yielded id m] := by
  rw [yields, hb]

theorem yields_of_pending {id : RequestId} {b : Book} (hb : h.book.recv id = (.pending, b)) :
    h.yields id = [] := by
  rw [yields, hb]

theorem yields_of_ended {id : RequestId} {b : Book} (hb : h.book.recv id = (.ended, b)) :
    h.yields id = [] := by
  rw [yields, hb]

section
variable {c : Call} (ht : h.task? t = some (.call c))
include ht

theorem leave_call {id : RequestId} (hs : (Task.call c).stream? = some id) :
    Changes h.scene [] ((h.dropStream id).scene.set t none) :=
  .one (.leave (s := h.scene) ht hs)

theorem stop_call (hs : c.stage = .starting) : Changes h.scene [] (h.scene.set t none) :=
  .one (.stop (s := h.scene) ht ⟨by simp [Task.stream?, hs], rfl⟩)

omit ht in
theorem afterSend_leads {s : Scene} {id : RequestId} {result : SendResult}
    (hs : s = h.scene.set t (some (.call { c with stage := .sending id (some result) }))) :
    Leads h s t [] .call none (h.afterSend c id result) := by
  have hst : s.tasks t = some (.call { c with stage := .sending id (some result) }) := by
    rw [hs]; simp [Scene.set]
  subst hs
  unfold afterSend
  split
  · refine ⟨rfl, ?_⟩
    have hstream (res : Option SendResult) :
        (Task.call { c with stage := .sending id res }).stream? = some id := rfl
    have hch := Changes.one (.leave hst (hstream _))
    exact hch.to (set_set { h.scene with book := h.book.dropStream id } t _ none)
  · split
    · rename_i hg
      refine ⟨rfl, ?_⟩
      have hch := Changes.one (.handOut hst rfl hg)
      exact hch.to (set_set { h.scene with streams := h.streams ++ [id] } t _ none)
    · rename_i token hg
      refine ⟨rfl, ?_⟩
      have hch := Changes.one (.begin hst rfl hg)
      exact hch.to (set_set h.scene t _ _)

omit ht in
theorem afterSend_ne_blocked (h : Hub) (c : Call) (id : RequestId) (result : SendResult) :
    h.afterSend c id result ≠ .blocked := by
  unfold afterSend
  split
  · exact nofun
  · split <;> exact nofun

omit ht in
theorem scene_handOver (h : Hub) (i : Nat) (s : Shard) (cmd : MemberCommand) :
    (h.handOver t i s cmd).2.scene = h.scene ∧ (h.handOver t i s cmd).2.frame = h.frame := by
  unfold handOver
  simp only
  split <;> exact ⟨rfl, rfl⟩

omit ht in
theorem start_cases (h : Hub) (t : TaskId) (i : Inquiry) :
    ((∀ id res, (h.start t i).1 ≠ .sent id res) ∧ (h.start t i).2.frame = h.frame ∧
      ∃ nonces, (h.start t i).2.scene =
        { h.scene with book := { h.book with nonces } }) ∨
    ∃ id res build b, (h.start t i).1 = .sent id res ∧ (h.start t i).2.frame = h.frame ∧
      (∀ nonce, (build nonce : Request).Fresh ∧ (build nonce).nonce = nonce) ∧
      (∀ nonce, (build nonce).channel.capacity = h.limits.capacity.toNat) ∧
      h.book.registerWith build = (some id, b) ∧
      (h.start t i).2.scene = { h.scene with book := b } := by
  unfold start
  split
  · exact .inl ⟨fun _ _ => nofun, rfl, h.book.nonces, rfl⟩
  split
  · exact .inl ⟨fun _ _ => nofun, rfl, h.book.nonces, rfl⟩
  split
  · exact .inl ⟨fun _ _ => nofun, rfl, h.book.nonces, rfl⟩
  split
  · exact .inl ⟨fun _ _ => nofun, rfl, h.book.nonces, rfl⟩
  split
  · exact .inl ⟨fun _ _ => nofun, rfl, h.book.nonces, rfl⟩
  simp only
  split
  · rename_i book hb
    obtain ⟨nonces, rfl⟩ := Book.registerWith_none hb
    exact .inl ⟨fun _ _ => nofun, rfl, nonces, rfl⟩
  · rename_i id book hb
    obtain ⟨hsc, hframe⟩ := scene_handOver (t := t) { h with book } _ _ _
    exact .inr ⟨id, _, _, book, rfl, hframe, fun nonce => ⟨⟨nonce, _, _, _, rfl⟩, rfl⟩,
      fun _ => rfl, hb, hsc⟩

theorem advanceStart_leads (hs : c.stage = .starting) :
    Leads h h.scene t (h.callOccurrences t c) .call none (h.advanceStart t c) := by
  unfold advanceStart callOccurrences
  rw [hs]
  simp only
  split
  · exact ⟨rfl, stop_call ht hs⟩
  have hidle : (Task.call c).Idle := ⟨by simp [Task.stream?, hs], rfl⟩
  have drawn (nonces : NonceSource) : Changes h.scene []
      ({ h.scene with book := { h.book with nonces } }.set t none) :=
    .two (.draw (s := h.scene) nonces)
      (.stop (s := { h.scene with book := { h.book with nonces } }) ht hidle)
  rcases start_cases h t c.inquiry with
    ⟨hne, hts, nonces, hsc⟩ | ⟨id, res, build, b, h1, hts, hf, -, hb, hsc⟩
  · generalize h.start t c.inquiry = x at hne hts hsc
    obtain ⟨started, h'⟩ := x
    cases started with
    | failed f => exact ⟨hts, by rw [hsc]; exact drawn nonces⟩
    | oversized => exact ⟨hts, by rw [hsc]; exact drawn nonces⟩
    | sent id res => exact absurd rfl (hne id res)
  · generalize h.start t c.inquiry = x at h1 hts hsc
    obtain ⟨started, h'⟩ := x
    subst h1
    have made := Changes.one (.make (s := h.scene) ht hs hf hb h.now res)
    cases res with
    | none =>
      refine ⟨hts, made.to ?_⟩
      rw [hsc]
    | some result =>
      have hscene : h'.scene.set t
            (some (.call { c.timed h.now with stage := .sending id (some result) })) =
          Scene.set { h.scene with book := b } t
            (some (.call { c.timed h.now with stage := .sending id (some result) })) := by rw [hsc]
      exact (afterSend_leads rfl).after hts (made.to hscene.symm)
        (afterSend_ne_blocked h' _ id result)

theorem advanceReading_leads {id : RequestId} {got : List Member} (hs : c.stage = .reading id got) :
    Leads h h.scene t (h.callOccurrences t c) .call none (h.advanceReading c id got) := by
  have hstream : (Task.call c).stream? = some id := by simp [Task.stream?, hs]
  unfold advanceReading callOccurrences
  rw [hs]
  simp only
  split
  · exact ⟨rfl, leave_call ht hstream⟩
  split
  · rename_i m b hb
    rw [yields_of_member hb]
    exact ⟨rfl, .one (.gather (s := h.scene) ht hs hb)⟩
  · rename_i b hb
    exact yields_of_pending hb
  · rename_i b hb
    rw [yields_of_ended hb]
    exact ⟨rfl, leave_call ht hstream⟩

theorem expire_leads : Leads h h.scene t [] .call none (h.expire c) := by
  unfold expire
  split
  · rfl
  split
  · rfl
  split
  · rename_i hs
    exact ⟨rfl, stop_call ht hs⟩
  · rename_i id res hs
    exact ⟨rfl, leave_call ht (by simp [Task.stream?, hs])⟩
  · rename_i id got hs
    exact ⟨rfl, leave_call ht (by simp [Task.stream?, hs])⟩

theorem advanceCall_leads :
    Leads h h.scene t (h.callOccurrences t c) .call none (h.advanceCall t c) := by
  unfold advanceCall
  extract_lets inner
  have hl : Leads h h.scene t (h.callOccurrences t c) .call none inner := by
    simp only [inner]
    split
    · rename_i hs
      exact advanceStart_leads ht hs
    · rename_i id hs
      unfold callOccurrences
      rw [hs]
      rfl
    · rename_i id result hs
      have hself : h.scene =
          h.scene.set t (some (.call { c with stage := .sending id (some result) })) := by
        rw [← hs]
        exact (set_self ht).symm
      unfold callOccurrences
      rw [hs]
      exact afterSend_leads hself
    · rename_i id got hs
      exact advanceReading_leads ht hs
  clear_value inner
  cases inner with
  | blocked =>
    have hnil : h.callOccurrences t c = [] := hl
    rw [hnil]
    exact expire_leads ht
  | moved h' c' => exact hl
  | done h' o => exact hl

end

theorem advanceReader_leads {id : RequestId} {goal : ReadGoal} {got : List Member}
    (ht : h.task? t = some (.reader id goal got)) :
    Leads h h.scene t (h.segmentOccurrences t (.reader id goal got)) (fun task => task) none
      (h.advanceReader id goal got) := by
  have leave : Changes h.scene [] ((h.dropStream id).scene.set t none) :=
    .one (.leave (s := h.scene) ht rfl)
  simp only [advanceReader, segmentOccurrences]
  split
  · exact ⟨rfl, leave⟩
  split
  · rename_i m b hb
    rw [yields_of_member hb]
    have hch := Change.take (s := h.scene) ht hb
    split
    · refine ⟨rfl, ?_⟩
      have hstream : (Task.reader id goal (m :: got)).stream? = some id := rfl
      have hl := Changes.two hch (.leave (t := t) (by simp [Scene.set]) hstream)
      exact hl.to (set_set { h.scene with book := b.dropStream id } t _ none)
    · exact ⟨rfl, .one hch⟩
  · rename_i b hb
    exact yields_of_pending hb
  · rename_i b hb
    rw [yields_of_ended hb]
    exact ⟨rfl, leave⟩

/-! ## Events -/

theorem scene_settleDelivery (h : Hub) (d : Delivery) (r : Delivered) :
    (h.settleDelivery d r).scene =
      { h.scene with book := h.book.settle d.request r.verdict } ∧
    (h.settleDelivery d r).frame = h.frame := by
  unfold settleDelivery Book.settle
  exact ⟨rfl, rfl⟩

section
variable {wrap : Delivery → Task} {last : Option Task}
  (hw : ∀ d, (wrap d).Attends ∧ (wrap d).delivery? = some d)
  (hlast : ∀ task ∈ last, task.Attends ∧ task.delivery? = none)
include hw hlast

theorem deliver_leads {s : Scene} {task : Task} {d : Delivery}
    (hs : s = h.scene.set t (some task)) (hd : task.delivery? = some d) :
    Leads h s t (h.deliveries t d) wrap last (h.deliver t d) := by
  have ht : s.tasks t = some task := by rw [hs]; simp [Scene.set]
  subst hs
  unfold deliver deliveries
  cases hb : d.advance t h.book with
  | blocked => rfl
  | moved b d' =>
    have hch := Changes.one (.advance ht hd hb (hw d').1 (hw d').2)
    exact ⟨rfl, hch.to (set_set { h.scene with book := b } t _ _)⟩
  | done b r =>
    obtain ⟨hsc, hframe⟩ := scene_settleDelivery { h with book := b } d r
    have hch := Changes.one (.settle ht hd hb hlast)
    refine ⟨hframe, hch.to ?_⟩
    rw [hsc]
    exact set_set { h.scene with book := b.settle d.request r.verdict } t _ _

theorem arrival_leads {task : Task} {id : RequestId} {c : Chunk} (ht : h.task? t = some task)
    (ha : task.Attends) (hd : task.delivery? = none) (hm : h.match? c = some id) :
    Leads h h.scene t (h.receipts t (.chunk c)) wrap last (h.deliver t (h.arrival id c)) := by
  obtain ⟨n, hnonce, hn⟩ := Option.bind_eq_some_iff.mp hm
  simp only [receipts, hm]
  cases hr : h.book.requests[id]? with
  | none =>
    have hb : (h.arrival id c).advance t h.book = .blocked := by
      unfold Delivery.advance arrival
      rw [hr]
    rw [deliver, hb]
    rfl
  | some r =>
    let d : Delivery := { h.arrival id c with stage := .inLine c.stamped }
    let h₁ : Hub := { h with book := h.book.modify id (·.join t) }
    have hjoin : Changes h.scene [.arrived t id c] (h₁.scene.set t (some (wrap d))) :=
      .one (.arrive (s := h.scene) (d := d) ht ha hd hnonce hn (by simp [d, arrival, Hub.scene, hr]) rfl
        (hw d).1 (hw d).2 rfl)
    by_cases hline : r.line = []
    · have hadv : (h.arrival id c).advance t h.book = d.advance t h₁.book :=
        Delivery.advance_arriving hr rfl hline
      have hl : Leads h₁ (h₁.scene.set t (some (wrap d))) t (h₁.deliveries t d) wrap last
          (h₁.deliver t d) := deliver_leads hw hlast rfl (hw d).2
      unfold deliver deliveries at hl
      unfold deliver
      rw [hadv]
      cases hb : d.advance t h₁.book with
      | blocked => rfl
      | moved b d' => rw [hb] at hl; exact ⟨rfl, hjoin.trans hl.2⟩
      | done b r' =>
        rw [hb] at hl
        exact ⟨hl.1, hjoin.trans hl.2⟩
    · have hadv : (h.arrival id c).advance t h.book = .moved h₁.book d :=
        Delivery.advance_arriving_behind hr rfl hline
      rw [deliver, hadv]
      exact ⟨rfl, hjoin⟩

theorem receive_leads {task : Task} (ht : h.task? t = some task) (ha : task.Attends)
    (hd : task.delivery? = none) (hdone : Changes h.scene [] (h.scene.set t last)) (e : Event) :
    Leads h h.scene t (h.receipts t e) wrap last (h.receive t e) := by
  cases e with
  | other kind => exact ⟨rfl, hdone⟩
  | chunk c =>
    unfold receive
    simp only
    split
    · rename_i hm
      have hm : h.match? c = none := hm
      rw [receipts, hm]
      exact ⟨rfl, hdone⟩
    · rename_i id hm
      have hm : h.match? c = some id := hm
      exact arrival_leads (h := { h with stats := _ }) hw hlast ht ha hd hm

end

theorem handlerMove_leads {s : Scene} {os : List Occurrence} {m : Move Hub Delivery Unit}
    (hl : Leads h s t os .delivering none m) :
    Leads h s t os (fun task => task) none (handlerMove m) := by
  cases m with
  | blocked => exact hl
  | moved h' d => exact hl
  | done h' u => exact hl

theorem loopMove_leads {s : Scene} {os : List Occurrence} {m : Move Hub Delivery Unit} {index : Nat}
    (hl : Leads h s t os (fun d => .loop index (some d)) (some (.loop index none)) m) :
    Leads h s t os (fun task => task) none (loopMove index m) := by
  cases m with
  | blocked => exact hl
  | moved h' d => exact hl
  | done h' u => exact hl

theorem advanceLoop_leads {index : Nat} {current : Option Delivery}
    (ht : h.task? t = some (.loop index current)) :
    Leads h h.scene t (h.loopOccurrences t index current) (fun task => task) none
      (h.advanceLoop t index current) := by
  have hw (d : Delivery) :
      (Task.loop index (some d)).Attends ∧ (Task.loop index (some d)).delivery? = some d :=
    ⟨trivial, rfl⟩
  have hlast (task : Task) (hm : task ∈ some (Task.loop index none)) :
      task.Attends ∧ task.delivery? = none := by
    cases hm; exact ⟨trivial, rfl⟩
  unfold advanceLoop loopOccurrences
  cases hl : h.loops[index]? with
  | none => rfl
  | some l =>
    cases current with
    | some d =>
      simp only
      split
      · exact ⟨frame_stopLoop _ _, .one (.interrupt (s := h.scene) ht rfl)⟩
      · exact loopMove_leads (deliver_leads hw hlast (set_self ht).symm rfl)
    | none =>
      have idle : Changes h.scene [] (h.scene.set t none) := .one (.stop (s := h.scene) ht ⟨rfl, rfl⟩)
      simp only
      split
      · exact ⟨frame_stopLoop _ _, idle⟩
      cases hq : l.queue with
      | nil =>
        simp only
        split
        · rfl
        · exact ⟨frame_stopLoop _ _, idle⟩
      | cons e rest =>
        simp only
        let h₁ : Hub := { h with loops := h.loops.modify index fun l => { l with queue := rest } }
        have same : Changes h₁.scene [] (h₁.scene.set t (some (.loop index none))) :=
          Changes.none.to (set_self (s := h.scene) ht).symm
        have hl := receive_leads (h := h₁) hw hlast ht trivial rfl same e
        exact loopMove_leads (hl.of_frame (h.frame_withLoops index _))

theorem advanceTask_leads {task : Task} (ht : h.task? t = some task) :
    Leads h h.scene t (h.segmentOccurrences t task) (fun task => task) none
      (h.advanceTask t task) := by
  have hw (d : Delivery) : (Task.delivering d).Attends ∧ (Task.delivering d).delivery? = some d :=
    ⟨trivial, rfl⟩
  have hlast (task : Task) (hm : task ∈ (none : Option Task)) :
      task.Attends ∧ task.delivery? = none := nomatch hm
  cases task with
  | call c =>
    have hl := advanceCall_leads ht
    simp only [advanceTask, segmentOccurrences]
    split
    · rename_i hb; rw [hb] at hl; exact hl
    · rename_i hb; rw [hb] at hl; exact hl
    · rename_i hb; rw [hb] at hl; exact hl
  | reader id goal got => exact advanceReader_leads ht
  | handler e =>
    have idle : Changes h.scene [] (h.scene.set t none) := .one (.stop (s := h.scene) ht ⟨rfl, rfl⟩)
    exact handlerMove_leads (receive_leads hw hlast ht trivial rfl idle e)
  | delivering d => exact handlerMove_leads (deliver_leads hw hlast (set_self ht).symm rfl)
  | loop index current => exact advanceLoop_leads ht

theorem advance_changes (h : Hub) (t : TaskId) :
    Changes h.scene (h.occurrences (.segment t)) (h.perform (.segment t)).scene := by
  simp only [occurrences, perform, advance]
  cases ht : h.task? t with
  | none => exact .none
  | some task =>
    have hl := advanceTask_leads ht
    simp only [Option.elim_some]
    cases hm : h.advanceTask t task with
    | blocked =>
      rw [hm] at hl
      have hnil : h.segmentOccurrences t task = [] := hl
      rw [hnil]
      exact .none
    | moved h' task' =>
      rw [hm] at hl
      exact hl.2.to (scene_setTask ht (congrArg Frame.tasks hl.1) _).symm
    | done h' o =>
      rw [hm] at hl
      exact hl.2.to (scene_setTask ht (congrArg Frame.tasks hl.1) _).symm

theorem task?_setTask {x : Option Task} (hf : h'.tasks = h.tasks) (ht : t < h.tasks.size)
    (t' : TaskId) : (h'.setTask t x).task? t' = if t' = t then x else h.task? t' := by
  simp only [task?, setTask, Array.getElem?_setIfInBounds, hf]
  by_cases e : t' = t
  · subst e; simp [ht]
  · simp [e, Ne.symm e]

theorem task?_setTask_self {task : Task} (ht : h.task? t = some task) (hs : h'.tasks = h.tasks)
    (x : Option Task) : (h'.setTask t x).task? t = x := by
  rw [task?_setTask hs (lt_of_task? ht), if_pos rfl]

theorem size_setTask (h : Hub) (t : TaskId) (x : Option Task) :
    (h.setTask t x).tasks.size = h.tasks.size := Array.size_setIfInBounds

theorem advance_of_gone (ht : h.task? t = none) : h.advance t = none := by
  rw [advance, ht]

theorem advance_of_moved {task task' : Task} (ht : h.task? t = some task)
    (hm : h.advanceTask t task = .moved h' task') : h.advance t = some (h'.setTask t (some task')) := by
  simp only [advance, ht, hm]

theorem advance_of_done {task : Task} {o : Outcome} (ht : h.task? t = some task)
    (hm : h.advanceTask t task = .done h' o) :
    h.advance t = some { h'.setTask t none with finished := h'.finished.push (t, o) } := by
  simp only [advance, ht, hm]

theorem advance_of_blocked {task : Task} (ht : h.task? t = some task)
    (hm : h.advanceTask t task = .blocked) : h.advance t = none := by
  simp only [advance, ht, hm]

inductive Segment (h : Hub) (t : TaskId) (h' : Hub) : Prop
  | waits (hadv : h.advance t = none) (he : h' = h)
  | goesOn (task task' : Task) (g : Hub) (ht : h.task? t = some task)
      (hm : h.advanceTask t task = .moved g task') (hf : g.frame = h.frame)
      (he : h' = g.setTask t (some task')) (hself : h'.task? t = some task')
  | ends (task : Task) (g : Hub) (o : Outcome) (ht : h.task? t = some task)
      (hm : h.advanceTask t task = .done g o) (hf : g.frame = h.frame)
      (he : h' = { g.setTask t none with finished := h.finished.push (t, o) })
      (hself : h'.task? t = none)

theorem segment_cases (h : Hub) (t : TaskId) : h.Segment t (h.perform (.segment t)) := by
  simp only [perform]
  cases hadv : h.advance t with
  | none => exact .waits hadv rfl
  | some h' =>
    unfold advance at hadv
    cases ht : h.task? t with
    | none =>
      rw [ht] at hadv
      cases hadv
    | some task =>
      have hl := advanceTask_leads ht
      rw [ht] at hadv
      simp only at hadv
      cases hm : h.advanceTask t task with
      | blocked =>
        rw [hm] at hadv
        cases hadv
      | moved g task' =>
        rw [hm] at hadv hl
        cases hadv
        have hset := task?_setTask_self ht (congrArg Frame.tasks hl.1) (some task')
        exact .goesOn task task' g ht hm hl.1 rfl hset
      | done g o =>
        rw [hm] at hadv hl
        have hfin : g.finished = h.finished := congrArg Frame.finished hl.1
        simp only [hfin] at hadv
        cases hadv
        have hset := task?_setTask_self ht (congrArg Frame.tasks hl.1) none
        exact .ends task g o ht hm hl.1 rfl hset

theorem Segment.ne {t' : TaskId} (hs : h.Segment t h') (hne : t' ≠ t) :
    h'.task? t' = h.task? t' ∧ h'.tasks.size = h.tasks.size := by
  have set {g : Hub} (x : Option Task) {task : Task} (ht : h.task? t = some task)
      (hf : g.frame = h.frame) : (g.setTask t x).task? t' = h.task? t' ∧
        (g.setTask t x).tasks.size = h.tasks.size := by
    have hts : g.tasks = h.tasks := congrArg Frame.tasks hf
    rw [task?_setTask hts (lt_of_task? ht), if_neg hne, size_setTask, hts]
    exact ⟨rfl, rfl⟩
  cases hs with
  | waits hadv he =>
    rw [he]
    exact ⟨rfl, rfl⟩
  | goesOn task task' g ht hm hf he =>
    rw [he]
    exact set _ ht hf
  | ends task g o ht hm hf he =>
    rw [he]
    exact set none ht hf

theorem task?_segment {t' : TaskId} (hne : t' ≠ t) :
    (h.perform (.segment t)).task? t' = h.task? t' :=
  ((h.segment_cases t).ne hne).1

theorem gone_segment (hnone : h.task? t = none) (t' : TaskId) :
    (h.perform (.segment t')).task? t = none := by
  by_cases e : t = t'
  · subst e
    cases h.segment_cases t with
    | waits hadv he => exact (congrArg (task? · t) he).trans hnone
    | goesOn task task' g ht => cases hnone.symm.trans ht
    | ends task g o ht => cases hnone.symm.trans ht
  · exact (task?_segment e).trans hnone

theorem after_segment {past : List Action} (ha : (h.after past).advance t = some h') :
    h.after (.segment t :: past) = h' := by
  simp only [Hub.after, perform, ha, Option.getD_some]

/-! ## Actions -/

theorem frame_abandon (h : Hub) (t : TaskId) (task : Task) :
    (h.abandon t task).frame = h.frame := by
  unfold abandon
  cases task with
  | call c => simp only; split <;> rfl
  | loop index current =>
    cases current with
    | none => exact frame_stopLoop h index
    | some d => exact frame_stopLoop (h.interrupt d t) index
  | _ => rfl

theorem tasks_abandon (h : Hub) (t : TaskId) (task : Task) :
    (h.abandon t task).tasks = h.tasks :=
  congrArg Frame.tasks (h.frame_abandon t task)

theorem abandon_of_stream {task : Task} {id : RequestId} (hs : task.stream? = some id) :
    h.abandon t task = h.dropStream id := by
  cases task with
  | call c =>
    cases hstage : c.stage with
    | starting => simp [Task.stream?, hstage] at hs
    | sending i result =>
      simp only [Task.stream?, hstage, Option.some.injEq] at hs
      simp only [abandon, hstage, hs]
    | reading i got =>
      simp only [Task.stream?, hstage, Option.some.injEq] at hs
      simp only [abandon, hstage, hs]
  | reader i goal got =>
    cases hs
    rfl
  | handler e => cases hs
  | delivering d => cases hs
  | loop index current => cases hs

theorem dropTask_changes (h : Hub) (t : TaskId) :
    Changes h.scene (h.occurrences (.dropTask t)) (h.perform (.dropTask t)).scene := by
  simp only [occurrences, perform, dropTask, delivery?]
  cases ht : h.task? t with
  | none => exact .none
  | some task =>
    refine Changes.to ?_ (scene_setTask ht (tasks_abandon h t task) none).symm
    cases task with
    | call c =>
      simp only [abandon]
      split
      · rename_i hs
        exact stop_call ht hs
      · rename_i id res hs
        exact leave_call ht (by simp [Task.stream?, hs])
      · rename_i id got hs
        exact leave_call ht (by simp [Task.stream?, hs])
    | reader id goal got => exact .one (.leave (s := h.scene) ht rfl)
    | handler e => exact .one (.stop (s := h.scene) ht ⟨rfl, rfl⟩)
    | delivering d => exact .one (.interrupt (s := h.scene) ht rfl)
    | loop index current =>
      cases current with
      | none => exact .one (.stop (s := h.scene) ht ⟨rfl, rfl⟩)
      | some d => exact .one (.interrupt (s := h.scene) ht rfl)

theorem release_cases (h : Hub) (shard place : Nat) (result : SendResult) :
    ∃ shards, (h.release shard place result).2 = { h with shards } ∨
      ∃ t c id, h.task? t = some (.call c) ∧ c.stage = .sending id none ∧
        (h.release shard place result).2 =
          setTask { h with shards } t (some (.call { c with stage := .sending id (some result) })) := by
  unfold release
  split
  · exact ⟨h.shards, .inl rfl⟩
  split
  · exact ⟨h.shards, .inl rfl⟩
  rename_i s _ _ t _
  refine ⟨h.shards.modify shard fun s' => { s' with held := s.held.eraseIdx place }, ?_⟩
  extract_lets held h'
  split
  · rename_i c ht
    have ht : h.task? t = some (.call c) := ht
    split
    · rename_i id hs
      exact .inr ⟨t, c, id, ht, hs, rfl⟩
    · exact .inl rfl
  · exact .inl rfl

theorem release_changes (h : Hub) (shard place : Nat) (result : SendResult) :
    Changes h.scene [] (h.release shard place result).2.scene := by
  obtain ⟨shards, he | ⟨t, c, id, ht, hs, he⟩⟩ := h.release_cases shard place result
  · rw [he]
    exact .none
  · rw [he]
    have hts : tasks { h with shards } = h.tasks := rfl
    refine Changes.to ?_ (scene_setTask ht hts _).symm
    exact .one (.release (s := h.scene) ht hs result)

theorem recv_changes (h : Hub) {id : RequestId} (hid : id ∈ h.streams) :
    Changes h.scene (h.yields id) (h.recv id).2.scene := by
  cases hb : h.book.recv id with
  | mk x b =>
    have hsc : (h.recv id).2.scene = { h.scene with book := b } := by
      unfold recv; rw [hb]; rfl
    cases x with
    | member m =>
      rw [yields_of_member hb, hsc]
      exact .one (.recv (s := h.scene) hid hb)
    | pending =>
      have hsame : b = h.book := by
        have hu : (h.book.recv id).2 = h.book := Book.recv_unread (by rw [hb]; exact nofun)
        rwa [hb] at hu
      rw [yields_of_pending hb, hsc, hsame]
      exact .none
    | ended =>
      have hsame : b = h.book := by
        have hu : (h.book.recv id).2 = h.book := Book.recv_unread (by rw [hb]; exact nofun)
        rwa [hb] at hu
      rw [yields_of_ended hb, hsc, hsame]
      exact .none

/-- **An action is a series of changes.** The journal tells of each. -/
theorem perform_changes (h : Hub) (a : Action) :
    Changes h.scene (h.occurrences a) (h.perform a).scene := by
  cases a with
  | callStream i =>
    have hch := Change.call (s := h.scene) (c := { inquiry := i, goal := .stream }) rfl ⟨rfl, nofun⟩
    exact (Changes.one hch).to (scene_spawn h _).symm
  | collect i token =>
    have hch := Change.call (s := h.scene)
      (c := { inquiry := i, goal := .members (some token) }) rfl ⟨rfl, fun _ _ => rfl⟩
    exact (Changes.one hch).to (scene_spawn h _).symm
  | callMembers i =>
    have hch := Change.call (s := h.scene)
      (c := { inquiry := i, goal := .members none, timeout := h.limits.timeout }) rfl ⟨rfl, nofun⟩
    exact (Changes.one hch).to (scene_spawn h _).symm
  | dispatch e =>
    have hch : Change h.scene [] (h.scene.spawn (.handler e)) := .attend trivial rfl
    exact (Changes.one hch).to (scene_spawn h _).symm
  | run =>
    have hch : Change h.scene [] (h.scene.spawn (.loop h.loops.size none)) := .attend trivial rfl
    exact (Changes.one hch).to (scene_spawn { h with loops := h.loops.push {} } _).symm
  | read id goal =>
    simp only [perform, occurrences]
    split
    · rename_i hid
      exact Changes.to (.one (.read (s := h.scene) hid goal))
        (scene_spawn { h with streams := h.streams.erase id } _).symm
    · exact .none
  | push index events =>
    simp only [perform, occurrences, push]
    split <;> exact .none
  | endLoop index => exact .none
  | tellToStop index => exact .none
  | recv id =>
    simp only [perform, occurrences]
    split
    · rename_i hid
      exact recv_changes h hid
    · exact .none
  | cancel id => exact .one (.cancel (s := h.scene) id)
  | discard id =>
    simp only [perform, occurrences]
    split
    · rename_i hid
      exact .one (.discard (s := h.scene) hid)
    · exact .none
  | cancelToken token =>
    simp only [perform, occurrences, cancelToken]
    split <;> exact .none
  | advanceClock d => exact .none
  | shutdown => exact .one (.shutdown (s := h.scene))
  | setMode shard mode => exact .none
  | release shard place result => exact release_changes h shard place result
  | dropTask t => exact dropTask_changes h t
  | segment t => exact advance_changes h t

inductive Reframes (h : Hub) (a : Action) (h' : Hub) : Prop
  | kept (hf : h'.frame = { h.frame with tasks := h'.tasks })
  | queued (hf : h'.frame = { h.frame with tasks := h'.tasks, loops := h.loops.size + 1 })
  | cancelled (token : Token)
      (hf : h'.frame = { h.frame with tasks := h'.tasks, tokens := token :: h.cancelledTokens })
  | advanced (d : Duration)
      (hf : h'.frame = { h.frame with tasks := h'.tasks, now := ⟨h.now.nanos + d.nanos⟩ })
  | ended (t : TaskId) (task : Task) (g : Hub) (o : Outcome) (ha : a = .segment t)
      (ht : h.task? t = some task) (hm : h.advanceTask t task = .done g o) (hf : g.frame = h.frame)
      (he : h' = { g.setTask t none with finished := h.finished.push (t, o) })
      (hself : h'.task? t = none)

theorem Reframes.of_frame {a : Action} {g : Hub} (hg : g.frame = h.frame)
    (hf : h'.frame = { g.frame with tasks := h'.tasks }) : h.Reframes a h' := .kept (hg ▸ hf)

theorem reframes (h : Hub) (a : Action) : h.Reframes a (h.perform a) := by
  cases a with
  | run => exact .queued (by simp [perform, run, spawn, frame])
  | read id goal =>
    simp only [perform]
    split <;> exact .kept rfl
  | push index events =>
    simp only [perform, push]
    split
    · exact .of_frame (h.frame_withLoops index _) rfl
    · exact .kept rfl
  | endLoop index => exact .of_frame (h.frame_withLoops index _) rfl
  | tellToStop index => exact .of_frame (h.frame_withLoops index _) rfl
  | recv id =>
    simp only [perform]
    split <;> exact .kept rfl
  | discard id =>
    simp only [perform]
    split <;> exact .kept rfl
  | cancelToken token =>
    simp only [perform, cancelToken]
    split
    · exact .kept rfl
    · exact .cancelled token rfl
  | advanceClock d => exact .advanced d rfl
  | release shard place result =>
    obtain ⟨shards, he | ⟨t, c, id, -, -, he⟩⟩ := h.release_cases shard place result
    · exact .kept (by simp only [perform, he]; rfl)
    · exact .kept (by simp only [perform, he]; rfl)
  | dropTask t =>
    simp only [perform, dropTask]
    cases h.task? t with
    | none => exact .kept rfl
    | some task => exact .of_frame (h.frame_abandon t task) rfl
  | segment t =>
    cases h.segment_cases t with
    | waits hadv he => exact .kept (by rw [he]; rfl)
    | goesOn task task' g ht hm hf he => exact .of_frame hf (by rw [he]; rfl)
    | ends task g o ht hm hf he hself => exact .ended t task g o rfl ht hm hf he hself
  | _ => exact .kept rfl

theorem finished_perform (h : Hub) (a : Action) : (h.perform a).finished = h.finished ∨
    ∃ t task g o, a = .segment t ∧ h.task? t = some task ∧
      h.advanceTask t task = .done g o ∧ g.frame = h.frame ∧
      h.perform a = { g.setTask t none with finished := h.finished.push (t, o) } ∧
      (h.perform a).task? t = none := by
  cases h.reframes a with
  | kept hf => exact .inl (congrArg Frame.finished hf)
  | queued hf => exact .inl (congrArg Frame.finished hf)
  | cancelled token hf => exact .inl (congrArg Frame.finished hf)
  | advanced d hf => exact .inl (congrArg Frame.finished hf)
  | ended t task g o ha ht hm hf he hself => exact .inr ⟨t, task, g, o, ha, ht, hm, hf, he, hself⟩

end Hub

theorem Hub.IsNew.eq {h : Hub} (hn : h.IsNew) : ∃ limits selection shards caching nonces,
    h = { limits, selection, shards, caching, book := { nonces } } := by
  obtain ⟨limits, selection, shards, caching, nonces, hc⟩ := hn
  unfold create at hc
  cases hl : limits.check with
  | error f =>
    rw [hl] at hc
    cases hc
  | ok u =>
    rw [hl] at hc
    cases hc
    exact ⟨limits, selection, shards.toArray, caching, nonces, rfl⟩

theorem Reached.after {h : Hub} (hn : h.IsNew) :
    ∀ past, Reached (h.journal past) (h.after past).scene
  | [] => by
    obtain ⟨limits, selection, shards, caching, nonces, rfl⟩ := hn.eq
    have hsc : (Hub.scene { limits, selection, shards, caching, book := { nonces } }) =
        ⟨{ nonces }, fun _ => none, 0, []⟩ := by
      simp only [Hub.scene]
      congr 1
    have hr := Reached.new nonces
    rw [← hsc] at hr
    exact hr
  | a :: past => (Reached.after hn past).changes (Hub.perform_changes _ a)

namespace Hub

/-- What comes after a history is a series of changes as well, and the journal goes on with it. -/
theorem changes_append (h : Hub) (past : List Action) : ∀ later, ∃ os,
    h.journal (later ++ past) = h.journal past ++ os ∧
      Changes (h.after past).scene os (h.after (later ++ past)).scene
  | [] => ⟨[], (List.append_nil _).symm, .none⟩
  | a :: later => by
    obtain ⟨os, hj, hc⟩ := h.changes_append past later
    refine ⟨os ++ (h.after (later ++ past)).occurrences a, ?_, hc.trans (perform_changes _ a)⟩
    rw [List.cons_append, journal, hj, List.append_assoc]

/-- What every change keeps is kept by all that is done to a hub. -/
theorem keep {P : Scene → Prop} {h : Hub} (hn : h.IsNew) {past : List Action}
    (h0 : P (h.after past).scene)
    (hs : ∀ {j os : List Occurrence} {s s' : Scene}, Reached j s → Change s os s' → P s → P s')
    (later : List Action) : P (h.after (later ++ past)).scene := by
  obtain ⟨os, -, hc⟩ := h.changes_append past later
  exact (Reached.after hn past).keep hc h0 hs

end Hub
end Rollcall
