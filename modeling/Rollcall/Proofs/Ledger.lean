import Rollcall.Proofs.Cancels

/-!
# The ledger of cancellations

The calls of `cancel` that each action makes, place by place in the code, each with the book that it
finds. Only these calls and the sweeps of `shutdown` cancel requests, and they cancel what they say.
Main statement: `Hub.perform_cancels`.
-/

namespace Rollcall

namespace Hub

/-! ## The calls of an action -/

def dropCancels (h : Hub) (task : Task) : List Cancelling :=
  task.stream?.toList.map fun id => ⟨h.book, id⟩

/-- A request is cancelled through its stream, which is dropped afterwards. -/
def rollBackCancels (h : Hub) (id : RequestId) : List Cancelling :=
  [⟨h.book, id⟩, ⟨(h.book.cancel id).2, id⟩]

def sendCancels (h : Hub) (id : RequestId) : SendResult → List Cancelling
  | .refused _ => h.rollBackCancels id
  | .sent => []

def expiryCancels (h : Hub) (c : Call) : List Cancelling :=
  match c.deadline with
  | none => []
  | some d => if h.now.nanos < d.due.nanos then [] else h.dropCancels (.call c)

def startCancels (h : Hub) (t : TaskId) (c : Call) : List Cancelling :=
  if h.tokenCancelled (watched c.goal) then []
  else match h.start t c.inquiry with
    | (.sent id (some result), h) => h.sendCancels id result
    | _ => []

def readingCancels (h : Hub) (c : Call) (id : RequestId) : List Cancelling :=
  if h.tokenCancelled (watched c.goal) then h.rollBackCancels id
  else match (h.book.recv id).1 with
    | .member _ => []
    | .pending => h.expiryCancels c
    | .ended => [⟨h.book, id⟩]

def callCancels (h : Hub) (t : TaskId) (c : Call) : List Cancelling :=
  match c.stage with
  | .starting => h.startCancels t c
  | .sending _ none => h.expiryCancels c
  | .sending id (some result) => h.sendCancels id result
  | .reading id _ => h.readingCancels c id

def readerCancels (h : Hub) (id : RequestId) (goal : ReadGoal) (got : List Member) :
    List Cancelling :=
  if goal = .upTo got.length then [⟨h.book, id⟩]
  else match h.book.recv id with
    | (.member _, book) => if goal = .one then [⟨book, id⟩] else []
    | (.pending, _) => []
    | (.ended, _) => [⟨h.book, id⟩]

def segmentCancels (h : Hub) (t : TaskId) : Task → List Cancelling
  | .call c => h.callCancels t c
  | .reader id goal got => h.readerCancels id goal got
  | _ => []

def cancels (h : Hub) : Action → List Cancelling
  | .cancel id => [⟨h.book, id⟩]
  | .discard id => if id ∈ h.streams then [⟨h.book, id⟩] else []
  | .dropTask t => (h.task? t).elim [] h.dropCancels
  | .segment t => (h.task? t).elim [] (h.segmentCancels t)
  | _ => []

def sweeps (h : Hub) : Action → List RequestId
  | .shutdown => h.book.counted
  | _ => []

/-! ## Segments -/

variable {h : Hub} {t : TaskId}

def Pays {τ ρ : Type} (h : Hub) (cs : List Cancelling) : Move Hub τ ρ → Prop
  | .blocked => cs = []
  | .moved g _ => h.book.Cancels (cancelledBy cs) g.book
  | .done g _ => h.book.Cancels (cancelledBy cs) g.book

theorem Pays.after {τ ρ : Type} {h' : Hub} {cs : List Cancelling} {m : Move Hub τ ρ}
    (hp : h'.Pays cs m) (hb : h.book.Cancels [] h'.book) : h.Pays cs m := by
  cases m with
  | blocked => exact hp
  | moved g x => exact hb.trans hp
  | done g o => exact hb.trans hp

/-- A task that is given up drops its stream, if it owns one. -/
theorem abandon_cancels (hb : h.book.Sound) (t : TaskId) (task : Task) :
    h.book.Cancels (cancelledBy (h.dropCancels task)) (h.abandon t task).book := by
  cases hs : task.stream? with
  | some id =>
    rw [abandon_of_stream hs, dropCancels, hs]
    exact hb.cancels_dropStream id
  | none =>
    have same : h.book.Cancels [] h.book := .refl h.book
    have left (d : Delivery) : h.book.Cancels [] (d.interrupt t h.book) := .modify fun _ => rfl
    rw [dropCancels, hs]
    cases task with
    | call c =>
      simp only [abandon]
      split
      · exact same
      · rename_i hstage
        simp [Task.stream?, hstage] at hs
      · rename_i hstage
        simp [Task.stream?, hstage] at hs
    | reader id goal got => cases hs
    | handler e => exact same
    | delivering d => exact left d
    | loop index current =>
      cases current with
      | none => exact same
      | some d => exact left d

theorem afterSend_pays (hb : h.book.Sound) {c : Call} {id : RequestId} {result : SendResult} :
    h.Pays (h.sendCancels id result) (h.afterSend c id result) := by
  unfold afterSend
  split
  · exact hb.cancels_rollBack id
  · split
    · exact Book.Cancels.refl h.book
    · exact Book.Cancels.refl h.book

theorem start_spares (hb : h.book.Sound) (i : Inquiry) :
    h.book.Cancels [] (h.start t i).2.book ∧ (h.start t i).2.book.Sound := by
  rcases start_cases h t i with ⟨-, -, nonces, hsc⟩ | ⟨id, res, build, b, -, -, hf, -, hreg, hsc⟩
  · rw [show (h.start t i).2.book = _ from congrArg Scene.book hsc]
    exact ⟨.none fun _ => rfl, hb.of_requests rfl rfl⟩
  · rw [show (h.start t i).2.book = _ from congrArg Scene.book hsc]
    obtain ⟨nonce, -, -, hreq, -⟩ := Book.registerWith_some hreg
    obtain ⟨n, g, f, c, he⟩ := (hf nonce).1
    exact ⟨.push (by rw [he]) hreq, hb.registerWith hf hreg⟩

theorem advanceStart_pays (hb : h.book.Sound) {c : Call} :
    h.Pays (h.startCancels t c) (h.advanceStart t c) := by
  unfold advanceStart startCancels
  split
  · exact Book.Cancels.refl h.book
  obtain ⟨hspared, hsound⟩ := start_spares (t := t) hb c.inquiry
  generalize h.start t c.inquiry = x at hspared hsound
  obtain ⟨started, g⟩ := x
  cases started with
  | failed f => exact hspared
  | oversized => exact hspared
  | sent id result =>
    cases result with
    | none => exact hspared
    | some result => exact (afterSend_pays hsound).after hspared

theorem expire_pays (hb : h.book.Sound) {c : Call} :
    h.Pays (h.expiryCancels c) (h.expire c) := by
  have hp := abandon_cancels hb 0 (.call c)
  unfold expire expiryCancels
  cases c.deadline with
  | none => rfl
  | some d =>
    by_cases hdue : h.now.nanos < d.due.nanos
    · simp only [if_pos hdue]
      rfl
    · simp only [if_neg hdue]
      exact hp

theorem advanceStart_ne_blocked {c : Call} : h.advanceStart t c ≠ .blocked := by
  unfold advanceStart
  split
  · exact nofun
  split
  · exact nofun
  · exact nofun
  · exact nofun
  · exact afterSend_ne_blocked _ _ _ _

theorem advanceReading_pays (hb : h.book.Sound) {c : Call} {id : RequestId} {got : List Member} :
    h.Pays (h.readingCancels c id) (match h.advanceReading c id got with
      | .blocked => h.expire c
      | move => move) := by
  unfold advanceReading readingCancels
  by_cases htoken : h.tokenCancelled (watched c.goal) = true
  · simp only [if_pos htoken]
    exact hb.cancels_rollBack id
  simp only [if_neg htoken]
  have hspared := h.book.cancels_recv id
  cases hr : h.book.recv id with
  | mk x b =>
    rw [hr] at hspared
    cases x with
    | member m => exact hspared
    | pending => exact expire_pays hb
    | ended => exact hb.cancels_dropStream id

theorem advanceCall_pays (hb : h.book.Sound) {c : Call} :
    h.Pays (h.callCancels t c) (h.advanceCall t c) := by
  unfold advanceCall callCancels
  cases hs : c.stage with
  | starting =>
    have hp : h.Pays (h.startCancels t c) (h.advanceStart t c) := advanceStart_pays hb
    simp only
    split
    · rename_i hm
      exact absurd hm advanceStart_ne_blocked
    · exact hp
  | sending id result =>
    cases result with
    | none => exact expire_pays hb
    | some result =>
      have hp : h.Pays (h.sendCancels id result) (h.afterSend c id result) := afterSend_pays hb
      simp only
      split
      · rename_i hm
        exact absurd hm (afterSend_ne_blocked h c id result)
      · exact hp
  | reading id got => exact advanceReading_pays hb

theorem advanceReader_pays (hb : h.book.Sound) {id : RequestId} {goal : ReadGoal}
    {got : List Member} :
    h.Pays (h.readerCancels id goal got) (h.advanceReader id goal got) := by
  unfold advanceReader readerCancels
  split
  · exact hb.cancels_dropStream id
  have hspared := h.book.cancels_recv id
  have hsound := hb.recv id
  cases hr : h.book.recv id with
  | mk x b =>
    rw [hr] at hspared hsound
    cases x with
    | member m =>
      simp only
      split
      · exact hspared.trans (hsound.cancels_dropStream id)
      · exact hspared
    | pending => rfl
    | ended => exact hb.cancels_dropStream id

theorem deliver_pays {d : Delivery} : h.Pays [] (h.deliver t d) := by
  have hspared := d.advance_spares t h.book
  unfold deliver
  cases hm : d.advance t h.book with
  | blocked => rfl
  | moved b d' =>
    rw [hm] at hspared
    exact hspared
  | done b r =>
    rw [hm] at hspared
    have hsettle : b.Cancels [] (b.settle d.request r.verdict) :=
      .none fun i => by rw [Book.view, Book.requests_settle, Book.view]
    exact hspared.trans hsettle

theorem receive_pays {e : Event} : h.Pays [] (h.receive t e) := by
  cases e with
  | other kind => exact Book.Cancels.refl h.book
  | chunk c =>
    unfold receive
    simp only
    split
    · exact Book.Cancels.refl h.book
    · exact deliver_pays.after (Book.Cancels.refl h.book)

theorem handlerMove_pays {m : Move Hub Delivery Unit} (hp : h.Pays [] m) :
    h.Pays [] (handlerMove m) := by
  cases m <;> exact hp

theorem loopMove_pays {m : Move Hub Delivery Unit} (hp : h.Pays [] m) (index : Nat) :
    h.Pays [] (loopMove index m) := by
  cases m <;> exact hp

theorem advanceLoop_pays {index : Nat} {current : Option Delivery} :
    h.Pays [] (h.advanceLoop t index current) := by
  have same : h.book.Cancels [] h.book := .refl h.book
  unfold advanceLoop
  split
  · rfl
  split
  · rename_i d
    have hleave : h.book.Cancels [] (d.interrupt t h.book) := .modify fun _ => rfl
    split
    · exact hleave
    · exact loopMove_pays deliver_pays index
  · split
    · exact same
    split
    · refine loopMove_pays (Pays.after receive_pays ?_) index
      exact same
    · split
      · rfl
      · exact same

theorem advanceTask_pays (hb : h.book.Sound) (task : Task) :
    h.Pays (h.segmentCancels t task) (h.advanceTask t task) := by
  cases task with
  | call c =>
    have hp : h.Pays (h.callCancels t c) (h.advanceCall t c) := advanceCall_pays hb
    simp only [advanceTask, segmentCancels]
    cases hm : h.advanceCall t c with
    | blocked =>
      rw [hm] at hp
      exact hp
    | moved g c' =>
      rw [hm] at hp
      exact hp
    | done g o =>
      rw [hm] at hp
      exact hp
  | reader id goal got => exact advanceReader_pays hb
  | handler e => exact handlerMove_pays receive_pays
  | delivering d => exact handlerMove_pays deliver_pays
  | loop index current => exact advanceLoop_pays

/-! ## The books that calls find -/

theorem sound_rollBackCancels (hb : h.book.Sound) {id : RequestId} :
    ∀ c ∈ h.rollBackCancels id, c.book.Sound := by
  intro c hc
  rcases List.mem_pair.mp hc with rfl | rfl
  · exact hb
  · exact hb.cancel id

theorem sound_sendCancels (hb : h.book.Sound) {id : RequestId} {result : SendResult} :
    ∀ c ∈ h.sendCancels id result, c.book.Sound := by
  cases result with
  | refused cause => exact sound_rollBackCancels hb
  | sent => exact nofun

theorem sound_dropCancels (hb : h.book.Sound) (task : Task) :
    ∀ c ∈ h.dropCancels task, c.book.Sound := by
  intro c hc
  obtain ⟨id, -, rfl⟩ := List.mem_map.mp hc
  exact hb

theorem sound_expiryCancels (hb : h.book.Sound) (call : Call) :
    ∀ c ∈ h.expiryCancels call, c.book.Sound := by
  unfold expiryCancels
  split
  · exact nofun
  split
  · exact nofun
  · exact sound_dropCancels hb _

theorem sound_startCancels (hb : h.book.Sound) (call : Call) :
    ∀ c ∈ h.startCancels t call, c.book.Sound := by
  unfold startCancels
  split
  · exact nofun
  have hsound := (start_spares (t := t) hb call.inquiry).2
  split
  · rename_i he
    rw [he] at hsound
    exact sound_sendCancels hsound
  · exact nofun

theorem sound_callCancels (hb : h.book.Sound) (call : Call) :
    ∀ c ∈ h.callCancels t call, c.book.Sound := by
  unfold callCancels
  split
  · exact sound_startCancels hb call
  · exact sound_expiryCancels hb call
  · exact sound_sendCancels hb
  · unfold readingCancels
    split
    · exact sound_rollBackCancels hb
    split
    · exact nofun
    · exact sound_expiryCancels hb call
    · exact List.forall_mem_singleton.mpr hb

theorem sound_readerCancels (hb : h.book.Sound) {id : RequestId} {goal : ReadGoal}
    {got : List Member} : ∀ c ∈ h.readerCancels id goal got, c.book.Sound := by
  have hsound := hb.recv id
  unfold readerCancels
  split
  · exact List.forall_mem_singleton.mpr hb
  split
  · rename_i he
    rw [he] at hsound
    split
    · exact List.forall_mem_singleton.mpr hsound
    · exact nofun
  · exact nofun
  · exact List.forall_mem_singleton.mpr hb

theorem sound_cancels (hb : h.book.Sound) (a : Action) : ∀ c ∈ h.cancels a, c.book.Sound := by
  cases a with
  | cancel id => exact List.forall_mem_singleton.mpr hb
  | discard id =>
    simp only [cancels]
    split
    · exact List.forall_mem_singleton.mpr hb
    · exact nofun
  | dropTask t =>
    simp only [cancels]
    cases h.task? t with
    | none => exact nofun
    | some task => exact sound_dropCancels hb task
  | segment t =>
    simp only [cancels]
    cases h.task? t with
    | none => exact nofun
    | some task =>
      cases task with
      | call c => exact sound_callCancels hb c
      | reader id goal got => exact sound_readerCancels hb
      | handler e => exact nofun
      | delivering d => exact nofun
      | loop index current => exact nofun
  | _ => exact nofun

/-! ## Actions -/

theorem dropTask_cancels (hb : h.book.Sound) (t : TaskId) :
    h.book.Cancels (cancelledBy (h.cancels (.dropTask t))) (h.perform (.dropTask t)).book := by
  simp only [cancels, perform, dropTask]
  cases h.task? t with
  | none => exact Book.Cancels.refl h.book
  | some task => exact abandon_cancels hb t task

theorem segment_cancels (hb : h.book.Sound) (t : TaskId) :
    h.book.Cancels (cancelledBy (h.cancels (.segment t))) (h.perform (.segment t)).book := by
  simp only [cancels, perform, advance]
  cases h.task? t with
  | none => exact Book.Cancels.refl h.book
  | some task =>
    have hp := advanceTask_pays (t := t) hb task
    simp only [Option.elim_some]
    cases hm : h.advanceTask t task with
    | blocked =>
      rw [hm] at hp
      have hnone : h.segmentCancels t task = [] := hp
      rw [hnone]
      exact Book.Cancels.refl h.book
    | moved g task' =>
      rw [hm] at hp
      exact hp
    | done g o =>
      rw [hm] at hp
      exact hp

/-- **What an action cancels is in the ledger**: the requests that its calls of `cancel` have
cancelled, and those that it sweeps. -/
theorem perform_cancels (hb : h.book.Sound) (a : Action) :
    h.book.Cancels (cancelledBy (h.cancels a) ++ h.sweeps a) (h.perform a).book := by
  have same : h.book.Cancels [] h.book := .refl h.book
  cases a with
  | read id goal =>
    simp only [perform]
    split <;> exact same
  | push index events =>
    simp only [perform, push]
    split <;> exact same
  | recv id =>
    simp only [perform]
    split
    · exact h.book.cancels_recv id
    · exact same
  | cancel id => exact (List.append_nil _).symm ▸ hb.cancels_cancel id
  | discard id =>
    simp only [perform, cancels, sweeps, List.append_nil]
    split
    · exact hb.cancels_dropStream id
    · exact same
  | cancelToken token =>
    simp only [perform, cancelToken]
    split <;> exact same
  | shutdown => exact hb.cancels_shutdown
  | release shard place result =>
    obtain ⟨shards, he | ⟨t, c, id, -, -, he⟩⟩ := h.release_cases shard place result
    · simp only [perform, he]
      exact same
    · simp only [perform, he]
      exact same
  | dropTask t => exact (List.append_nil _).symm ▸ dropTask_cancels hb t
  | segment t => exact (List.append_nil _).symm ▸ segment_cancels hb t
  | _ => exact same

end Hub
end Rollcall
