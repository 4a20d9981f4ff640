import Rollcall.Proofs.Course

/-!
# Who holds a stream

The stream of a request is held by one task, by the caller, or by nobody. As long as somebody holds
it the channel is read, since only its holder drops it. Main statement: `Reached.owned`.
-/

namespace Rollcall

theorem Task.Attends.stream? {task : Task} (ha : task.Attends) : task.stream? = none := by
  cases task with
  | call => cases ha
  | reader => cases ha
  | handler => rfl
  | delivering => rfl
  | loop => rfl

theorem Task.stream?_of_delivery {task : Task} {d : Delivery} (hd : task.delivery? = some d) :
    task.stream? = none := by
  cases task with
  | call => cases hd
  | reader => cases hd
  | handler => rfl
  | delivering => rfl
  | loop => rfl

theorem Book.receiver_dropStream {b : Book} {id i : RequestId} (hi : i ≠ id) :
    (b.dropStream id).view (·.channel.receiver) i = b.view (·.channel.receiver) i :=
  (Book.view_modify_ne hi _).trans (Book.view_cancel (fun _ => rfl) id i)

theorem Book.receiver_recv {b b' : Book} {id : RequestId} {m : Member}
    (hb : b.recv id = (.member m, b')) (i : RequestId) :
    b'.view (·.channel.receiver) i = b.view (·.channel.receiver) i := by
  obtain ⟨r, rest, hr, -, -, hrep, -⟩ := recv_member hb
  exact Book.view_replaces hrep hr (Channel.receiver_take _) i

namespace Scene

/-- Whether the caller (`none`) or a task holds the stream of a request. -/
def Holds (s : Scene) : Option TaskId → RequestId → Prop
  | none, id => id ∈ s.streams
  | some t, id => s.stream? t = some id

structure Owned (s : Scene) : Prop where
  nodup : s.streams.Nodup
  sole : ∀ {x y id}, s.Holds x id → s.Holds y id → x = y
  listening : ∀ {x id}, s.Holds x id → s.book.view (·.channel.receiver) id = some .listening

theorem stream?_set (s : Scene) (t : TaskId) (x : Option Task) (t' : TaskId) :
    (s.set t x).stream? t' = if t' = t then x.bind Task.stream? else s.stream? t' := by
  simp only [stream?, set, Function.update_apply]
  split <;> rfl

theorem stream?_spawn (s : Scene) (task : Task) (t' : TaskId) :
    (s.spawn task).stream? t' = if t' = s.started then task.stream? else s.stream? t' := by
  simp only [stream?, spawn, Function.update_apply]
  split <;> rfl

theorem stream?_of_task {s : Scene} {t : TaskId} {task : Task} (ht : s.tasks t = some task) :
    s.stream? t = task.stream? := by
  simp [stream?, ht]

/-- A task is replaced by one that holds what it held, or by none if it held nothing. -/
theorem holds_of_set {s : Scene} {b : Book} {t : TaskId} {task : Task} {x : Option Task}
    (ht : s.tasks t = some task) (hx : x.bind Task.stream? = task.stream?) {y : Option TaskId}
    {i : RequestId} (h : Holds (set { s with book := b } t x) y i) : s.Holds y i := by
  cases y with
  | none => exact h
  | some t' =>
    rw [Holds, stream?_set] at h
    split at h
    · rename_i e
      rw [e, Holds, stream?_of_task ht, ← hx]
      exact h
    · exact h

theorem holds_of_spawn {s : Scene} {task : Task} (hx : task.stream? = none) {y : Option TaskId}
    {i : RequestId} (h : (s.spawn task).Holds y i) : s.Holds y i := by
  cases y with
  | none => exact h
  | some t =>
    rw [Holds, stream?_spawn] at h
    split at h
    · rw [hx] at h
      cases h
    · exact h

theorem holds_of_book {s : Scene} {b : Book} {y : Option TaskId} {i : RequestId}
    (h : Holds { s with book := b } y i) : s.Holds y i := by
  cases y with
  | none => exact h
  | some t => exact h

namespace Owned

variable {s s' : Scene} {id : RequestId}

/-- Nobody comes to hold a stream, and nobody reads less of one that is held. -/
theorem kept (ho : s.Owned) (hs : ∀ x i, s'.Holds x i → s.Holds x i) (hnd : s'.streams.Nodup)
    (hb : ∀ x i, s'.Holds x i →
      s'.book.view (·.channel.receiver) i = s.book.view (·.channel.receiver) i) : s'.Owned where
  nodup := hnd
  sole hx hy := ho.sole (hs _ _ hx) (hs _ _ hy)
  listening hx := (hb _ _ hx).trans (ho.listening (hs _ _ hx))

/-- The stream of one request comes to be held by `y`. -/
theorem pass (ho : s.Owned) (id : RequestId) (y : Option TaskId)
    (hs : ∀ x i, s'.Holds x i → (s.Holds x i ∧ i ≠ id) ∨ (x = y ∧ i = id)) (hnd : s'.streams.Nodup)
    (hl : s'.book.view (·.channel.receiver) id = some .listening)
    (hb : ∀ x i, s.Holds x i → i ≠ id →
      s'.book.view (·.channel.receiver) i = s.book.view (·.channel.receiver) i) : s'.Owned where
  nodup := hnd
  sole {x z i} hx hz := by
    rcases hs x i hx with ⟨hx, hne⟩ | ⟨rfl, rfl⟩
    · rcases hs z i hz with ⟨hz, -⟩ | ⟨-, rfl⟩
      · exact ho.sole hx hz
      · exact absurd rfl hne
    · rcases hs z i hz with ⟨-, hne⟩ | ⟨rfl, -⟩
      · exact absurd rfl hne
      · rfl
  listening {x i} hx := by
    rcases hs x i hx with ⟨hx, hne⟩ | ⟨rfl, rfl⟩
    · exact (hb x i hx hne).trans (ho.listening hx)
    · exact hl

theorem lt_of_holds (ho : s.Owned) {x : Option TaskId} (hx : s.Holds x id) :
    id < s.book.requests.size := by
  have hl := ho.listening hx
  unfold Book.view at hl
  obtain ⟨r, hr, -⟩ := Option.map_eq_some_iff.mp hl
  exact (Array.getElem?_eq_some_iff.mp hr).1

/-- A stream of the caller goes to a new reader. -/
theorem read (ho : s.Owned) (hid : id ∈ s.streams) (goal : ReadGoal) :
    Owned ({ s with streams := s.streams.erase id }.spawn (.reader id goal [])) := by
  refine ho.pass id (some s.started) (fun x i h => ?_) (ho.nodup.erase id)
    (ho.listening (x := none) hid) (fun _ _ _ _ => rfl)
  cases x with
  | none =>
    obtain ⟨hne, hi⟩ := ho.nodup.mem_erase_iff.mp h
    exact .inl ⟨hi, hne⟩
  | some t =>
    rw [Holds, stream?_spawn] at h
    split at h
    · rename_i e
      cases h
      exact .inr ⟨congrArg some e, rfl⟩
    · refine .inl ⟨h, ?_⟩
      rintro rfl
      cases ho.sole (x := none) (y := some t) hid h

theorem discard (ho : s.Owned) (hid : id ∈ s.streams) :
    Owned { s with book := s.book.dropStream id, streams := s.streams.erase id } := by
  refine ho.kept (fun x i h => ?_) (ho.nodup.erase id) fun x i h => Book.receiver_dropStream ?_
  · cases x with
    | none => exact List.mem_of_mem_erase h
    | some t => exact h
  · rintro rfl
    cases x with
    | none => exact ho.nodup.not_mem_erase h
    | some t => cases ho.sole (x := none) (y := some t) hid h

/-- The stream of a new request goes to the task that has made it. -/
theorem make (ho : s.Owned) {b : Book} {r : Request} {t : TaskId} {task : Task} (hr : r.Fresh)
    (hreq : b.requests = s.book.requests.push r) (hs : task.stream? = some s.book.requests.size) :
    Owned (set { s with book := b } t (some task)) := by
  obtain ⟨n, g, f, k, rfl⟩ := hr
  refine ho.pass s.book.requests.size (some t) (fun x i h => ?_) ho.nodup ?_ fun x i h hne => ?_
  · cases x with
    | none => exact .inl ⟨h, Nat.ne_of_lt (ho.lt_of_holds (x := none) h)⟩
    | some t' =>
      rw [Holds, stream?_set] at h
      split at h
      · rename_i e
        cases hs.symm.trans h
        exact .inr ⟨congrArg some e, rfl⟩
      · exact .inl ⟨h, Nat.ne_of_lt (ho.lt_of_holds (x := some t') h)⟩
  · simp [set, Book.view, hreq]
  · simp only [set, Book.view, hreq, Array.getElem?_push, if_neg hne]

/-- Once the task that holds a stream is gone, no task holds it. -/
theorem ne_of_gone (ho : s.Owned) {b : Book} {t t' : TaskId} {i : RequestId}
    (hid : s.Holds (some t) id) (h : (set { s with book := b } t none).stream? t' = some i) :
    s.Holds (some t') i ∧ i ≠ id := by
  rw [stream?_set] at h
  split at h
  · cases h
  · rename_i hne
    refine ⟨h, ?_⟩
    rintro rfl
    cases ho.sole (x := some t') h hid
    exact hne rfl

/-- The stream of a task goes to the caller. -/
theorem handOut (ho : s.Owned) {t : TaskId} (hid : s.Holds (some t) id) :
    Owned ({ s with streams := s.streams ++ [id] }.set t none) := by
  have hnew : id ∉ s.streams := by
    intro h
    cases ho.sole (x := none) h hid
  refine ho.pass id none (fun x i h => ?_) ?_ (ho.listening hid) (fun _ _ _ _ => rfl)
  · cases x with
    | none =>
      rcases List.mem_append.mp h with h | h
      · exact .inl ⟨h, fun e => hnew (e ▸ h)⟩
      · exact .inr ⟨rfl, List.mem_singleton.mp h⟩
    | some t' => exact .inl (ho.ne_of_gone (b := s.book) hid h)
  · refine List.nodup_append.mpr ⟨ho.nodup, List.pairwise_singleton _ id, fun a ha c hc => ?_⟩
    rw [List.mem_singleton.mp hc]
    rintro rfl
    exact hnew ha

/-- A task ends and drops the stream that it holds. -/
theorem leave (ho : s.Owned) {t : TaskId} (hid : s.Holds (some t) id) :
    Owned (set { s with book := s.book.dropStream id } t none) := by
  have left (x : Option TaskId) (i : RequestId)
      (h : (set { s with book := s.book.dropStream id } t none).Holds x i) :
      s.Holds x i ∧ i ≠ id := by
    cases x with
    | none =>
      refine ⟨h, ?_⟩
      rintro rfl
      cases ho.sole (x := none) h hid
    | some t' => exact ho.ne_of_gone hid h
  exact ho.kept (fun x i h => (left x i h).1) ho.nodup
    fun x i h => Book.receiver_dropStream (left x i h).2

end Owned
end Scene

/-- In a reached scene every stream is held by one at most, and whoever holds it reads. -/
theorem Reached.owned {j : List Occurrence} {s : Scene} (hr : Reached j s) : s.Owned := by
  induction hr with
  | new nonces =>
    have free {x : Option TaskId} {id : RequestId}
        (h : Scene.Holds ⟨{ nonces }, fun _ => none, 0, []⟩ x id) : False := by
      cases x with
      | none => exact List.not_mem_nil h
      | some t => cases h
    exact ⟨List.nodup_nil, fun h => (free h).elim, fun h => (free h).elim⟩
  | @step j os s s' hr h ih =>
    have started {task : Task} (hx : task.stream? = none) : (s.spawn task).Owned :=
      ih.kept (fun _ _ => Scene.holds_of_spawn hx) ih.nodup fun _ _ _ => rfl
    have booked {b : Book}
        (hb : ∀ i, b.view (·.channel.receiver) i = s.book.view (·.channel.receiver) i) :
        Scene.Owned { s with book := b } :=
      ih.kept (fun _ _ => Scene.holds_of_book) ih.nodup fun _ i _ => hb i
    have goesOn {b : Book} {t : TaskId} {task : Task} {x : Option Task}
        (ht : s.tasks t = some task) (hx : x.bind Task.stream? = task.stream?)
        (hb : ∀ i, b.view (·.channel.receiver) i = s.book.view (·.channel.receiver) i) :
        Scene.Owned (Scene.set { s with book := b } t x) :=
      ih.kept (fun _ _ => Scene.holds_of_set ht hx) ih.nodup fun _ i _ => hb i
    cases h with
    | call hs => exact started (by simp [Task.stream?, hs])
    | attend ha => exact started ha.stream?
    | read hid goal => exact ih.read hid goal
    | recv hid hb => exact booked (Book.receiver_recv hb)
    | cancel id => exact booked (Book.view_cancel (fun _ => rfl) id)
    | discard hid => exact ih.discard hid
    | shutdown => exact booked (Book.view_shutdown (fun _ => rfl))
    | draw => exact booked fun _ => rfl
    | make ht hs hf hb =>
      obtain ⟨nonce, -, rfl, hreq, -⟩ := Book.registerWith_some hb
      exact ih.make (hf nonce).1 hreq rfl
    | release ht hs => exact goesOn ht (by simp [Task.stream?, hs]) fun _ => rfl
    | handOut ht hs hg =>
      exact ih.handOut ((Scene.stream?_of_task ht).trans (by simp [Task.stream?, hs]))
    | begin ht hs => exact goesOn ht (by simp [Task.stream?, hs]) fun _ => rfl
    | gather ht hs hb => exact goesOn ht (by simp [Task.stream?, hs]) (Book.receiver_recv hb)
    | take ht hb => exact goesOn ht rfl (Book.receiver_recv hb)
    | leave ht hs => exact ih.leave ((Scene.stream?_of_task ht).trans hs)
    | stop ht hi => exact goesOn ht hi.1.symm fun _ => rfl
    | @arrive t task task' d c n ht ha hd hc hn hq hs ha' hd' =>
      exact goesOn ht (ha'.stream?.trans ha.stream?.symm)
        (Book.view_modify (f := (·.join t)) fun _ => rfl)
    | advance ht hd hb ha' hd' =>
      obtain ⟨r, r', hq, hrep, -, hturn, -⟩ :=
        hr.lined.head_of_moved ((Scene.delivery?_of_task ht).trans hd) hb
      exact goesOn ht (ha'.stream?.trans (Task.stream?_of_delivery hd).symm)
        (Book.view_replaces hrep hq hturn.reader.2)
    | @settle t task last d b out ht hd hb hl =>
      obtain ⟨r, r', hq, hrep, hturn, -⟩ :=
        hr.lined.head_of_done ((Scene.delivery?_of_task ht).trans hd) hb
      refine goesOn ht ?_ (Book.view_replaces hrep hq hturn.reader.2)
      rw [Task.stream?_of_delivery hd]
      cases last with
      | none => rfl
      | some task' => exact (hl task' rfl).1.stream?
    | @interrupt t task d ht hd =>
      exact goesOn ht (Task.stream?_of_delivery hd).symm
        (Book.view_modify (f := (·.leave t)) fun _ => rfl)

end Rollcall
