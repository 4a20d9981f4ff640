import Rollcall.Peer.Responder

/-!
# What responders give out

What is left of a responder's work (`Responder.left`) loses its first chunk when one is given out and
grows by the answer to each frame that is taken (`Responder.emit_left`, `Responder.left_take`). So
over any run the chunks come out in the order of the frames, each once and none skipped. Main
statement: `responses_in_order`; when they come out, if nothing holds them up:
`responses_on_schedule`.
-/

namespace Rollcall

variable {p : Peer}

/-! ## Replies -/

namespace Peer

theorem chunks_mapIdx (time : Nat → Duration) (cs : List Chunk) :
    (cs.mapIdx fun i c => (time i, c)).map (·.2) = cs :=
  List.ext_getElem (by simp) (by simp)

theorem answers_nextReply (frames : List Json) :
    (p.nextReply frames).1 ++ (p.nextReply frames).2.flatMap p.answer =
      frames.flatMap p.answer := by
  induction frames with
  | nil => rfl
  | cons frame frames ih =>
    rw [nextReply, List.flatMap_cons]
    by_cases hempty : (p.answer frame).isEmpty = true
    · rw [if_pos hempty, ih, List.isEmpty_iff.mp hempty, List.nil_append]
    · rw [if_neg hempty]

theorem nextReply_of_nil {frames : List Json} (h : (p.nextReply frames).1 = []) :
    p.nextReply frames = ([], []) := by
  induction frames with
  | nil => rfl
  | cons frame frames ih =>
    rw [nextReply] at h ⊢
    by_cases hempty : (p.answer frame).isEmpty = true
    · rw [if_pos hempty] at h ⊢
      exact ih h
    · rw [if_neg hempty] at h
      exact absurd (List.isEmpty_iff.mpr h) hempty

theorem schedule_chunks (start : Duration) (frames : List Json) :
    (p.schedule start frames).map (·.2) = frames.flatMap p.answer := by
  induction frames generalizing start with
  | nil => rfl
  | cons frame frames ih => rw [schedule, List.map_append, ih, List.flatMap_cons, chunks_mapIdx]

end Peer

namespace Responder

variable {r : Responder}

/-! ## One look -/

def left (p : Peer) (r : Responder) : List Chunk := r.reply ++ r.frames.flatMap p.answer

theorem left_take (frame : Json) : (r.take frame).left p = r.left p ++ p.answer frame := by
  simp [left, take]

theorem left_ready : (r.ready p).left p = r.left p := by
  unfold ready
  by_cases hempty : r.reply.isEmpty = true
  · rw [if_pos hempty, left, left, List.isEmpty_iff.mp hempty]
    exact p.answers_nextReply r.frames
  · rw [if_neg hempty]

theorem due_ready : (r.ready p).due = r.due := by
  unfold ready
  split <;> rfl

theorem left_of_reply_nil (h : (r.ready p).reply = []) : (r.ready p).left p = [] := by
  unfold ready at h ⊢
  by_cases hempty : r.reply.isEmpty = true
  · rw [if_pos hempty] at h ⊢
    rw [Peer.nextReply_of_nil h]
    rfl
  · rw [if_neg hempty] at h
    exact absurd (List.isEmpty_iff.mpr h) hempty

inductive Emits (p : Peer) (now : Duration) (r : Responder) (given : Option Chunk)
    (r' : Responder) : Prop
  | spent (hleft : r.left p = []) (hsame : r'.left p = r.left p) (hg : given = none)
  | early (hdue : now.nanos < r.due.nanos) (hsame : r'.left p = r.left p) (hg : given = none)
  | gives (c : Chunk) (hdue : r.due.nanos ≤ now.nanos) (hleft : r.left p = c :: r'.left p)
      (hg : given = some c)

theorem emits (p : Peer) (now : Duration) (r : Responder) :
    r.Emits p now (r.emit p now).1 (r.emit p now).2 := by
  have hready : (r.ready p).left p = r.left p := left_ready
  unfold emit
  cases hreply : (r.ready p).reply with
  | nil =>
    simp only [hreply]
    exact .spent (hready ▸ left_of_reply_nil hreply) hready rfl
  | cons c rest =>
    simp only [hreply, due_ready]
    by_cases hearly : now.nanos < r.due.nanos
    · rw [if_pos hearly]
      exact .early hearly hready rfl
    · rw [if_neg hearly]
      refine .gives c (Nat.le_of_not_lt hearly) ?_ rfl
      rw [← hready, left, hreply]
      rfl

theorem emit_left (p : Peer) (now : Duration) (r : Responder) :
    (r.emit p now).1.toList ++ (r.emit p now).2.left p = r.left p := by
  cases r.emits p now with
  | spent hleft hsame hg => rw [hg, hsame, Option.toList_none, List.nil_append]
  | early hdue hsame hg => rw [hg, hsame, Option.toList_none, List.nil_append]
  | gives c hdue hleft hg => rw [hg, hleft, Option.toList_some, List.singleton_append]

theorem emit_eq_head? (p : Peer) (now : Duration) (r : Responder) :
    (r.emit p now).1 = if r.due.nanos ≤ now.nanos then (r.left p).head? else none := by
  cases r.emits p now with
  | spent hleft hsame hg => rw [hg, hleft, List.head?_nil, ite_self]
  | early hdue hsame hg => rw [hg, if_neg (Nat.not_le_of_lt hdue)]
  | gives c hdue hleft hg => rw [hg, if_pos hdue, hleft, List.head?_cons]

/-! ## Runs -/

inductive Contact where
  | frame (f : Json)
  | look (now : Duration)

def Contact.frame? : Contact → Option Json
  | frame f => some f
  | look _ => none

def run (p : Peer) (r : Responder) : List Contact → List Chunk × Responder
  | [] => ([], r)
  | .frame f :: rest => run p (r.take f) rest
  | .look now :: rest =>
    let (given, r) := r.emit p now
    let (cs, r) := run p r rest
    (given.toList ++ cs, r)

theorem run_left (p : Peer) (r : Responder) (contacts : List Contact) :
    (r.run p contacts).1 ++ (r.run p contacts).2.left p =
      r.left p ++ (contacts.filterMap Contact.frame?).flatMap p.answer := by
  induction contacts generalizing r with
  | nil => exact (List.append_nil _).symm
  | cons contact rest ih =>
    cases contact with
    | frame f =>
      rw [run, ih, left_take, List.append_assoc]
      rfl
    | look now =>
      rw [run, List.append_assoc, ih, ← List.append_assoc, emit_left]
      rfl

/-! ## Keeping to the schedule -/

def plan (p : Peer) (r : Responder) : List (Duration × Chunk) :=
  r.reply.mapIdx (fun i c => (⟨r.due.nanos + i * p.pause.nanos⟩, c)) ++
    p.schedule ⟨r.due.nanos + (r.reply.length - 1) * p.pause.nanos⟩ r.frames

theorem schedule_nextReply (start : Duration) (frames : List Json) :
    plan p ⟨(p.nextReply frames).2, (p.nextReply frames).1, start⟩ = p.schedule start frames := by
  induction frames with
  | nil => rfl
  | cons frame frames ih =>
    rw [Peer.nextReply, Peer.schedule]
    by_cases hempty : (p.answer frame).isEmpty = true
    · rw [if_pos hempty, ih, List.isEmpty_iff.mp hempty]
      simp
    · rw [if_neg hempty]
      rfl

theorem plan_ready : (r.ready p).plan p = r.plan p := by
  unfold ready
  by_cases hempty : r.reply.isEmpty = true
  · have hreply : r.plan p = p.schedule r.due r.frames := by
      rw [plan, List.isEmpty_iff.mp hempty]
      simp
    rw [if_pos hempty, hreply]
    exact schedule_nextReply r.due r.frames
  · rw [if_neg hempty]

theorem plan_chunks : (r.plan p).map (·.2) = r.left p := by
  rw [plan, List.map_append, Peer.chunks_mapIdx, Peer.schedule_chunks]
  rfl

theorem plan_cons (frames : List Json) (c : Chunk) (rest : List Chunk) (due : Duration) :
    plan p ⟨frames, c :: rest, due⟩ = (due, c) ::
      plan p ⟨frames, rest, if rest.isEmpty then due else ⟨due.nanos + p.pause.nanos⟩⟩ := by
  cases rest with
  | nil => simp [plan]
  | cons d rest =>
    have hlater (n : Nat) :
        due.nanos + (n + 1) * p.pause.nanos = due.nanos + p.pause.nanos + n * p.pause.nanos := by
      rw [Nat.succ_mul]
      omega
    simp only [plan, List.mapIdx_cons, hlater, List.length_cons, Nat.add_sub_cancel]
    simp

/-- The responder looks at itself so many times, each time when it is due. -/
def punctually (p : Peer) : Nat → Responder → List (Duration × Chunk)
  | 0, _ => []
  | n + 1, r =>
    match r.emit p r.due with
    | (none, _) => []
    | (some c, r') => (r.due, c) :: punctually p n r'

theorem plan_emit (p : Peer) (r : Responder) : match r.emit p r.due with
    | (none, _) => r.plan p = []
    | (some c, r') => r.plan p = (r.due, c) :: r'.plan p := by
  rw [← plan_ready]
  unfold emit
  cases hreply : (r.ready p).reply with
  | nil =>
    simp only [hreply]
    exact List.map_eq_nil_iff.mp (plan_chunks.trans (left_of_reply_nil hreply))
  | cons c rest =>
    simp only [hreply, due_ready, Nat.lt_irrefl, if_false]
    rw [← due_ready (p := p), ← plan_cons, ← hreply]

theorem punctually_eq (n : Nat) (r : Responder) : r.punctually p n = (r.plan p).take n := by
  induction n generalizing r with
  | zero => rfl
  | succ n ih =>
    have hplan := r.plan_emit p
    rw [punctually]
    split at hplan
    · rw [hplan, List.take_nil]
    · rw [hplan, List.take_succ_cons, ih]

end Responder

/-! ## Summary -/

/-- **Responders answer in order.** What a new responder has given out after any frames and looks, and
then what is left, are the answers to the frames, in order; the next of them is given out by each look
that is not too early. -/
theorem responses_in_order (p : Peer) (contacts : List Responder.Contact) :
    let (given, r) := Responder.run p {} contacts
    given ++ r.left p = (contacts.filterMap Responder.Contact.frame?).flatMap p.answer ∧
      ∀ now, (r.emit p now).1 = if r.due.nanos ≤ now.nanos then (r.left p).head? else none :=
  ⟨Responder.run_left p {} contacts, fun now => Responder.emit_eq_head? p now _⟩

/-- **A responder keeps to the schedule** if it is looked at whenever it is due. -/
theorem responses_on_schedule (p : Peer) (start : Duration) (frames : List Json) (n : Nat) :
    Responder.punctually p n ⟨frames, [], start⟩ = (p.schedule start frames).take n := by
  rw [Responder.punctually_eq, Responder.plan]
  simp

end Rollcall
