import Rollcall.Proofs.Course
import Rollcall.Proofs.Tasks

/-!
# Coming to rest

Every segment makes a hub lighter: it uses up a part of a chunk, of a queue or of a channel, or it
takes its task further. So tasks cannot run forever. However they are scheduled they come to rest, and
what holds of every hub at rest that they can lead to holds in the end (`Hub.settles`).
-/

namespace Rollcall

/-! ## Totals over arrays -/

namespace Cooperation

theorem total_set {α : Type} (f : α → Nat) : ∀ {l : List α} {i : Nat} {x : α} (y : α),
    l[i]? = some x → total ((l.set i y).map f) + f x = total (l.map f) + f y
  | [], _, _, _, h => by cases h
  | a :: l, 0, x, y, h => by
    cases h
    simp only [List.set_cons_zero, List.map_cons, total, List.foldr_cons]
    omega
  | a :: l, i + 1, x, y, h => by
    have ih := total_set f y (l := l) (i := i) (x := x) (by simpa using h)
    simp only [List.set_cons_succ, List.map_cons, total, List.foldr_cons] at ih ⊢
    omega

theorem total_replaced {α : Type} (f : α → Nat) {xs ys : Array α} {i : Nat} {x y : α}
    (hx : xs[i]? = some x) (h : ∀ k, ys[k]? = if k = i then some y else xs[k]?) :
    total (ys.toList.map f) + f x = total (xs.toList.map f) + f y := by
  have hys : ys = xs.setIfInBounds i y := by
    apply Array.ext_getElem?
    intro k
    have hlt := (Array.getElem?_eq_some_iff.mp hx).1
    rw [h k, Array.getElem?_setIfInBounds]
    by_cases hk : k = i
    · subst hk
      simp [hlt]
    · simp [hk, Ne.symm hk]
  rw [hys, Array.toList_setIfInBounds]
  exact total_set f y (by simpa using hx)

theorem total_congr {α : Type} (f : α → Nat) {xs ys : Array α}
    (h : ∀ k : Nat, (ys[k]?).map f = (xs[k]?).map f) :
    total (ys.toList.map f) = total (xs.toList.map f) := by
  have hmap : ys.map f = xs.map f := by
    apply Array.ext_getElem?
    intro k
    simp only [Array.getElem?_map, h k]
  rw [← Array.toList_map, ← Array.toList_map, hmap]

end Cooperation

/-! ## Books -/

namespace Book

def load (b : Book) : Nat := Cooperation.total (b.requests.toList.map Hub.requestWeight)

variable {b b' : Book} {id : RequestId} {r r' : Request}

theorem load_replaces (hr : b.requests[id]? = some r) (h : b.Replaces id r' b') :
    b'.load + r.channel.unread.length = b.load + r'.channel.unread.length :=
  Cooperation.total_replaced Hub.requestWeight hr h

theorem load_of_view (h : ∀ i, b'.view Hub.requestWeight i = b.view Hub.requestWeight i) :
    b'.load = b.load :=
  Cooperation.total_congr Hub.requestWeight h

theorem load_modify (b : Book) (id : RequestId) {f : Request → Request}
    (hf : ∀ r, Hub.requestWeight (f r) = Hub.requestWeight r) : (b.modify id f).load = b.load :=
  load_of_view (view_modify hf)

theorem load_dropStream (b : Book) (id : RequestId) : (b.dropStream id).load = b.load :=
  load_of_view (view_dropStream (fun _ => rfl) (fun _ => rfl) id)

theorem load_push {r : Request} (hr : r.channel.unread = [])
    (h : b'.requests = b.requests.push r) : b'.load = b.load := by
  simp [load, h, Hub.requestWeight, hr, Cooperation.total]

theorem load_recv {m : Member} (h : b.recv id = (.member m, b')) : b'.load + 1 = b.load := by
  obtain ⟨r, rest, hr, -, hu, hrep, -⟩ := recv_member h
  have hl := load_replaces hr hrep
  simp only [Channel.take, hu, List.length_cons] at hl
  omega

end Book

/-! ## Deliveries -/

namespace Delivery

variable {d : Delivery} {t : TaskId} {b : Book} {filter : Option (Member → Bool)}

theorem length_seek {caching : Bool} : ∀ {ms : List Member} {cache : MemberCache} {n : Nat}
    {m : Member} {rest : List Member},
    (seek caching filter cache n ms).2.2 = some (m, rest) → rest.length < ms.length
  | [], _, _, _, _, h => by cases h
  | m' :: ms, cache, n, m, rest, h => by
    simp only [seek] at h
    split at h
    · cases h
      exact Nat.lt_succ_self _
    · exact Nat.lt_succ_of_lt (length_seek h)

def Lightens (w : Nat) : Move Book Delivery Delivered → Prop
  | .blocked => True
  | .moved b' d' => b'.load + d'.weight < w
  | .done b' _ => b'.load < w

theorem proceed_lightens {last : Bool} {rest : List Member} {n k : Nat} :
    Lightens (b.load + 2 * rest.length + 2) (d.proceed t b filter last rest n k) := by
  unfold proceed
  split
  · rename_i cache k' m rest' heq
    have hlt : rest'.length < rest.length := length_seek (by rw [heq])
    change b.load + (2 * rest'.length + 3) < b.load + 2 * rest.length + 2
    omega
  · have hsame := b.load_modify d.request (f := fun r => (r.countChunk d.declared).leave t)
      fun r => by simp [Hub.requestWeight, Request.leave]
    change (b.modify d.request _).load < b.load + 2 * rest.length + 2
    omega

theorem abandon_lightens {rest : List Member} {n k w : Nat} (hw : b.load < w) :
    Lightens w (d.abandon t b filter rest n k) := by
  have hsame := b.load_modify d.request (f := fun r => r.closeSender.leave t) fun _ => rfl
  change (b.modify d.request _).load < w
  omega

theorem begin_lightens {r : Request} {ms : List Member} :
    Lightens (b.load + 2 * ms.length + 2) (d.begin t b r ms) := by
  unfold begin
  split
  · have hsame := b.load_modify d.request (f := (·.leave t)) fun _ => rfl
    change (b.modify d.request _).load < b.load + 2 * ms.length + 2
    omega
  split
  · exact abandon_lightens (by omega)
  · exact proceed_lightens

theorem Lightens.mono {w w' : Nat} {m : Move Book Delivery Delivered} (h : Lightens w m)
    (hw : w ≤ w') : Lightens w' m := by
  cases m with
  | blocked => trivial
  | moved b' d' => exact Nat.lt_of_lt_of_le h hw
  | done b' o => exact Nat.lt_of_lt_of_le h hw

theorem advance_lightens (d : Delivery) (t : TaskId) (b : Book) :
    Lightens (b.load + d.weight) (d.advance t b) := by
  unfold advance
  cases hr : b.requests[d.request]? with
  | none => trivial
  | some r =>
    cases hs : d.stage with
    | arriving ms =>
      have hjoin := b.load_modify d.request (f := (·.join t)) fun _ => rfl
      simp only [weight, hs, Stage.weight]
      split
      · exact begin_lightens.mono (by omega)
      · change (b.modify d.request _).load + (2 * ms.length + 2) < _
        omega
    | inLine ms =>
      simp only [weight, hs, Stage.weight]
      split
      · exact begin_lightens.mono (by omega)
      · trivial
    | placing m rest n k =>
      have hplace := Book.load_replaces hr (Book.replaces_modify hr (·.place m))
      have hlen : (r.place m).channel.unread.length = r.channel.unread.length + 1 := by
        simp [Request.place, Channel.place]
      simp only [weight, hs, Stage.weight]
      split
      · exact abandon_lightens (by omega)
      split
      · exact proceed_lightens.mono (by omega)
      · trivial

end Delivery

namespace Hub

/-! ## Segments -/

def burden (h : Hub) : Nat := Cooperation.total (h.loops.toList.map loopWeight) + h.book.load

def Lightens {τ ρ : Type} (h : Hub) (w : Nat) (weigh : τ → Nat) (last : Nat) :
    Move Hub τ ρ → Prop
  | .blocked => True
  | .moved h' x => h'.burden + weigh x < h.burden + w
  | .done h' _ => h'.burden + last < h.burden + w

section
variable {h h' : Hub} {τ ρ : Type} {weigh : τ → Nat} {last : Nat} {m : Move Hub τ ρ}

theorem Lightens.mono {w w' : Nat} (hl : Lightens h' w weigh last m)
    (hw : h'.burden + w ≤ h.burden + w') : Lightens h w' weigh last m := by
  cases m with
  | blocked => trivial
  | moved h'' x => exact Nat.lt_of_lt_of_le hl hw
  | done h'' o => exact Nat.lt_of_lt_of_le hl hw

end

variable {h : Hub} {t : TaskId}

theorem burden_withBook (h : Hub) (b : Book) :
    burden { h with book := b } + h.book.load = h.burden + b.load := by
  simp only [burden]
  omega

theorem burden_dropStream (h : Hub) (id : RequestId) : (h.dropStream id).burden = h.burden := by
  change _ + (h.book.dropStream id).load = _
  rw [Book.load_dropStream]
  rfl

theorem afterSend_lightens {c : Call} {id : RequestId} {result : SendResult} :
    Lightens h 2 (fun c => callWeight c.stage) 0 (h.afterSend c id result) := by
  unfold afterSend
  split
  · have hsame := h.burden_dropStream id
    change (h.dropStream id).burden + 0 < h.burden + 2
    omega
  · split
    · exact Nat.add_lt_add_left Nat.zero_lt_two _
    · exact Nat.add_lt_add_left Nat.one_lt_two _

theorem burden_start (h : Hub) (t : TaskId) (i : Inquiry) : (h.start t i).2.burden = h.burden := by
  have frame (h' : Hub) (s : Scene) (hl : h'.loops = h.loops) (hs : h'.scene = s)
      (hb : s.book.load = h.book.load) : h'.burden = h.burden := by
    subst hs
    rw [burden, hl, show h'.book.load = h.book.load from hb, burden]
  have hloops : (h.start t i).2.loops = h.loops := by
    unfold start handOver
    split
    · rfl
    split
    · rfl
    split
    · rfl
    split
    · rfl
    split
    · rfl
    simp only
    split
    · rfl
    · split <;> rfl
  rcases start_cases h t i with ⟨-, -, nonces, hsc⟩ | ⟨id, res, build, b, -, -, hf, -, hb, hsc⟩
  · exact frame _ _ hloops hsc rfl
  · obtain ⟨nonce, -, -, hreq, -⟩ := Book.registerWith_some hb
    obtain ⟨n, g, f, c, he⟩ := (hf nonce).1
    exact frame _ _ hloops hsc (Book.load_push (by rw [he]) hreq)

theorem advanceStart_lightens {c : Call} :
    Lightens h 3 (fun c => callWeight c.stage) 0 (h.advanceStart t c) := by
  unfold advanceStart
  split
  · exact Nat.add_lt_add_left (by decide) _
  have hsame := h.burden_start t c.inquiry
  generalize h.start t c.inquiry = x at hsame
  obtain ⟨started, h'⟩ := x
  cases started with
  | failed f => exact Nat.add_lt_add_of_le_of_lt (Nat.le_of_eq hsame) (by decide)
  | oversized => exact Nat.add_lt_add_of_le_of_lt (Nat.le_of_eq hsame) (by decide)
  | sent id result =>
    cases result with
    | none => exact Nat.add_lt_add_of_le_of_lt (Nat.le_of_eq hsame) (Nat.lt_succ_self 2)
    | some result =>
      have hl : Lightens h' 2 (fun c => callWeight c.stage) 0
          (h'.afterSend (c.timed h.now) id result) := afterSend_lightens
      exact hl.mono (by simp only at hsame; omega)

theorem advanceReading_lightens {c : Call} {id : RequestId} {got : List Member} :
    Lightens h 1 (fun c => callWeight c.stage) 0 (h.advanceReading c id got) := by
  have left : (h.dropStream id).burden + 0 < h.burden + 1 := by
    have hsame := h.burden_dropStream id
    omega
  unfold advanceReading
  split
  · exact left
  split
  · rename_i m b hb
    have hload := Book.load_recv hb
    have hbook := h.burden_withBook b
    change burden { h with book := b } + 1 < h.burden + 1
    omega
  · trivial
  · exact left

theorem expire_lightens {c : Call} :
    Lightens h (callWeight c.stage) (fun c => callWeight c.stage) 0 (h.expire c) := by
  have left (id : RequestId) {w : Nat} (hw : 0 < w) : (h.dropStream id).burden + 0 < h.burden + w := by
    have hsame := h.burden_dropStream id
    omega
  unfold expire
  split
  · trivial
  split
  · trivial
  cases c.stage with
  | starting => exact Nat.add_lt_add_left (by decide) _
  | sending id result => exact left id (by simp [callWeight])
  | reading id got => exact left id (by simp [callWeight])

theorem advanceCall_lightens {c : Call} :
    Lightens h (callWeight c.stage) (fun c => callWeight c.stage) 0 (h.advanceCall t c) := by
  unfold advanceCall
  extract_lets inner
  have hl : Lightens h (callWeight c.stage) (fun c => callWeight c.stage) 0 inner := by
    simp only [inner]
    split
    · rename_i hs
      rw [hs]
      exact advanceStart_lightens
    · trivial
    · rename_i hs
      rw [hs]
      exact afterSend_lightens
    · rename_i hs
      rw [hs]
      exact advanceReading_lightens
  clear_value inner
  cases inner with
  | blocked => exact expire_lightens
  | moved h' c' => exact hl
  | done h' o => exact hl

theorem advanceReader_lightens {id : RequestId} {goal : ReadGoal} {got : List Member} :
    Lightens h 1 taskWeight 0 (h.advanceReader id goal got) := by
  have left : (h.dropStream id).burden + 0 < h.burden + 1 := by
    have hsame := h.burden_dropStream id
    omega
  unfold advanceReader
  split
  · exact left
  split
  · rename_i m b hb
    have hload := Book.load_recv hb
    have hbook := h.burden_withBook b
    split
    · have hsame := burden_dropStream { h with book := b } id
      change (dropStream { h with book := b } id).burden + 0 < h.burden + 1
      omega
    · change burden { h with book := b } + 1 < h.burden + 1
      omega
  · trivial
  · exact left

theorem deliver_lightens {d : Delivery} :
    Lightens h d.weight Delivery.weight 0 (h.deliver t d) := by
  have hl := d.advance_lightens t h.book
  unfold deliver
  cases hm : d.advance t h.book with
  | blocked => trivial
  | moved b d' =>
    rw [hm] at hl
    have hl : b.load + d'.weight < h.book.load + d.weight := hl
    have hbook := h.burden_withBook b
    change burden { h with book := b } + d'.weight < h.burden + d.weight
    omega
  | done b o =>
    rw [hm] at hl
    have hl : b.load < h.book.load + d.weight := hl
    have hsettle : (b.settle d.request o.verdict).load = b.load := by
      rw [Book.load, Book.requests_settle, Book.load]
    have hbook := h.burden_withBook (b.settle d.request o.verdict)
    change burden { h with book := b.settle d.request o.verdict } + 0 < h.burden + d.weight
    omega

theorem receive_lightens {e : Event} :
    Lightens h (eventWeight e) Delivery.weight 0 (h.receive t e) := by
  cases e with
  | other kind => exact Nat.add_lt_add_left Nat.zero_lt_one _
  | chunk c =>
    unfold receive
    simp only
    split
    · exact Nat.add_lt_add_left (by simp [eventWeight]) _
    · refine Lightens.mono deliver_lightens ?_
      refine Nat.add_le_add_left ?_ _
      simp [Delivery.weight, Delivery.Stage.weight, eventWeight, Chunk.stamped]

theorem handlerMove_lightens {w : Nat} {m : Move Hub Delivery Unit}
    (hl : Lightens h w Delivery.weight 0 m) : Lightens h w taskWeight 0 (handlerMove m) := by
  cases m with
  | blocked => trivial
  | moved h' d => exact hl
  | done h' u => exact hl

theorem loopMove_lightens {h' : Hub} {w w' index : Nat} {m : Move Hub Delivery Unit}
    (hl : Lightens h' w Delivery.weight 0 m) (hw : h'.burden + w + 1 ≤ h.burden + w') :
    Lightens h w' taskWeight 0 (loopMove index m) := by
  cases m with
  | blocked => trivial
  | moved h'' d =>
    have hl : h''.burden + d.weight < h'.burden + w := hl
    change h''.burden + (d.weight + 1) < h.burden + w'
    omega
  | done h'' u =>
    have hl : h''.burden + 0 < h'.burden + w := hl
    change h''.burden + 1 < h.burden + w'
    omega

theorem burden_withLoop {index : Nat} {l : EventLoop} (hl : h.loops[index]? = some l)
    (f : EventLoop → EventLoop) :
    burden { h with loops := h.loops.modify index f } + loopWeight l =
      h.burden + loopWeight (f l) := by
  have hrep : ∀ k, (h.loops.modify index f)[k]? = if k = index then some (f l) else h.loops[k]? := by
    intro k
    rw [Array.getElem?_modify]
    by_cases hk : k = index
    · subst hk
      simp [hl]
    · simp [hk, Ne.symm hk]
  have htotal := Cooperation.total_replaced loopWeight hl hrep
  simp only [burden]
  omega

theorem advanceLoop_lightens {index : Nat} {current : Option Delivery} :
    Lightens h (taskWeight (.loop index current)) taskWeight 0 (h.advanceLoop t index current) := by
  unfold advanceLoop
  cases hl : h.loops[index]? with
  | none => trivial
  | some l =>
    have stopped (b : Book) (hb : b.load = h.book.load) :
        (stopLoop { h with book := b } index).burden ≤ h.burden := by
      have hload := burden_withLoop (h := { h with book := b }) hl
        fun l => { l with queue := [], running := false }
      have hempty : loopWeight { l with queue := [], running := false } = 0 := rfl
      have hbook := h.burden_withBook b
      rw [hempty] at hload
      unfold stopLoop
      omega
    cases current with
    | some d =>
      simp only
      split
      · have hload : (d.interrupt t h.book).load = h.book.load :=
          h.book.load_modify d.request fun _ => rfl
        exact Nat.add_lt_add_of_le_of_lt (stopped _ hload) (Nat.zero_lt_succ _)
      · exact loopMove_lightens deliver_lightens (Nat.le_refl _)
    | none =>
      simp only
      split
      · exact Nat.add_lt_add_of_le_of_lt (stopped h.book rfl) Nat.zero_lt_one
      cases hq : l.queue with
      | nil =>
        simp only
        split
        · trivial
        · exact Nat.add_lt_add_of_le_of_lt (stopped h.book rfl) Nat.zero_lt_one
      | cons e rest =>
        have hload := burden_withLoop hl fun l => { l with queue := rest }
        have hbefore : loopWeight l = eventWeight e + loopWeight { l with queue := rest } := by
          simp [loopWeight, hq, Cooperation.total]
        refine loopMove_lightens receive_lightens ?_
        change _ ≤ h.burden + 1
        omega

theorem advanceTask_lightens (h : Hub) (t : TaskId) (task : Task) :
    Lightens h (taskWeight task) taskWeight 0 (h.advanceTask t task) := by
  cases task with
  | call c =>
    have hl := advanceCall_lightens (h := h) (t := t) (c := c)
    simp only [advanceTask]
    cases hm : h.advanceCall t c with
    | blocked => trivial
    | moved h' c' =>
      rw [hm] at hl
      exact hl
    | done h' o =>
      rw [hm] at hl
      exact hl
  | reader id goal got => exact advanceReader_lightens
  | handler e => exact handlerMove_lightens receive_lightens
  | delivering d => exact handlerMove_lightens deliver_lightens
  | loop index current => exact advanceLoop_lightens

theorem weight_setTask {h' : Hub} {task : Task} (ht : h.task? t = some task)
    (hs : h'.tasks = h.tasks) (x : Option Task) :
    (h'.setTask t x).weight + taskWeight task + h.burden =
      h.weight + x.elim 0 taskWeight + h'.burden := by
  have hlt := lt_of_task? ht
  have hold : h.tasks[t]? = some (some task) := Option.join_eq_some_iff.mp ht
  have hrep : ∀ k, (h'.setTask t x).tasks[k]? = if k = t then some x else h.tasks[k]? := by
    intro k
    simp only [setTask, hs, Array.getElem?_setIfInBounds]
    by_cases hk : k = t
    · subst hk
      simp [hlt]
    · simp [hk, Ne.symm hk]
  have htotal := Cooperation.total_replaced (fun t => t.elim 0 taskWeight) hold hrep
  simp only [Option.elim_some] at htotal
  simp only [weight, burden, Book.load]
  change _ + Cooperation.total (h'.loops.toList.map loopWeight) +
    Cooperation.total (h'.book.requests.toList.map requestWeight) + _ + _ = _
  omega

theorem weight_lt_of_advance {h' : Hub} (ha : h.advance t = some h') : h'.weight < h.weight := by
  unfold advance at ha
  cases ht : h.task? t with
  | none =>
    rw [ht] at ha
    cases ha
  | some task =>
    have hl := h.advanceTask_lightens t task
    have hlead := advanceTask_leads ht
    rw [ht] at ha
    simp only at ha
    cases hm : h.advanceTask t task with
    | blocked =>
      rw [hm] at ha
      cases ha
    | moved g task' =>
      rw [hm] at ha hl hlead
      cases ha
      have hw := weight_setTask ht (congrArg Frame.tasks hlead.1) (some task')
      have hl : g.burden + taskWeight task' < h.burden + taskWeight task := hl
      simp only [Option.elim_some] at hw
      omega
    | done g o =>
      rw [hm] at ha hl hlead
      cases ha
      have hw := weight_setTask ht (congrArg Frame.tasks hlead.1) none
      have hl : g.burden + 0 < h.burden + taskWeight task := hl
      simp only [Option.elim_none] at hw
      change (g.setTask t none).weight < h.weight
      omega

/-! ## At rest -/

/-- However the tasks run on, one segment at a time, they come to rest, and `P` holds then. -/
inductive Settles (P : Hub → Prop) : Hub → Prop
  | intro {h : Hub} (rest : h.Quiet → P h)
      (next : ∀ t h', h.advance t = some h' → Settles P h') : Settles P h

/-- The tasks of a hub come to rest, wherever they lead to. -/
theorem settles {h : Hub} {past : List Action} {P : Hub → Prop}
    (hP : ∀ ts : List TaskId, (h.after (ts.map .segment ++ past)).Quiet →
      P (h.after (ts.map .segment ++ past))) : (h.after past).Settles P := by
  -- By the weight; what has run so far joins the history, of which `hP` speaks as a whole.
  generalize hw : (h.after past).weight = w
  induction w using Nat.strongRecOn generalizing past with
  | ind w ih =>
    refine ⟨fun hq => hP [] hq, fun t h' ha => ?_⟩
    obtain rfl := after_segment ha
    refine ih _ (hw ▸ weight_lt_of_advance ha) (fun ts hq => ?_) rfl
    have happ : ts.map .segment ++ .segment t :: past =
        (ts ++ [t]).map .segment ++ past := by simp
    rw [happ] at hq ⊢
    exact hP _ hq

theorem Settles.mono {P Q : Hub → Prop} {h : Hub} (hs : h.Settles P) (hpq : ∀ g, P g → Q g) :
    h.Settles Q := by
  induction hs with
  | intro rest next ih => exact ⟨fun hq => hpq _ (rest hq), ih⟩

theorem Settles.after {P : Hub → Prop} {h : Hub} {past : List Action} (hs : (h.after past).Settles P)
    (ts : List TaskId) : (h.after (ts.map .segment ++ past)).Settles P := by
  induction ts with
  | nil => exact hs
  | cons t ts ih =>
    cases ha : (h.after (ts.map .segment ++ past)).advance t with
    | none =>
      simp only [List.map_cons, List.cons_append, Hub.after, perform, ha, Option.getD_none]
      exact ih
    | some g =>
      obtain ⟨-, next⟩ := ih
      exact (after_segment ha) ▸ next t g ha

/-- Where the tasks come to rest in one order, `P` holds. -/
theorem Settles.at_rest {P : Hub → Prop} {h : Hub} {past : List Action}
    (hs : (h.after past).Settles P) (ts : List TaskId)
    (hq : (h.after (ts.map .segment ++ past)).Quiet) : P (h.after (ts.map .segment ++ past)) := by
  obtain ⟨rest, -⟩ := hs.after ts
  exact rest hq

/-- What tasks do and how they end, followed for one task as long as `I` holds of the hub: while the
task is there it is as `P` says, and if it has ended it was with an outcome of which `Q` holds. -/
theorem followed_under {I : Hub → Prop} {P : Task → Prop} {Q : Outcome → Prop}
    (moved : ∀ {h g : Hub} {t : TaskId} {task task' : Task},
      I h → P task → h.advanceTask t task = .moved g task' → P task')
    (done : ∀ {h g : Hub} {t : TaskId} {task : Task} {o : Outcome},
      I h → P task → h.advanceTask t task = .done g o → Q o)
    {past : List Action} (hi : ∀ ts : List TaskId, I (h.after (ts.map .segment ++ past)))
    {task : Task} (ht : (h.after past).task? t = some task) (hp : P task) :
    ∀ ts : List TaskId,
      (∃ task', (h.after (ts.map .segment ++ past)).task? t = some task' ∧ P task') ∨
      ((h.after (ts.map .segment ++ past)).task? t = none ∧
        ∃ o, Q o ∧ (t, o) ∈ (h.after (ts.map .segment ++ past)).finished)
  | [] => .inl ⟨task, ht, hp⟩
  | t' :: ts => by
    have grown {e : TaskId × Outcome} (he : e ∈ (h.after (ts.map .segment ++ past)).finished) :=
      mem_finished_perform he (.segment t')
    rcases followed_under moved done hi ht hp ts with ⟨task', ht', hp'⟩ | ⟨hnone, o, hq, ho⟩
    -- Only a segment of its own changes the task; one that has ended has no segments.
    · by_cases e : t = t'
      · subst e
        cases (h.after (ts.map .segment ++ past)).segment_cases t with
        | waits hadv he => exact .inl ⟨task', by rw [← ht']; exact congrArg (task? · t) he, hp'⟩
        | goesOn task₀ task₁ g ht₀ hm hf he hself =>
          cases ht'.symm.trans ht₀
          exact .inl ⟨task₁, hself, moved (hi ts) hp' hm⟩
        | ends task₀ g o ht₀ hm hf he hself =>
          cases ht'.symm.trans ht₀
          refine .inr ⟨hself, o, done (hi ts) hp' hm, ?_⟩
          have hfin := congrArg finished he
          exact hfin ▸ Array.mem_push_self
      · exact .inl ⟨task', (task?_segment e).trans ht', hp'⟩
    · exact .inr ⟨gone_segment hnone t', o, hq, grown ho⟩

theorem followed {P : Task → Prop} {Q : Outcome → Prop}
    (moved : ∀ {h g : Hub} {t : TaskId} {task task' : Task},
      P task → h.advanceTask t task = .moved g task' → P task')
    (done : ∀ {h g : Hub} {t : TaskId} {task : Task} {o : Outcome},
      P task → h.advanceTask t task = .done g o → Q o)
    {past : List Action} {task : Task} (ht : (h.after past).task? t = some task) (hp : P task)
    (ts : List TaskId) :
    (∃ task', (h.after (ts.map .segment ++ past)).task? t = some task' ∧ P task') ∨
      ((h.after (ts.map .segment ++ past)).task? t = none ∧
        ∃ o, Q o ∧ (t, o) ∈ (h.after (ts.map .segment ++ past)).finished) :=
  followed_under (I := fun _ => True) (fun _ => moved) (fun _ => done) (fun _ => trivial) ht hp ts

end Hub
end Rollcall
