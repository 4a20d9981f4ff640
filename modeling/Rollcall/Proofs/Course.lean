import Rollcall.Proofs.Standing

/-!
# The course of a request

What time does to a request: its nonce and its filter stay, and once it is cancelled or complete it
remains so (`Request.Later`). What has been read of its channel is just what the journal says was
given out (`Reached.read`).
-/

namespace Rollcall

structure Request.Later (r r' : Request) : Prop where
  nonce : r'.nonce = r.nonce
  filter : r'.filter = r.filter
  cancelled : r.cancelled = true → r'.cancelled = true
  complete : r.complete = true → r'.complete = true
  capacity : r'.channel.capacity = r.channel.capacity

theorem Request.Later.refl (r : Request) : r.Later r := ⟨rfl, rfl, id, id, rfl⟩

theorem Request.Later.trans {r r' r'' : Request} (h : r.Later r') (h' : r'.Later r'') :
    r.Later r'' where
  nonce := h'.nonce.trans h.nonce
  filter := h'.filter.trans h.filter
  cancelled hc := h'.cancelled (h.cancelled hc)
  complete hc := h'.complete (h.complete hc)
  capacity := h'.capacity.trans h.capacity

theorem Request.Later.not_cancelled {r r' : Request} (h : r.Later r')
    (hlive : r'.cancelled = false) : r.cancelled = false := by
  cases hc : r.cancelled with
  | false => rfl
  | true => rw [← hlive, h.cancelled hc]

theorem Request.Later.waiting {r r' : Request} (h : r.Later r') (hw : r'.Waiting) : r.Waiting := by
  refine ⟨?_, h.not_cancelled hw.2⟩
  cases hc : r.complete with
  | false => rfl
  | true => rw [← hw.1, h.complete hc]

theorem Request.Kept.to_later {r r' : Request} (h : r.Kept r') : r.Later r' where
  nonce := h.nonce
  filter := h.filter
  cancelled := h.cancelled
  complete hc := h.complete.trans hc
  capacity := h.capacity

theorem Request.later_countChunk (r : Request) (declared : UInt32) :
    r.Later (r.countChunk declared) := by
  unfold countChunk
  split
  · exact ⟨rfl, rfl, id, fun _ => rfl, rfl⟩
  · exact ⟨rfl, rfl, id, id, rfl⟩

namespace Delivery.Turn

variable {t : TaskId} {declared : UInt32} {r r' : Request} {stage : Stage}
  {out : Stage ⊕ Delivered}

theorem later (h : Turn t declared r stage r' out) : r.Later r' := by
  have placed (m : Member) : r.Later (r.place m) := ⟨rfl, rfl, id, id, rfl⟩
  have left (q : Request) : q.Later (q.leave t) := ⟨rfl, rfl, id, id, rfl⟩
  cases h with
  | first => exact .refl r
  | next => exact placed _
  | late => exact left r
  | refused => exact ⟨rfl, rfl, id, id, rfl⟩
  | cut => exact ⟨rfl, rfl, id, id, rfl⟩
  | nothing => exact (r.later_countChunk declared).trans (left _)
  | last => exact ((placed _).trans (Request.later_countChunk _ declared)).trans (left _)

theorem reader (h : Turn t declared r stage r' out) :
    r'.channel.read = r.channel.read ∧ r'.channel.receiver = r.channel.receiver := by
  cases h with
  | first => exact ⟨rfl, rfl⟩
  | next => exact ⟨rfl, rfl⟩
  | late => exact ⟨rfl, rfl⟩
  | refused => exact ⟨rfl, rfl⟩
  | cut => exact ⟨rfl, rfl⟩
  | nothing =>
    rw [Request.leave, Request.channel_countChunk]
    exact ⟨rfl, rfl⟩
  | last =>
    rw [Request.leave, Request.channel_countChunk]
    exact ⟨rfl, rfl⟩

end Delivery.Turn

namespace Book

def Later (b b' : Book) : Prop :=
  ∀ (id : RequestId) (r : Request), b.requests[id]? = some r →
    ∃ r', b'.requests[id]? = some r' ∧ r.Later r'

theorem Kept.to_later {b b' : Book} (h : b.Kept b') : b.Later b' := by
  intro id r hr
  obtain ⟨r', hr', hk⟩ := h.later hr
  exact ⟨r', hr', hk.to_later⟩

theorem Replaces.later {b b' : Book} {id : RequestId} {r r' : Request}
    (h : b.Replaces id r' b') (hr : b.requests[id]? = some r) (hl : r.Later r') : b.Later b' := by
  intro i q hq
  by_cases hi : i = id
  · subst hi
    rw [hr] at hq
    cases hq
    exact ⟨r', h.self, hl⟩
  · exact ⟨q, (h.ne hi).trans hq, .refl q⟩

theorem later_push {b b' : Book} {r : Request} (h : b'.requests = b.requests.push r) :
    b.Later b' := by
  intro id q hq
  have hlt := (Array.getElem?_eq_some_iff.mp hq).1
  refine ⟨q, ?_, .refl q⟩
  rw [h, Array.getElem?_push, if_neg (Nat.ne_of_lt hlt), hq]

/-! ## What can be seen of a request -/

def view {α : Type} (b : Book) (p : Request → α) (id : RequestId) : Option α :=
  (b.requests[id]?).map p

section
variable {α : Type} {p : Request → α} {b b' : Book} {id : RequestId} {r : Request}

theorem view_eq (hr : b.requests[id]? = some r) (p : Request → α) : b.view p id = some (p r) := by
  rw [view, hr, Option.map_some]

theorem view_modify {f : Request → Request} (hf : ∀ r, p (f r) = p r) (i : RequestId) :
    (b.modify id f).view p i = b.view p i := by
  unfold view
  rw [requests_modify]
  split
  · rw [Option.map_map]
    congr 1
    funext r
    exact hf r
  · rfl

theorem view_modify_ne {i : RequestId} (hi : i ≠ id) (f : Request → Request) :
    (b.modify id f).view p i = b.view p i := by
  rw [view, requests_modify, if_neg hi, view]

theorem view_replaces {r' : Request} (h : b.Replaces id r' b') (hr : b.requests[id]? = some r)
    (hp : p r' = p r) (i : RequestId) : b'.view p i = b.view p i := by
  by_cases hi : i = id
  · subst hi
    rw [view_eq h.self, view_eq hr, hp]
  · rw [view, h.ne hi, view]

theorem view_cancel (hp : ∀ r, p (Request.close r) = p r) (id i : RequestId) :
    (b.cancel id).2.view p i = b.view p i := by
  rcases b.cancel_cases id with h | ⟨r, -, -, -, h⟩
  · rw [h]
  · rw [h]
    exact view_modify hp i

theorem view_dropStream (hp : ∀ r, p (Request.close r) = p r)
    (hd : ∀ r, p (Request.dropReceiver r) = p r) (id i : RequestId) :
    (b.dropStream id).view p i = b.view p i :=
  (view_modify hd i).trans (view_cancel hp id i)

theorem view_shutdown (hp : ∀ r, p (Request.close r) = p r) (i : RequestId) :
    b.shutdown.2.view p i = b.view p i := by
  unfold view
  rw [requests_shutdown]
  cases b.requests[i]? with
  | none => rfl
  | some r =>
    simp only [Option.map_some]
    split
    · rw [hp r]
    · rfl

theorem recv_member {m : Member} (hb : b.recv id = (.member m, b')) :
    ∃ r rest, b.requests[id]? = some r ∧ r.cancelled = false ∧ r.channel.unread = m :: rest ∧
      b.Replaces id { r with channel := r.channel.take } b' ∧
      r.channel.take.read = m :: r.channel.read := by
  cases hr : b.requests[id]? with
  | none =>
    rw [recv_none hr] at hb
    cases hb
  | some r =>
    rw [recv_eq hr] at hb
    injection hb with hm hb'
    subst hb'
    have hrep := replaces_modify hr Request.afterReading
    unfold Request.reading at hm
    split at hm
    · cases hm
    · rename_i hc
      cases hu : r.channel.unread with
      | nil =>
        rw [hu] at hm
        simp only at hm
        split at hm <;> cases hm
      | cons m' rest =>
        rw [hu] at hm
        cases hm
        rw [Request.afterReading, if_neg hc] at hrep
        refine ⟨r, rest, rfl, by simpa using hc, hu, hrep, ?_⟩
        simp only [Channel.take, hu]

end
end Book

/-! ## What has been read -/

def yielded (j : List Occurrence) (id : RequestId) : List Member :=
  j.filterMap fun
    | .yielded i m => if i = id then some m else none
    | _ => none

theorem yielded_append (j j' : List Occurrence) (id : RequestId) :
    yielded (j ++ j') id = yielded j id ++ yielded j' id := by
  rw [yielded, List.filterMap_append, yielded, yielded]

def Book.read (b : Book) (id : RequestId) : List Member := (b.view (·.channel.read) id).getD []

theorem Book.read_recv {b b' : Book} {id : RequestId} {m : Member}
    (hb : b.recv id = (.member m, b')) (i : RequestId) :
    b'.read i = (yielded [.yielded id m] i).reverse ++ b.read i := by
  obtain ⟨r, rest, hr, -, -, hrep, htake⟩ := recv_member hb
  by_cases hi : i = id
  · subst hi
    simp [Book.read, yielded, view_eq hrep.self, view_eq hr, htake]
  · have hne : ¬id = i := Ne.symm hi
    simp [Book.read, yielded, view, hrep.ne hi, hne]

theorem Book.read_of_view {b b' : Book} {i : RequestId}
    (h : b'.view (·.channel.read) i = b.view (·.channel.read) i) : b'.read i = b.read i := by
  rw [Book.read, h, Book.read]

theorem Book.read_push {b b' : Book} {r : Request} (h : b'.requests = b.requests.push r)
    (hr : r.channel.read = []) (i : RequestId) : b'.read i = b.read i := by
  simp only [Book.read, Book.view, h, Array.getElem?_push]
  split
  · rename_i hi
    rw [hi, Array.getElem?_eq_none (Nat.le_refl _), Option.map_some, hr]
    rfl
  · rfl

theorem Reached.later {j os : List Occurrence} {s s' : Scene} (hr : Reached j s)
    (h : Change s os s') : s.book.Later s'.book := by
  cases hr.passage h with
  | calm ho hb hd => exact hb.to_later
  | make ho hb hf hd => exact Book.later_push hb
  | arrive hd hc hn hq hs hb hd' hne =>
    obtain ⟨r, hq⟩ := Option.ne_none_iff_exists'.mp hq
    rw [hb]
    exact (Book.replaces_modify hq _).later hq ⟨rfl, rfl, id, id, rfl⟩
  | advance hd hb hd' hne =>
    obtain ⟨r, r', hq, hrep, -, hturn, -⟩ := hr.lined.head_of_moved hd hb
    exact hrep.later hq hturn.later
  | settle hd hb hs hd' hne =>
    obtain ⟨r, r', hq, hrep, hturn, -⟩ := hr.lined.head_of_done hd hb
    rw [hs]
    exact hrep.later hq hturn.later
  | interrupt hd hb hd' hne =>
    obtain ⟨r, hq, -⟩ := hr.lined.listed hd
    rw [hb]
    exact (Book.replaces_modify hq _).later hq ⟨rfl, rfl, id, id, rfl⟩

theorem Reached.later_changes {j os : List Occurrence} {s s' : Scene} (hr : Reached j s)
    (h : Changes s os s') : s.book.Later s'.book := by
  refine hr.keep h (P := fun s' => s.book.Later s'.book) (fun id r hq => ⟨r, hq, .refl r⟩) ?_
  intro j os s₁ s₂ hr hc hl id r hq
  obtain ⟨r₁, h1, hl₁⟩ := hl id r hq
  obtain ⟨r₂, h2, hl₂⟩ := hr.later hc id r₁ h1
  exact ⟨r₂, h2, hl₁.trans hl₂⟩

theorem Reached.read {j : List Occurrence} {s : Scene} (hr : Reached j s) (id : RequestId) :
    s.book.read id = (yielded j id).reverse := by
  induction hr with
  | new nonces => rfl
  | @step j os s s' hr h ih =>
    have quiet (b : Book) (hy : yielded os id = []) (hv : b.read id = s.book.read id) :
        b.read id = (yielded (j ++ os) id).reverse := by
      rw [yielded_append, hy, List.append_nil, ← ih, hv]
    have took {i : RequestId} {m : Member} {b : Book} (hb : s.book.recv i = (.member m, b)) :
        b.read id = (yielded (j ++ [.yielded i m]) id).reverse := by
      rw [Book.read_recv hb, ih, yielded_append, List.reverse_append]
    have dropped (i : RequestId) : (s.book.dropStream i).read id = s.book.read id :=
      Book.read_of_view (Book.view_dropStream (fun _ => rfl) (fun _ => rfl) i id)
    cases h with
    | call => exact quiet _ rfl rfl
    | attend => exact quiet _ rfl rfl
    | read => exact quiet _ rfl rfl
    | recv hid hb => exact took hb
    | cancel i => exact quiet _ rfl (Book.read_of_view (Book.view_cancel (fun _ => rfl) i id))
    | discard => exact quiet _ rfl (dropped _)
    | shutdown => exact quiet _ rfl (Book.read_of_view (Book.view_shutdown (fun _ => rfl) id))
    | draw => exact quiet _ rfl rfl
    | make ht hs hf hb =>
      obtain ⟨nonce, -, -, hreq, -⟩ := Book.registerWith_some hb
      obtain ⟨n, g, f, c, he⟩ := (hf nonce).1
      exact quiet _ rfl (Book.read_push hreq (by rw [he]) id)
    | release => exact quiet _ rfl rfl
    | handOut => exact quiet _ rfl rfl
    | begin => exact quiet _ rfl rfl
    | gather ht hs hb => exact took hb
    | take ht hb => exact took hb
    | leave => exact quiet _ rfl (dropped _)
    | stop => exact quiet _ rfl rfl
    | @arrive t =>
      exact quiet _ rfl (Book.read_of_view (Book.view_modify (f := (·.join t)) (fun _ => rfl) id))
    | advance ht hd hb =>
      obtain ⟨r, r', hq, hrep, -, hturn, -⟩ :=
        hr.lined.head_of_moved ((Scene.delivery?_of_task ht).trans hd) hb
      exact quiet _ rfl (Book.read_of_view (Book.view_replaces hrep hq hturn.reader.1 id))
    | settle ht hd hb =>
      obtain ⟨r, r', hq, hrep, hturn, -⟩ :=
        hr.lined.head_of_done ((Scene.delivery?_of_task ht).trans hd) hb
      exact quiet _ rfl (Book.read_of_view (Book.view_replaces hrep hq hturn.reader.1 id))
    | @interrupt t =>
      exact quiet _ rfl (Book.read_of_view (Book.view_modify (f := (·.leave t)) (fun _ => rfl) id))

theorem Reached.read_eq {j : List Occurrence} {s : Scene} (hr : Reached j s) {id : RequestId}
    {r : Request} (hq : s.book.requests[id]? = some r) :
    r.channel.read = (yielded j id).reverse := by
  have hread := hr.read id
  rw [Book.read, Book.view_eq hq] at hread
  exact hread

/-! ## What has been placed -/

/-- What a change of the book to `b` does to the channel of request `id`, which was `r`: it holds the
same members, or a delivery to it has taken a turn. -/
def Scene.Places (s : Scene) (id : RequestId) (r : Request) (b : Book) : Prop :=
  ∃ r', b.requests[id]? = some r' ∧ (r'.channel.placed = r.channel.placed ∨
    ∃ t d out, s.delivery? t = some d ∧ d.request = id ∧
      Delivery.Turn t d.declared r d.stage r' out)

/-- Only a turn of a delivery to a request places members in its channel. -/
theorem Reached.places {j os : List Occurrence} {s s' : Scene} (hr : Reached j s)
    (h : Change s os s') {id : RequestId} {r : Request} (hq : s.book.requests[id]? = some r) :
    s.Places id r s'.book := by
  have turned {t : TaskId} {d : Delivery} {b : Book} {q q' : Request}
      {out : Delivery.Stage ⊕ Delivered} (hd : s.delivery? t = some d)
      (hq' : s.book.requests[d.request]? = some q) (hrep : s.book.Replaces d.request q' b)
      (hturn : Delivery.Turn t d.declared q d.stage q' out) : s.Places id r b := by
    by_cases hi : id = d.request
    · subst hi
      rw [hq] at hq'
      cases hq'
      exact ⟨q', hrep.self, .inr ⟨t, d, out, hd, rfl, hturn⟩⟩
    · exact ⟨r, (hrep.ne hi).trans hq, .inl rfl⟩
  have lined {i : RequestId} (f : Request → Request)
      (hf : ∀ r : Request, (f r).channel = r.channel) : s.Places id r (s.book.modify i f) := by
    unfold Scene.Places
    rw [Book.requests_modify, hq]
    split
    · exact ⟨f r, rfl, .inl (congrArg Channel.placed (hf r))⟩
    · exact ⟨r, rfl, .inl rfl⟩
  cases hr.passage h with
  | calm ho hb hd =>
    obtain ⟨r', hr', hk⟩ := hb.later hq
    exact ⟨r', hr', .inl hk.placed⟩
  | make ho hb hf hd =>
    have hlt := (Array.getElem?_eq_some_iff.mp hq).1
    refine ⟨r, ?_, .inl rfl⟩
    rw [hb, Array.getElem?_push, if_neg (Nat.ne_of_lt hlt), hq]
  | arrive hd hc hn hq' hs hb hd' hne =>
    rw [hb]
    exact lined _ fun _ => rfl
  | advance hd hb hd' hne =>
    obtain ⟨q, q', hq', hrep, -, hturn, -⟩ := hr.lined.head_of_moved hd hb
    exact turned hd hq' hrep hturn
  | settle hd hb hs hd' hne =>
    obtain ⟨q, q', hq', hrep, hturn, -⟩ := hr.lined.head_of_done hd hb
    rw [hs]
    exact turned hd hq' hrep hturn
  | interrupt hd hb hd' hne =>
    rw [hb]
    exact lined _ fun _ => rfl

end Rollcall
