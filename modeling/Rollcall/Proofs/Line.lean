import Rollcall.Proofs.Change

/-!
# Lines

The line of a request holds the tasks that hand chunks over to it, each once, in the order in which
their chunks arrived. Only the head of a line places members, and while it does the sender stays
open. `Passage` says what a change is to the chunks that are handed over. Main statement:
`Reached.lined`.
-/

namespace Rollcall

/-! ## Scenes with one task changed -/

namespace Scene

theorem delivery?_set (s : Scene) (t : TaskId) (x : Option Task) (t' : TaskId) :
    (s.set t x).delivery? t' = if t' = t then x.bind Task.delivery? else s.delivery? t' := by
  simp only [delivery?, set, Function.update_apply]
  split <;> rfl

theorem delivery?_spawn (s : Scene) (task : Task) (t' : TaskId) :
    (s.spawn task).delivery? t' = if t' = s.started then task.delivery? else s.delivery? t' := by
  simp only [delivery?, spawn, Function.update_apply]
  split <;> rfl

theorem delivery?_of_task {s : Scene} {t : TaskId} {task : Task} (ht : s.tasks t = some task) :
    s.delivery? t = task.delivery? := by
  simp [delivery?, ht]

end Scene

theorem Reached.unstarted {j : List Occurrence} {s : Scene} (hr : Reached j s) :
    ∀ t, s.started ≤ t → s.tasks t = none := by
  induction hr with
  | new nonces => exact fun _ _ => rfl
  | @step j os s s' hr h ih =>
    have there {t₀ t : TaskId} {task : Task} (h₀ : s.tasks t₀ = some task) (hle : s.started ≤ t) :
        t ≠ t₀ := by
      rintro rfl
      rw [ih _ hle] at h₀
      cases h₀
    have set_none {b : Book} {ss : List RequestId} {t₀ t : TaskId} {task : Task} {x : Option Task}
        (h₀ : s.tasks t₀ = some task) (hle : s.started ≤ t) :
        (Scene.set ⟨b, s.tasks, s.started, ss⟩ t₀ x).tasks t = none := by
      simp only [Scene.set, Function.update_apply, if_neg (there h₀ hle), ih t hle]
    have spawn_none {b : Book} {ss : List RequestId} {t : TaskId} {task : Task}
        (hle : s.started + 1 ≤ t) :
        (Scene.spawn ⟨b, s.tasks, s.started, ss⟩ task).tasks t = none := by
      have hne : t ≠ s.started := Nat.ne_of_gt hle
      simp only [Scene.spawn, Function.update_apply, if_neg hne, ih t (Nat.le_of_succ_le hle)]
    cases h with
    | call => exact fun t hle => spawn_none hle
    | attend => exact fun t hle => spawn_none hle
    | read => exact fun t hle => spawn_none hle
    | recv => exact ih
    | cancel => exact ih
    | discard => exact ih
    | shutdown => exact ih
    | draw => exact ih
    | make ht => exact fun t hle => set_none ht hle
    | release ht => exact fun t hle => set_none ht hle
    | handOut ht => exact fun t hle => set_none ht hle
    | begin ht => exact fun t hle => set_none ht hle
    | gather ht => exact fun t hle => set_none ht hle
    | take ht => exact fun t hle => set_none ht hle
    | leave ht => exact fun t hle => set_none ht hle
    | stop ht => exact fun t hle => set_none ht hle
    | arrive ht => exact fun t hle => set_none ht hle
    | advance ht => exact fun t hle => set_none ht hle
    | settle ht => exact fun t hle => set_none ht hle
    | interrupt ht => exact fun t hle => set_none ht hle

/-! ## What a change is to the chunks -/

def Occurrence.line? : Occurrence → Option RequestId
  | .arrived _ id _ => some id
  | .settled _ id _ => some id
  | .interrupted _ id => some id
  | _ => none

inductive Passage (s : Scene) : List Occurrence → Scene → Prop
  -- no chunk moves
  | calm {os : List Occurrence} {s' : Scene} (ho : ∀ o ∈ os, o.line? = none)
      (hb : s.book.Kept s'.book) (hd : ∀ t, s'.delivery? t = s.delivery? t) : Passage s os s'
  | make {os : List Occurrence} {s' : Scene} {r : Request} (ho : ∀ o ∈ os, o.line? = none)
      (hb : s'.book.requests = s.book.requests.push r) (hf : r.Fresh)
      (hd : ∀ t, s'.delivery? t = s.delivery? t) : Passage s os s'
  | arrive {s' : Scene} {t : TaskId} {d : Delivery} {c : Chunk} {n : String}
      (hd : s.delivery? t = none) (hc : c.nonce = some n)
      (hn : s.book.registry.get? n = some d.request) (hr : s.book.requests[d.request]? ≠ none)
      (hs : d.stage = .inLine c.stamped) (hb : s'.book = s.book.modify d.request (·.join t))
      (hd' : s'.delivery? t = some d) (hne : ∀ t', t' ≠ t → s'.delivery? t' = s.delivery? t')
      (hf : d.declared = c.count) : Passage s [.arrived t d.request c] s'
  | advance {s' : Scene} {t : TaskId} {d d' : Delivery} (hd : s.delivery? t = some d)
      (hb : d.advance t s.book = .moved s'.book d') (hd' : s'.delivery? t = some d')
      (hne : ∀ t', t' ≠ t → s'.delivery? t' = s.delivery? t') : Passage s [] s'
  | settle {s' : Scene} {t : TaskId} {d : Delivery} {b : Book} {r : Delivered}
      (hd : s.delivery? t = some d) (hb : d.advance t s.book = .done b r)
      (hs : s'.book = b.settle d.request r.verdict) (hd' : s'.delivery? t = none)
      (hne : ∀ t', t' ≠ t → s'.delivery? t' = s.delivery? t') :
      Passage s [.settled t d.request r] s'
  | interrupt {s' : Scene} {t : TaskId} {d : Delivery} (hd : s.delivery? t = some d)
      (hb : s'.book = d.interrupt t s.book) (hd' : s'.delivery? t = none)
      (hne : ∀ t', t' ≠ t → s'.delivery? t' = s.delivery? t') :
      Passage s [.interrupted t d.request] s'

theorem Reached.passage {j os : List Occurrence} {s s' : Scene} (hr : Reached j s)
    (h : Change s os s') : Passage s os s' := by
  -- A task without a chunk may become any other task without a chunk.
  have set_idle {b : Book} {ss : List RequestId} {t : TaskId} {task : Task} {x : Option Task}
      (ht : s.tasks t = some task) (h0 : task.delivery? = none)
      (hx : x.bind Task.delivery? = none) (t' : TaskId) :
      (Scene.set ⟨b, s.tasks, s.started, ss⟩ t x).delivery? t' = s.delivery? t' := by
    rw [Scene.delivery?_set, hx]
    split
    · rename_i e
      rw [e, Scene.delivery?_of_task ht, h0]
    · rfl
  have spawn_idle {ss : List RequestId} {task : Task} (hx : task.delivery? = none) (t' : TaskId) :
      (Scene.spawn ⟨s.book, s.tasks, s.started, ss⟩ task).delivery? t' = s.delivery? t' := by
    rw [Scene.delivery?_spawn, hx]
    split
    · rename_i e
      rw [e, Scene.delivery?, hr.unstarted _ (Nat.le_refl _)]
      rfl
    · rfl
  have set_self {b : Book} {t : TaskId} {x : Option Task} {y : Option Delivery}
      (hx : x.bind Task.delivery? = y) : (Scene.set { s with book := b } t x).delivery? t = y := by
    rw [Scene.delivery?_set, if_pos rfl, hx]
  have set_ne {b : Book} {t : TaskId} {x : Option Task} (t' : TaskId) (e : t' ≠ t) :
      (Scene.set { s with book := b } t x).delivery? t' = s.delivery? t' := by
    rw [Scene.delivery?_set, if_neg e]
    rfl
  have same : s.book.Kept s.book := .refl _
  have kept_recv {id : RequestId} {x : Reading} {b : Book} (hb : s.book.recv id = (x, b)) :
      s.book.Kept b := by
    have hk := Book.kept_recv s.book id
    rwa [hb] at hk
  have silent (o : Occurrence) (hm : o ∈ []) : o.line? = none := absurd hm List.not_mem_nil
  have alone {o : Occurrence} (ho : o.line? = none) (o' : Occurrence) (hm : o' ∈ [o]) :
      o'.line? = none := by
    rw [List.mem_singleton.mp hm]
    exact ho
  cases h with
  | call => exact .calm (alone rfl) same (spawn_idle rfl)
  | attend _ hd => exact .calm silent same (spawn_idle hd)
  | read => exact .calm silent same (spawn_idle rfl)
  | recv hid hb => exact .calm (alone rfl) (kept_recv hb) fun _ => rfl
  | cancel id => exact .calm silent (Book.kept_cancel s.book id) fun _ => rfl
  | discard => exact .calm silent (Book.kept_dropStream s.book _) fun _ => rfl
  | shutdown => exact .calm silent (Book.kept_shutdown s.book) fun _ => rfl
  | draw nonces => exact .calm silent (Book.kept_of_requests rfl) fun _ => rfl
  | make ht hs hf hb =>
    obtain ⟨nonce, -, -, hreq, -⟩ := Book.registerWith_some hb
    exact .make (alone rfl) hreq (hf nonce).1 (set_idle ht rfl rfl)
  | release ht => exact .calm silent same (set_idle ht rfl rfl)
  | handOut ht => exact .calm silent same (set_idle ht rfl rfl)
  | begin ht => exact .calm silent same (set_idle ht rfl rfl)
  | gather ht hs hb => exact .calm (alone rfl) (kept_recv hb) (set_idle ht rfl rfl)
  | take ht hb => exact .calm (alone rfl) (kept_recv hb) (set_idle ht rfl rfl)
  | @leave t task id ht hs =>
    have hd : task.delivery? = none := by cases task <;> first | rfl | cases hs
    exact .calm silent (Book.kept_dropStream s.book id) (set_idle ht hd rfl)
  | stop ht hi => exact .calm silent same (set_idle ht hi.2 rfl)
  | arrive ht ha hd hc hn hq hs ha' hd' hf =>
    exact .arrive ((Scene.delivery?_of_task ht).trans hd) hc hn hq hs rfl (set_self hd') set_ne hf
  | advance ht hd hb ha' hd' =>
    exact .advance ((Scene.delivery?_of_task ht).trans hd) hb (set_self hd') set_ne
  | @settle t task last d b out ht hd hb hl =>
    refine .settle ((Scene.delivery?_of_task ht).trans hd) hb rfl (set_self ?_) set_ne
    cases last with
    | none => rfl
    | some task' => exact (hl task' rfl).2
  | interrupt ht hd =>
    exact .interrupt ((Scene.delivery?_of_task ht).trans hd) rfl (set_self rfl) set_ne

/-! ## The line of a request -/

structure Scene.Lined (s : Scene) : Prop where
  -- a chunk that is handed over stands in line
  arrived : ∀ {t d}, s.delivery? t = some d → ∀ ms, d.stage ≠ .arriving ms
  listed : ∀ {t d}, s.delivery? t = some d →
    ∃ r, s.book.requests[d.request]? = some r ∧ t ∈ r.line
  holds : ∀ {id : RequestId} {r t}, s.book.requests[id]? = some r → t ∈ r.line →
    ∃ d, s.delivery? t = some d ∧ d.request = id
  nodup : ∀ {id : RequestId} {r}, s.book.requests[id]? = some r → r.line.Nodup
  -- whoever places members is the head of the line, and the sender is open
  placing : ∀ {t d m rest n k}, s.delivery? t = some d → d.stage = .placing m rest n k →
    ∃ r, s.book.requests[d.request]? = some r ∧ r.line.head? = some t ∧ r.senderOpen = true

namespace Scene.Lined

variable {s s' : Scene}

theorem kept (hl : s.Lined) (hb : s.book.Kept s'.book)
    (hd : ∀ t, s'.delivery? t = s.delivery? t) : s'.Lined where
  arrived h := hl.arrived (hd _ ▸ h)
  listed h := by
    obtain ⟨r, hr, hm⟩ := hl.listed (hd _ ▸ h)
    obtain ⟨r', hr', hk⟩ := hb.later hr
    exact ⟨r', hr', hk.line.symm ▸ hm⟩
  holds h hm := by
    obtain ⟨r, hr, hk⟩ := hb.earlier h
    obtain ⟨d, hd', hid⟩ := hl.holds hr (hk.line ▸ hm)
    exact ⟨d, (hd _).trans hd', hid⟩
  nodup h := by
    obtain ⟨r, hr, hk⟩ := hb.earlier h
    exact hk.line.symm ▸ hl.nodup hr
  placing h hs := by
    obtain ⟨r, hr, hh, ho⟩ := hl.placing (hd _ ▸ h) hs
    obtain ⟨r', hr', hk⟩ := hb.later hr
    refine ⟨r', hr', hk.line.symm ▸ hh, (hk.sender ?_).trans ho⟩
    rintro he
    rw [he] at hh
    cases hh

theorem push (hl : s.Lined) {r : Request} (hreq : s'.book.requests = s.book.requests.push r)
    (hline : r.line = []) (hd : ∀ t, s'.delivery? t = s.delivery? t) : s'.Lined := by
  have old {id : RequestId} {q : Request} (h : s.book.requests[id]? = some q) :
      s'.book.requests[id]? = some q := by
    have hlt := (Array.getElem?_eq_some_iff.mp h).1
    rw [hreq, Array.getElem?_push, if_neg (Nat.ne_of_lt hlt), h]
  have back {id : RequestId} {q : Request} (h : s'.book.requests[id]? = some q) :
      s.book.requests[id]? = some q ∨ q.line = [] := by
    rw [hreq, Array.getElem?_push] at h
    split at h
    · cases h; exact .inr hline
    · exact .inl h
  refine ⟨fun h => hl.arrived (hd _ ▸ h), fun h => ?_, fun h hm => ?_, fun h => ?_, fun h hs => ?_⟩
  · obtain ⟨q, hq, hm⟩ := hl.listed (hd _ ▸ h)
    exact ⟨q, old hq, hm⟩
  · rcases back h with h | h
    · obtain ⟨d, hd', hid⟩ := hl.holds h hm
      exact ⟨d, (hd _).trans hd', hid⟩
    · rw [h] at hm
      cases hm
  · rcases back h with h | h
    · exact hl.nodup h
    · rw [h]
      exact List.nodup_nil
  · obtain ⟨q, hq, hh, ho⟩ := hl.placing (hd _ ▸ h) hs
    exact ⟨q, old hq, hh, ho⟩

/-- One task joins, moves on in or leaves the line of one request. -/
theorem replace {t : TaskId} {id : RequestId} {r r' : Request} (hl : s.Lined)
    (hr : s.book.requests[id]? = some r) (hrep : s.book.Replaces id r' s'.book)
    (hd : ∀ t', t' ≠ t → s'.delivery? t' = s.delivery? t')
    (hold : ∀ d, s.delivery? t = some d → d.request = id)
    (hnew : ∀ d, s'.delivery? t = some d → d.request = id ∧ (∀ ms, d.stage ≠ .arriving ms) ∧
      ∀ m rest n k, d.stage = .placing m rest n k → r'.line.head? = some t ∧ r'.senderOpen = true)
    (ht : t ∈ r'.line ↔ ∃ d, s'.delivery? t = some d)
    (hline : ∀ t', t' ≠ t → (t' ∈ r'.line ↔ t' ∈ r.line)) (hnd : r'.line.Nodup)
    (hhead : ∀ t', t' ≠ t → r.line.head? = some t' → r.senderOpen = true →
      r'.line.head? = some t' ∧ r'.senderOpen = true) : s'.Lined where
  arrived {t' d} h := by
    by_cases e : t' = t
    · subst e; exact (hnew d h).2.1
    · exact hl.arrived (hd t' e ▸ h)
  listed {t' d} h := by
    by_cases e : t' = t
    · subst e
      rw [(hnew d h).1]
      exact ⟨r', hrep.self, ht.mpr ⟨d, h⟩⟩
    · obtain ⟨q, hq, hm⟩ := hl.listed (hd t' e ▸ h)
      by_cases ei : d.request = id
      · rw [ei] at hq ⊢
        rw [hr] at hq
        cases hq
        exact ⟨r', hrep.self, (hline t' e).mpr hm⟩
      · exact ⟨q, (hrep.ne ei).trans hq, hm⟩
  holds {i q t'} h hm := by
    by_cases ei : i = id
    · subst ei
      rw [hrep.self] at h
      cases h
      by_cases e : t' = t
      · subst e
        obtain ⟨d, hd'⟩ := ht.mp hm
        exact ⟨d, hd', (hnew d hd').1⟩
      · obtain ⟨d, hd', hid⟩ := hl.holds hr ((hline t' e).mp hm)
        exact ⟨d, (hd t' e).trans hd', hid⟩
    · rw [hrep.ne ei] at h
      obtain ⟨d, hd', hid⟩ := hl.holds h hm
      have e : t' ≠ t := by
        rintro rfl
        exact ei (hid.symm.trans (hold d hd'))
      exact ⟨d, (hd t' e).trans hd', hid⟩
  nodup {i q} h := by
    by_cases ei : i = id
    · subst ei
      rw [hrep.self] at h
      cases h
      exact hnd
    · rw [hrep.ne ei] at h
      exact hl.nodup h
  placing {t' d m rest n k} h hs := by
    by_cases e : t' = t
    · subst e
      obtain ⟨hid, -, hp⟩ := hnew d h
      rw [hid]
      exact ⟨r', hrep.self, hp m rest n k hs⟩
    · obtain ⟨q, hq, hh, ho⟩ := hl.placing (hd t' e ▸ h) hs
      by_cases ei : d.request = id
      · rw [ei] at hq ⊢
        rw [hr] at hq
        cases hq
        exact ⟨r', hrep.self, hhead t' e hh ho⟩
      · exact ⟨q, (hrep.ne ei).trans hq, hh, ho⟩

end Scene.Lined

theorem head?_erase_of_ne {l : List TaskId} {t t' : TaskId} (h : l.head? = some t') (hne : t' ≠ t) :
    (l.erase t).head? = some t' := by
  cases l with
  | nil => cases h
  | cons x l =>
    cases h
    rw [List.erase_cons_tail (by simpa using hne)]
    rfl

namespace Delivery.Turn

variable {t : TaskId} {declared : UInt32} {r r' : Request} {stage : Stage}

theorem moved {stage' : Stage} (h : Turn t declared r stage r' (.inl stage')) :
    r'.line = r.line ∧ r'.senderOpen = r.senderOpen ∧
      ((r.line.head? = some t ∧ r.senderOpen = true) ∨ ∃ m rest n k, stage = .placing m rest n k) ∧
      ∃ m rest n k, stage' = .placing m rest n k := by
  cases h with
  | first head sender => exact ⟨rfl, rfl, .inl ⟨head, sender⟩, _, _, _, _, rfl⟩
  | next => exact ⟨rfl, rfl, .inr ⟨_, _, _, _, rfl⟩, _, _, _, _, rfl⟩

theorem ended {out : Delivered} (h : Turn t declared r stage r' (.inr out)) :
    r'.line = r.line.erase t ∧
      (r.line.head? = some t ∨ ∃ m rest n k, stage = .placing m rest n k) := by
  cases h with
  | late head => exact ⟨rfl, .inl head⟩
  | refused head => exact ⟨rfl, .inl head⟩
  | cut => exact ⟨rfl, .inr ⟨_, _, _, _, rfl⟩⟩
  | nothing head => exact ⟨by simp [Request.leave], .inl head⟩
  | last => exact ⟨by simp [Request.leave, Request.place], .inr ⟨_, _, _, _, rfl⟩⟩

end Delivery.Turn

theorem Book.requests_settle (b : Book) (id : RequestId) (v : Verdict) :
    (b.settle id v).requests = b.requests := by
  unfold settle
  split
  · exact requests_deregisterRequest b id
  · rfl

namespace Scene.Lined

variable {s s' : Scene} {t : TaskId} {d : Delivery}

theorem head_of_placing (hl : s.Lined) (hd : s.delivery? t = some d) {r : Request}
    (hr : s.book.requests[d.request]? = some r)
    (h : (r.line.head? = some t ∧ r.senderOpen = true) ∨ ∃ m rest n k, d.stage = .placing m rest n k) :
    r.line.head? = some t ∧ r.senderOpen = true := by
  rcases h with h | ⟨m, rest, n, k, hs⟩
  · exact h
  · obtain ⟨q, hq, hh⟩ := hl.placing hd hs
    rw [hr] at hq
    cases hq
    exact hh

theorem arrive {ms : List Member} (hl : s.Lined) (hnone : s.delivery? t = none)
    {r : Request} (hr : s.book.requests[d.request]? = some r) (hs : d.stage = .inLine ms)
    (hb : s'.book = s.book.modify d.request (·.join t)) (hd' : s'.delivery? t = some d)
    (hne : ∀ t', t' ≠ t → s'.delivery? t' = s.delivery? t') : s'.Lined := by
  have hnew : t ∉ r.line := by
    intro hm
    obtain ⟨d₀, h₀, -⟩ := hl.holds hr hm
    rw [hnone] at h₀
    cases h₀
  have hrep : s.book.Replaces d.request (r.join t) s'.book := hb ▸ Book.replaces_modify hr _
  refine hl.replace (t := t) hr hrep hne (fun d₀ h₀ => ?_)
    (fun d₀ h₀ => ?_) ?_ (fun t' e => ?_) ?_ (fun t' e hh ho => ?_)
  · rw [hnone] at h₀
    cases h₀
  · rw [hd'] at h₀
    cases h₀
    refine ⟨rfl, fun ms' h => ?_, fun m rest n k h => ?_⟩
    · rw [hs] at h; cases h
    · rw [hs] at h; cases h
  · exact ⟨fun _ => ⟨d, hd'⟩, fun _ => List.mem_append_right _ (List.mem_singleton_self t)⟩
  · simp [Request.join, e]
  · exact List.nodup_append.mpr ⟨hl.nodup hr, List.pairwise_singleton _ t, by
      intro a ha b hb
      rw [List.mem_singleton.mp hb]
      rintro rfl
      exact hnew ha⟩
  · exact ⟨by simp [Request.join, hh], ho⟩

theorem head_of_moved {b : Book} {d' : Delivery} (hl : s.Lined) (hd : s.delivery? t = some d)
    (hb : d.advance t s.book = .moved b d') : ∃ r r', s.book.requests[d.request]? = some r ∧
      s.book.Replaces d.request r' b ∧ d'.request = d.request ∧
      Delivery.Turn t d.declared r d.stage r' (.inl d'.stage) ∧ r.line.head? = some t ∧
      r.senderOpen = true := by
  obtain ⟨r, hr, -⟩ := hl.listed hd
  obtain ⟨r', hrep, -, hreq, -, hturn⟩ := Delivery.advance_moved hr (hl.arrived hd) hb
  obtain ⟨-, -, hhead, -⟩ := hturn.moved
  exact ⟨r, r', hr, hrep, hreq, hturn, hl.head_of_placing hd hr hhead⟩

theorem head_of_done {b : Book} {out : Delivered} (hl : s.Lined) (hd : s.delivery? t = some d)
    (hb : d.advance t s.book = .done b out) : ∃ r r', s.book.requests[d.request]? = some r ∧
      s.book.Replaces d.request r' (b.settle d.request out.verdict) ∧
      Delivery.Turn t d.declared r d.stage r' (.inr out) ∧ r.line.head? = some t := by
  obtain ⟨r, hr, -⟩ := hl.listed hd
  obtain ⟨r', hrep, -, hturn⟩ := Delivery.advance_done hr (hl.arrived hd) hb
  have hrep := Delivery.replaces_of_requests hrep (b.requests_settle d.request out.verdict)
  refine ⟨r, r', hr, hrep, hturn, ?_⟩
  rcases hturn.ended.2 with hhead | hp
  · exact hhead
  · exact (hl.head_of_placing hd hr (.inr hp)).1

theorem advance {d' : Delivery} (hl : s.Lined) (hd : s.delivery? t = some d)
    (hb : d.advance t s.book = .moved s'.book d') (hd' : s'.delivery? t = some d')
    (hne : ∀ t', t' ≠ t → s'.delivery? t' = s.delivery? t') : s'.Lined := by
  obtain ⟨r, r', hr, hrep, hreq, hturn, hhead⟩ := hl.head_of_moved hd hb
  obtain ⟨hline, hopen, -, m, rest, n, k, hstage⟩ := hturn.moved
  have hm : t ∈ r.line := List.mem_of_mem_head? hhead.1
  refine hl.replace (t := t) hr hrep hne (fun d₀ h₀ => ?_) (fun d₀ h₀ => ?_) ?_
    (fun t' e => ?_) ?_ (fun t' e hh ho => ?_)
  · rw [hd] at h₀
    cases h₀
    rfl
  · rw [hd'] at h₀
    cases h₀
    refine ⟨hreq, fun ms h => ?_, fun m rest n k h => ?_⟩
    · rw [hstage] at h; cases h
    · rw [hline, hopen]; exact hhead
  · rw [hline]
    exact ⟨fun _ => ⟨d', hd'⟩, fun _ => hm⟩
  · rw [hline]
  · rw [hline]; exact hl.nodup hr
  · rw [hline, hopen]; exact ⟨hh, ho⟩

theorem leave {r r' : Request} (hl : s.Lined) (hd : s.delivery? t = some d)
    (hr : s.book.requests[d.request]? = some r) (hrep : s.book.Replaces d.request r' s'.book)
    (hline : r'.line = r.line.erase t)
    (hhead : r.line.head? = some t ∨ r'.senderOpen = r.senderOpen) (hd' : s'.delivery? t = none)
    (hne : ∀ t', t' ≠ t → s'.delivery? t' = s.delivery? t') : s'.Lined := by
  have hnd := hl.nodup hr
  refine hl.replace (t := t) hr hrep hne (fun d₀ h₀ => ?_) (fun d₀ h₀ => ?_) ?_
    (fun t' e => ?_) ?_ (fun t' e hh ho => ?_)
  · rw [hd] at h₀
    cases h₀
    rfl
  · rw [hd'] at h₀
    cases h₀
  · rw [hline, hnd.mem_erase_iff]
    simp [hd']
  · rw [hline, hnd.mem_erase_iff]
    simp [e]
  · rw [hline]
    exact hnd.erase t
  · rcases hhead with hhead | hopen
    · rw [hh] at hhead
      cases hhead
      exact absurd rfl e
    · rw [hline, hopen]
      exact ⟨head?_erase_of_ne hh e, ho⟩

end Scene.Lined

theorem Reached.lined {j : List Occurrence} {s : Scene} (hr : Reached j s) : s.Lined := by
  induction hr with
  | new nonces =>
    refine ⟨fun h => ?_, fun h => ?_, fun h => ?_, fun h => ?_, fun h => ?_⟩
    · cases h
    · cases h
    · cases h
    · cases h
    · cases h
  | @step j os s s' hr h ih =>
    cases hr.passage h with
    | calm ho hb hd => exact ih.kept hb hd
    | make ho hb hf hd =>
      obtain ⟨n, g, f, c, he⟩ := hf
      exact ih.push hb (by rw [he]) hd
    | arrive hd hc hn hq hs hb hd' hne =>
      obtain ⟨r, hq⟩ := Option.ne_none_iff_exists'.mp hq
      exact ih.arrive hd hq hs hb hd' hne
    | advance hd hb hd' hne => exact ih.advance hd hb hd' hne
    | settle hd hb hs hd' hne =>
      obtain ⟨r, r', hq, hrep, hturn, hhead⟩ := ih.head_of_done hd hb
      exact ih.leave hd hq (hs ▸ hrep) hturn.ended.1 (.inl hhead) hd' hne
    | @interrupt s' t d hd hb hd' hne =>
      obtain ⟨r, hq, -⟩ := ih.listed hd
      have hrep : s.book.Replaces d.request (r.leave t) s'.book :=
        hb ▸ Book.replaces_modify hq (·.leave t)
      exact ih.leave hd hq hrep rfl (.inr rfl) hd' hne

end Rollcall
