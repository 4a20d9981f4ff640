import Mathlib.Data.List.Nodup
import Rollcall.Proofs.Calls
import Rollcall.Proofs.Segment

/-!
# Live streams

A request that waits always has a stream that somebody holds: the stream is made together with the
request, passes from one holder to the next, and is dropped only with the request being cancelled. So
nothing stays registered that nobody can read or cancel. Main statement:
`registered_has_one_stream`.
-/

namespace Rollcall

/-! ## How many requests there are -/

def made (j : List Occurrence) : List RequestId :=
  j.filterMap fun
    | .made _ id => some id
    | _ => none

theorem made_append (j j' : List Occurrence) : made (j ++ j') = made j ++ made j' := by
  rw [made, List.filterMap_append, made, made]

theorem mem_made {j : List Occurrence} {id : RequestId} : id ∈ made j ↔ ∃ t, .made t id ∈ j := by
  simp only [made, List.mem_filterMap]
  constructor
  · rintro ⟨o, ho, he⟩
    cases o with
    | made t i =>
      cases he
      exact ⟨t, ho⟩
    | _ => cases he
  · rintro ⟨t, ht⟩
    exact ⟨_, ht, rfl⟩

namespace Book

theorem size_eq_of_none {b b' : Book}
    (h : ∀ i : RequestId, b'.requests[i]? = none ↔ b.requests[i]? = none) :
    b'.requests.size = b.requests.size := by
  have outside (i : RequestId) : b'.requests.size ≤ i ↔ b.requests.size ≤ i := by
    rw [← Array.getElem?_eq_none_iff, ← Array.getElem?_eq_none_iff, h i]
  exact Nat.le_antisymm ((outside _).mpr (Nat.le_refl _)) ((outside _).mp (Nat.le_refl _))

theorem Kept.size {b b' : Book} (h : b.Kept b') : b'.requests.size = b.requests.size := by
  refine size_eq_of_none fun i => ?_
  have hi := h i
  generalize b.requests[i]? = x at hi
  generalize b'.requests[i]? = y at hi
  cases hi with
  | none => simp
  | some hk => simp

theorem size_modify (b : Book) (id : RequestId) (f : Request → Request) :
    (b.modify id f).requests.size = b.requests.size := Array.size_modify

theorem Replaces.size {b b' : Book} {id : RequestId} {r r' : Request} (h : b.Replaces id r' b')
    (hr : b.requests[id]? = some r) : b'.requests.size = b.requests.size := by
  refine size_eq_of_none fun i => ?_
  rw [h i]
  by_cases hi : i = id
  · subst hi
    simp [hr]
  · simp [hi]

end Book

/-- A request is made by a change that says so, and gets the next number. -/
theorem Reached.made_step {j os : List Occurrence} {s s' : Scene} (hr : Reached j s)
    (h : Change s os s') :
    List.range s'.book.requests.size = List.range s.book.requests.size ++ made os := by
  have same {b : Book} (hs : b.requests.size = s.book.requests.size) :
      List.range b.requests.size = List.range s.book.requests.size ++ [] := by
    rw [hs, List.append_nil]
  have recv {id : RequestId} {x : Reading} {b : Book} (hb : s.book.recv id = (x, b)) :
      b.requests.size = s.book.requests.size := by
    have hk := (Book.kept_recv s.book id).size
    rwa [hb] at hk
  cases h with
  | call => exact same rfl
  | attend => exact same rfl
  | read => exact same rfl
  | recv hid hb => exact same (recv hb)
  | cancel id => exact same (Book.kept_cancel s.book id).size
  | discard => exact same (Book.kept_dropStream s.book _).size
  | shutdown => exact same (Book.kept_shutdown s.book).size
  | draw => exact same rfl
  | make ht hs hf hb =>
    obtain ⟨nonce, -, rfl, hreq, -⟩ := Book.registerWith_some hb
    simp only [Scene.set, hreq, Array.size_push, List.range_succ]
    rfl
  | release => exact same rfl
  | handOut => exact same rfl
  | begin => exact same rfl
  | gather ht hs hb => exact same (recv hb)
  | take ht hb => exact same (recv hb)
  | leave => exact same (Book.kept_dropStream s.book _).size
  | stop => exact same rfl
  | arrive => exact same (Book.size_modify _ _ _)
  | advance ht hd hb =>
    obtain ⟨r, r', hq, hrep, -⟩ := hr.lined.head_of_moved ((Scene.delivery?_of_task ht).trans hd) hb
    exact same (hrep.size hq)
  | settle ht hd hb =>
    obtain ⟨r, r', hq, hrep, -⟩ := hr.lined.head_of_done ((Scene.delivery?_of_task ht).trans hd) hb
    exact same (hrep.size hq)
  | interrupt => exact same (Book.size_modify _ _ _)

theorem Reached.made_eq {j : List Occurrence} {s : Scene} (hr : Reached j s) :
    made j = List.range s.book.requests.size := by
  induction hr with
  | new nonces => rfl
  | step hr h ih => rw [made_append, ih, hr.made_step h]

/-! ## Who holds the stream of a request that waits -/

/-- A stream stays with its holder or passes to another, unless its request no longer waits. -/
theorem Change.passes {s s' : Scene} {os : List Occurrence} {x : Option TaskId} {id : RequestId}
    (h : Change s os s') (hu : s.tasks s.started = none) (hb : s.book.Sound) (hx : s.Holds x id) :
    (∃ y, s'.Holds y id) ∨ ∀ r, s'.book.requests[id]? = some r → ¬r.Waiting := by
  cases x with
  | some t =>
    rcases h.stream_kept hu hb hx with hst | hno | ⟨c, -, -, hid⟩
    · exact .inl ⟨some t, hst⟩
    · exact .inr hno
    · exact .inl ⟨none, hid⟩
  | none =>
    have hid : id ∈ s.streams := hx
    cases h with
    | @read i hi goal =>
      left
      by_cases e : id = i
      · subst e
        refine ⟨some s.started, ?_⟩
        rw [Scene.Holds, Scene.stream?_spawn, if_pos rfl]
        rfl
      · exact ⟨none, (List.mem_erase_of_ne e).mpr hid⟩
    | @discard i hi =>
      by_cases e : id = i
      · subst e
        exact .inr fun r hr => hb.not_waiting_of_dropStream hr
      · exact .inl ⟨none, (List.mem_erase_of_ne e).mpr hid⟩
    | handOut => exact .inl ⟨none, List.mem_append_left _ hid⟩
    | _ => exact .inl ⟨none, hid⟩

theorem Reached.held {j : List Occurrence} {s : Scene} (hr : Reached j s) {t : TaskId}
    {id : RequestId} {r : Request} (hm : .made t id ∈ j) (hq : s.book.requests[id]? = some r)
    (hw : r.Waiting) : ∃ x, s.Holds x id := by
  induction hr generalizing r with
  | new nonces => cases hm
  | @step j os s s' hr h ih =>
    rcases List.mem_append.mp hm with hm | hm
    · have hq₀ := Array.getElem?_eq_getElem (hr.made_lt hm).2
      obtain ⟨r', hr', hl⟩ := hr.later h _ _ hq₀
      rw [hq] at hr'
      cases hr'
      obtain ⟨x, hx⟩ := ih hm hq₀ (hl.waiting hw)
      rcases h.passes (hr.unstarted _ (Nat.le_refl _)) hr.sound hx with hy | hno
      · exact hy
      · exact absurd hw (hno r hq)
    · exact ⟨some t, (h.made hm).2.2.2⟩

theorem Reached.holds_of_waiting {j : List Occurrence} {s : Scene} (hr : Reached j s)
    {id : RequestId} {r : Request} (hq : s.book.requests[id]? = some r) (hw : r.Waiting) :
    ∃ x, s.Holds x id := by
  have hlt := (Array.getElem?_eq_some_iff.mp hq).1
  have hm : id ∈ made j := hr.made_eq ▸ List.mem_range.mpr hlt
  obtain ⟨t, ht⟩ := mem_made.mp hm
  exact hr.held ht hq hw

/-! ## The streams of a hub -/

namespace Hub

/-- The streams that are alive: those of the caller, and those that unfinished tasks own. -/
def liveStreams (h : Hub) : List RequestId :=
  h.streams ++ h.tasks.toList.filterMap fun task => task.bind Task.stream?

theorem stream?_scene (h : Hub) (t : TaskId) :
    h.scene.stream? t = (h.tasks[t]?).bind fun task => task.bind Task.stream? := by
  simp only [Scene.stream?, scene, task?]
  cases h.tasks[t]? <;> rfl

theorem mem_liveStreams {h : Hub} {id : RequestId} :
    id ∈ h.liveStreams ↔ ∃ x, h.scene.Holds x id := by
  rw [liveStreams, List.mem_append, List.mem_filterMap]
  constructor
  · rintro (hid | ⟨task, ht, hst⟩)
    · exact ⟨none, hid⟩
    · obtain ⟨t, ht⟩ := List.mem_iff_getElem?.mp ht
      refine ⟨some t, ?_⟩
      rw [Scene.Holds, stream?_scene, ← Array.getElem?_toList, ht]
      exact hst
  · rintro ⟨x, hx⟩
    cases x with
    | none => exact .inl hx
    | some t =>
      rw [Scene.Holds, stream?_scene] at hx
      obtain ⟨task, ht, hst⟩ := Option.bind_eq_some_iff.mp hx
      rw [← Array.getElem?_toList] at ht
      exact .inr ⟨task, List.mem_of_getElem? ht, hst⟩

theorem nodup_liveStreams {h : Hub} (ho : h.scene.Owned) : h.liveStreams.Nodup := by
  have held {t : TaskId} (ht : t < h.tasks.toList.length) {id : RequestId}
      (hst : (h.tasks.toList[t]).bind Task.stream? = some id) : h.scene.Holds (some t) id := by
    rw [Scene.Holds, stream?_scene, ← Array.getElem?_toList, List.getElem?_eq_getElem ht]
    exact hst
  refine List.nodup_append.mpr ⟨ho.nodup, ?_, fun id hid i hi e => ?_⟩
  · refine List.pairwise_filterMap.mpr (List.pairwise_iff_getElem.mpr ?_)
    rintro t t' ht ht' hlt id hst i hst' rfl
    cases ho.sole (held ht hst) (held ht' hst')
    exact Nat.lt_irrefl _ hlt
  · obtain ⟨task, ht, hst⟩ := List.mem_filterMap.mp hi
    obtain ⟨t, hlt, rfl⟩ := List.getElem_of_mem ht
    cases ho.sole (x := none) hid (e ▸ held hlt hst)

end Hub

theorem Book.length_drain (b : Book) : b.drain.1.length = b.registry.size := by
  simp only [drain, Registry.toList, Registry.size, List.length_map]
  exact Std.ExtTreeMap.length_toList

theorem Book.size_eq_zero {b : Book} (h : ∀ n id, b.registry.get? n ≠ some id) :
    b.registry.size = 0 := by
  rw [← b.length_drain, List.length_eq_zero_iff, List.eq_nil_iff_forall_not_mem]
  intro id hid
  obtain ⟨n, hn⟩ := mem_drain.mp hid
  exact h n id hn

/-- **No registration leaks.** After every history each registered request has exactly one live
stream: the caller holds it, or a task owns it that has not ended. So as long as there is neither such
a stream nor such a task, nothing is pending. -/
theorem registered_has_one_stream {h : Hub} (hn : h.IsNew) (past : List Action) :
    (∀ n id, (h.after past).book.registry.get? n = some id →
      (h.after past).liveStreams.count id = 1) ∧
    ((h.after past).streams = [] →
      (∀ t task, (h.after past).task? t = some task → task.stream? = none) →
      (h.after past).pending = 0) := by
  have hr := Reached.after hn past
  have held (n : String) (id : RequestId) (hid : (h.after past).book.registry.get? n = some id) :
      ∃ x, (h.after past).scene.Holds x id := by
    obtain ⟨r, hq, -, hw⟩ := (hr.sound.registered n id).mp hid
    exact hr.holds_of_waiting hq hw
  refine ⟨fun n id hid => ?_, fun hs ht => Book.size_eq_zero fun n id hid => ?_⟩
  · exact List.count_eq_one_of_mem (Hub.nodup_liveStreams hr.owned)
      (Hub.mem_liveStreams.mpr (held n id hid))
  · obtain ⟨x, hx⟩ := held n id hid
    cases x with
    | none =>
      have hmem : id ∈ (h.after past).streams := hx
      rw [hs] at hmem
      cases hmem
    | some t =>
      obtain ⟨task, htask, hst⟩ := Option.bind_eq_some_iff.mp hx
      rw [ht t task htask] at hst
      cases hst

/-- A call waits for its shard; its request is registered until the call is dropped. -/
theorem registered_while_held :
    (Hub.sample .hold).IsNew ∧
      ((Hub.sample .hold).after [.segment 0, .callStream (.all ⟨1⟩)]).liveStreams.count 0 = 1 ∧
      ((Hub.sample .hold).after [.dropTask 0, .segment 0, .callStream (.all ⟨1⟩)]).pending = 0 := by
  have hn := Hub.sample_isNew .hold
  have hwaits := ((Reached.after hn [.segment 0, .callStream (.all ⟨1⟩)]).sound.registered "x" 0).mpr
    ⟨_, rfl, rfl, rfl, rfl⟩
  refine ⟨hn, (registered_has_one_stream hn _).1 "x" 0 hwaits,
    (registered_has_one_stream hn _).2 rfl fun t task ht => ?_⟩
  have hlt := Hub.lt_of_task? ht
  obtain rfl := Nat.lt_one_iff.mp hlt
  cases ht

end Rollcall
