import Rollcall.Proofs.Streams

/-!
# What is cancelled

Which requests are cancelled on the way from one book to another (`Book.Cancels`). A call of `cancel`
cancels its request just if that is registered, and nothing otherwise; dropping a stream cancels no
more than that; a shutdown cancels what it counts; and handing a chunk over cancels nothing.
-/

namespace Rollcall

structure Cancelling where
  book : Book
  id : RequestId

def Cancelling.answer (c : Cancelling) : Bool := (c.book.cancel c.id).1

def cancelledBy (cs : List Cancelling) : List RequestId :=
  (cs.filter Cancelling.answer).map Cancelling.id

theorem cancelledBy_append (cs cs' : List Cancelling) :
    cancelledBy (cs ++ cs') = cancelledBy cs ++ cancelledBy cs' := by
  simp [cancelledBy]

theorem length_cancelledBy (cs : List Cancelling) :
    (cancelledBy cs).length = cs.countP Cancelling.answer := by
  rw [cancelledBy, List.length_map, List.countP_eq_length_filter]

def Book.counted (b : Book) : List RequestId :=
  b.drain.1.filter fun id => (b.view (·.complete) id).any (!·)

/-! ## Books -/

namespace Book

variable {b b' b'' : Book} {id : RequestId}

def tally (p : Request → Bool) (b : Book) (id : RequestId) : Nat :=
  ((b.view p id).getD false).toNat

theorem tally_eq {r : Request} (hr : b.requests[id]? = some r) (p : Request → Bool) :
    b.tally p id = (p r).toNat := by
  rw [tally, view_eq hr, Option.getD_some]

theorem tally_none (hr : b.requests[id]? = none) (p : Request → Bool) : b.tally p id = 0 := by
  rw [tally, view, hr]
  rfl

theorem tally_of_view {p : Request → Bool} (h : b'.view p id = b.view p id) :
    b'.tally p id = b.tally p id := by
  rw [tally, h, tally]

theorem tally_replaces {p : Request → Bool} {i : RequestId} {r r' : Request}
    (h : b.Replaces i r' b') (hr : b.requests[i]? = some r) {n : Nat}
    (hp : (p r').toNat = (p r).toNat + n) (id : RequestId) :
    b'.tally p id = b.tally p id + if id = i then n else 0 := by
  by_cases hi : id = i
  · subst hi
    rw [tally_eq h.self, tally_eq hr, hp, if_pos rfl]
  · rw [if_neg hi, Nat.add_zero, tally, view, h.ne hi]
    rfl

theorem tally_push {p : Request → Bool} {r : Request} (hr : p r = false)
    (h : b'.requests = b.requests.push r) (id : RequestId) : b'.tally p id = b.tally p id := by
  by_cases hi : id = b.requests.size
  · have hnew : b'.requests[id]? = some r := by rw [h, hi, Array.getElem?_push_size]
    rw [tally_eq hnew, hr, tally_none (hi ▸ Array.getElem?_eq_none (Nat.le_refl _))]
    rfl
  · refine tally_of_view ?_
    simp [view, h, Array.getElem?_push, hi]

/-- The requests `ids`, and no others, are cancelled on the way from `b` to `b'`. -/
def Cancels (b : Book) (ids : List RequestId) (b' : Book) : Prop :=
  ∀ id, b'.tally (·.cancelled) id = b.tally (·.cancelled) id + ids.count id

theorem Cancels.none (h : ∀ id, b'.view (·.cancelled) id = b.view (·.cancelled) id) :
    b.Cancels [] b' :=
  fun id => tally_of_view (h id)

theorem Cancels.refl (b : Book) : b.Cancels [] b := .none fun _ => rfl

theorem Cancels.trans {ids ids' : List RequestId} (h : b.Cancels ids b') (h' : b'.Cancels ids' b'') :
    b.Cancels (ids ++ ids') b'' := by
  intro id
  rw [h' id, h id, List.count_append, Nat.add_assoc]

theorem Cancels.push {r : Request} (hr : r.cancelled = false)
    (h : b'.requests = b.requests.push r) : b.Cancels [] b' :=
  tally_push hr h

theorem Cancels.modify {f : Request → Request} (hf : ∀ r, (f r).cancelled = r.cancelled) :
    b.Cancels [] (b.modify id f) :=
  .none (view_modify hf)

/-- Requests that were not cancelled are, and all others are left as they are. -/
theorem Cancels.of_view {ids : List RequestId} (hnd : ids.Nodup)
    (h0 : ∀ id ∈ ids, b.view (·.cancelled) id = some false)
    (h1 : ∀ id, b'.view (·.cancelled) id =
      if id ∈ ids then some true else b.view (·.cancelled) id) : b.Cancels ids b' := by
  intro id
  rw [tally, h1 id, hnd.count]
  by_cases hid : id ∈ ids
  · rw [if_pos hid, tally, h0 id hid, if_pos hid]
    rfl
  · rw [if_neg hid, if_neg hid]
    rfl

theorem cancels_recv (b : Book) (id : RequestId) : b.Cancels [] (b.recv id).2 := by
  refine .none fun i => ?_
  unfold recv
  split
  · rfl
  · refine view_modify (f := Request.afterReading) (fun r => ?_) i
    unfold Request.afterReading
    split <;> rfl

/-! ## Cancelling -/

theorem Sound.cancel_iff (hb : b.Sound) (id : RequestId) :
    (b.cancel id).1 = true ↔ ∃ n, b.registry.get? n = some id := by
  rcases b.cancel_cases id with h | ⟨r, hr, hc, hreg, h⟩
  · rw [h]
    refine ⟨nofun, fun ⟨n, hn⟩ => ?_⟩
    obtain ⟨r, hr, -, hw⟩ := (hb.registered n id).mp hn
    have hsame : (b.cancel id).2.requests[id]? = some r := by rw [h]; exact hr
    exact absurd hw (hb.not_waiting_of_cancel hsame)
  · rw [h]
    exact ⟨fun _ => ⟨r.nonce, hreg⟩, fun _ => rfl⟩

theorem cancel_of_false (h : (b.cancel id).1 = false) : (b.cancel id).2 = b := by
  rcases b.cancel_cases id with he | ⟨r, -, -, -, he⟩
  · rw [he]
  · rw [he] at h
    cases h

theorem Sound.cancels_cancel (hb : b.Sound) (id : RequestId) :
    b.Cancels (cancelledBy [⟨b, id⟩]) (b.cancel id).2 := by
  rcases b.cancel_cases id with h | ⟨r, hr, -, hreg, h⟩
  · have hnone : cancelledBy [⟨b, id⟩] = [] := by simp [cancelledBy, Cancelling.answer, h]
    rw [hnone, h]
    exact .refl b
  · have hone : cancelledBy [⟨b, id⟩] = [id] := by simp [cancelledBy, Cancelling.answer, h]
    have hw := (hb.get?_nonce hr).mp hreg
    rw [hone, h]
    refine .of_view (List.nodup_singleton id) (fun i hi => ?_) fun i => ?_
    · rw [List.mem_singleton.mp hi, view_eq hr, hw.2]
    · by_cases hi : i = id
      · subst hi
        rw [if_pos (List.mem_singleton.mpr rfl)]
        exact view_eq (replaces_modify hr Request.close).self _
      · rw [if_neg (by simpa using hi)]
        exact view_modify_ne hi _

theorem Sound.cancels_dropStream (hb : b.Sound) (id : RequestId) :
    b.Cancels (cancelledBy [⟨b, id⟩]) (b.dropStream id) := by
  have hdrop : (b.cancel id).2.Cancels [] (b.dropStream id) :=
    .none (view_modify (f := Request.dropReceiver) fun _ => rfl)
  simpa using (hb.cancels_cancel id).trans hdrop

/-- Whoever cancels a request and drops its stream afterwards cancels it once. -/
theorem Sound.cancels_rollBack (hb : b.Sound) (id : RequestId) :
    b.Cancels (cancelledBy [⟨b, id⟩, ⟨(b.cancel id).2, id⟩]) (b.dropStream id) := by
  -- After the first call the request does not wait, so the second finds nothing registered.
  have hagain : ((b.cancel id).2.cancel id).1 = false := by
    cases hc : ((b.cancel id).2.cancel id).1 with
    | false => rfl
    | true =>
      obtain ⟨n, hn⟩ := ((hb.cancel id).cancel_iff id).mp hc
      obtain ⟨r, hr, -, hw⟩ := ((hb.cancel id).registered n id).mp hn
      exact absurd hw (hb.not_waiting_of_cancel hr)
  have hnone : cancelledBy [⟨(b.cancel id).2, id⟩] = [] := by
    simp [cancelledBy, Cancelling.answer, hagain]
  have happ := cancelledBy_append [⟨b, id⟩] [⟨(b.cancel id).2, id⟩]
  rw [hnone, List.append_nil] at happ
  exact happ ▸ hb.cancels_dropStream id

/-! ## Shutting down -/

theorem nodup_drain (hb : ∀ n n' id, b.registry.get? n = some id → b.registry.get? n' = some id →
    n = n') : b.drain.1.Nodup := by
  simp only [drain, Registry.toList, List.Nodup, List.pairwise_map]
  refine Std.ExtTreeMap.distinct_keys_toList.imp_of_mem fun {x y} hx hy hne e => ?_
  have hx := Std.ExtTreeMap.mem_toList_iff_getElem?_eq_some.mp hx
  have hy := Std.ExtTreeMap.mem_toList_iff_getElem?_eq_some.mp hy
  exact hne (Std.compare_eq_iff_eq.mpr (hb x.1 y.1 y.2 (e ▸ hx) hy))

theorem Sound.nodup_drain (hb : b.Sound) : b.drain.1.Nodup := by
  refine Book.nodup_drain fun n n' id hn hn' => ?_
  obtain ⟨r, hr, hnonce, -⟩ := (hb.registered n id).mp hn
  rw [← hnonce]
  exact hb.nonce_of_get? hr hn'

theorem view_of_mem_counted (h : id ∈ b.counted) : b.view (·.complete) id = some false := by
  have hany := List.of_mem_filter h
  cases hv : b.view (·.complete) id with
  | none =>
    rw [hv] at hany
    cases hany
  | some c =>
    rw [hv] at hany
    cases c with
    | false => rfl
    | true => cases hany

theorem mem_counted {r : Request} (hr : b.requests[id]? = some r) :
    id ∈ b.counted ↔ id ∈ b.drain.1 ∧ r.complete = false := by
  rw [counted, List.mem_filter, view_eq hr]
  simp

theorem Sound.cancels_shutdown (hb : b.Sound) : b.Cancels b.counted b.shutdown.2 := by
  refine .of_view (hb.nodup_drain.filter _) (fun i hi => ?_) fun i => ?_
  · obtain ⟨n, hn⟩ := mem_drain.mp (List.mem_of_mem_filter hi)
    obtain ⟨r, hr, -, hw⟩ := (hb.registered n i).mp hn
    rw [view_eq hr, hw.2]
  · cases hr : b.requests[i]? with
    | none =>
      have hno : i ∉ b.counted := by
        intro hi
        have hv := view_of_mem_counted hi
        rw [view, hr] at hv
        cases hv
      rw [if_neg hno, view, requests_shutdown, hr, view, hr]
      rfl
    | some r =>
      rw [view, requests_shutdown, hr, view_eq hr]
      simp only [Option.map_some, mem_counted hr]
      split <;> rfl

theorem fst_sweep (ids : List RequestId) (acc : Nat × Book) :
    (ids.foldl sweep acc).1 =
      acc.1 + (ids.filter fun id => (acc.2.view (·.complete) id).any (!·)).length := by
  induction ids generalizing acc with
  | nil => rfl
  | cons id ids ih =>
    -- Sweeping one request does not touch what the others are tested for.
    have hview (i : RequestId) :
        (sweep acc id).2.view (·.complete) i = acc.2.view (·.complete) i := by
      rw [view, requests_sweep_one, view, Option.map_map]
      congr 1
      funext r
      simp only [Function.comp]
      split <;> rfl
    rw [List.foldl_cons, ih]
    simp only [hview]
    unfold sweep
    cases hr : acc.2.requests[id]? with
    | none => simp [view, hr]
    | some r =>
      cases hc : r.complete with
      | true => simp [view, hr, hc]
      | false =>
        simp [view, hr, hc]
        omega

theorem fst_shutdown (b : Book) : b.shutdown.1 = b.counted.length := by
  have hs := fst_sweep b.drain.1 (0, b.drain.2)
  rw [Nat.zero_add] at hs
  exact hs

end Book

/-! ## Chunks cancel nothing -/

namespace Delivery

variable {d : Delivery} {t : TaskId} {b b₀ : Book} {filter : Option (Member → Bool)}

theorem proceed_spares {last : Bool} {rest : List Member} {n k : Nat} (hb : b₀.Cancels [] b) :
    (d.proceed t b filter last rest n k).All (b₀.Cancels []) := by
  unfold proceed
  split
  · exact hb
  · have hcount : b.Cancels [] (b.modify d.request fun r => (r.countChunk d.declared).leave t) :=
      .modify fun r => Request.cancelled_countChunk r d.declared
    exact hb.trans hcount

theorem abandon_spares {rest : List Member} {n k : Nat} (hb : b₀.Cancels [] b) :
    (d.abandon t b filter rest n k).All (b₀.Cancels []) := by
  have hclose : b.Cancels [] (b.modify d.request fun r => r.closeSender.leave t) :=
    .modify fun _ => rfl
  exact hb.trans hclose

theorem begin_spares {r : Request} {ms : List Member} (hb : b₀.Cancels [] b) :
    (d.begin t b r ms).All (b₀.Cancels []) := by
  unfold begin
  split
  · have hleave : b.Cancels [] (b.modify d.request (·.leave t)) := .modify fun _ => rfl
    exact hb.trans hleave
  split
  · exact abandon_spares hb
  · exact proceed_spares hb

theorem advance_spares (d : Delivery) (t : TaskId) (b : Book) :
    (d.advance t b).All (b.Cancels []) := by
  have hjoin : b.Cancels [] (b.modify d.request (·.join t)) := .modify fun _ => rfl
  unfold advance
  split
  · trivial
  split
  · split
    · exact begin_spares hjoin
    · exact hjoin
  · split
    · exact begin_spares (.refl b)
    · trivial
  · rename_i m rest n k _
    have hplace : b.Cancels [] (b.modify d.request (·.place m)) := .modify fun _ => rfl
    split
    · exact abandon_spares (.refl b)
    split
    · exact proceed_spares hplace
    · trivial

end Delivery

end Rollcall
