import Rollcall.Proofs.Turn

/-!
# What the operations of a book change

One equation per operation, for the requests and for the registry. Reading, cancelling, dropping a
stream and shutting down leave alone whatever a delivery depends on (`Book.Kept`): the line, the
filter, the members placed so far, and the sender of a request to which a chunk is being handed.
-/

namespace Rollcall

theorem Channel.receiver_take (c : Channel) : c.take.receiver = c.receiver := by
  unfold take
  split <;> rfl

theorem Channel.capacity_take (c : Channel) : c.take.capacity = c.capacity := by
  unfold take
  split <;> rfl

theorem Channel.length_unread_take (c : Channel) : c.take.unread.length ≤ c.unread.length := by
  unfold take
  split
  · exact Nat.le_refl _
  · simp [*]

namespace Request

/-- `r'` is `r` after something that is not the work of a delivery. -/
structure Kept (r r' : Request) : Prop where
  nonce : r'.nonce = r.nonce
  filter : r'.filter = r.filter
  line : r'.line = r.line
  complete : r'.complete = r.complete
  chunks : r'.chunks = r.chunks
  placed : r'.channel.placed = r.channel.placed
  sender : r.line ≠ [] → r'.senderOpen = r.senderOpen
  cancelled : r.cancelled = true → r'.cancelled = true
  capacity : r'.channel.capacity = r.channel.capacity
  unread : r'.channel.unread.length ≤ r.channel.unread.length
  live : r'.cancelled = false → r'.senderOpen = r.senderOpen
  listening : r'.channel.receiver = .listening → r.channel.receiver = .listening

theorem Kept.refl (r : Request) : r.Kept r :=
  ⟨rfl, rfl, rfl, rfl, rfl, rfl, fun _ => rfl, id, rfl, Nat.le_refl _, fun _ => rfl, id⟩

theorem Kept.not_cancelled {r r' : Request} (h : r.Kept r') (hlive : r'.cancelled = false) :
    r.cancelled = false := by
  cases hc : r.cancelled with
  | false => rfl
  | true => exact (h.cancelled hc).symm.trans hlive

theorem Kept.trans {r r' r'' : Request} (h : r.Kept r') (h' : r'.Kept r'') : r.Kept r'' where
  nonce := h'.nonce.trans h.nonce
  filter := h'.filter.trans h.filter
  line := h'.line.trans h.line
  complete := h'.complete.trans h.complete
  chunks := h'.chunks.trans h.chunks
  placed := h'.placed.trans h.placed
  sender hl := (h'.sender (h.line ▸ hl)).trans (h.sender hl)
  cancelled hc := h'.cancelled (h.cancelled hc)
  capacity := h'.capacity.trans h.capacity
  unread := Nat.le_trans h'.unread h.unread
  live hl := (h'.live hl).trans (h.live (h'.not_cancelled hl))
  listening hl := h.listening (h'.listening hl)

theorem kept_close (r : Request) : r.Kept r.close where
  nonce := rfl
  filter := rfl
  line := rfl
  complete := rfl
  chunks := rfl
  placed := rfl
  sender hl := by simp [close, hl]
  cancelled _ := rfl
  capacity := rfl
  unread := Nat.le_refl _
  live hl := by cases hl
  listening := id

theorem kept_dropReceiver (r : Request) : r.Kept r.dropReceiver :=
  ⟨rfl, rfl, rfl, rfl, rfl, rfl, fun _ => rfl, id, rfl, Nat.le_refl _, fun _ => rfl, nofun⟩

theorem kept_afterReading (r : Request) : r.Kept r.afterReading := by
  unfold afterReading
  split
  · exact .refl r
  · exact ⟨rfl, rfl, rfl, rfl, rfl, Channel.placed_take _, fun _ => rfl, id, Channel.capacity_take _,
      Channel.length_unread_take _, fun _ => rfl, (Channel.receiver_take _).symm.trans⟩

theorem close_close (r : Request) : r.close.close = r.close := by
  simp [close]

end Request

namespace Book

def Kept (b b' : Book) : Prop :=
  ∀ i : RequestId, Option.Rel Request.Kept b.requests[i]? b'.requests[i]?

theorem Kept.refl (b : Book) : b.Kept b := by
  intro i
  cases b.requests[i]? with
  | none => exact .none
  | some r => exact .some (.refl r)

theorem Kept.trans {b b' b'' : Book} (h : b.Kept b') (h' : b'.Kept b'') : b.Kept b'' := by
  intro i
  have h := h i
  have h' := h' i
  generalize b.requests[i]? = x at h
  generalize b'.requests[i]? = y at h h'
  generalize b''.requests[i]? = z at h'
  cases h with
  | none => cases h'; exact .none
  | some h => cases h' with | some h' => exact .some (h.trans h')

theorem Kept.later {b b' : Book} (h : b.Kept b') {i : RequestId} {r : Request}
    (hr : b.requests[i]? = some r) : ∃ r', b'.requests[i]? = some r' ∧ r.Kept r' := by
  have h := h i
  rw [hr] at h
  generalize b'.requests[i]? = y at h
  cases h with
  | some h => exact ⟨_, rfl, h⟩

theorem Kept.earlier {b b' : Book} (h : b.Kept b') {i : RequestId} {r' : Request}
    (hr : b'.requests[i]? = some r') : ∃ r, b.requests[i]? = some r ∧ r.Kept r' := by
  have h := h i
  rw [hr] at h
  generalize b.requests[i]? = y at h
  cases h with
  | some h => exact ⟨_, rfl, h⟩

theorem kept_of_requests {b b' : Book} (h : b'.requests = b.requests) : b.Kept b' := by
  intro i
  rw [h]
  exact Kept.refl b i

theorem kept_modify (b : Book) (id : RequestId) {f : Request → Request} (hf : ∀ r : Request, r.Kept (f r)) :
    b.Kept (b.modify id f) := by
  intro i
  rw [requests_modify]
  cases b.requests[i]? with
  | none => split <;> exact .none
  | some r =>
    split
    · exact .some (hf r)
    · exact .some (.refl r)

/-! ## Reading -/

theorem recv_eq {b : Book} {id : RequestId} {r : Request} (hr : b.requests[id]? = some r) :
    b.recv id = (r.reading, b.modify id .afterReading) := by
  unfold recv
  rw [hr]

theorem recv_none {b : Book} {id : RequestId} (hr : b.requests[id]? = none) :
    b.recv id = (.ended, b) := by
  unfold recv
  rw [hr]

theorem kept_recv (b : Book) (id : RequestId) : b.Kept (b.recv id).2 := by
  unfold recv
  split
  · exact .refl b
  · exact kept_modify b id Request.kept_afterReading

/-! ## Cancelling -/

theorem deregisterRequest_eq {b : Book} {id : RequestId} {r : Request}
    (hr : b.requests[id]? = some r) :
    b.deregisterRequest id =
      if b.registry.get? r.nonce = some id then
        (true, { b with registry := b.registry.erase r.nonce })
      else (false, b) := by
  unfold deregisterRequest Registry.holds
  rw [hr]
  simp only [decide_eq_true_eq]

theorem requests_deregisterRequest (b : Book) (id : RequestId) :
    (b.deregisterRequest id).2.requests = b.requests := by
  unfold deregisterRequest
  split
  · rfl
  · split <;> rfl

theorem cancel_cases (b : Book) (id : RequestId) :
    b.cancel id = (false, b) ∨
      ∃ r, b.requests[id]? = some r ∧ r.complete = false ∧ b.registry.get? r.nonce = some id ∧
        b.cancel id =
          (true, { b.modify id .close with registry := b.registry.erase r.nonce }) := by
  unfold cancel
  cases hr : b.requests[id]? with
  | none => exact .inl rfl
  | some r =>
    simp only
    split
    · exact .inl rfl
    · rename_i hc
      rw [deregisterRequest_eq hr]
      by_cases hreg : b.registry.get? r.nonce = some id
      · rw [if_pos hreg]
        exact .inr ⟨r, rfl, by simpa using hc, hreg, rfl⟩
      · rw [if_neg hreg]
        exact .inl rfl

theorem kept_cancel (b : Book) (id : RequestId) : b.Kept (b.cancel id).2 := by
  rcases b.cancel_cases id with h | ⟨r, -, -, -, h⟩
  · rw [h]; exact .refl b
  · rw [h]; exact kept_modify b id Request.kept_close

theorem kept_dropStream (b : Book) (id : RequestId) : b.Kept (b.dropStream id) :=
  (kept_cancel b id).trans (kept_modify _ id Request.kept_dropReceiver)

/-! ## Shutting down -/

theorem requests_sweep_one (acc : Nat × Book) (id i : RequestId) :
    (sweep acc id).2.requests[i]? = (acc.2.requests[i]?).map fun r =>
      if i = id ∧ r.complete = false then r.close else r := by
  unfold sweep
  cases hr : acc.2.requests[id]? with
  | none =>
    by_cases hi : i = id
    · subst hi
      simp [hr]
    · simp [hi]
  | some r =>
    by_cases hc : r.complete = true
    · by_cases hi : i = id
      · subst hi
        simp [hr, hc]
      · simp [hi, hc]
    · simp only [hc, Bool.false_eq_true, ite_false]
      rw [requests_modify]
      by_cases hi : i = id
      · subst hi
        simp [hr, hc]
      · simp [hi]

theorem requests_sweep (ids : List RequestId) (acc : Nat × Book) (i : RequestId) :
    (ids.foldl sweep acc).2.requests[i]? = (acc.2.requests[i]?).map fun r =>
      if i ∈ ids ∧ r.complete = false then r.close else r := by
  induction ids generalizing acc with
  | nil => simp
  | cons id ids ih =>
    rw [List.foldl_cons, ih, requests_sweep_one, Option.map_map]
    congr 1
    funext r
    have hclose : r.close.complete = r.complete := rfl
    by_cases hc : r.complete = false
    · by_cases hi : i = id
      · subst hi
        simp [hc, hclose, Request.close_close]
      · simp [hc, hi]
    · simp [hc]

theorem registry_sweep (ids : List RequestId) (acc : Nat × Book) :
    (ids.foldl sweep acc).2.registry = acc.2.registry := by
  induction ids generalizing acc with
  | nil => rfl
  | cons id ids ih =>
    rw [List.foldl_cons, ih]
    unfold sweep
    split
    · rfl
    · split <;> rfl

theorem mem_drain {b : Book} {id : RequestId} :
    id ∈ b.drain.1 ↔ ∃ n, b.registry.get? n = some id := by
  simp only [drain, Registry.toList, List.mem_map, Registry.get?]
  constructor
  · rintro ⟨⟨n, i⟩, hm, rfl⟩
    exact ⟨n, Std.ExtTreeMap.mem_toList_iff_getElem?_eq_some.mp hm⟩
  · rintro ⟨n, hn⟩
    exact ⟨(n, id), Std.ExtTreeMap.mem_toList_iff_getElem?_eq_some.mpr hn, rfl⟩

theorem requests_shutdown (b : Book) (i : RequestId) :
    b.shutdown.2.requests[i]? = (b.requests[i]?).map fun r =>
      if i ∈ b.drain.1 ∧ r.complete = false then r.close else r :=
  requests_sweep b.drain.1 (0, b.drain.2) i

theorem registry_shutdown (b : Book) : b.shutdown.2.registry = .empty :=
  registry_sweep b.drain.1 (0, b.drain.2)

theorem kept_shutdown (b : Book) : b.Kept b.shutdown.2 := by
  intro i
  rw [requests_shutdown]
  cases b.requests[i]? with
  | none => exact .none
  | some r =>
    refine .some ?_
    dsimp only
    split
    · exact r.kept_close
    · exact .refl r

/-! ## Registering -/

theorem not_taken_of_firstFree {taken : String → Bool} {n : Nat} {s : NonceSource} {nonce : String}
    (h : (s.firstFree taken n).1 = some nonce) : taken nonce = false := by
  induction n generalizing s with
  | zero => cases h
  | succ n ih =>
    unfold NonceSource.firstFree at h
    split at h
    · exact ih h
    · rename_i hfree
      cases h
      simpa using hfree

theorem registerWith_some {b b' : Book} {build : String → Request} {id : RequestId}
    (h : b.registerWith build = (some id, b')) :
    ∃ nonce, b.registry.get? nonce = none ∧ id = b.requests.size ∧
      b'.requests = b.requests.push (build nonce) ∧
      b'.registry = b.registry.insert nonce b.requests.size := by
  rw [registerWith_eq] at h
  split at h
  · cases h
  · rename_i nonce b₁ hi
    simp only [Prod.mk.injEq, Option.some.injEq] at h
    obtain ⟨rfl, rfl⟩ := h
    have hn : (b.nonces.firstFree b.registry.contains NonceSource.attempts).1 = some nonce := by
      change b.issue.1 = some nonce
      rw [hi]
    have hfree := not_taken_of_firstFree hn
    rw [Registry.contains_eq_isSome] at hfree
    have hb : b₁ = b.issue.2 := by rw [hi]
    subst hb
    exact ⟨nonce, by simpa using hfree, rfl, rfl, rfl⟩

theorem registerWith_none {b b' : Book} {build : String → Request}
    (h : b.registerWith build = (none, b')) : ∃ nonces, b' = { b with nonces } := by
  rw [registerWith_eq] at h
  split at h
  · rename_i b₁ hi
    simp only [Prod.mk.injEq, true_and] at h
    subst h
    have hb : b₁ = b.issue.2 := by rw [hi]
    exact ⟨_, hb⟩
  · cases h

end Book
end Rollcall
