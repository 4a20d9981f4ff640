import Rollcall.Proofs.Cancels

/-!
# The entries of a registry

What can be asked of a registry on its own, in any order (`Book.Operation`). An operation concerns at
most one nonce, unless it clears the registry, and it never puts one entry in the place of another
(`Book.get?_perform`). So every entry stays under the nonce of its request (`Book.Filed.performAll`).
Main statement: `entries_respect_identity`.
-/

namespace Rollcall

namespace Registry

theorem ext_get? {r r' : Registry} (h : ∀ n, r.get? n = r'.get? n) : r = r' := by
  cases r
  cases r'
  exact congrArg Registry.mk (Std.ExtTreeMap.ext_getElem? fun n => h n)

@[simp] theorem get?_empty (n : String) : empty.get? n = none := Std.ExtTreeMap.getElem?_empty

theorem erase_of_free {r : Registry} {n : String} (h : r.get? n = none) : r.erase n = r := by
  refine ext_get? fun m => ?_
  rw [get?_erase]
  by_cases hm : n = m
  · rw [if_pos hm, ← hm, h]
  · rw [if_neg hm]

end Registry

namespace Book

inductive Operation where
  | make (r : Request)
  | registerWith (build : String → Request)
  | register (id : RequestId)
  | deregister (nonce : String)
  | deregisterRequest (id : RequestId)
  | drain

def perform (b : Book) : Operation → Book
  | .make r => (b.add r).2
  | .registerWith build => (b.registerWith build).2
  | .register id => (b.register id).2
  | .deregister nonce => (b.deregister nonce).2
  | .deregisterRequest id => (b.deregisterRequest id).2
  | .drain => b.drain.2

def performAll (b : Book) (ops : List Operation) : Book := ops.foldl perform b

/-- A request is built from the nonce that it is issued. -/
def Operation.Faithful : Operation → Prop
  | .registerWith build => ∀ nonce, (build nonce).nonce = nonce
  | _ => True

def Operation.Concerns (b : Book) (nonce : String) : Operation → Prop
  | .make _ => False
  | .registerWith _ => b.issue.1 = some nonce
  | .register id => b.view (·.nonce) id = some nonce
  | .deregister n => n = nonce
  | .deregisterRequest id => b.view (·.nonce) id = some nonce
  | .drain => True

variable {b : Book} {id : RequestId} {r : Request} {n : String}

/-! ## Single operations -/

theorem registerWith_of_none (hi : b.issue.1 = none) (build : String → Request) :
    b.registerWith build = (none, b.issue.2) := by
  rw [registerWith_eq]
  cases hb : b.issue with
  | mk nonce b' =>
    rw [hb] at hi
    cases hi
    rfl

theorem free_of_issue (hi : b.issue.1 = some n) : b.registry.get? n = none := by
  have hfirst : (b.nonces.firstFree b.registry.contains NonceSource.attempts).1 = some n := hi
  have hfree := not_taken_of_firstFree hfirst
  rw [Registry.contains_eq_isSome] at hfree
  simpa using hfree

theorem registerWith_of_issue (hi : b.issue.1 = some n) (build : String → Request) :
    b.registerWith build = (some b.requests.size,
      { b.issue.2 with
        requests := b.requests.push (build n), registry := b.registry.insert n b.requests.size }) := by
  rw [registerWith_eq]
  cases hb : b.issue with
  | mk nonce b' =>
    have hrequests : b'.requests = b.requests := congrArg (·.2.requests) hb.symm
    have hregistry : b'.registry = b.registry := congrArg (·.2.registry) hb.symm
    rw [hb] at hi
    cases hi
    dsimp only
    rw [hrequests, hregistry]

theorem register_of_free (hr : b.requests[id]? = some r) (hfree : b.registry.get? r.nonce = none) :
    b.register id = (true, { b with registry := b.registry.insert r.nonce id }) := by
  simp [register, hr, Registry.contains_eq_isSome, hfree]

theorem register_of_taken (hr : b.requests[id]? = some r) (htaken : b.registry.get? r.nonce ≠ none) :
    b.register id = (false, b) := by
  have hyes : b.registry.contains r.nonce = true := by
    rwa [Registry.contains_eq_isSome, Option.isSome_iff_ne_none]
  simp only [register, hr, hyes, if_true]

theorem register_cases (b : Book) (id : RequestId) :
    (∃ r, b.requests[id]? = some r ∧ b.registry.get? r.nonce = none ∧
      b.register id = (true, { b with registry := b.registry.insert r.nonce id })) ∨
    b.register id = (false, b) := by
  cases hr : b.requests[id]? with
  | none => simp [register, hr]
  | some r =>
    by_cases hfree : b.registry.get? r.nonce = none
    · exact .inl ⟨r, rfl, hfree, register_of_free hr hfree⟩
    · exact .inr (register_of_taken hr hfree)

theorem deregisterRequest_of_entry (hr : b.requests[id]? = some r)
    (hentry : b.registry.get? r.nonce = some id) :
    b.deregisterRequest id = (true, { b with registry := b.registry.erase r.nonce }) := by
  simp [deregisterRequest, hr, Registry.holds, hentry]

theorem deregisterRequest_of_other (hr : b.requests[id]? = some r)
    (hother : b.registry.get? r.nonce ≠ some id) : b.deregisterRequest id = (false, b) := by
  simp [deregisterRequest, hr, Registry.holds, hother]

theorem deregisterRequest_cases (b : Book) (id : RequestId) :
    (∃ r, b.requests[id]? = some r ∧
      b.deregisterRequest id = (true, { b with registry := b.registry.erase r.nonce })) ∨
    b.deregisterRequest id = (false, b) := by
  cases hr : b.requests[id]? with
  | none => simp [deregisterRequest, hr]
  | some r =>
    by_cases hentry : b.registry.get? r.nonce = some id
    · exact .inl ⟨r, rfl, deregisterRequest_of_entry hr hentry⟩
    · exact .inr (deregisterRequest_of_other hr hentry)

theorem registerWith_spec {build : String → Request} (h : (b.registerWith build).1 = some id) :
    ∃ n, b.registry.get? n = none ∧ (b.registerWith build).2.registry.get? n = some id := by
  cases hi : b.issue.1 with
  | none =>
    rw [registerWith_of_none hi] at h
    cases h
  | some n =>
    rw [registerWith_of_issue hi] at h ⊢
    cases h
    refine ⟨n, free_of_issue hi, ?_⟩
    rw [Registry.get?_insert, if_pos rfl]

theorem register_spec (hr : b.requests[id]? = some r) :
    ((b.register id).1 = true ↔ b.registry.get? r.nonce = none) ∧
    ((b.register id).1 = true → (b.register id).2.registry.get? r.nonce = some id) ∧
    ((b.register id).1 = false → (b.register id).2 = b) := by
  by_cases hfree : b.registry.get? r.nonce = none
  · rw [register_of_free hr hfree, Registry.get?_insert, if_pos rfl]
    exact ⟨⟨fun _ => hfree, fun _ => rfl⟩, fun _ => rfl, nofun⟩
  · rw [register_of_taken hr hfree]
    exact ⟨⟨nofun, fun h => absurd h hfree⟩, nofun, fun _ => rfl⟩

theorem deregisterRequest_spec (hr : b.requests[id]? = some r) :
    ((b.deregisterRequest id).1 = true ↔ b.registry.get? r.nonce = some id) ∧
    ((b.deregisterRequest id).1 = true → (b.deregisterRequest id).2.registry.get? r.nonce = none) ∧
    ((b.deregisterRequest id).1 = false → (b.deregisterRequest id).2 = b) := by
  by_cases hentry : b.registry.get? r.nonce = some id
  · rw [deregisterRequest_of_entry hr hentry, Registry.get?_erase, if_pos rfl]
    exact ⟨⟨fun _ => hentry, fun _ => rfl⟩, fun _ => rfl, nofun⟩
  · rw [deregisterRequest_of_other hr hentry]
    exact ⟨⟨nofun, fun h => absurd h hentry⟩, nofun, fun _ => rfl⟩

theorem get?_deregister (b : Book) (n : String) : (b.deregister n).2.registry.get? n = none :=
  (b.registry.get?_erase n n).trans (if_pos rfl)

theorem deregister_twice (b : Book) (n : String) :
    (b.deregister n).2.deregister n = (none, (b.deregister n).2) := by
  have hgone : (b.registry.erase n).get? n = none := b.get?_deregister n
  simp only [deregister, hgone, Registry.erase_of_free hgone]

/-! ## Any operation -/

theorem get?_insert_cases (hfree : b.registry.get? n = none) (id : RequestId) (m : String) :
    (b.registry.insert n id).get? m = b.registry.get? m ∨ n = m ∧ b.registry.get? m = none := by
  rw [Registry.get?_insert]
  by_cases hm : n = m
  · exact .inr ⟨hm, hm ▸ hfree⟩
  · exact .inl (if_neg hm)

theorem get?_erase_cases (b : Book) (n m : String) :
    (b.registry.erase n).get? m = b.registry.get? m ∨ n = m ∧ (b.registry.erase n).get? m = none := by
  rw [Registry.get?_erase]
  by_cases hm : n = m
  · exact .inr ⟨hm, if_pos hm⟩
  · exact .inl (if_neg hm)

/-- What is registered under a nonce stays as it is, unless the operation concerns the nonce; and then
it comes where nothing was, or goes. -/
theorem get?_perform (b : Book) (op : Operation) (n : String) :
    (b.perform op).registry.get? n = b.registry.get? n ∨
      op.Concerns b n ∧ (b.registry.get? n = none ∨ (b.perform op).registry.get? n = none) := by
  cases op with
  | make r => exact .inl rfl
  | registerWith build =>
    cases hi : b.issue.1 with
    | none =>
      rw [perform, registerWith_of_none hi]
      exact .inl rfl
    | some nonce =>
      rw [perform, registerWith_of_issue hi]
      refine (get?_insert_cases (free_of_issue hi) _ n).imp_right fun ⟨hn, hfree⟩ => ?_
      exact ⟨hn ▸ hi, .inl hfree⟩
  | register id =>
    rw [perform]
    rcases b.register_cases id with ⟨r, hr, hfree, heq⟩ | heq
    · rw [heq]
      refine (get?_insert_cases hfree id n).imp_right fun ⟨hn, hfree⟩ => ?_
      exact ⟨hn ▸ view_eq hr _, .inl hfree⟩
    · rw [heq]
      exact .inl rfl
  | deregister nonce =>
    refine (b.get?_erase_cases nonce n).imp_right fun ⟨hn, hgone⟩ => ?_
    exact ⟨hn, .inr hgone⟩
  | deregisterRequest id =>
    rw [perform]
    rcases b.deregisterRequest_cases id with ⟨r, hr, heq⟩ | heq
    · rw [heq]
      refine (b.get?_erase_cases r.nonce n).imp_right fun ⟨hn, hgone⟩ => ?_
      exact ⟨hn ▸ view_eq hr _, .inr hgone⟩
    · rw [heq]
      exact .inl rfl
  | drain => exact .inr ⟨trivial, .inr (Registry.get?_empty n)⟩

theorem view_push {b' : Book} (h : b'.requests = b.requests.push r) {m : String}
    (hv : b.view (·.nonce) id = some m) : b'.view (·.nonce) id = some m := by
  rw [view, Option.map_eq_some_iff] at hv
  obtain ⟨q, hq, hm⟩ := hv
  have hne : id ≠ b.requests.size := Nat.ne_of_lt (Array.getElem?_eq_some_iff.mp hq).1
  rw [view, h, Array.getElem?_push, if_neg hne, hq, Option.map_some, hm]

/-- What has been made keeps its nonce. -/
theorem view_perform (op : Operation) (hv : b.view (·.nonce) id = some n) :
    (b.perform op).view (·.nonce) id = some n := by
  cases op with
  | make r => exact view_push rfl hv
  | registerWith build =>
    rw [perform]
    cases hi : b.issue.1 with
    | none =>
      rw [registerWith_of_none hi]
      exact hv
    | some nonce =>
      rw [registerWith_of_issue hi]
      exact view_push rfl hv
  | register i =>
    rw [perform]
    rcases b.register_cases i with ⟨r, -, -, heq⟩ | heq <;> rwa [heq]
  | deregister nonce => exact hv
  | deregisterRequest i =>
    rw [perform]
    rcases b.deregisterRequest_cases i with ⟨r, -, heq⟩ | heq <;> rwa [heq]
  | drain => exact hv

/-! ## Entries under their own nonces -/

def Filed (b : Book) : Prop :=
  ∀ n id, b.registry.get? n = some id → b.view (·.nonce) id = some n

theorem eq_of_get?_insert {m : String} {i : RequestId} (hfree : b.registry.get? m = none)
    (h : (b.registry.insert n i).get? m = some id) : n = m ∧ i = id := by
  rw [Registry.get?_insert] at h
  split at h
  · rename_i hn
    exact ⟨hn, Option.some.inj h⟩
  · rw [hfree] at h
    cases h

theorem get?_erase_of_free {m : String} (hfree : b.registry.get? m = none) (n : String) :
    (b.registry.erase n).get? m = none := by
  rw [Registry.get?_erase]
  split
  · rfl
  · exact hfree

/-- What an operation enters, it enters under its own nonce. -/
theorem view_of_entered {op : Operation} (hop : op.Faithful) (hfree : b.registry.get? n = none)
    (hnew : (b.perform op).registry.get? n = some id) :
    (b.perform op).view (·.nonce) id = some n := by
  have absurd_of_free {r : Registry} (hr : r.get? n = none) (hs : r.get? n = some id) :
      (b.perform op).view (·.nonce) id = some n := by
    rw [hr] at hs
    cases hs
  cases op with
  | make r => exact absurd_of_free hfree hnew
  | registerWith build =>
    rw [perform] at hnew ⊢
    cases hi : b.issue.1 with
    | none =>
      rw [registerWith_of_none hi] at hnew
      exact absurd_of_free hfree hnew
    | some nonce =>
      rw [registerWith_of_issue hi] at hnew ⊢
      obtain ⟨rfl, rfl⟩ := eq_of_get?_insert hfree hnew
      simp [view, hop nonce]
  | register i =>
    rw [perform] at hnew ⊢
    rcases b.register_cases i with ⟨r, hr, -, heq⟩ | heq
    · rw [heq] at hnew ⊢
      obtain ⟨rfl, rfl⟩ := eq_of_get?_insert hfree hnew
      exact view_eq hr _
    · rw [heq] at hnew
      exact absurd_of_free hfree hnew
  | deregister nonce => exact absurd_of_free (get?_erase_of_free hfree nonce) hnew
  | deregisterRequest i =>
    rw [perform] at hnew
    rcases b.deregisterRequest_cases i with ⟨r, -, heq⟩ | heq
    · rw [heq] at hnew
      exact absurd_of_free (get?_erase_of_free hfree r.nonce) hnew
    · rw [heq] at hnew
      exact absurd_of_free hfree hnew
  | drain => exact absurd_of_free (Registry.get?_empty n) hnew

theorem Filed.perform (hb : b.Filed) {op : Operation} (hop : op.Faithful) : (b.perform op).Filed := by
  intro n id hnew
  rcases b.get?_perform op n with hsame | ⟨-, hfree | hgone⟩
  · exact view_perform op (hb n id (hsame ▸ hnew))
  · exact view_of_entered hop hfree hnew
  · rw [hgone] at hnew
    cases hnew

theorem Filed.performAll {ops : List Operation} (hops : ∀ op ∈ ops, op.Faithful) (hb : b.Filed) :
    (b.performAll ops).Filed := by
  induction ops generalizing b with
  | nil => exact hb
  | cons op ops ih =>
    exact ih (fun op hop => hops op (List.mem_cons_of_mem _ hop)) (hb.perform (hops op List.mem_cons_self))

theorem Filed.nodup_drain (hb : b.Filed) : b.drain.1.Nodup := by
  refine Book.nodup_drain fun n n' id hn hn' => ?_
  have hview := hb n id hn
  rw [hb n' id hn'] at hview
  exact (Option.some.inj hview).symm

end Book

/-- **Entries respect identity.** Whatever has been asked of a registry that was empty at first, no
operation puts one entry in the place of another, and all but clearing leave the entries of other
nonces as they are. A request is registered just if its nonce is free, and removed just if the entry
is the request itself; otherwise nothing changes. What is registered under a nonce is removed once.
Clearing gives whatever is registered and leaves nothing. If requests are built from the nonces that
they are issued, then each entry stands under the nonce of its request, and clearing gives each
request once. -/
theorem entries_respect_identity (nonces : NonceSource) (ops : List Book.Operation) (b : Book)
    (hb : b = ({ nonces } : Book).performAll ops) :
    ((∀ op ∈ ops, op.Faithful) →
      (∀ n id, b.registry.get? n = some id → (b.requests[id]?).map (·.nonce) = some n) ∧
      b.drain.1.Nodup) ∧
    (∀ op n, (b.perform op).registry.get? n = b.registry.get? n ∨
      op.Concerns b n ∧ (b.registry.get? n = none ∨ (b.perform op).registry.get? n = none)) ∧
    (∀ build id, (b.registerWith build).1 = some id →
      ∃ n, b.registry.get? n = none ∧ (b.registerWith build).2.registry.get? n = some id) ∧
    (∀ id r, b.requests[id]? = some r →
      ((b.register id).1 = true ↔ b.registry.get? r.nonce = none) ∧
      ((b.register id).1 = true → (b.register id).2.registry.get? r.nonce = some id) ∧
      ((b.register id).1 = false → (b.register id).2 = b)) ∧
    (∀ id r, b.requests[id]? = some r →
      ((b.deregisterRequest id).1 = true ↔ b.registry.get? r.nonce = some id) ∧
      ((b.deregisterRequest id).1 = true → (b.deregisterRequest id).2.registry.get? r.nonce = none) ∧
      ((b.deregisterRequest id).1 = false → (b.deregisterRequest id).2 = b)) ∧
    (∀ n, (b.deregister n).1 = b.registry.get? n ∧ (b.deregister n).2.registry.get? n = none ∧
      (b.deregister n).2.deregister n = (none, (b.deregister n).2)) ∧
    b.drain.1.length = b.registry.size ∧
    (∀ id, id ∈ b.drain.1 ↔ ∃ n, b.registry.get? n = some id) ∧
    ∀ n, b.drain.2.registry.get? n = none := by
  refine ⟨fun hops => ?_, b.get?_perform, fun build id => Book.registerWith_spec,
    fun id r => Book.register_spec, fun id r => Book.deregisterRequest_spec,
    fun n => ⟨rfl, b.get?_deregister n, b.deregister_twice n⟩, b.length_drain,
    fun id => Book.mem_drain, Registry.get?_empty⟩
  have hfirst : ({ nonces } : Book).Filed := by
    intro n id hn
    rw [show ({ nonces } : Book).registry.get? n = none from Registry.get?_empty n] at hn
    cases hn
  have hfiled : b.Filed := hb ▸ hfirst.performAll hops
  exact ⟨hfiled, hfiled.nodup_drain⟩

/-- Two requests have one nonce: the second is registered when the first has been removed. -/
def Book.namesakes : Book :=
  let r (nonce : String) : Request := { nonce, guild := ⟨1⟩, channel := { capacity := 1 } }
  ({ nonces := .scripted ["a", "b"] } : Book).performAll
    [.make (r "a"), .make (r "a"), .register 0, .register 1, .registerWith r, .deregister "a",
      .register 1, .deregisterRequest 0]

theorem namesake_stays :
    Book.namesakes.registry.get? "a" = some 1 ∧
      (Book.namesakes.deregisterRequest 0).1 = false ∧ (Book.namesakes.deregisterRequest 1).1 = true ∧
      (Book.namesakes.register 0).2 = Book.namesakes ∧ Book.namesakes.drain.1.Nodup := by
  obtain ⟨hfiled, -, -, hregister, hremove, -⟩ := entries_respect_identity _ _ Book.namesakes rfl
  have hentry : Book.namesakes.registry.get? "a" = some 1 := by decide +kernel
  obtain ⟨hnonces, hnodup⟩ := hfiled (by simp [Book.Operation.Faithful])
  have hmade : (Book.namesakes.requests[0]?).map (·.nonce) = some "a" := by decide +kernel
  obtain ⟨first, hfirst, hnonce⟩ := Option.map_eq_some_iff.mp hmade
  obtain ⟨second, hsecond, hnonce'⟩ := Option.map_eq_some_iff.mp (hnonces "a" 1 hentry)
  refine ⟨hentry, ?_, ?_, ?_, hnodup⟩
  · rw [← Bool.not_eq_true, (hremove 0 first hfirst).1, hnonce, hentry]
    decide
  · rw [(hremove 1 second hsecond).1, hnonce', hentry]
  · apply (hregister 0 first hfirst).2.2
    rw [← Bool.not_eq_true, (hregister 0 first hfirst).1, hnonce, hentry]
    decide

end Rollcall
