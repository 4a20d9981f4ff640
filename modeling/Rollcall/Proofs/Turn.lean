import Rollcall.Delivery

/-!
# One segment of a delivery

`Delivery.Turn` lists what a segment of handing a chunk over does to its request, once the chunk has
joined the line. `advance_moved` and `advance_done` say that nothing else happens, and
`advance_arriving` that a chunk which arrives first in line goes on at once.
-/

namespace Rollcall

namespace Book

def Replaces (b : Book) (id : RequestId) (r : Request) (b' : Book) : Prop :=
  ∀ i, b'.requests[i]? = if i = id then some r else b.requests[i]?

theorem requests_modify (b : Book) (id : RequestId) (f : Request → Request) (i : RequestId) :
    (b.modify id f).requests[i]? = if i = id then (b.requests[i]?).map f else b.requests[i]? := by
  simp only [modify, Array.getElem?_modify, eq_comm]

theorem replaces_modify {b : Book} {id : RequestId} {r : Request} (hr : b.requests[id]? = some r)
    (f : Request → Request) : b.Replaces id (f r) (b.modify id f) := by
  intro i
  rw [requests_modify]
  by_cases hi : i = id
  · subst hi; simp [hr]
  · simp [hi]

theorem Replaces.self {b b' : Book} {id : RequestId} {r : Request} (h : b.Replaces id r b') :
    b'.requests[id]? = some r := by
  rw [h id, if_pos rfl]

theorem Replaces.ne {b b' : Book} {id i : RequestId} {r : Request} (h : b.Replaces id r b')
    (hi : i ≠ id) : b'.requests[i]? = b.requests[i]? := by
  rw [h i, if_neg hi]

theorem Replaces.trans {b b' b'' : Book} {id : RequestId} {r r' : Request}
    (h : b.Replaces id r b') (h' : b'.Replaces id r' b'') : b.Replaces id r' b'' := by
  intro i
  by_cases hi : i = id
  · rw [h' i, if_pos hi, if_pos hi]
  · rw [h'.ne hi, h.ne hi, if_neg hi]

end Book

/-! ## Counting a chunk -/

namespace Request

theorem countChunk_cases (r : Request) (declared : UInt32) :
    (r.completesAt declared = true ∧ (r.countChunk declared).complete = true ∧
      (r.countChunk declared).senderOpen = false) ∨
    (r.completesAt declared = false ∧ (r.countChunk declared).complete = r.complete ∧
      (r.countChunk declared).senderOpen = r.senderOpen) := by
  unfold countChunk
  split
  · rename_i h
    exact .inl ⟨h, rfl, rfl⟩
  · rename_i h
    exact .inr ⟨by simpa using h, rfl, rfl⟩

@[simp] theorem cancelled_countChunk (r : Request) (declared : UInt32) :
    (r.countChunk declared).cancelled = r.cancelled := by
  unfold countChunk
  split <;> rfl

@[simp] theorem channel_countChunk (r : Request) (declared : UInt32) :
    (r.countChunk declared).channel = r.channel := by
  unfold countChunk
  split <;> rfl

@[simp] theorem nonce_countChunk (r : Request) (declared : UInt32) :
    (r.countChunk declared).nonce = r.nonce := by
  unfold countChunk
  split <;> rfl

@[simp] theorem line_countChunk (r : Request) (declared : UInt32) :
    (r.countChunk declared).line = r.line := by
  unfold countChunk
  split <;> rfl

end Request

namespace Delivery

theorem seek_found {caching : Bool} {filter : Option (Member → Bool)} :
    ∀ {ms : List Member} {cache cache' : MemberCache} {k k' : Nat} {m : Member}
      {rest : List Member}, seek caching filter cache k ms = (cache', k', some (m, rest)) →
        ms.filter (passes filter) = m :: rest.filter (passes filter) ∧
          rest.foldl (keep caching) cache' = ms.foldl (keep caching) cache ∧
          k' + rest.countP (fun m => !passes filter m) = k + ms.countP (fun m => !passes filter m)
  | [], _, _, _, _, _, _, h => by simp [seek] at h
  | m₀ :: ms, cache, cache', k, k', m, rest, h => by
    simp only [seek] at h
    split at h
    · rename_i hp
      cases h
      simp [hp]
    · rename_i hp
      obtain ⟨hfilter, hcache, hcount⟩ := seek_found h
      refine ⟨by simpa [hp] using hfilter, hcache, ?_⟩
      rw [hcount, List.countP_cons_of_pos (by simpa using hp)]
      omega

theorem seek_exhausted {caching : Bool} {filter : Option (Member → Bool)} :
    ∀ {ms : List Member} {cache cache' : MemberCache} {k k' : Nat},
      seek caching filter cache k ms = (cache', k', none) →
        ms.filter (passes filter) = [] ∧ cache' = ms.foldl (keep caching) cache ∧
          k' = k + ms.countP (fun m => !passes filter m)
  | [], _, _, _, _, h => by
    cases h
    exact ⟨rfl, rfl, rfl⟩
  | m₀ :: ms, cache, cache', k, k', h => by
    simp only [seek] at h
    split at h
    · cases h
    · rename_i hp
      obtain ⟨hfilter, hcache, hcount⟩ := seek_exhausted h
      refine ⟨by simpa [hp] using hfilter, hcache, ?_⟩
      rw [hcount, List.countP_cons_of_pos (by simpa using hp)]
      omega

def lastVerdict (r : Request) (declared : UInt32) : Verdict :=
  if r.completesAt declared then .complete else .pending

/-- What a segment makes of a request `r` and of the stage of a delivery that stands in line: a new
request, and either the next stage or the end. -/
inductive Turn (t : TaskId) (declared : UInt32) (r : Request) :
    Stage → Request → Stage ⊕ Delivered → Prop
  | first {ms : List Member} {m : Member} {rest : List Member} {filtered : Nat}
      (head : r.line.head? = some t) (sender : r.senderOpen = true) (live : r.cancelled = false)
      (found : ms.filter r.accepts = m :: rest.filter r.accepts) :
      Turn t declared r (.inLine ms) r (.inl (.placing m rest 0 filtered))
  | next {m : Member} {rest : List Member} {n k : Nat} {m' : Member} {rest' : List Member}
      {k' : Nat} (live : r.cancelled = false) (listening : r.channel.isListening = true)
      (room : r.channel.hasRoom = true)
      (found : rest.filter r.accepts = m' :: rest'.filter r.accepts) :
      Turn t declared r (.placing m rest n k) (r.place m) (.inl (.placing m' rest' (n + 1) k'))
  -- the sender was closed before the chunk came to the head of the line
  | late {ms : List Member} (head : r.line.head? = some t) (closed : r.senderOpen = false) :
      Turn t declared r (.inLine ms) (r.leave t) (.inr { verdict := .abandoned })
  -- the request was cancelled before the chunk came to the head of the line
  | refused {ms : List Member} {out : Delivered} (head : r.line.head? = some t)
      (sender : r.senderOpen = true) (dead : r.cancelled = true)
      (verdict : out.verdict = .abandoned) :
      Turn t declared r (.inLine ms) (r.closeSender.leave t) (.inr out)
  -- the request takes no more, in the middle of the chunk
  | cut {m : Member} {rest : List Member} {n k : Nat} {out : Delivered}
      (dead : r.cancelled = true ∨ r.channel.isListening = false)
      (verdict : out.verdict = .abandoned) :
      Turn t declared r (.placing m rest n k) (r.closeSender.leave t) (.inr out)
  | nothing {ms : List Member} {out : Delivered} (head : r.line.head? = some t)
      (sender : r.senderOpen = true) (live : r.cancelled = false)
      (found : ms.filter r.accepts = []) (verdict : out.verdict = lastVerdict r declared) :
      Turn t declared r (.inLine ms) ((r.countChunk declared).leave t) (.inr out)
  | last {m : Member} {rest : List Member} {n k : Nat} {out : Delivered}
      (live : r.cancelled = false) (listening : r.channel.isListening = true)
      (room : r.channel.hasRoom = true) (found : rest.filter r.accepts = [])
      (verdict : out.verdict = lastVerdict r declared) :
      Turn t declared r (.placing m rest n k) (((r.place m).countChunk declared).leave t)
        (.inr out)

variable {d : Delivery} {t : TaskId} {b : Book} {r : Request}

theorem proceed_moved {filter : Option (Member → Bool)} {last : Bool} {rest : List Member}
    {n k : Nat} {b' : Book} {d' : Delivery}
    (h : d.proceed t b filter last rest n k = .moved b' d') :
    ∃ m rest' k', rest.filter (passes filter) = m :: rest'.filter (passes filter) ∧
      b'.requests = b.requests ∧ b'.registry = b.registry ∧
      d' = { d with stage := .placing m rest' n k' } := by
  unfold proceed at h
  split at h
  · rename_i cache k' m rest' heq
    injection h with hb hd
    subst hb; subst hd
    exact ⟨m, rest', k', (seek_found heq).1, rfl, rfl, rfl⟩
  · cases h

theorem proceed_done {filter : Option (Member → Bool)} {last : Bool} {rest : List Member}
    {n k : Nat} {b' : Book} {out : Delivered}
    (h : d.proceed t b filter last rest n k = .done b' out) :
    rest.filter (passes filter) = [] ∧
      b'.requests = (b.modify d.request fun r => (r.countChunk d.declared).leave t).requests ∧
      b'.registry = b.registry ∧ out.verdict = if last then .complete else .pending := by
  unfold proceed at h
  split at h
  · cases h
  · rename_i cache k' heq
    injection h with hb hout
    subst hb; subst hout
    exact ⟨(seek_exhausted heq).1, rfl, rfl, rfl⟩

theorem replaces_of_requests {b b' b'' : Book} {id : RequestId} (h : b.Replaces id r b')
    (h' : b''.requests = b'.requests) : b.Replaces id r b'' := by
  intro i; rw [h']; exact h i

theorem replaces_self {b' : Book} {id : RequestId} (hr : b.requests[id]? = some r)
    (h : b'.requests = b.requests) : b.Replaces id r b' := by
  intro i
  by_cases hi : i = id
  · subst hi; rw [h, hr, if_pos rfl]
  · rw [h, if_neg hi]

/-- A chunk in line that moves on takes one of the turns that leave it in line. -/
theorem advance_moved (hr : b.requests[d.request]? = some r) (hs : ∀ ms, d.stage ≠ .arriving ms)
    {b' : Book} {d' : Delivery} (h : d.advance t b = .moved b' d') :
    ∃ r', b.Replaces d.request r' b' ∧ b'.registry = b.registry ∧ d'.request = d.request ∧
      d'.declared = d.declared ∧ Turn t d.declared r d.stage r' (.inl d'.stage) := by
  unfold advance at h
  rw [hr] at h
  simp only at h
  cases hd : d.stage with
  | arriving ms => exact absurd hd (hs ms)
  | inLine ms =>
    rw [hd] at h
    simp only [begin, abandon] at h
    split at h
    · rename_i hhead
      split at h
      · cases h
      · rename_i hopen
        split at h
        · cases h
        · rename_i hlive
          obtain ⟨m, rest, k, hf, hreq, hreg, rfl⟩ := proceed_moved h
          exact ⟨r, replaces_self hr hreq, hreg, rfl, rfl,
            .first hhead (by simpa using hopen) (by simpa using hlive) hf⟩
    · cases h
  | placing m rest n k =>
    rw [hd] at h
    simp only [abandon] at h
    split at h
    · cases h
    · rename_i hlive
      simp only [Bool.or_eq_true, Bool.not_eq_true', not_or, Bool.not_eq_true, Bool.not_eq_false]
        at hlive
      split at h
      · rename_i hroom
        obtain ⟨m', rest', k', hf, hreq, hreg, rfl⟩ := proceed_moved h
        exact ⟨r.place m, replaces_of_requests (Book.replaces_modify hr _) hreq, hreg, rfl, rfl,
          .next hlive.1 hlive.2 hroom hf⟩
      · cases h

theorem advance_done (hr : b.requests[d.request]? = some r) (hs : ∀ ms, d.stage ≠ .arriving ms)
    {b' : Book} {out : Delivered} (h : d.advance t b = .done b' out) :
    ∃ r', b.Replaces d.request r' b' ∧ b'.registry = b.registry ∧
      Turn t d.declared r d.stage r' (.inr out) := by
  unfold advance at h
  rw [hr] at h
  simp only at h
  cases hd : d.stage with
  | arriving ms => exact absurd hd (hs ms)
  | inLine ms =>
    rw [hd] at h
    simp only [begin, abandon] at h
    split at h
    · rename_i hhead
      split at h
      · rename_i hclosed
        injection h with hb hout
        subst hb; subst hout
        exact ⟨r.leave t, Book.replaces_modify hr _, rfl, .late hhead (by simpa using hclosed)⟩
      · rename_i hopen
        split at h
        · rename_i hdead
          injection h with hb hout
          subst hb; subst hout
          exact ⟨_, Book.replaces_modify hr _, rfl, .refused hhead (by simpa using hopen) hdead rfl⟩
        · rename_i hlive
          obtain ⟨hf, hreq, hreg, hv⟩ := proceed_done h
          exact ⟨_, replaces_of_requests (Book.replaces_modify hr _) hreq, hreg,
            .nothing hhead (by simpa using hopen) (by simpa using hlive) hf hv⟩
    · cases h
  | placing m rest n k =>
    rw [hd] at h
    simp only [abandon] at h
    split at h
    · rename_i hdead
      injection h with hb hout
      subst hb; subst hout
      exact ⟨_, Book.replaces_modify hr _, rfl, .cut (by simpa using hdead) rfl⟩
    · rename_i hlive
      simp only [Bool.or_eq_true, Bool.not_eq_true', not_or, Bool.not_eq_true, Bool.not_eq_false]
        at hlive
      split at h
      · rename_i hroom
        obtain ⟨hf, hreq, hreg, hv⟩ := proceed_done h
        have hr' := Book.replaces_modify hr (·.place m)
        exact ⟨_, replaces_of_requests (hr'.trans (Book.replaces_modify hr'.self _)) hreq, hreg,
          .last hlive.1 hlive.2 hroom hf hv⟩
      · cases h

/-- A chunk that arrives at an empty line is handed over like one that stands at its head. -/
theorem advance_arriving {ms : List Member} (hr : b.requests[d.request]? = some r)
    (hd : d.stage = .arriving ms) (hline : r.line = []) :
    d.advance t b =
      ({ d with stage := .inLine ms } : Delivery).advance t (b.modify d.request (·.join t)) := by
  have hr' := (Book.replaces_modify hr (·.join t)).self
  unfold advance
  rw [hr, hr', hd]
  simp only [Request.join, hline, List.isEmpty_nil, ite_true, List.nil_append, List.head?_cons]
  rfl

theorem advance_arriving_behind {ms : List Member} (hr : b.requests[d.request]? = some r)
    (hd : d.stage = .arriving ms) (hline : r.line ≠ []) :
    d.advance t b =
      .moved (b.modify d.request (·.join t)) { d with stage := .inLine ms } := by
  unfold advance
  rw [hr, hd]
  simp [hline]

end Delivery
end Rollcall
