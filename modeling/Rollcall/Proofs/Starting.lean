import Rollcall.Hub.Advance

/-!
# How a request starts

The checks of a request come one after the other, and the first that fails decides: the shard of the
guild, its intents, the users named, a free nonce. Only a request that passes them all is entered in
the book, under its nonce, and then its command is handed to the shard. `Hub.Starts` has a case for
each way this can go, with what the hub is afterwards (`Hub.starts`).
-/

namespace Rollcall

/-! ## Candidates -/

namespace NonceSource

variable {taken : String → Bool} {n : Nat} {s : NonceSource}

def candidate (s : NonceSource) (k : Nat) : String := s.draw (s.used + k)

def skip (s : NonceSource) (n : Nat) : NonceSource := { s with used := s.used + n }

theorem candidate_next (s : NonceSource) (k : Nat) : s.next.2.candidate k = s.candidate (k + 1) := by
  simp only [candidate, next]
  congr 1
  omega

theorem skip_next (s : NonceSource) (n : Nat) : s.next.2.skip n = s.skip (n + 1) := by
  simp only [skip, next]
  congr 1
  omega

theorem firstFree_cases (taken : String → Bool) (n : Nat) : ∀ s : NonceSource,
    ((∀ k < n, taken (s.candidate k) = true) ∧ s.firstFree taken n = (none, s.skip n)) ∨
    ∃ k < n, taken (s.candidate k) = false ∧ (∀ l < k, taken (s.candidate l) = true) ∧
      s.firstFree taken n = (some (s.candidate k), s.skip (k + 1)) := by
  induction n with
  | zero =>
    intro s
    exact .inl ⟨by simp, rfl⟩
  | succ n ih =>
    intro s
    have hfirst : s.next.1 = s.candidate 0 := rfl
    simp only [firstFree]
    by_cases ht : taken s.next.1 = true
    · rw [if_pos ht]
      rcases ih s.next.2 with ⟨hall, he⟩ | ⟨k, hk, hfree, hbefore, he⟩
      · left
        refine ⟨?_, by rw [he, skip_next]⟩
        intro k hk
        cases k with
        | zero => rwa [← hfirst]
        | succ k =>
          rw [← candidate_next]
          exact hall k (by omega)
      · right
        refine ⟨k + 1, by omega, by rwa [← candidate_next], ?_, by rw [he, candidate_next, skip_next]⟩
        intro l hl
        cases l with
        | zero => rwa [← hfirst]
        | succ l =>
          rw [← candidate_next]
          exact hbefore l (by omega)
    · rw [if_neg ht]
      right
      refine ⟨0, by omega, by simpa [hfirst] using ht, ?_, rfl⟩
      intro l hl
      omega

end NonceSource

/-! ## Entering a request -/

namespace Book

def Exhausted (b : Book) : Prop :=
  ∀ k < NonceSource.attempts, b.registry.contains (b.nonces.candidate k) = true

def enter (b : Book) (n : Nat) (nonce : String) (r : Request) : Book :=
  { b with
    requests := b.requests.push r
    registry := b.registry.insert nonce b.requests.size
    nonces := b.nonces.skip n }

theorem registerWith_cases (b : Book) (build : String → Request) :
    (b.Exhausted ∧
      b.registerWith build = (none, { b with nonces := b.nonces.skip NonceSource.attempts })) ∨
    ∃ k < NonceSource.attempts, b.registry.get? (b.nonces.candidate k) = none ∧
      b.registerWith build = (some b.requests.size,
        b.enter (k + 1) (b.nonces.candidate k) (build (b.nonces.candidate k))) := by
  have hcases := b.nonces.firstFree_cases b.registry.contains NonceSource.attempts
  rcases hcases with ⟨hall, he⟩ | ⟨k, hk, hfree, -, he⟩
  · exact .inl ⟨hall, by simp [registerWith_eq, issue, he]⟩
  · refine .inr ⟨k, hk, ?_, by simp [registerWith_eq, issue, he, enter]⟩
    rw [Registry.contains_eq_isSome] at hfree
    simpa using hfree

theorem nonceOf_enter (b : Book) (n : Nat) (nonce : String) (r : Request) :
    (b.enter n nonce r).nonceOf b.requests.size = r.nonce := by
  simp [nonceOf, enter]

theorem not_exhausted {b : Book} {k : Nat} (hk : k < NonceSource.attempts)
    (hfree : b.registry.get? (b.nonces.candidate k) = none) : ¬b.Exhausted := by
  intro hall
  have htaken := hall k hk
  simp [Registry.contains_eq_isSome, hfree] at htaken

end Book

/-! ## The checks -/

def Inquiry.request (i : Inquiry) (capacity : Nat) (nonce : String) : Request :=
  { nonce, guild := i.guild, filter := i.filter, channel := { capacity } }

namespace Hub

def shardPlace (h : Hub) (g : GuildId) : Nat := (g.bits.toNat >>> 22) % h.shards.size

def Serves (h : Hub) (g : GuildId) (shard : Shard) : Prop := h.shards[h.shardPlace g]? = some shard

structure Admits (h : Hub) (i : Inquiry) (shard : Shard) : Prop where
  serves : h.Serves i.guild shard
  intent : shard.intents.missing .guildMembers = false
  few : ∀ ids, i.scope = .users ids → ids.length ≤ h.limits.idsPerRequest.toNat

def opened (h : Hub) (t : TaskId) (i : Inquiry) (shard : Shard) (k : Nat) : Option SendResult × Hub :=
  let nonce := h.book.nonces.candidate k
  handOver
    { h with book := h.book.enter (k + 1) nonce (i.request h.limits.capacity.toNat nonce) } t
    (h.shardPlace i.guild) shard (i.command nonce (shard.intents.contains .guildPresences))

inductive Starts (h : Hub) (t : TaskId) (i : Inquiry) : Started → Hub → Prop
  | shardNotFound (hz : h.shards.size = 0) : Starts h t i (.failed (.shardNotFound i.guild)) h
  | missingIntent {shard : Shard} (hs : h.Serves i.guild shard)
      (hm : shard.intents.missing .guildMembers = true) :
      Starts h t i (.failed (.missingIntent .guildMembers)) h
  | invalidRequest {shard : Shard} {ids : List UserId} {reason : String}
      (hs : h.Serves i.guild shard) (hm : shard.intents.missing .guildMembers = false)
      (hi : i.scope = .users ids) (hlen : h.limits.idsPerRequest.toNat < ids.length)
      (hr : i.refusal? h.limits = some (.invalidRequest reason)) :
      Starts h t i (.failed (.invalidRequest reason)) h
  | oversized {shard : Shard} (ha : h.Admits i shard)
      (hbig : Limits.greatestCapacity < h.limits.capacity.toNat) : Starts h t i .oversized h
  | nonceExhausted {shard : Shard} (ha : h.Admits i shard)
      (hfit : h.limits.capacity.toNat ≤ Limits.greatestCapacity) (he : h.book.Exhausted) :
      Starts h t i (.failed (.nonceExhausted NonceSource.attempts))
        { h with book := { h.book with nonces := h.book.nonces.skip NonceSource.attempts } }
  | sent {shard : Shard} {k : Nat} (ha : h.Admits i shard)
      (hfit : h.limits.capacity.toNat ≤ Limits.greatestCapacity) (hk : k < NonceSource.attempts)
      (hfree : h.book.registry.get? (h.book.nonces.candidate k) = none) :
      Starts h t i (.sent h.book.requests.size (h.opened t i shard k).1) (h.opened t i shard k).2

theorem route_eq {h : Hub} {g : GuildId} (hsize : h.shards.size < UInt64.size)
    (hz : h.shards.size ≠ 0) : Shard.route h.shards.size g = .ok (h.shardPlace g) := by
  have hcount : (UInt64.ofNat h.shards.size).toNat = h.shards.size :=
    UInt64.toNat_ofNat_of_lt' hsize
  have hne : UInt64.ofNat h.shards.size ≠ 0 := by
    intro e
    rw [e] at hcount
    exact hz hcount.symm
  simp only [Shard.route, if_neg hz, Snowflake.shardIndex, if_neg hne, Snowflake.timestamp,
    shardPlace]
  rw [UInt64.toNat_mod, hcount, UInt64.toNat_shiftRight]
  rfl

theorem refusal?_none {i : Inquiry} {limits : Limits} (hr : i.refusal? limits = none)
    (ids : List UserId) (hi : i.scope = .users ids) : ids.length ≤ limits.idsPerRequest.toNat := by
  simp only [Inquiry.refusal?, hi] at hr
  split at hr
  · cases hr
  · omega

theorem refusal?_some {i : Inquiry} {limits : Limits} {f : Failure} (hr : i.refusal? limits = some f) :
    ∃ ids reason, i.scope = .users ids ∧ limits.idsPerRequest.toNat < ids.length ∧
      f = .invalidRequest reason := by
  cases hs : i.scope with
  | query text limit => simp [Inquiry.refusal?, hs] at hr
  | users ids =>
    simp only [Inquiry.refusal?, hs] at hr
    split at hr
    · rename_i hlen
      cases hr
      exact ⟨ids, _, rfl, hlen, rfl⟩
    · cases hr

theorem starts {h : Hub} (hsize : h.shards.size < UInt64.size) (t : TaskId) (i : Inquiry) :
    h.Starts t i (h.start t i).1 (h.start t i).2 := by
  unfold start
  by_cases hz : h.shards.size = 0
  · have hroute : Shard.route h.shards.size i.guild = .error (.shardNotFound i.guild) := by
      simp [Shard.route, hz]
    rw [hroute]
    exact .shardNotFound hz
  rw [route_eq hsize hz]
  simp only
  have hlt : h.shardPlace i.guild < h.shards.size := Nat.mod_lt _ (Nat.pos_of_ne_zero hz)
  rw [Array.getElem?_eq_getElem hlt]
  have hs : h.Serves i.guild h.shards[h.shardPlace i.guild] := Array.getElem?_eq_getElem hlt
  generalize h.shards[h.shardPlace i.guild] = shard at hs
  simp only
  by_cases hm : shard.intents.missing .guildMembers = true
  · rw [if_pos hm]
    exact .missingIntent hs hm
  rw [if_neg hm]
  have hm : shard.intents.missing .guildMembers = false := by simpa using hm
  cases hr : i.refusal? h.limits with
  | some f =>
    obtain ⟨ids, reason, hi, hlen, rfl⟩ := refusal?_some hr
    exact .invalidRequest hs hm hi hlen hr
  | none =>
    have ha : h.Admits i shard := ⟨hs, hm, refusal?_none hr⟩
    simp only
    by_cases hbig : Limits.greatestCapacity < h.limits.capacity.toNat
    · rw [if_pos hbig]
      exact .oversized ha hbig
    rw [if_neg hbig]
    have hfit := Nat.le_of_not_lt hbig
    have hbuild : (fun nonce : String =>
        ({ nonce, guild := i.guild, filter := i.filter, channel.capacity := h.limits.capacity.toNat }
          : Request)) = i.request h.limits.capacity.toNat := rfl
    rw [hbuild]
    rcases h.book.registerWith_cases (i.request h.limits.capacity.toNat) with
      ⟨he, hb⟩ | ⟨k, hk, hfree, hb⟩
    · rw [hb]
      exact .nonceExhausted ha hfit he
    · rw [hb]
      simp only [Book.nonceOf_enter]
      exact .sent ha hfit hk hfree

end Hub
end Rollcall
