import Rollcall.Proofs.Seeking

/-!
# What a delivery places and rejects

A move of a delivery places at most the member that has waited for room, and rejects those it comes
past that the filter refuses. It counts both, and every member that it comes past is placed, rejected
or waits for room, unless the chunk is abandoned (`Delivery.advance_reckons`).
-/

namespace Rollcall

def Book.placedIn (b : Book) (id : RequestId) : List Member :=
  (b.requests[id]?).elim [] fun r => r.channel.placed

/-- The members that the filter refuses while the sender is open. -/
def Request.rejects (r : Request) (ms : List Member) : List Member :=
  ms.filter fun m => r.senderOpen && !r.accepts m

theorem Request.length_rejects {r : Request} (hr : r.senderOpen = true) (ms : List Member) :
    (r.rejects ms).length = ms.countP fun m => !r.accepts m := by
  simp only [rejects, hr, Bool.true_and, List.countP_eq_length_filter]

theorem Request.rejects_of_closed {r : Request} (hr : r.senderOpen = false) (ms : List Member) :
    r.rejects ms = [] := by
  simp [rejects, hr]

theorem Request.length_rejects_le (r : Request) (ms : List Member) :
    (r.rejects ms).length ≤ ms.length := List.length_filter_le _ _

namespace Book

variable {b : Book} {id : RequestId} {r : Request}

theorem placedIn_eq (hq : b.requests[id]? = some r) : b.placedIn id = r.channel.placed := by
  rw [placedIn, hq, Option.elim_some]

theorem placedIn_modify (hq : b.requests[id]? = some r) (f : Request → Request) :
    (b.modify id f).placedIn id = (f r).channel.placed :=
  placedIn_eq (replaces_modify hq f).self

theorem placedIn_of_requests {b' : Book} (hb : b'.requests = b.requests) (id : RequestId) :
    b'.placedIn id = b.placedIn id := by
  rw [placedIn, hb, placedIn]

end Book

namespace Delivery

variable {d : Delivery} {t : TaskId} {b b₀ : Book} {r q : Request}

/-- Seeking comes past the members that the filter refuses, and then past the one it lets through. -/
theorem seek_counts {caching : Bool} {filter : Option (Member → Bool)} {cache cache' : MemberCache}
    {k k' : Nat} {m : Member} {ms rest : List Member}
    (h : seek caching filter cache k ms = (cache', k', some (m, rest))) :
    ∃ past, ms = past ++ rest ∧ k' = k + (past.countP fun m => !passes filter m) ∧
      past.length = 1 + past.countP fun m => !passes filter m := by
  obtain ⟨past, rfl, -⟩ := seek_past ms h
  obtain ⟨hfilter, -, hcount⟩ := seek_found h
  have hone : past.filter (passes filter) = [m] := by
    rw [List.filter_append] at hfilter
    exact List.append_cancel_right (hfilter.trans (List.singleton_append).symm)
  have hlength := List.length_eq_countP_add_countP (passes filter) (l := past)
  rw [List.countP_eq_length_filter, hone] at hlength
  rw [List.countP_append] at hcount
  refine ⟨past, rfl, by omega, ?_⟩
  simpa using hlength

/-- A move of the delivery counts what it places in the channel of its request and what it rejects. Of
the member that has waited and those that it comes past none is lost, unless the chunk is abandoned.
-/
def Reckons (d : Delivery) (b : Book) (r : Request) : Move Book Delivery Delivered → Prop
  | .blocked => True
  | .moved b' d' => ∃ past new, d.unsought = past ++ d'.unsought ∧
      b'.placedIn d.request = b.placedIn d.request ++ new ∧
      d'.counts = (d.counts.1 + new.length, d.counts.2 + (r.rejects past).length) ∧
      new.length + (r.rejects past).length + d'.waiting.length = d.waiting.length + past.length
  | .done b' out => ∃ new, b'.placedIn d.request = b.placedIn d.request ++ new ∧
      out.placed = d.counts.1 + new.length ∧
      out.filtered = d.counts.2 + (r.rejects d.unsought).length ∧
      new.length + (r.rejects d.unsought).length ≤ d.waiting.length + d.unsought.length ∧
      (out.verdict ≠ .abandoned →
        new.length + (r.rejects d.unsought).length = d.waiting.length + d.unsought.length)

theorem proceed_reckons (last : Bool) {n : Nat} {new : List Member}
    (hq : b.requests[d.request]? = some q) (hopen : r.senderOpen = true)
    (hplaced : b.placedIn d.request = b₀.placedIn d.request ++ new)
    (hn : n = d.counts.1 + new.length) (hnew : new.length = d.waiting.length) :
    d.Reckons b₀ r (d.proceed t b r.filter last d.unsought n d.counts.2) := by
  unfold proceed
  split
  · rename_i cache k m rest heq
    obtain ⟨past, hpast, hk, hlength⟩ := seek_counts heq
    have hrejects : (r.rejects past).length = past.countP fun m => !passes r.filter m :=
      r.length_rejects hopen past
    refine ⟨past, new, hpast, hplaced, ?_, ?_⟩
    · rw [hrejects, ← hk, ← hn]
      rfl
    · rw [hrejects, hlength, hnew, Nat.add_assoc, Nat.add_comm 1]
      rfl
  · rename_i cache k heq
    obtain ⟨hnone, -, hk⟩ := seek_exhausted heq
    have hrejects : (r.rejects d.unsought).length = d.unsought.countP fun m => !passes r.filter m :=
      r.length_rejects hopen d.unsought
    have hlength := List.length_eq_countP_add_countP (passes r.filter) (l := d.unsought)
    rw [List.countP_eq_length_filter, hnone, List.length_nil, Nat.zero_add] at hlength
    have hall : new.length + (r.rejects d.unsought).length =
        d.waiting.length + d.unsought.length := by
      rw [hrejects, hnew, hlength]
      simp
    refine ⟨new, ?_, hn, by rw [hrejects, ← hk], Nat.le_of_eq hall, fun _ => hall⟩
    have hkept := Book.placedIn_modify hq fun q => (q.countChunk d.declared).leave t
    rw [← hplaced, Book.placedIn_eq hq]
    refine hkept.trans ?_
    simp [Request.leave]

theorem abandon_reckons (hq : b.requests[d.request]? = some q) (hopen : r.senderOpen = true)
    (hplaced : b.placedIn d.request = b₀.placedIn d.request) :
    d.Reckons b₀ r (d.abandon t b r.filter d.unsought d.counts.1 d.counts.2) := by
  have hkept := Book.placedIn_modify hq fun q => q.closeSender.leave t
  refine ⟨[], ?_, rfl, ?_, ?_, fun hv => absurd rfl hv⟩
  · rw [List.append_nil, ← hplaced, Book.placedIn_eq hq]
    exact hkept
  · rw [r.length_rejects hopen]
    rfl
  · rw [List.length_nil, Nat.zero_add]
    exact Nat.le_trans (r.length_rejects_le _) (Nat.le_add_left _ _)

theorem begin_reckons (hq : b.requests[d.request]? = some q)
    (hplaced : b.placedIn d.request = b₀.placedIn d.request) (hwaiting : d.waiting = [])
    (hcounts : d.counts = (0, 0)) : d.Reckons b₀ r (d.begin t b r d.unsought) := by
  unfold begin
  split
  · rename_i hclosed
    have hnone := r.rejects_of_closed (by simpa using hclosed) d.unsought
    have hkept := Book.placedIn_modify hq (·.leave t)
    refine ⟨[], ?_, ?_, ?_, ?_, fun hv => absurd rfl hv⟩
    · rw [List.append_nil, ← hplaced, Book.placedIn_eq hq]
      exact hkept
    · rw [hcounts]
      rfl
    · rw [hcounts, hnone]
      rfl
    · rw [hnone]
      exact Nat.zero_le _
  rename_i hopen
  have hopen : r.senderOpen = true := by simpa using hopen
  split
  · have hreckons := abandon_reckons (t := t) hq hopen hplaced
    rwa [hcounts] at hreckons
  · have hnothing : b.placedIn d.request = b₀.placedIn d.request ++ [] := by
      rw [hplaced, List.append_nil]
    have hreckons := proceed_reckons (t := t) (r.completesAt d.declared) hq hopen hnothing rfl
      (by rw [hwaiting])
    rwa [hcounts] at hreckons

/-- **Every move of a delivery reckons right**, if the sender is open as long as members wait. -/
theorem advance_reckons (hq : b.requests[d.request]? = some r)
    (hopen : ∀ m rest n k, d.stage = .placing m rest n k → r.senderOpen = true) :
    d.Reckons b r (d.advance t b) := by
  unfold advance
  rw [hq]
  simp only
  cases hs : d.stage with
  | arriving ms =>
    have hunsought : d.unsought = ms := by simp only [unsought, hs]
    have hwaiting : d.waiting = [] := by simp only [waiting, hs]
    have hcounts : d.counts = (0, 0) := by simp only [counts, hs]
    have hq' := (Book.replaces_modify hq (·.join t)).self
    have hplaced : (b.modify d.request (·.join t)).placedIn d.request = b.placedIn d.request := by
      rw [Book.placedIn_modify hq, Book.placedIn_eq hq]
      rfl
    simp only
    split
    · rw [← hunsought]
      exact begin_reckons hq' hplaced hwaiting hcounts
    · refine ⟨[], [], hunsought, ?_, ?_, ?_⟩
      · rw [hplaced, List.append_nil]
      · rw [hcounts]
        rfl
      · rw [hwaiting]
        rfl
  | inLine ms =>
    have hunsought : d.unsought = ms := by simp only [unsought, hs]
    have hwaiting : d.waiting = [] := by simp only [waiting, hs]
    have hcounts : d.counts = (0, 0) := by simp only [counts, hs]
    simp only
    split
    · rw [← hunsought]
      exact begin_reckons hq rfl hwaiting hcounts
    · trivial
  | placing m rest n k =>
    have hunsought : d.unsought = rest := by simp only [unsought, hs]
    have hwaiting : d.waiting = [m] := by simp only [waiting, hs]
    have hcounts : d.counts = (n, k) := by simp only [counts, hs]
    have hopen := hopen m rest n k hs
    simp only
    split
    · have hreckons := abandon_reckons (t := t) hq hopen rfl
      rwa [hunsought, hcounts] at hreckons
    split
    · have hq' := (Book.replaces_modify hq (·.place m)).self
      have hplaced : (b.modify d.request (·.place m)).placedIn d.request =
          b.placedIn d.request ++ [m] := by
        rw [Book.placedIn_modify hq, Book.placedIn_eq hq]
        exact r.channel.placed_place m
      have hn : n + 1 = d.counts.1 + [m].length := by rw [hcounts]; rfl
      have hreckons := proceed_reckons (t := t) (r.completesAt d.declared) hq' hopen hplaced hn
        (by rw [hwaiting])
      rwa [hunsought, hcounts] at hreckons
    · trivial

end Delivery
end Rollcall
