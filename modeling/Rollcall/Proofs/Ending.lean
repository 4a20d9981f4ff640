import Mathlib.Algebra.GroupWithZero.Nat
import Rollcall.Proofs.Ledger

/-!
# How requests end

A request that has been made is either still registered, or it has ended in one of three ways: the
last chunk has completed it, a call of `cancel` has cancelled it, or a shutdown has swept it. None
ends twice, so the requests can be counted by their ends. Main statement: `ends_once`.
-/

namespace Rollcall

/-! ## Completed requests -/

def completions (j : List Occurrence) : List RequestId :=
  j.filterMap fun
    | .settled _ id r => if r.verdict = .complete then some id else none
    | _ => none

theorem completions_append (j j' : List Occurrence) :
    completions (j ++ j') = completions j ++ completions j' := by
  rw [completions, List.filterMap_append, completions, completions]

theorem completions_calm {os : List Occurrence} (ho : ∀ o ∈ os, o.line? = none) :
    completions os = [] := by
  rw [completions, List.filterMap_eq_nil_iff]
  intro o hm
  have hline := ho o hm
  cases o with
  | settled t id r => cases hline
  | _ => rfl

namespace Delivery.Turn

variable {t : TaskId} {declared : UInt32} {r r' : Request} {stage : Stage}

theorem complete_moved {stage' : Stage} (h : Turn t declared r stage r' (.inl stage')) :
    r'.complete = r.complete := by
  cases h with
  | first => rfl
  | next => rfl

theorem complete_counted {q : Request} {out : Delivered} (hq : q.complete = false)
    (hv : out.verdict = lastVerdict q declared) :
    (q.countChunk declared).complete = decide (out.verdict = .complete) := by
  rw [hv, lastVerdict]
  rcases Request.countChunk_cases q declared with ⟨hlast, hc, -⟩ | ⟨hlast, hc, -⟩
  · rw [hc, hlast]
    rfl
  · rw [hc, hlast, hq]
    rfl

/-- A chunk completes its request just if its verdict says so, and then it was not complete. -/
theorem complete_ended {out : Delivered} (h : Turn t declared r stage r' (.inr out)) (hs : r.Sound)
    (hopen : ∀ m rest n k, stage = .placing m rest n k → r.senderOpen = true) :
    r'.complete.toNat = r.complete.toNat + (decide (out.verdict = .complete)).toNat := by
  have fresh (sender : r.senderOpen = true) : r.complete = false := by
    cases hc : r.complete with
    | false => rfl
    | true =>
      rw [hs.sender_of_complete hc] at sender
      cases sender
  have abandoned (hv : out.verdict = .abandoned) :
      (decide (out.verdict = .complete)).toNat = 0 := by rw [hv]; rfl
  cases h with
  | late => rfl
  | refused head sender dead hv =>
    rw [abandoned hv]
    rfl
  | cut dead hv =>
    rw [abandoned hv]
    rfl
  | nothing head sender live found hv =>
    have hc := complete_counted (fresh sender) hv
    simp only [Request.leave, hc, fresh sender, Bool.toNat_false, Nat.zero_add]
  | @last m rest n k out live listening room found hv =>
    have hfresh := fresh (hopen m rest n k rfl)
    have hplaced : (r.place m).complete = false := hfresh
    have hv : out.verdict = lastVerdict (r.place m) declared := hv
    have hc := complete_counted hplaced hv
    simp only [Request.leave, hc, hfresh, Bool.toNat_false, Nat.zero_add]

end Delivery.Turn

theorem Reached.tally_complete {j : List Occurrence} {s : Scene} (hr : Reached j s)
    (id : RequestId) : s.book.tally (·.complete) id = (completions j).count id := by
  induction hr with
  | new nonces => rfl
  | @step j os s s' hr h ih =>
    rw [completions_append, List.count_append, ← ih]
    have calm {b : Book} (hos : completions os = [])
        (hb : b.tally (·.complete) id = s.book.tally (·.complete) id) :
        b.tally (·.complete) id =
          s.book.tally (·.complete) id + (completions os).count id := by
      rw [hos, hb]
      rfl
    cases hr.passage h with
    | calm ho hb hd =>
      refine calm (completions_calm ho) (Book.tally_of_view ?_)
      have hrel := hb id
      unfold Book.view
      generalize s.book.requests[id]? = x at hrel
      generalize s'.book.requests[id]? = y at hrel
      cases hrel with
      | none => rfl
      | some hk => exact congrArg some hk.complete
    | make ho hb hf hd =>
      obtain ⟨n, g, f, c, he⟩ := hf
      exact calm (completions_calm ho) (Book.tally_push (by rw [he]) hb id)
    | @arrive s' t d c n hd hc hn hq hs hb =>
      refine calm rfl (Book.tally_of_view ?_)
      rw [hb]
      exact Book.view_modify (f := (·.join t)) (fun _ => rfl) id
    | advance hd hb =>
      obtain ⟨r, r', hq, hrep, -, hturn, -⟩ := hr.lined.head_of_moved hd hb
      exact calm rfl (Book.tally_of_view (Book.view_replaces hrep hq hturn.complete_moved id))
    | @settle s' t d b out hd hb hs =>
      obtain ⟨r, r', hq, hrep, hturn, -⟩ := hr.lined.head_of_done hd hb
      -- A chunk that still has members to place stands at an open sender.
      have hopen (m : Member) (rest : List Member) (n k : Nat)
          (hstage : d.stage = .placing m rest n k) : r.senderOpen = true :=
        (hr.lined.head_of_placing hd hq (.inr ⟨m, rest, n, k, hstage⟩)).2
      have hcomp := hturn.complete_ended (hr.sound.request _ r hq) hopen
      rw [hs, Book.tally_replaces hrep hq hcomp id]
      by_cases hv : out.verdict = .complete
      · by_cases hi : id = d.request
        · simp [completions, hv, hi]
        · simp [completions, hv, hi, Ne.symm hi]
      · simp [completions, hv]
    | @interrupt s' t d hd hb =>
      refine calm rfl (Book.tally_of_view ?_)
      rw [hb]
      exact Book.view_modify (f := (·.leave t)) (fun _ => rfl) id

namespace Hub

/-! ## The ledger of a history -/

def cancellations (h : Hub) : List Action → List Cancelling
  | [] => []
  | a :: past => h.cancellations past ++ (h.after past).cancels a

def swept (h : Hub) : List Action → List RequestId
  | [] => []
  | a :: past => h.swept past ++ (h.after past).sweeps a

def shutdownResults (h : Hub) : List Action → List Nat
  | [] => []
  | .shutdown :: past => h.shutdownResults past ++ [(h.after past).shutdown.1]
  | _ :: past => h.shutdownResults past

def ended (h : Hub) (past : List Action) : List RequestId :=
  completions (h.journal past) ++ (cancelledBy (h.cancellations past) ++ h.swept past)

theorem length_swept (h : Hub) (past : List Action) :
    (h.swept past).length = (h.shutdownResults past).sum := by
  induction past with
  | nil => rfl
  | cons a past ih =>
    cases a with
    | shutdown =>
      have hcount : (h.after past).shutdown.1 = (h.after past).book.counted.length :=
        (h.after past).book.fst_shutdown
      simp only [swept, sweeps, shutdownResults, List.length_append, List.sum_append, ih, hcount,
        List.sum_singleton]
    | _ => simpa only [swept, sweeps, shutdownResults, List.append_nil] using ih

/-- What is cancelled is what calls of `cancel` have cancelled and shutdowns have swept. -/
theorem tally_cancelled {h : Hub} (hn : h.IsNew) (past : List Action) (id : RequestId) :
    (h.after past).book.tally (·.cancelled) id =
      (cancelledBy (h.cancellations past) ++ h.swept past).count id := by
  induction past with
  | nil =>
    obtain ⟨limits, selection, shards, caching, nonces, rfl⟩ := hn.eq
    rfl
  | cons a past ih =>
    have hstep := perform_cancels (Reached.after hn past).sound a id
    have hstep : (h.after (a :: past)).book.tally (·.cancelled) id = _ := hstep
    rw [hstep, ih]
    simp only [cancellations, swept, cancelledBy_append, List.count_append]
    omega

/-- A request is either registered or ended, and it is so once. -/
theorem count_ended {h : Hub} (hn : h.IsNew) (past : List Action) (id : RequestId) :
    ((h.after past).book.drain.1 ++ h.ended past).count id =
      (made (h.journal past)).count id := by
  have hr := Reached.after hn past
  have hb : (h.after past).book.Sound := hr.sound
  have hcomplete : (h.after past).book.tally (·.complete) id =
      (completions (h.journal past)).count id := hr.tally_complete id
  have hcancelled := tally_cancelled hn past id
  have hmade : made (h.journal past) = List.range (h.after past).book.requests.size := hr.made_eq
  rw [List.count_append, ended, List.count_append, ← hcomplete, ← hcancelled, hmade,
    List.nodup_range.count, hb.nodup_drain.count]
  cases hq : (h.after past).book.requests[id]? with
  | none =>
    have hno : id ∉ (h.after past).book.drain.1 := by
      intro hid
      obtain ⟨n, hn⟩ := Book.mem_drain.mp hid
      obtain ⟨r, hr, -⟩ := (hb.registered n id).mp hn
      cases hq.symm.trans hr
    have hout : ¬id < (h.after past).book.requests.size := by
      simpa using Array.getElem?_eq_none_iff.mp hq
    rw [if_neg hno, Book.tally_none hq, Book.tally_none hq, if_neg (by simpa using hout)]
  | some r =>
    have hlt := (Array.getElem?_eq_some_iff.mp hq).1
    have hreg : id ∈ (h.after past).book.drain.1 ↔ r.Waiting := by
      rw [Book.mem_drain, ← hb.get?_nonce hq]
      exact ⟨fun ⟨n, hn⟩ => (hb.nonce_of_get? hq hn).symm ▸ hn, fun hn => ⟨_, hn⟩⟩
    -- The request is registered, complete or cancelled, and never two of these at once.
    have hboth := (hb.request id r hq).not_both
    rw [Book.tally_eq hq, Book.tally_eq hq, if_pos (List.mem_range.mpr hlt)]
    simp only [hreg, Request.Waiting]
    cases hc : r.complete with
    | false =>
      cases hd : r.cancelled with
      | false => rfl
      | true => rfl
    | true =>
      cases hd : r.cancelled with
      | false => rfl
      | true => exact absurd ⟨hc, hd⟩ hboth

end Hub

/-- **Every request ends once, for one cause.** The requests that have been made are those that are
registered and those that have ended, each of them just once: completed by a chunk, cancelled by a
call of `cancel`, or counted by a shutdown. A call of `cancel` succeeds just if its request is
registered at that moment, and otherwise changes nothing. So the requests made are as many as are
pending, were completed, were cancelled and were counted. -/
theorem ends_once {h : Hub} (hn : h.IsNew) (past : List Action) :
    ((h.after past).book.drain.1 ++ h.ended past).Nodup ∧
    (∀ id, id ∈ (h.after past).book.drain.1 ++ h.ended past ↔ id ∈ made (h.journal past)) ∧
    (∀ a, ∀ c ∈ (h.after past).cancels a,
      (c.answer = true ↔ ∃ n, c.book.registry.get? n = some c.id) ∧
      (c.answer = false → (c.book.cancel c.id).2 = c.book)) ∧
    (made (h.journal past)).length = (h.after past).pending +
      (completions (h.journal past)).length + (h.cancellations past).countP Cancelling.answer +
      (h.shutdownResults past).sum := by
  have hr := Reached.after hn past
  have hperm := List.perm_iff_count.mpr (Hub.count_ended hn past)
  have hnodup : (made (h.journal past)).Nodup := by
    rw [hr.made_eq]
    exact List.nodup_range
  refine ⟨hperm.nodup_iff.mpr hnodup, fun id => hperm.mem_iff, fun a c hc => ⟨?_, ?_⟩, ?_⟩
  · exact (Hub.sound_cancels hr.sound a c hc).cancel_iff c.id
  · exact Book.cancel_of_false
  · have hlength := hperm.length_eq
    simp only [Hub.ended, List.length_append, Book.length_drain, length_cancelledBy,
      Hub.length_swept] at hlength
    unfold Hub.pending
    omega

/-- A stream is cancelled while its request is registered; once more does nothing. -/
theorem cancelled_once :
    (Hub.sample .accept).IsNew ∧
      Cancelling.answer
        ⟨((Hub.sample .accept).after [.segment 0, .callStream (.all ⟨1⟩)]).book, 0⟩ = true ∧
      Cancelling.answer
        ⟨((Hub.sample .accept).after [.cancel 0, .segment 0, .callStream (.all ⟨1⟩)]).book, 0⟩ =
          false := by
  have hn := Hub.sample_isNew .accept
  have first := ((ends_once hn [.segment 0, .callStream (.all ⟨1⟩)]).2.2.1 (.cancel 0) _
    (List.mem_singleton_self _)).1
  have again := ((ends_once hn [.cancel 0, .segment 0, .callStream (.all ⟨1⟩)]).2.2.1 (.cancel 0) _
    (List.mem_singleton_self _)).1
  refine ⟨hn, first.mpr ⟨"x", ?_⟩, Bool.eq_false_iff.mpr fun hc => ?_⟩
  · exact ((Reached.after hn _).sound.registered "x" 0).mpr ⟨_, rfl, rfl, rfl, rfl⟩
  · obtain ⟨n, hreg⟩ := again.mp hc
    obtain ⟨r, hr, -, hw⟩ := ((Reached.after hn _).sound.registered n 0).mp hreg
    cases hr
    cases hw.2

end Rollcall
