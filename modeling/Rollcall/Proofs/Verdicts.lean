import Rollcall.Proofs.Order
import Rollcall.Proofs.Seeking

/-!
# What becomes of the chunks of a request

The chunks that have been dealt with are counted in the order in which they arrived: the first that
declares no more of them than there have been so far is the last one, those before it are pending
and those after it are given up (`verdicts`). Main statement: `Reached.tally`, the arrivals at a
request that is not cancelled have fared that way.
-/

namespace Rollcall

/-- The verdicts on chunks that declare these numbers, when `n` have been consumed before. -/
def verdicts : Nat → List UInt32 → List Verdict
  | _, [] => []
  | n, d :: ds =>
    if d.toNat ≤ n + 1 then .complete :: ds.map fun _ => .abandoned else .pending :: verdicts (n + 1) ds

theorem verdicts_concat (ds : List UInt32) (d : UInt32) : ∀ n, verdicts n (ds ++ [d]) =
    verdicts n ds ++ [if .complete ∈ verdicts n ds then .abandoned
      else if d.toNat ≤ n + ds.length + 1 then .complete else .pending] := by
  induction ds with
  | nil =>
    intro n
    by_cases hd : d.toNat ≤ n + 1
    · simp [verdicts, hd]
    · simp [verdicts, hd]
  | cons d₀ ds ih =>
    intro n
    rw [List.cons_append, verdicts, verdicts]
    split
    · simp
    · rw [ih, List.cons_append]
      simp [Nat.add_assoc, Nat.add_comm 1]

theorem verdicts_replicate (d : UInt32) (k : Nat) :
    ∀ n, n + k = d.toNat → 0 < k → verdicts n (List.replicate k d) =
      List.replicate (k - 1) .pending ++ [.complete] := by
  induction k with
  | zero =>
    intro n hn hk
    exact absurd hk (Nat.lt_irrefl 0)
  | succ k ih =>
    intro n hn _
    rw [List.replicate_succ, verdicts]
    by_cases hk : k = 0
    · subst hk
      rw [if_pos (by omega)]
      rfl
    · rw [if_neg (by omega), ih (n + 1) (by omega) (by omega)]
      obtain ⟨k, rfl⟩ := Nat.exists_eq_succ_of_ne_zero hk
      simp [List.replicate_succ]

/-! ## Chunks that are handed over -/

def Arrival.Backs (a : Arrival) (t : TaskId) (d : Delivery) : Prop :=
  a.task = t ∧ a.isUnderway = true ∧ a.chunk.count = d.declared ∧
    ∃ past, a.chunk.stamped = past ++ d.unsought

theorem Arrival.close_of_ne {t : TaskId} {fate : Fate} {a : Arrival} (h : a.task ≠ t) :
    a.close t fate = a := if_neg fun e => h e.1

theorem mem_arrivals_append {j : List Occurrence} {id : RequestId} {a : Arrival} {o : Occurrence}
    (ha : a ∈ arrivals j id)
    (ho : ∀ i r, o = .settled a.task i r ∨ o = .interrupted a.task i → i ≠ id) :
    a ∈ arrivals (j ++ [o]) id := by
  have closed {as : List Arrival} {t : TaskId} (fate : Fate) (hm : a ∈ as) (hne : a.task ≠ t) :
      a ∈ as.map (Arrival.close t fate) :=
    List.mem_map.mpr ⟨a, hm, Arrival.close_of_ne hne⟩
  rw [arrivals_append]
  cases o with
  | arrived t i c =>
    simp only [List.foldl_cons, List.foldl_nil, Arrival.meet]
    split
    · exact List.mem_append_left _ ha
    · exact ha
  | settled t i r =>
    simp only [List.foldl_cons, List.foldl_nil, Arrival.meet]
    split
    · rename_i hi
      exact closed _ ha fun e => ho i r (.inl (e ▸ rfl)) hi
    · exact ha
  | interrupted t i =>
    simp only [List.foldl_cons, List.foldl_nil, Arrival.meet]
    split
    · rename_i hi
      exact closed _ ha fun e => ho i ⟨0, 0, .pending⟩ (.inr (e ▸ rfl)) hi
    · exact ha
  | _ => exact ha

theorem Reached.backed {j : List Occurrence} {s : Scene} (hr : Reached j s) {t : TaskId}
    {d : Delivery} (hd : s.delivery? t = some d) : ∃ a ∈ arrivals j d.request, a.Backs t d := by
  induction hr generalizing t d with
  | new nonces => cases hd
  | @step j os s s' hr h ih =>
    have kept {d : Delivery} (hd : s.delivery? t = some d)
        (hos : ∀ o ∈ os, o.line? ≠ some d.request) :
        ∃ a ∈ arrivals (j ++ os) d.request, a.Backs t d := by
      rw [arrivals_append_of_line hos]
      exact ih hd
    have other {d : Delivery} {o : Occurrence} (hd : s.delivery? t = some d)
        (ho : ∀ i r, o = .settled t i r ∨ o = .interrupted t i → i ≠ d.request) :
        ∃ a ∈ arrivals (j ++ [o]) d.request, a.Backs t d := by
      obtain ⟨a, ha, hb⟩ := ih hd
      refine ⟨a, mem_arrivals_append ha ?_, hb⟩
      rw [hb.1]
      exact ho
    cases hr.passage h with
    | calm ho hb hsame => exact kept (hsame t ▸ hd) fun o hm => by simp [ho o hm]
    | make ho hb hf hsame => exact kept (hsame t ▸ hd) fun o hm => by simp [ho o hm]
    | @arrive _ t' d' c n h0 hc hn hq hs hb hd' hne hf =>
      by_cases e : t = t'
      · subst e
        cases hd'.symm.trans hd
        refine ⟨{ task := t, chunk := c }, ?_, rfl, rfl, hf.symm, [], ?_⟩
        · rw [arrivals_append]
          simp [Arrival.meet]
        · simp [Delivery.unsought, hs]
      · exact other ((hne t e).symm.trans hd) (by simp)
    | @advance _ t' d₀ d' h0 hb hd' hne =>
      by_cases e : t = t'
      · subst e
        cases hd'.symm.trans hd
        obtain ⟨a, ha, htask, hu, hcount, past, hpast⟩ := ih h0
        obtain ⟨hrequest, hdeclared, -, hunsought, -⟩ := Delivery.sought_of_moved hb
        rw [hunsought, ← List.append_assoc] at hpast
        rw [List.append_nil, hrequest]
        exact ⟨a, ha, htask, hu, hcount.trans hdeclared.symm, _, hpast⟩
      · exact kept ((hne t e).symm.trans hd) (by simp)
    | @settle _ t' d₀ b out h0 hb hs hd' hne =>
      by_cases e : t = t'
      · subst e
        cases hd'.symm.trans hd
      · refine other ((hne t e).symm.trans hd) fun i r he => ?_
        rcases he with he | he
        · injection he with ht
          exact absurd ht.symm e
        · cases he
    | @interrupt _ t' d₀ h0 hb hd' hne =>
      by_cases e : t = t'
      · subst e
        cases hd'.symm.trans hd
      · refine other ((hne t e).symm.trans hd) fun i r he => ?_
        rcases he with he | he
        · cases he
        · injection he with ht
          exact absurd ht.symm e

/-! ## Chunks that have been dealt with -/

namespace Arrival

def verdict? (a : Arrival) : Option Verdict :=
  match a.fate with
  | .ended v => some v
  | _ => none

def settled (as : List Arrival) : List Arrival := as.filter (·.verdict?.isSome)

def due (as : List Arrival) : List Verdict := verdicts 0 ((settled as).map (·.chunk.count))

theorem settled_append (as bs : List Arrival) : settled (as ++ bs) = settled as ++ settled bs :=
  List.filter_append _ _

theorem settled_eq_nil {as : List Arrival} (h : ∀ a ∈ as, a.verdict? = none) : settled as = [] := by
  apply List.filter_eq_nil_iff.mpr
  intro a ha
  simp [h a ha]

theorem verdict?_of_underway {a : Arrival} (h : a.isUnderway = true) : a.verdict? = none := by
  have hf : a.fate = .underway := by simpa [isUnderway] using h
  simp only [verdict?, hf]

end Arrival

open Arrival

/-- The arrivals at a request have been dealt with in their order, as far as they have not been
dropped, and have the verdicts that are due; the request knows how many have been consumed and
whether the last one was among them. -/
structure Tally (as : List Arrival) (r : Request) : Prop where
  serial : as.Pairwise fun a b => a.isUnderway = true → b.verdict? = none
  verdicts : (settled as).map (·.verdict?) = (due as).map some
  complete : r.complete = true ↔ .complete ∈ due as
  chunks : r.complete = false → r.chunks.toNat = min (settled as).length 0xffffffff

namespace Tally

variable {as : List Arrival} {r r' : Request}

theorem fresh (hr : r.Fresh) : Tally [] r := by
  obtain ⟨nonce, guild, filter, capacity, rfl⟩ := hr
  exact ⟨.nil, rfl, by simp [due, settled, Rollcall.verdicts], fun _ => rfl⟩

theorem kept (ht : Tally as r) (hcomplete : r'.complete = r.complete)
    (hchunks : r'.chunks = r.chunks) : Tally as r' where
  serial := ht.serial
  verdicts := ht.verdicts
  complete := by rw [hcomplete]; exact ht.complete
  chunks h := by rw [hchunks]; exact ht.chunks (hcomplete ▸ h)

theorem arrive (ht : Tally as r) (t : TaskId) (c : Chunk) :
    Tally (as ++ [{ task := t, chunk := c }]) r := by
  have hnone : verdict? { task := t, chunk := c } = none := rfl
  have hsettled : settled (as ++ [{ task := t, chunk := c }]) = settled as := by
    have hlast : settled [{ task := t, chunk := c }] = [] := settled_eq_nil (by simp [hnone])
    rw [settled_append, hlast, List.append_nil]
  have hdue : due (as ++ [{ task := t, chunk := c }]) = due as := by rw [due, hsettled, due]
  constructor
  · rw [List.pairwise_append]
    refine ⟨ht.serial, List.pairwise_singleton _ _, fun a _ b hb _ => ?_⟩
    rw [List.mem_singleton.mp hb]
    rfl
  · rw [hsettled, hdue]
    exact ht.verdicts
  · rw [hdue]
    exact ht.complete
  · rw [hsettled]
    exact ht.chunks

theorem settled_drop (as : List Arrival) (t : TaskId) :
    settled (as.map (close t .dropped)) = settled as := by
  induction as with
  | nil => rfl
  | cons a as ih =>
    have hcons (b : Arrival) (bs : List Arrival) : settled (b :: bs) = settled [b] ++ settled bs :=
      settled_append [b] bs
    rw [List.map_cons, hcons, hcons a, ih]
    congr 1
    by_cases h : a.task = t ∧ a.isUnderway = true
    · rw [close, if_pos h, settled_eq_nil (by simp [verdict?]),
        settled_eq_nil (by simp [verdict?_of_underway h.2])]
    · rw [close, if_neg h]

theorem drop (ht : Tally as r) (t : TaskId) : Tally (as.map (close t .dropped)) r := by
  have hdue : due (as.map (close t .dropped)) = due as := by rw [due, settled_drop, due]
  constructor
  · apply List.Pairwise.map _ _ ht.serial
    intro a b hab hu
    have hnone : b.verdict? = none := by
      apply hab
      unfold close at hu
      split at hu
      · simp [isUnderway] at hu
      · exact hu
    unfold close
    split
    · rfl
    · exact hnone
  · rw [settled_drop, hdue]
    exact ht.verdicts
  · rw [hdue]
    exact ht.complete
  · rw [settled_drop]
    exact ht.chunks

/-- The first chunk underway is the next to be dealt with. -/
theorem settle {before after : List Arrival} {p : Arrival} {v : Verdict}
    (ht : Tally (before ++ p :: after) r) (hu : p.isUnderway = true)
    (hbefore : ∀ a ∈ before, a.isUnderway = false)
    (hv : v = if r.complete then .abandoned
      else if p.chunk.count.toNat ≤ (settled (before ++ p :: after)).length + 1 then .complete
      else .pending)
    (hcomplete : r'.complete = true ↔ r.complete = true ∨ v = .complete)
    (hchunks : r.complete = false →
      r'.chunks.toNat = min ((settled (before ++ p :: after)).length + 1) 0xffffffff) :
    Tally (before ++ { p with fate := .ended v } :: after) r' := by
  obtain ⟨hserial, hverdicts, hdone, -⟩ := ht
  obtain ⟨hbb, hpa, hcross⟩ := List.pairwise_append.mp hserial
  obtain ⟨hp, haa⟩ := List.pairwise_cons.mp hpa
  have hafter : settled after = [] := settled_eq_nil fun a ha => hp a ha hu
  have hold : settled (before ++ p :: after) = settled before := by
    have hp : settled [p] = [] := settled_eq_nil (by simp [verdict?_of_underway hu])
    rw [settled_append, ← List.singleton_append, settled_append, hafter, hp, List.append_nil,
      List.append_nil]
  have hnew : settled (before ++ { p with fate := .ended v } :: after) =
      settled before ++ [{ p with fate := .ended v }] := by
    rw [settled_append, ← List.singleton_append, settled_append, hafter]
    rfl
  have hdueOld : due (before ++ p :: after) = due before := by rw [due, hold, due]
  rw [hold] at hv hverdicts hchunks
  rw [hdueOld] at hdone hverdicts
  have hdue : due (before ++ { p with fate := .ended v } :: after) = due before ++ [v] := by
    rw [due, hnew, List.map_append, List.map_singleton, verdicts_concat, Nat.zero_add,
      List.length_map]
    congr 2
    by_cases hc : r.complete = true
    · rw [hv, if_pos hc]
      exact if_pos (hdone.mp hc)
    · rw [hv, if_neg hc]
      exact if_neg fun hm => hc (hdone.mpr hm)
  constructor
  · rw [List.pairwise_append]
    refine ⟨hbb, List.pairwise_cons.mpr ⟨fun a ha _ => hp a ha hu, haa⟩, fun a ha b hb hua => ?_⟩
    rw [hbefore a ha] at hua
    cases hua
  · rw [hnew, hdue, List.map_append, List.map_append, hverdicts]
    rfl
  · rw [hdue, List.mem_append, List.mem_singleton, hcomplete, hdone, eq_comm (a := v)]
  · intro hc
    have hr : r.complete = false := by
      cases h : r.complete with
      | false => rfl
      | true =>
        rw [hcomplete.mpr (.inl h)] at hc
        cases hc
    rw [hnew, List.length_append, List.length_singleton]
    exact hchunks hr

/-- Where all has been dealt with and declares how much that is, the last chunk has completed the
request and no other. -/
theorem fates (ht : Tally as r) (hended : ∀ a ∈ as, ∃ v, a.fate = .ended v) (hne : as ≠ [])
    (hcount : ∀ a ∈ as, a.chunk.count.toNat = as.length) :
    as.map (·.fate) = List.replicate (as.length - 1) (.ended .pending) ++ [.ended .complete] ∧
      r.complete = true := by
  have hsettled : settled as = as := by
    apply List.filter_eq_self.mpr
    intro a ha
    obtain ⟨v, hv⟩ := hended a ha
    simp [verdict?, hv]
  obtain ⟨p, hp⟩ := List.exists_mem_of_ne_nil as hne
  have hdeclared : as.map (·.chunk.count) = List.replicate as.length p.chunk.count := by
    apply List.eq_replicate_iff.mpr
    refine ⟨List.length_map _, fun d hd => ?_⟩
    obtain ⟨a, ha, rfl⟩ := List.mem_map.mp hd
    exact UInt32.toNat_inj.mp ((hcount a ha).trans (hcount p hp).symm)
  have hdue : due as = List.replicate (as.length - 1) .pending ++ [.complete] := by
    rw [due, hsettled, hdeclared]
    apply verdicts_replicate
    · rw [Nat.zero_add, hcount p hp]
    · exact List.length_pos_of_mem hp
  have hverdicts := ht.verdicts
  rw [hsettled, hdue] at hverdicts
  constructor
  · have hfates : as.map (·.fate) = (as.map (·.verdict?)).map fun v => v.elim .underway .ended := by
      rw [List.map_map]
      apply List.map_congr_left
      intro a ha
      obtain ⟨v, hv⟩ := hended a ha
      simp [verdict?, hv]
    rw [hfates, hverdicts]
    simp
  · rw [ht.complete, hdue]
    exact List.mem_append_right _ List.mem_cons_self

end Tally

/-! ## Turns that end a chunk -/

theorem toNat_nextWord {n : UInt32} {k : Nat} (h : n.toNat = min k 0xffffffff) :
    (nextWord n).toNat = min (k + 1) 0xffffffff := by
  unfold nextWord
  by_cases hn : n = 0xffffffff
  · rw [if_pos hn]
    subst hn
    have hmax : (0xffffffff : UInt32).toNat = 0xffffffff := rfl
    omega
  · have hne : n.toNat ≠ 0xffffffff := fun h => hn (UInt32.toNat_inj.mp h)
    have hlt := n.toNat_lt
    rw [if_neg hn, UInt32.toNat_add]
    have hone : (1 : UInt32).toNat = 1 := rfl
    omega

theorem Request.chunks_countChunk (r : Request) (declared : UInt32) :
    (r.countChunk declared).chunks = nextWord r.chunks := by
  unfold countChunk
  split <;> rfl

namespace Delivery.Turn

variable {t : TaskId} {declared : UInt32} {r r' : Request} {stage : Stage}

theorem chunks_moved {stage' : Stage} (h : Turn t declared r stage r' (.inl stage')) :
    r'.complete = r.complete ∧ r'.chunks = r.chunks := by
  cases h with
  | first => exact ⟨rfl, rfl⟩
  | next => exact ⟨rfl, rfl⟩

theorem chunks_ended {out : Delivered} (h : Turn t declared r stage r' (.inr out)) (hs : r.Sound)
    (hc : r.cancelled = false)
    (hopen : ∀ m rest n k, stage = .placing m rest n k → r.senderOpen = true) :
    (r.complete = true ∧ out.verdict = .abandoned ∧ r'.complete = true) ∨
    (r.complete = false ∧ out.verdict = lastVerdict r declared ∧
      r'.complete = r.completesAt declared ∧ r'.chunks = nextWord r.chunks) := by
  have counted {q : Request} (hq : q.complete = false) :
      (q.countChunk declared).complete = q.completesAt declared := by
    rcases q.countChunk_cases declared with ⟨hlast, hcomplete, -⟩ | ⟨hlast, hcomplete, -⟩
    · rw [hlast, hcomplete]
    · rw [hlast, hcomplete, hq]
  cases h with
  | late head closed =>
    have hcomplete := Request.complete_of_not_waiting hc (hs.of_closed closed)
    exact .inl ⟨hcomplete, rfl, hcomplete⟩
  | refused head sender dead =>
    rw [hc] at dead
    cases dead
  | cut dead hv =>
    have hdeaf : r.channel.isListening = false := by
      rcases dead with hd | hd
      · rw [hc] at hd
        cases hd
      · exact hd
    have hcomplete := Request.complete_of_not_waiting hc (hs.of_deaf hdeaf)
    exact .inl ⟨hcomplete, hv, hcomplete⟩
  | nothing head sender live found hv =>
    have hw := hs.waiting_of_open hc sender
    exact .inr ⟨hw.1, hv, counted hw.1, r.chunks_countChunk declared⟩
  | @last m rest n k _ live listening room found hv =>
    have hw := hs.waiting_of_open hc (hopen m rest n k rfl)
    have hplaced : (r.place m).complete = false := hw.1
    exact .inr ⟨hw.1, hv, counted hplaced, (r.place m).chunks_countChunk declared⟩

theorem tally {out : Delivered} {before after : List Arrival} {p : Arrival}
    (h : Turn t declared r stage r' (.inr out)) (hs : r.Sound) (hc : r.cancelled = false)
    (hopen : ∀ m rest n k, stage = .placing m rest n k → r.senderOpen = true)
    (ht : Tally (before ++ p :: after) r) (hu : p.isUnderway = true)
    (hbefore : ∀ a ∈ before, a.isUnderway = false) (hdeclared : p.chunk.count = declared) :
    Tally (before ++ { p with fate := .ended out.verdict } :: after) r' := by
  rcases h.chunks_ended hs hc hopen with ⟨hr, hv, hr'⟩ | ⟨hr, hv, hr', hchunks⟩
  · apply ht.settle hu hbefore
    · rw [hv, if_pos hr]
    · simp [hr, hr']
    · intro hno
      rw [hr] at hno
      cases hno
  · have hcount := toNat_nextWord (ht.chunks hr)
    have hlt := declared.toNat_lt
    have hlast : r.completesAt declared = decide (p.chunk.count.toNat ≤
        (settled (before ++ p :: after)).length + 1) := by
      rw [Request.completesAt, hdeclared, decide_eq_decide, UInt32.le_iff_toNat_le, hcount]
      omega
    apply ht.settle hu hbefore
    · simp [hv, hr, lastVerdict, hlast]
    · simp [hv, hr, hr', lastVerdict]
    · intro _
      rw [hchunks, hcount]

end Delivery.Turn

/-! ## Every history -/

theorem Ordered.eq_of_backs {j : List Occurrence} {s : Scene} {id : RequestId} {r : Request}
    {before after : List Part} {p : Part} {d : Delivery} {a : Arrival}
    (ho : Ordered j s id r (before ++ p :: after)) (hb : p.1.task ∉ Part.line before)
    (ha : p.1.task ∉ Part.line after) (hm : a ∈ Rollcall.arrivals j id)
    (hbacks : a.Backs p.1.task d) : a = p.1 := by
  rw [← ho.arrivals] at hm
  obtain ⟨q, hq, rfl⟩ := List.mem_map.mp hm
  rcases List.mem_append.mp hq with hq | hq
  · exact absurd (Part.mem_line.mpr ⟨q, hq, hbacks.2.1, hbacks.1⟩) hb
  rcases List.mem_cons.mp hq with rfl | hq
  · rfl
  · exact absurd (Part.mem_line.mpr ⟨q, hq, hbacks.2.1, hbacks.1⟩) ha

/-- The chunk of the task at the head of a line is the first that is underway. -/
theorem Reached.first_underway {j : List Occurrence} {s : Scene} (hr : Reached j s) {t : TaskId}
    {d : Delivery} {r : Request} (hd : s.delivery? t = some d)
    (hq : s.book.requests[d.request]? = some r) (hhead : r.line.head? = some t) :
    ∃ before p after, Rollcall.arrivals j d.request = before ++ p :: after ∧
      p.isUnderway = true ∧ p.chunk.count = d.declared ∧ (∀ a ∈ before, a.isUnderway = false) ∧
      ∀ fate, (before ++ p :: after).map (close t fate) =
        before ++ { p with fate := fate } :: after := by
  obtain ⟨ps, hps⟩ := hr.ordered hq
  obtain ⟨before, p, after, rfl, hu, rfl, hnone, hno⟩ := hps.split_head (hr.lined.nodup hq) hhead
  obtain ⟨a, ha, hbacks⟩ := hr.backed hd
  obtain rfl := hps.eq_of_backs (by simp [hnone]) hno ha hbacks
  refine ⟨before.map (·.1), p.1, after.map (·.1), ?_, hu, hbacks.2.2.1, fun a ha => ?_,
    fun fate => ?_⟩
  · rw [← hps.arrivals, List.map_append, List.map_cons]
  · obtain ⟨p', hp', rfl⟩ := List.mem_map.mp ha
    rw [Bool.eq_false_iff]
    intro hu'
    have hm := Part.mem_line.mpr ⟨p', hp', hu', rfl⟩
    rw [hnone] at hm
    cases hm
  · have hself : p.1.close p.1.task fate = { p.1 with fate } := if_pos ⟨rfl, hu⟩
    rw [List.map_append, List.map_cons, hself, Part.map_close (by simp [hnone]),
      Part.map_close hno]

theorem Reached.tally {j : List Occurrence} {s : Scene} (hr : Reached j s) {id : RequestId}
    {r : Request} (hq : s.book.requests[id]? = some r) (hlive : r.cancelled = false) :
    Tally (arrivals j id) r := by
  induction hr generalizing r with
  | new nonces => cases hq
  | @step j os s s' hr h ih =>
    have live {q : Request} (hq' : s.book.requests[id]? = some q) : q.cancelled = false := by
      obtain ⟨r₁, hr₁, hl⟩ := hr.later h id q hq'
      cases hr₁.symm.trans hq
      exact hl.not_cancelled hlive
    have keep {q : Request} (hq' : s.book.requests[id]? = some q)
        (hos : ∀ o ∈ os, o.line? ≠ some id) (hcomplete : r.complete = q.complete)
        (hchunks : r.chunks = q.chunks) : Tally (arrivals (j ++ os) id) r := by
      rw [arrivals_append_of_line hos]
      exact (ih hq' (live hq')).kept hcomplete hchunks
    have elsewhere {i : RequestId} {o : Occurrence} (hi : id ≠ i) (ho : o.line? = some i)
        (o' : Occurrence) (hm : o' ∈ [o]) : o'.line? ≠ some id := by
      rw [List.mem_singleton.mp hm, ho]
      exact fun e => hi (Option.some.inj e).symm
    cases hr.passage h with
    | calm ho hb hd =>
      obtain ⟨q, hq', hk⟩ := hb.earlier hq
      exact keep hq' (fun o hm => by simp [ho o hm]) hk.complete hk.chunks
    | make ho hb hf hd =>
      rw [hb, Array.getElem?_push] at hq
      split at hq
      · rename_i hid
        subst hid
        cases hq
        have hnone := hr.arrivals_of_size_le (Array.getElem?_eq_none (Nat.le_refl _))
        rw [arrivals_append_of_line fun o hm => by simp [ho o hm], hnone]
        exact .fresh hf
      · exact keep hq (fun o hm => by simp [ho o hm]) rfl rfl
    | @arrive _ t d c n hd hc hn hq₀ hs hb =>
      rw [hb] at hq
      by_cases hi : id = d.request
      · subst hi
        obtain ⟨q, hq'⟩ := Option.ne_none_iff_exists'.mp hq₀
        rw [(Book.replaces_modify hq' _).self] at hq
        cases hq
        have hjoined : Tally _ (q.join t) := ((ih hq' (live hq')).arrive t c).kept rfl rfl
        rw [arrivals_append]
        simpa [meet] using hjoined
      · rw [Book.requests_modify, if_neg hi] at hq
        exact keep hq (elsewhere hi rfl) rfl rfl
    | @advance _ t d d' hd hb =>
      obtain ⟨q, q', hq', hrep, -, hturn, -⟩ := hr.lined.head_of_moved hd hb
      by_cases hi : id = d.request
      · subst hi
        rw [hrep.self] at hq
        cases hq
        exact keep hq' nofun hturn.chunks_moved.1 hturn.chunks_moved.2
      · rw [hrep.ne hi] at hq
        exact keep hq nofun rfl rfl
    | @settle _ t d b out hd hb hs =>
      obtain ⟨q, q', hq', hrep, hturn, hhead⟩ := hr.lined.head_of_done hd hb
      rw [hs] at hq
      by_cases hi : id = d.request
      · subst hi
        rw [hrep.self] at hq
        cases hq
        have htally := ih hq' (live hq')
        obtain ⟨before, p, after, hsplit, hu, hdeclared, hbefore, hclose⟩ :=
          hr.first_underway hd hq' hhead
        have hopen (m : Member) (rest : List Member) (n k : Nat)
            (hs : d.stage = .placing m rest n k) : q.senderOpen = true := by
          obtain ⟨q₀, hq₀, -, hsender⟩ := hr.lined.placing hd hs
          cases hq'.symm.trans hq₀
          exact hsender
        rw [hsplit] at htally
        rw [arrivals_append, List.foldl_cons, List.foldl_nil, meet, if_pos rfl, hsplit, hclose]
        exact hturn.tally (hr.sound.request _ _ hq') (live hq') hopen htally hu hbefore hdeclared
      · rw [hrep.ne hi] at hq
        exact keep hq (elsewhere hi rfl) rfl rfl
    | @interrupt _ t d hd hb =>
      obtain ⟨q, hq', -⟩ := hr.lined.listed hd
      rw [hb] at hq
      by_cases hi : id = d.request
      · subst hi
        rw [Delivery.interrupt, (Book.replaces_modify hq' _).self] at hq
        cases hq
        have hdropped : Tally _ (q.leave t) := ((ih hq' (live hq')).drop t).kept rfl rfl
        rw [arrivals_append]
        simpa [meet] using hdropped
      · rw [Delivery.interrupt, Book.requests_modify, if_neg hi] at hq
        exact keep hq (elsewhere hi rfl) rfl rfl

end Rollcall
