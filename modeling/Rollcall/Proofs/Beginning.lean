import Rollcall.Proofs.Caching
import Rollcall.Proofs.Separation

/-!
# Events that begin to be handled

While a request waits, the chunks that arrive at it are those with its nonce that begin to be
handled. A request that is not cancelled waits at least until as many chunks have been dealt with as
they declare; so chunks that all declare how many they are arrive one and all
(`Hub.arrived_of_begun`).
-/

namespace Rollcall

/-- No chunk is the last one before as many have been consumed as it declares. -/
theorem complete_not_mem_verdicts (ds : List UInt32) : ∀ n, (∀ d ∈ ds, n + ds.length < d.toNat) →
    .complete ∉ verdicts n ds := by
  induction ds with
  | nil =>
    intro n _
    exact List.not_mem_nil
  | cons d ds ih =>
    intro n hds
    have hd := hds d List.mem_cons_self
    rw [List.length_cons] at hds hd
    rw [verdicts, if_neg (by omega)]
    intro hm
    rcases List.mem_cons.mp hm with hm | hm
    · cases hm
    · apply ih (n + 1) _ hm
      intro d' hd'
      have := hds d' (List.mem_cons_of_mem d hd')
      omega

theorem Tally.waiting {as : List Arrival} {r : Request} (ht : Tally as r)
    (hlive : r.cancelled = false)
    (hfew : ∀ a ∈ as, as.length < a.chunk.count.toNat) : r.Waiting := by
  refine ⟨?_, hlive⟩
  rw [Bool.eq_false_iff]
  intro hc
  have hsub : (Arrival.settled as).length ≤ as.length := List.length_filter_le _ _
  apply complete_not_mem_verdicts _ 0 _ (ht.complete.mp hc)
  intro d hd
  obtain ⟨a, ha, rfl⟩ := List.mem_map.mp hd
  have hlt := hfew a (List.mem_of_mem_filter ha)
  rw [List.length_map]
  omega

namespace Hub

variable {h h' : Hub} {t : TaskId} {a : Action} {id : RequestId} {r : Request}

def begun (h : Hub) : List Action → List Event
  | [] => []
  | a :: past => h.begun past ++ (h.after past).begins a

theorem taken?_of_carries {e : Event} (hb : h.book.Sound) (hq : h.book.requests[id]? = some r)
    (hw : r.Waiting) (he : e.Carries r.nonce = true) :
    ∃ c, e = .chunk c ∧ h.match? c = some id := by
  cases e with
  | other kind => cases he
  | chunk c =>
    have hc : c.nonce = some r.nonce := by simpa [Event.Carries] using he
    refine ⟨c, rfl, ?_⟩
    rw [match?, hc, Option.bind_some]
    exact (hb.get?_nonce hq).mpr hw

theorem carries_of_match {c : Chunk} (hb : h.book.Sound) (hq : h.book.requests[id]? = some r)
    (hm : h.match? c = some id) : (Event.chunk c).Carries r.nonce = true := by
  obtain ⟨n, hc, hn⟩ := Option.bind_eq_some_iff.mp hm
  rw [hb.nonce_of_get? hq hn]
  simp [Event.Carries, hc]

/-- What arrives at a request in an action carries its nonce; all that does arrives while the request
waits. -/
theorem Deals.arrived (hd : h.Deals a h') (hb : h.book.Sound)
    (hq : h.book.requests[id]? = some r)
    (hw : (h.begins a).filter (Event.Carries r.nonce) ≠ [] → r.Waiting) :
    (arrivedAt (h.occurrences a) id).map .chunk = (h.begins a).filter (Event.Carries r.nonce) := by
  have presented {t : TaskId} {d : Delivery} {es : List Event} {os : List Occurrence}
      (hp : h.Presents t d es os) (hbegins : h.begins a = es) :
      (arrivedAt os id).map .chunk = es.filter (Event.Carries r.nonce) := by
    cases hp with
    | held hd => rfl
    | @fresh c i hnone hm =>
      by_cases hi : i = id
      · subst hi
        simp [arrivedAt, carries_of_match hb hq hm]
      · have hno : (Event.chunk c).Carries r.nonce = false := by
          rw [Bool.eq_false_iff]
          intro he
          rw [hbegins] at hw
          obtain ⟨c', hc', hm'⟩ := taken?_of_carries hb hq (hw (by simp [he])) he
          cases hc'
          exact hi (Option.some.inj (hm.symm.trans hm'))
        simp [arrivedAt, hi, hno]
  cases hd with
  | calm hbegins hputs hos =>
    rw [hbegins, arrivedAt_of_line fun o hm => by simp [hos o hm]]
    rfl
  | @passes e he hbegins hputs hos =>
    have hno : e.Carries r.nonce = false := by
      rw [Bool.eq_false_iff]
      intro hcarries
      rw [hbegins] at hw
      obtain ⟨c, rfl, hm⟩ := taken?_of_carries hb hq (hw (by simp [hcarries])) hcarries
      simp [taken?, hm] at he
    rw [hbegins, hos]
    simp [arrivedAt, hno]
  | moves hp hadv hbegins hputs hos =>
    rw [hos, hbegins]
    exact presented hp hbegins
  | ends hp hadv hbegins hputs hos =>
    rw [hos, hbegins, arrivedAt_append, ← presented hp hbegins]
    simp [arrivedAt]
  | drops hd hbegins hputs hos =>
    rw [hos, hbegins]
    rfl

/-- Chunks that all declare how many they are arrive one and all, if they begin to be handled while
their request is there and is not cancelled. -/
theorem arrived_of_begun (hn : h.IsNew) {mid : List Action}
    (hq : (h.after mid).book.requests[id]? = some r) (hnone : arrivedAt (h.journal mid) id = [])
    {cs : List Chunk} (hcount : ∀ c ∈ cs, c.count.toNat = cs.length) (later : List Action)
    (hlive : (h.after (later ++ mid)).isCancelled id = false)
    (hcs : ((h.after mid).begun later).filter (Event.Carries r.nonce) <+: cs.map .chunk) :
    (arrivedAt (h.journal (later ++ mid)) id).map .chunk =
      ((h.after mid).begun later).filter (Event.Carries r.nonce) := by
  induction later with
  | nil =>
    rw [List.nil_append, hnone]
    rfl
  | cons a later ih =>
    have hreach := Reached.after hn (later ++ mid)
    have hbefore : (h.after (later ++ mid)).isCancelled id = false := by
      cases hc : (h.after (later ++ mid)).isCancelled id with
      | false => rfl
      | true =>
        rw [← hlive]
        exact (isCancelled_after hn hc [a]).symm
    rw [begun, List.filter_append, after_append] at hcs ⊢
    have ih := ih hbefore ((List.prefix_append _ _).trans hcs)
    obtain ⟨os, -, hch⟩ := h.changes_append mid later
    obtain ⟨r', hq', hl⟩ := (Reached.after hn mid).later_changes hch id r hq
    have hlive' : r'.cancelled = false := by
      rw [← hbefore]
      exact (Book.isCancelled_eq hq').symm
    have hd := deals hreach.sound a
    rw [List.cons_append, journal, arrivedAt_append, List.map_append, ih, ← hl.nonce]
    congr 1
    refine hd.arrived hreach.sound hq' fun hne => ?_
    -- fewer chunks have arrived than they declare
    apply (hreach.tally hq' hlive').waiting hlive'
    intro x hx
    have hlength : (arrivals (h.journal (later ++ mid)) id).length =
        (((h.after mid).begun later).filter (Event.Carries r.nonce)).length := by
      rw [← ih, List.length_map, ← chunk_arrivals, List.length_map]
    have hmem : x.chunk ∈ cs := by
      have hm : Event.chunk x.chunk ∈ ((h.after mid).begun later).filter (Event.Carries r.nonce) := by
        rw [← ih]
        exact List.mem_map_of_mem (mem_arrivedAt.mpr ⟨x, hx, rfl⟩)
      obtain ⟨c, hc, he⟩ := List.mem_map.mp (hcs.subset (List.mem_append_left _ hm))
      cases he
      exact hc
    have hpos := List.length_pos_of_ne_nil hne
    have hle := hcs.length_le
    rw [List.length_append, List.length_map, ← hl.nonce] at hle
    rw [hcount _ hmem, hlength, ← hl.nonce]
    exact Nat.lt_of_lt_of_le (Nat.lt_add_of_pos_right hpos) hle

end Hub
end Rollcall
