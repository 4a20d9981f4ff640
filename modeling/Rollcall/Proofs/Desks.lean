import Rollcall.Proofs.Completion

/-!
# The desks of a hub

As long as a request is not cancelled and its stream is alive, a history does nothing to it but what
is done at a desk (`Reached.desk`): chunks that are matched to it come to the line, segments of
their tasks take them further, and all else leaves to it what it had. So what holds at every desk
holds in every hub. Main statement: `Hub.desk`.
-/

namespace Rollcall

def settlements (j : List Occurrence) (id : RequestId) : List Delivered :=
  j.filterMap fun
    | .settled _ i out => if i = id then some out else none
    | _ => none

theorem settlements_append (j os : List Occurrence) (id : RequestId) :
    settlements (j ++ os) id = settlements j id ++ settlements os id := List.filterMap_append

theorem settlements_of_others {os : List Occurrence} {id : RequestId}
    (ho : ∀ o ∈ os, o.line? ≠ some id) : settlements os id = [] := by
  refine List.filterMap_eq_nil_iff.mpr fun o hm => ?_
  have hne := ho o hm
  cases o with
  | settled t i out =>
    have hi : i ≠ id := by
      rintro rfl
      exact hne rfl
    exact if_neg hi
  | _ => rfl

namespace Desk

/-- Whether a desk shows what is done for a request in a scene, and what has been. -/
structure Shows (id : RequestId) (j : List Occurrence) (s : Scene) (d : Desk) : Prop where
  book : d.book = s.book
  hands : ∀ t, (d.hands t).map (·.delivery) = (s.delivery? t).filter (·.request = id)
  results : d.results.map (·.2) = settlements j id

def Reaches (id : RequestId) (j : List Occurrence) (s : Scene) : Prop :=
  ∃ d₀ d, Opens id d₀ ∧ Steps id d₀ d ∧ Shows id j s d

section

variable {id : RequestId} {j os : List Occurrence} {s s' : Scene} {t : TaskId} {d : Delivery}

theorem Shows.hand {k : Desk} (hk : Shows id j s k) (hd : s.delivery? t = some d)
    (hid : d.request = id) : ∃ x, k.hands t = some x ∧ x.delivery = d := by
  have hhands := hk.hands t
  rw [hd, Option.filter_some, if_pos (decide_eq_true hid)] at hhands
  exact Option.map_eq_some_iff.mp hhands

theorem Shows.free {k : Desk} (hk : Shows id j s k) (hd : s.delivery? t = none) :
    k.hands t = none := by
  have hhands := hk.hands t
  rw [hd] at hhands
  exact Option.map_eq_none_iff.mp hhands

theorem hands_set_eq {k : Desk} (hk : Shows id j s k) {b : Book} {x : Option Handed}
    (hself : x.map (·.delivery) = (s'.delivery? t).filter (·.request = id))
    (hne : ∀ t', t' ≠ t → s'.delivery? t' = s.delivery? t') (t' : TaskId) :
    ((k.set t b x).hands t').map (·.delivery) = (s'.delivery? t').filter (·.request = id) := by
  rw [hands_set]
  by_cases e : t' = t
  · rw [if_pos e, e]
    exact hself
  · rw [if_neg e, hne t' e]
    exact hk.hands t'

/-- Work for another request is not seen at the desk. -/
theorem filter_eq_none {x : Option Delivery} (hx : ∀ d, x = some d → d.request ≠ id) :
    x.filter (·.request = id) = none := by
  rw [Option.filter_eq_none_iff]
  intro d hd
  simpa using hx d hd

theorem Reaches.aside {r r' : Request} (h : Reaches id j s) (hq : s.book.requests[id]? = some r)
    (hq' : s'.book.requests[id]? = some r') (hk : r.Kept r') (hlive : r'.cancelled = false)
    (hlistening : r'.channel.receiver = .listening)
    (hd : ∀ t, (s'.delivery? t).filter (·.request = id) = (s.delivery? t).filter (·.request = id))
    (ho : ∀ o ∈ os, o.line? ≠ some id) : Reaches id (j ++ os) s' := by
  obtain ⟨k₀, k, hopens, hsteps, hshows⟩ := h
  rw [← hshows.book] at hq
  refine ⟨k₀, _, hopens, hsteps.more (.aside hq hq' hk hlive hlistening), rfl, fun t => ?_, ?_⟩
  · exact (hshows.hands t).trans (hd t).symm
  · rw [settlements_append, settlements_of_others ho, List.append_nil]
    exact hshows.results

theorem Reaches.elsewhere {r : Request} (h : Reaches id j s)
    (hq : s.book.requests[id]? = some r) (hq' : s'.book.requests[id]? = some r)
    (hlive : r.cancelled = false) (hlistening : r.channel.receiver = .listening)
    (hd : ∀ d, s.delivery? t = some d → d.request ≠ id)
    (hd' : ∀ d, s'.delivery? t = some d → d.request ≠ id)
    (hne : ∀ t', t' ≠ t → s'.delivery? t' = s.delivery? t')
    (ho : ∀ o ∈ os, o.line? ≠ some id) : Reaches id (j ++ os) s' := by
  refine h.aside hq hq' (.refl r) hlive hlistening (fun t' => ?_) ho
  by_cases e : t' = t
  · rw [e, filter_eq_none hd, filter_eq_none hd']
  · rw [hne t' e]

/-- Nobody has come yet to a request that has just been made. -/
theorem reaches_of_fresh {r : Request} (hr : Reached j s) (hnone : s.book.requests[id]? = none)
    (hq : s'.book.requests[id]? = some r) (hf : r.Fresh)
    (hd : ∀ t, s'.delivery? t = s.delivery? t) (ho : ∀ o ∈ os, o.line? ≠ some id) :
    Reaches id (j ++ os) s' := by
  refine ⟨⟨s'.book, fun _ => none, []⟩, _, ⟨⟨r, hq, hf⟩, fun _ => rfl, rfl⟩, .none, rfl,
    fun t => (filter_eq_none fun d hself => ?_).symm, ?_⟩
  · rw [hd t] at hself
    obtain ⟨q, hlisted, -⟩ := hr.lined.listed hself
    rintro rfl
    cases hnone.symm.trans hlisted
  · rw [settlements_append, settlements_of_others (hr.untold hnone), settlements_of_others ho]
    rfl

theorem Reaches.enter {ms : List Member} (h : Reaches id j s) (hd : s.delivery? t = none)
    (hid : d.request = id) (hs : d.stage = .inLine ms)
    (hb : s'.book = s.book.modify id (·.join t)) (hd' : s'.delivery? t = some d)
    (hne : ∀ t', t' ≠ t → s'.delivery? t' = s.delivery? t') (ho : settlements os id = []) :
    Reaches id (j ++ os) s' := by
  obtain ⟨k₀, k, hopens, hsteps, hshows⟩ := h
  refine ⟨k₀, _, hopens, hsteps.more (@Step.enter _ _ t ms d.declared d.caching (hshows.free hd)),
    ?_, hands_set_eq hshows ?_ hne, ?_⟩
  · rw [hb, ← hshows.book]
    rfl
  · subst hid
    rw [hd', Option.filter_some, if_pos (decide_eq_true rfl), Option.map_some, ← hs]
  · rw [settlements_append, ho, List.append_nil]
    exact hshows.results

theorem Reaches.goOn {d' : Delivery} (h : Reaches id j s) (hd : s.delivery? t = some d)
    (hid : d.request = id) (hid' : d'.request = id) (hb : d.advance t s.book = .moved s'.book d')
    (hd' : s'.delivery? t = some d') (hne : ∀ t', t' ≠ t → s'.delivery? t' = s.delivery? t') :
    Reaches id (j ++ []) s' := by
  obtain ⟨k₀, k, hopens, hsteps, hshows⟩ := h
  obtain ⟨x, hx, rfl⟩ := hshows.hand hd hid
  rw [← hshows.book] at hb
  refine ⟨k₀, _, hopens, hsteps.more (.goOn hx hb), rfl, hands_set_eq hshows ?_ hne, ?_⟩
  · rw [hd', Option.filter_some, if_pos (decide_eq_true hid')]
    rfl
  · rw [List.append_nil]
    exact hshows.results

theorem Reaches.finish {b : Book} {r : Request} {out : Delivered} (h : Reaches id j s)
    (hd : s.delivery? t = some d) (hid : d.request = id) (hb : d.advance t s.book = .done b out)
    (hs : s'.book.requests = b.requests) (hd' : s'.delivery? t = none)
    (hne : ∀ t', t' ≠ t → s'.delivery? t' = s.delivery? t')
    (hq : s'.book.requests[id]? = some r) (hlive : r.cancelled = false)
    (hlistening : r.channel.receiver = .listening) :
    Reaches id (j ++ [.settled t d.request out]) s' := by
  obtain ⟨k₀, k, hopens, hsteps, hshows⟩ := h
  obtain ⟨x, hx, rfl⟩ := hshows.hand hd hid
  rw [← hshows.book] at hb
  have hq' : b.requests[id]? = some r := by rw [← hs, hq]
  -- The registry is no concern of the request.
  refine ⟨k₀, _, hopens, (hsteps.more (.finish hx hb)).more
    (.aside hq' hq (.refl r) hlive hlistening), rfl, hands_set_eq (b := b) hshows ?_ hne, ?_⟩
  · rw [hd']
    rfl
  · have hresults := results_spend (k.set t b none) x (some out)
    have hlast : settlements [.settled t x.delivery.request out] id = [out] := by
      simp [settlements, hid]
    rw [settlements_append, hlast, ← hshows.results]
    exact (congrArg (List.map (·.2)) hresults).trans List.map_append

theorem Reaches.drop (h : Reaches id j s) (hd : s.delivery? t = some d) (hid : d.request = id)
    (hb : s'.book = d.interrupt t s.book) (hd' : s'.delivery? t = none)
    (hne : ∀ t', t' ≠ t → s'.delivery? t' = s.delivery? t') :
    Reaches id (j ++ [.interrupted t d.request]) s' := by
  obtain ⟨k₀, k, hopens, hsteps, hshows⟩ := h
  obtain ⟨x, hx, rfl⟩ := hshows.hand hd hid
  refine ⟨k₀, _, hopens, hsteps.more (.drop hx), ?_, hands_set_eq (b := s'.book) hshows ?_ hne, ?_⟩
  · rw [hb, ← hshows.book]
    rfl
  · rw [hd']
    rfl
  · have hresults := results_spend (k.set t (x.delivery.interrupt t k.book) none) x none
    have hnone : settlements [.interrupted t x.delivery.request] id = [] := rfl
    rw [settlements_append, hnone, List.append_nil, ← hshows.results]
    exact congrArg (List.map (·.2)) (hresults.trans (List.append_nil _))

end

end Desk

theorem Reached.desk {j : List Occurrence} {s : Scene} (hr : Reached j s) {id : RequestId}
    {r : Request} (hq : s.book.requests[id]? = some r) (hlive : r.cancelled = false)
    (hlistening : r.channel.receiver = .listening) : Desk.Reaches id j s := by
  induction hr generalizing r with
  | new nonces => cases hq
  | @step j os s s' hr h ih =>
    have only {t : TaskId} {d : Delivery} (hd : s.delivery? t = some d) (hid : d.request ≠ id)
        (d₀ : Delivery) (hd₀ : s.delivery? t = some d₀) : d₀.request ≠ id := by
      cases hd.symm.trans hd₀
      exact hid
    have gone {g : Scene} {t : TaskId} (hd : g.delivery? t = none) (d : Delivery)
        (hd' : g.delivery? t = some d) : d.request ≠ id := by
      cases hd.symm.trans hd'
    have beside {d : Delivery} {o : Occurrence} (ho : o.line? = some d.request)
        (hid : d.request ≠ id) : ∀ o' ∈ [o], o'.line? ≠ some id := by
      refine List.forall_mem_singleton.mpr fun he => hid ?_
      exact Option.some.inj (ho.symm.trans he)
    cases hr.passage h with
    | calm ho hb hd =>
      obtain ⟨q, hq', hk⟩ := hb.earlier hq
      have hreaches := ih hq' (hk.not_cancelled hlive) (hk.listening hlistening)
      exact hreaches.aside hq' hq hk hlive hlistening (fun t => by rw [hd]) fun o hm => by
        simp [ho o hm]
    | @make _ _ q ho hb hf hd =>
      have hcalm (o : Occurrence) (hm : o ∈ os) : o.line? ≠ some id := by simp [ho o hm]
      have hmade := hq
      rw [hb, Array.getElem?_push] at hq
      split at hq
      · rename_i hid
        cases hq
        exact Desk.reaches_of_fresh hr (by simp [hid]) hmade hf hd hcalm
      · exact (ih hq hlive hlistening).aside hq hmade (.refl r) hlive hlistening
          (fun t => by rw [hd]) hcalm
    | @arrive _ t d c n hd hc hn hq' hs hb hd' hne hf =>
      have hjoined := hq
      rw [hb, Book.requests_modify] at hq
      by_cases hid : d.request = id
      · subst hid
        rw [if_pos rfl] at hq
        obtain ⟨q, hbefore, rfl⟩ := Option.map_eq_some_iff.mp hq
        exact (ih hbefore hlive hlistening).enter hd rfl hs hb hd' hne rfl
      · rw [if_neg (Ne.symm hid)] at hq
        refine (ih hq hlive hlistening).elsewhere hq hjoined hlive hlistening (gone hd) ?_ hne
          (beside rfl hid)
        intro d₀ hd₀
        cases hd'.symm.trans hd₀
        exact hid
    | @advance _ t d d' hd hb hd' hne =>
      obtain ⟨q, q', hq', hrep, hreq, hturn, -⟩ := hr.lined.head_of_moved hd hb
      by_cases hid : d.request = id
      · subst hid
        cases hrep.self.symm.trans hq
        have hlive' := hturn.cancelled_moved.symm.trans hlive
        have hlistening' := hturn.reader.2.symm.trans hlistening
        exact (ih hq' hlive' hlistening').goOn hd rfl hreq hb hd' hne
      · have hbefore := (hrep.ne (Ne.symm hid)).symm.trans hq
        refine (ih hbefore hlive hlistening).elsewhere hbefore hq hlive hlistening (only hd hid) ?_
          hne (List.forall_mem_nil _)
        intro d₀ hd₀
        cases hd'.symm.trans hd₀
        exact hreq ▸ hid
    | @settle _ t d b out hd hb hs hd' hne =>
      obtain ⟨q, q', hq', hrep, hturn, -⟩ := hr.lined.head_of_done hd hb
      have hrequests : s'.book.requests = b.requests := hs ▸ b.requests_settle d.request out.verdict
      rw [← hs] at hrep
      by_cases hid : d.request = id
      · subst hid
        cases hrep.self.symm.trans hq
        have hlive' := hturn.later.not_cancelled hlive
        have hlistening' := hturn.reader.2.symm.trans hlistening
        exact (ih hq' hlive' hlistening').finish hd rfl hb hrequests hd' hne hq hlive hlistening
      · have hbefore := (hrep.ne (Ne.symm hid)).symm.trans hq
        exact (ih hbefore hlive hlistening).elsewhere hbefore hq hlive hlistening (only hd hid)
          (gone hd') hne (beside rfl hid)
    | @interrupt _ t d hd hb hd' hne =>
      have hleft := hq
      rw [hb, Delivery.interrupt, Book.requests_modify] at hq
      by_cases hid : d.request = id
      · subst hid
        rw [if_pos rfl] at hq
        obtain ⟨q, hbefore, rfl⟩ := Option.map_eq_some_iff.mp hq
        exact (ih hbefore hlive hlistening).drop hd rfl hb hd' hne
      · rw [if_neg (Ne.symm hid)] at hq
        exact (ih hq hlive hlistening).elsewhere hq hleft hlive hlistening (only hd hid) (gone hd')
          hne (beside rfl hid)

/-- **Every live request of a hub is at a desk.** After any history, a request that is not cancelled
and whose stream is alive is where some desk has brought it: with the book of the hub, the chunks
that tasks of the hub hand over to it at hand, and the results that the journal tells. -/
theorem Hub.desk {h : Hub} (hn : h.IsNew) (past : List Action) {id : RequestId} {r : Request}
    (hq : (h.after past).book.requests[id]? = some r) (hlive : r.cancelled = false)
    (hlistening : r.channel.receiver = .listening) :
    ∃ d₀ d, Desk.Opens id d₀ ∧ Desk.Steps id d₀ d ∧ d.book = (h.after past).book ∧
      (∀ t, (d.hands t).map (·.delivery) =
        ((h.after past).delivery? t).filter (·.request = id)) ∧
      d.results.map (·.2) = settlements (h.journal past) id := by
  obtain ⟨d₀, d, hopens, hsteps, hshows⟩ := (Reached.after hn past).desk hq hlive hlistening
  exact ⟨d₀, d, hopens, hsteps, hshows.book, hshows.hands, hshows.results⟩

end Rollcall
