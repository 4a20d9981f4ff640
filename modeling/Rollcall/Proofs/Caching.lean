import Mathlib.Data.List.Induction
import Rollcall.Proofs.Dealing
import Rollcall.Proofs.LastPut

/-!
# What the cache holds

A log of all that was put accounts for the cache and the journal for the count of users not found
(`Hub.stock_after`). All that was put comes from chunks that had arrived at the request that the log
names (`Hub.arrived_of_stored`), and the log has all members of a chunk that has been dealt with to
its end (`Hub.stowed`).
-/

namespace Rollcall

/-! ## Chunks that arrived -/

def arrivedAt (j : List Occurrence) (id : RequestId) : List Chunk :=
  j.filterMap fun
    | .arrived _ i c => if i = id then some c else none
    | _ => none

theorem arrivedAt_append (j os : List Occurrence) (id : RequestId) :
    arrivedAt (j ++ os) id = arrivedAt j id ++ arrivedAt os id := List.filterMap_append

theorem arrivedAt_of_line {os : List Occurrence} {id : RequestId}
    (ho : ∀ o ∈ os, o.line? ≠ some id) : arrivedAt os id = [] := by
  apply List.filterMap_eq_nil_iff.mpr
  intro o hm
  cases o with
  | arrived t i c =>
    have hi : i ≠ id := fun e => ho _ hm (by rw [Occurrence.line?, e])
    exact if_neg hi
  | _ => rfl

theorem map_chunk_close (t : TaskId) (fate : Fate) (as : List Arrival) :
    (as.map (Arrival.close t fate)).map (·.chunk) = as.map (·.chunk) := by
  rw [List.map_map]
  apply List.map_congr_left
  intro a _
  simp only [Function.comp, Arrival.close]
  split <;> rfl

theorem chunk_arrivals (j : List Occurrence) (id : RequestId) :
    (arrivals j id).map (·.chunk) = arrivedAt j id := by
  induction j using List.reverseRecOn with
  | nil => rfl
  | append_singleton j o ih =>
    rw [arrivals_append, arrivedAt_append, ← ih, List.foldl_cons, List.foldl_nil]
    cases o with
    | arrived t i c =>
      by_cases hi : i = id
      · simp [Arrival.meet, arrivedAt, hi]
      · simp [Arrival.meet, arrivedAt, hi]
    | settled t i r =>
      simp only [Arrival.meet]
      split
      · rw [map_chunk_close]
        simp [arrivedAt]
      · simp [arrivedAt]
    | interrupted t i =>
      simp only [Arrival.meet]
      split
      · rw [map_chunk_close]
        simp [arrivedAt]
      · simp [arrivedAt]
    | _ => simp [Arrival.meet, arrivedAt]

theorem mem_arrivedAt {j : List Occurrence} {id : RequestId} {c : Chunk} :
    c ∈ arrivedAt j id ↔ ∃ a ∈ arrivals j id, a.chunk = c := by
  rw [← chunk_arrivals, List.mem_map]

/-! ## Users not found -/

namespace Hub

theorem missing_append (os os' : List Occurrence) :
    missing (os ++ os') = missing os + missing os' := by
  simp [missing]

theorem missing_of_line {os : List Occurrence} (ho : ∀ o ∈ os, o.line? = none) :
    missing os = 0 := by
  induction os with
  | nil => rfl
  | cons o os ih =>
    rw [← List.singleton_append, missing_append, ih fun o' hm => ho o' (List.mem_cons_of_mem o hm)]
    cases o with
    | arrived t id c => cases ho _ List.mem_cons_self
    | _ => rfl

def elsewhere (id : RequestId) (os : List Occurrence) : List Occurrence :=
  os.filter fun o => o.line? ≠ some id

theorem missing_eq (id : RequestId) (os : List Occurrence) :
    missing os = ((arrivedAt os id).flatMap (·.notFound)).length + missing (elsewhere id os) := by
  have one (o : Occurrence) : missing [o] =
      ((arrivedAt [o] id).flatMap (·.notFound)).length + missing (elsewhere id [o]) := by
    by_cases hline : o.line? = some id
    · have hnone : elsewhere id [o] = [] := by simp [elsewhere, hline]
      rw [hnone]
      cases o with
      | arrived t i c =>
        cases hline
        simp [missing, arrivedAt]
      | _ => simp [missing, arrivedAt]
    · have hall : elsewhere id [o] = [o] := by simp [elsewhere, hline]
      have hnone : arrivedAt [o] id = [] :=
        arrivedAt_of_line fun o' hm => by rwa [List.mem_singleton.mp hm]
      rw [hall, hnone]
      simp
  induction os with
  | nil => rfl
  | cons o os ih =>
    have hsplit : elsewhere id (o :: os) = elsewhere id [o] ++ elsewhere id os :=
      List.filter_append [o] os
    rw [hsplit, ← List.singleton_append, missing_append, missing_append, arrivedAt_append, ih, one o,
      List.flatMap_append, List.length_append]
    omega

/-! ## The log -/

variable {h h' : Hub} {t : TaskId} {a : Action}

def stored (h : Hub) : List Action → List (RequestId × Member)
  | [] => []
  | a :: past => h.stored past ++ (h.after past).puts a

def replay (cache : MemberCache) (log : List (RequestId × Member)) : MemberCache :=
  log.foldl (fun cache e => cache.put e.2) cache

theorem replay_append (cache : MemberCache) (log log' : List (RequestId × Member)) :
    replay cache (log ++ log') = replay (replay cache log) log' := List.foldl_append

theorem replay_eq (cache : MemberCache) (log : List (RequestId × Member)) :
    replay cache log = cache.putAll (log.map (·.2)) := by
  rw [replay, MemberCache.putAll, List.foldl_map]

theorem get?_replay {log : List (RequestId × Member)} {id : RequestId} {m : Member}
    (hm : (id, m) ∈ log) (cache : MemberCache) : ∃ e ∈ log, e.2.guild = m.guild ∧
      e.2.user.id = m.user.id ∧ (replay cache log).get? m.guild m.user.id = some e.2 := by
  obtain ⟨last, hlast, hguild, huser, hget⟩ :=
    MemberCache.get?_of_put (List.mem_map_of_mem hm) cache
  obtain ⟨e, he, rfl⟩ := List.mem_map.mp hlast
  rw [replay_eq]
  exact ⟨e, he, hguild, huser, hget⟩

theorem replay_putsOf (h : Hub) (t : TaskId) (d : Delivery) (cache : MemberCache) :
    replay cache (h.putsOf t d) =
      (d.sought (d.advance t h.book)).foldl (Delivery.keep d.caching) cache := by
  have kept (c : MemberCache) (ms : List Member) :
      ms.foldl (Delivery.keep false) c = c := by
    induction ms with
    | nil => rfl
    | cons m ms ih => exact ih
  rw [replay, putsOf]
  cases hk : d.caching with
  | true =>
    rw [if_pos rfl, List.foldl_map]
    rfl
  | false =>
    rw [if_neg (by simp), kept]
    rfl

theorem Deals.stock (hd : h.Deals a h') : h'.book.cache = replay h.book.cache (h.puts a) ∧
    h'.stats.notFound = h.stats.notFound + UInt64.ofNat (missing (h.occurrences a)) ∧
    h'.caching = h.caching := by
  have split {cache : MemberCache} {stats : Stats} (hputs : cache = replay h.book.cache (h.puts a))
      (hos : stats.notFound = h.stats.notFound + UInt64.ofNat (missing (h.occurrences a)))
      (hstock : h'.stock = h.stocked cache stats) : h'.book.cache = replay h.book.cache (h.puts a) ∧
        h'.stats.notFound = h.stats.notFound + UInt64.ofNat (missing (h.occurrences a)) ∧
        h'.caching = h.caching := by
    have hstats : h'.stats = stats := congrArg Stock.stats hstock
    exact ⟨(congrArg Stock.cache hstock).trans hputs, by rw [hstats, hos],
      congrArg Stock.caching hstock⟩
  have idle (hos : missing (h.occurrences a) = 0) :
      h.stats.notFound = h.stats.notFound + UInt64.ofNat (missing (h.occurrences a)) := by
    rw [hos]
    exact (UInt64.add_zero _).symm
  cases hd with
  | calm hbegins hputs hos hstock =>
    exact split (by rw [hputs]; rfl) (idle (missing_of_line hos)) hstock
  | passes he hbegins hputs hos hstock =>
    refine split (by rw [hputs]; rfl) ?_ hstock
    rw [met_of_passed he]
    exact idle (by rw [hos]; rfl)
  | drops hd hbegins hputs hos hstock =>
    exact split (by rw [hputs]; rfl) (idle (by rw [hos]; rfl)) hstock
  | moves hp hadv hbegins hputs hos hstock =>
    refine split ?_ ?_ hstock
    · rw [hputs, replay_putsOf, ← (Delivery.sought_of_moved hadv).2.2.2.2]
    · rw [hos, notFound_met hp]
  | ends hp hadv hbegins hputs hos hstock =>
    refine split ?_ ?_ hstock
    · rw [hputs, replay_putsOf, ← (Delivery.sought_of_done hadv).2]
    · rw [hos, missing_append]
      exact notFound_met hp

theorem journal_append (h : Hub) (past : List Action) : ∀ later,
    h.journal (later ++ past) = h.journal past ++ (h.after past).journal later
  | [] => (List.append_nil _).symm
  | a :: later => by
    rw [List.cons_append, journal, journal_append h past later, journal, after_append,
      List.append_assoc]

theorem stored_append (h : Hub) (past : List Action) : ∀ later,
    h.stored (later ++ past) = h.stored past ++ (h.after past).stored later
  | [] => (List.append_nil _).symm
  | a :: later => by
    rw [List.cons_append, stored, stored_append h past later, stored, after_append,
      List.append_assoc]

/-- The log accounts for the cache, and the journal for the users not found. -/
theorem stock_after (hn : h.IsNew) (past later : List Action) :
    (h.after (later ++ past)).book.cache =
      replay (h.after past).book.cache ((h.after past).stored later) ∧
    (h.after (later ++ past)).stats.notFound =
      (h.after past).stats.notFound + UInt64.ofNat (missing ((h.after past).journal later)) ∧
    (h.after (later ++ past)).caching = (h.after past).caching := by
  induction later with
  | nil => exact ⟨rfl, (UInt64.add_zero _).symm, rfl⟩
  | cons a later ih =>
    obtain ⟨hcache, hmissing, hcaching⟩ := ih
    have hd := deals (Reached.after hn (later ++ past)).sound a
    obtain ⟨hcache', hmissing', hcaching'⟩ := hd.stock
    rw [List.cons_append, after, hcache', hmissing', hcaching', hcache, hmissing, hcaching, stored,
      journal, after_append, replay_append, missing_append, UInt64.ofNat_add, UInt64.add_assoc]
    exact ⟨rfl, rfl, rfl⟩

theorem cache_after (hn : h.IsNew) (past later : List Action) :
    (h.after (later ++ past)).book.cache =
      replay (h.after past).book.cache ((h.after past).stored later) :=
  (stock_after hn past later).1

theorem notFound_after (hn : h.IsNew) (past later : List Action) :
    (h.after (later ++ past)).stats.notFound =
      (h.after past).stats.notFound + UInt64.ofNat (missing ((h.after past).journal later)) :=
  (stock_after hn past later).2.1

theorem caching_after (hn : h.IsNew) (past : List Action) : (h.after past).caching = h.caching := by
  have hcaching := (stock_after hn [] past).2.2
  rw [List.append_nil] at hcaching
  exact hcaching

theorem caching_of_delivery (hn : h.IsNew) {past : List Action} {d : Delivery}
    (hd : (h.after past).delivery? t = some d) : d.caching = h.caching := by
  induction past generalizing t d with
  | nil =>
    obtain ⟨limits, selection, shards, caching, nonces, rfl⟩ := hn.eq
    cases hd
  | cons a past ih =>
    rcases (deals (Reached.after hn past).sound a).origin hd with hd | ⟨d₀, es, os, b, hp, hadv⟩
    · exact ih hd
    · rw [(Delivery.sought_of_moved hadv).2.2.1]
      cases hp with
      | held hd₀ => exact ih hd₀
      | fresh => exact caching_after hn past

theorem caching_of_presents (hn : h.IsNew) {past : List Action} {d : Delivery} {es : List Event}
    {os : List Occurrence} (hp : (h.after past).Presents t d es os) : d.caching = h.caching := by
  cases hp with
  | held hd => exact caching_of_delivery hn hd
  | fresh => exact caching_after hn past

/-! ## Where the log comes from -/

theorem mem_putsOf {d : Delivery} {id : RequestId} {m : Member} (hm : (id, m) ∈ h.putsOf t d) :
    id = d.request ∧ m ∈ d.sought (d.advance t h.book) := by
  unfold putsOf at hm
  split at hm
  · obtain ⟨m', hm', he⟩ := List.mem_map.mp hm
    cases he
    exact ⟨rfl, hm'⟩
  · cases hm

theorem mem_unsought {d : Delivery} {b : Book} {m : Member} (hm : m ∈ d.sought (d.advance t b)) :
    m ∈ d.unsought := by
  unfold Delivery.sought at hm
  split at hm
  · cases hm
  · exact List.mem_of_mem_take hm
  · exact hm

/-- The members that a delivery is still to come past are in a chunk that has arrived. -/
theorem Presents.arrived {j : List Occurrence} (hr : Reached j h.scene) {d : Delivery}
    {es : List Event} {os : List Occurrence} (hp : h.Presents t d es os) :
    ∃ c ∈ arrivedAt (j ++ os) d.request, ∀ m ∈ d.unsought, m ∈ c.stamped := by
  cases hp with
  | held hd =>
    obtain ⟨a, ha, -, -, -, past, hpast⟩ := hr.backed hd
    refine ⟨a.chunk, ?_, fun m hm => ?_⟩
    · rw [List.append_nil]
      exact mem_arrivedAt.mpr ⟨a, ha, rfl⟩
    · rw [hpast]
      exact List.mem_append_right _ hm
  | @fresh c id hnone hm =>
    refine ⟨c, ?_, fun m hm => hm⟩
    rw [arrivedAt_append]
    exact List.mem_append_right _ (by simp [arrivedAt, arrival])

theorem arrived_of_stored (hn : h.IsNew) {past : List Action} {id : RequestId} {m : Member}
    (hm : (id, m) ∈ h.stored past) : ∃ c ∈ arrivedAt (h.journal past) id, m ∈ c.stamped := by
  induction past with
  | nil => cases hm
  | cons a past ih =>
    have fresh {t : TaskId} {d : Delivery} {es : List Event} {os : List Occurrence}
        (hp : (h.after past).Presents t d es os)
        (hputs : (h.after past).puts a = (h.after past).putsOf t d)
        (hm : (id, m) ∈ (h.after past).puts a) :
        ∃ c ∈ arrivedAt (h.journal past ++ os) id, m ∈ c.stamped := by
      rw [hputs] at hm
      obtain ⟨rfl, hsought⟩ := mem_putsOf hm
      obtain ⟨c, hc, hall⟩ := hp.arrived (Reached.after hn past)
      exact ⟨c, hc, hall m (mem_unsought hsought)⟩
    rcases List.mem_append.mp hm with hm | hm
    · obtain ⟨c, hc, hmc⟩ := ih hm
      refine ⟨c, ?_, hmc⟩
      rw [journal, arrivedAt_append]
      exact List.mem_append_left _ hc
    cases deals (Reached.after hn past).sound a with
    | calm hbegins hputs =>
      rw [hputs] at hm
      cases hm
    | passes he hbegins hputs =>
      rw [hputs] at hm
      cases hm
    | drops hd hbegins hputs =>
      rw [hputs] at hm
      cases hm
    | moves hp hadv hbegins hputs hos =>
      rw [journal, hos]
      exact fresh hp hputs hm
    | ends hp hadv hbegins hputs hos =>
      obtain ⟨c, hc, hmc⟩ := fresh hp hputs hm
      refine ⟨c, ?_, hmc⟩
      rw [journal, hos, ← List.append_assoc, arrivedAt_append]
      exact List.mem_append_left _ hc

/-! ## What the log has -/

/-- The log has the members of an arrival that its task has come past, unless the arrival was
dropped. -/
def Stows (ds : TaskId → Option Delivery) (log : List (RequestId × Member)) (id : RequestId)
    (a : Arrival) : Prop :=
  match a.fate with
  | .underway => ∃ d, ds a.task = some d ∧ d.request = id ∧
      ∀ m ∈ a.chunk.stamped, (id, m) ∈ log ∨ m ∈ d.unsought
  | .ended _ => ∀ m ∈ a.chunk.stamped, (id, m) ∈ log
  | .dropped => True

section

variable {ds ds' : TaskId → Option Delivery} {log log' : List (RequestId × Member)}
  {id : RequestId} {x : Arrival}

theorem Stows.grow (hx : Stows ds log id x) (hlog : log ⊆ log')
    (hds : x.isUnderway = true → ds' x.task = ds x.task) : Stows ds' log' id x := by
  unfold Stows at hx ⊢
  cases hf : x.fate with
  | underway =>
    rw [hf] at hx
    obtain ⟨d, hd, hid, hall⟩ := hx
    have hu : x.isUnderway = true := by simp [Arrival.isUnderway, hf]
    exact ⟨d, (hds hu).trans hd, hid, fun m hm => (hall m hm).imp_left fun h => hlog h⟩
  | ended v =>
    rw [hf] at hx
    exact fun m hm => hlog (hx m hm)
  | dropped => trivial

theorem Stows.delivery (hx : Stows ds log id x) (hu : x.isUnderway = true) :
    ∃ d, ds x.task = some d ∧ d.request = id ∧
      ∀ m ∈ x.chunk.stamped, (id, m) ∈ log ∨ m ∈ d.unsought := by
  have hf : x.fate = .underway := by simpa [Arrival.isUnderway] using hu
  unfold Stows at hx
  rw [hf] at hx
  exact hx

theorem Stows.advance {d d' : Delivery} (hx : Stows ds log id x) (hd : ds t = some d)
    (hd' : ds' t = some d') (hrequest : d'.request = d.request) (hlog : log ⊆ log')
    (hunsought : ∀ m ∈ d.unsought, (d.request, m) ∈ log' ∨ m ∈ d'.unsought)
    (hne : ∀ t', t' ≠ t → ds' t' = ds t') : Stows ds' log' id x := by
  by_cases hu : x.isUnderway = true ∧ x.task = t
  · obtain ⟨hu, rfl⟩ := hu
    obtain ⟨d₀, hd₀, rfl, hall⟩ := hx.delivery hu
    cases hd.symm.trans hd₀
    have hf : x.fate = .underway := by simpa [Arrival.isUnderway] using hu
    unfold Stows
    rw [hf]
    refine ⟨d', hd', hrequest, fun m hm => ?_⟩
    rcases hall m hm with hm | hm
    · exact .inl (hlog hm)
    · exact hunsought m hm
  · exact hx.grow hlog fun hux => hne _ fun e => hu ⟨hux, e⟩

theorem Stows.close {d : Delivery} {fate : Fate} (hx : Stows ds log id x) (hd : ds t = some d)
    (hlog : log ⊆ log') (hne : ∀ t', t' ≠ t → ds' t' = ds t')
    (hfate : fate = .dropped ∨
      ∃ v, fate = .ended v ∧ ∀ m ∈ d.unsought, (d.request, m) ∈ log') :
    Stows ds' log' id (x.close t fate) := by
  unfold Arrival.close
  split
  · rename_i hc
    obtain ⟨ht, hu⟩ := hc
    obtain ⟨d', hd', rfl, hall⟩ := hx.delivery hu
    rw [ht, hd] at hd'
    cases hd'
    rcases hfate with rfl | ⟨v, rfl, hrest⟩
    · trivial
    · intro m hm
      rcases hall m hm with h | h
      · exact hlog h
      · exact hrest m h
  · rename_i hc
    exact hx.grow hlog fun hu => hne _ fun e => hc ⟨e, hu⟩

def Stowed (ds : TaskId → Option Delivery) (log : List (RequestId × Member)) (id : RequestId)
    (as : List Arrival) : Prop :=
  ∀ x ∈ as, Stows ds log id x

/-- A task that ends its chunk, or leaves it, closes it if it is for the request. -/
theorem Stowed.close {d : Delivery} {fate : Fate} {as : List Arrival} (has : Stowed ds log id as)
    (hd : ds t = some d) (hlog : log ⊆ log') (hne : ∀ t', t' ≠ t → ds' t' = ds t')
    (hfate : fate = .dropped ∨
      ∃ v, fate = .ended v ∧ ∀ m ∈ d.unsought, (d.request, m) ∈ log') :
    Stowed ds' log' id (if d.request = id then as.map (Arrival.close t fate) else as) := by
  intro x hx
  split at hx
  · obtain ⟨y, hy, rfl⟩ := List.mem_map.mp hx
    exact (has y hy).close hd hlog hne hfate
  · rename_i hid
    refine (has x hx).grow hlog fun hu => hne _ ?_
    rintro rfl
    obtain ⟨d₀, hd₀, hid₀, -⟩ := (has x hx).delivery hu
    cases hd.symm.trans hd₀
    exact hid hid₀

theorem Stowed.present {j : List Occurrence} {d : Delivery} {es : List Event}
    {os : List Occurrence} (has : Stowed h.delivery? log id (arrivals j id))
    (hp : h.Presents t d es os) :
    Stowed (Function.update h.delivery? t (some d)) log id (arrivals (j ++ os) id) := by
  cases hp with
  | held hd =>
    rw [List.append_nil, ← hd, Function.update_eq_self]
    exact has
  | @fresh c i hnone hm =>
    have old {x : Arrival} (hx : x ∈ arrivals j id) :
        Stows (Function.update h.delivery? t (some (h.arrival i c))) log id x := by
      refine (has x hx).grow (List.Subset.refl _) fun hu => ?_
      obtain ⟨d, hd, -⟩ := (has x hx).delivery hu
      apply Function.update_of_ne
      rintro rfl
      cases hnone.symm.trans hd
    intro x hx
    rw [arrivals_append, List.foldl_cons, List.foldl_nil, Arrival.meet] at hx
    split at hx
    · rename_i hi
      rcases List.mem_append.mp hx with hx | hx
      · exact old hx
      · rw [List.mem_singleton.mp hx]
        exact ⟨_, Function.update_self .., hi, fun m hm => .inr hm⟩
    · exact old hx

end

theorem mem_putsOf_of_sought {d : Delivery} (hcaching : d.caching = true) {m : Member}
    (hm : m ∈ d.sought (d.advance t h.book)) : (d.request, m) ∈ h.putsOf t d := by
  rw [putsOf, if_pos hcaching]
  exact List.mem_map_of_mem hm

theorem stowed (hn : h.IsNew) (hk : h.caching = true) (id : RequestId) (past : List Action) :
    Stowed (h.after past).delivery? (h.stored past) id (arrivals (h.journal past) id) := by
  induction past with
  | nil =>
    intro x hx
    cases hx
  | cons a past ih =>
    have hlog : h.stored past ⊆ h.stored (a :: past) := List.subset_append_left _ _
    have kept (hos : ∀ o ∈ (h.after past).occurrences a, o.line? ≠ some id)
        (hds : ∀ t, (h.after (a :: past)).delivery? t = (h.after past).delivery? t) :
        Stowed (h.after (a :: past)).delivery? (h.stored (a :: past)) id
          (arrivals (h.journal (a :: past)) id) := by
      intro x hx
      rw [journal, arrivals_append_of_line hos] at hx
      exact (ih x hx).grow hlog fun _ => hds x.task
    have others {t : TaskId} (d : Delivery) (hne : ∀ t', t' ≠ t →
        (h.after (a :: past)).delivery? t' = (h.after past).delivery? t') (t' : TaskId)
        (ht : t' ≠ t) : (h.after (a :: past)).delivery? t' =
          Function.update (h.after past).delivery? t (some d) t' := by
      rw [Function.update_of_ne ht]
      exact hne t' ht
    have put {t : TaskId} {d : Delivery} {es : List Event} {os : List Occurrence}
        (hp : (h.after past).Presents t d es os)
        (hputs : (h.after past).puts a = (h.after past).putsOf t d) {m : Member}
        (hm : m ∈ d.sought (d.advance t (h.after past).book)) :
        (d.request, m) ∈ h.stored (a :: past) := by
      rw [stored, hputs]
      exact List.mem_append_right _
        (mem_putsOf_of_sought ((caching_of_presents hn hp).trans hk) hm)
    cases deals (Reached.after hn past).sound a with
    | calm hbegins hputs hos hstock hsame => exact kept (fun o hm => by simp [hos o hm]) hsame
    | passes he hbegins hputs hos hstock hsame => exact kept (by simp [hos]) hsame
    | @moves t d d' es os b hp hadv hbegins hputs hos hstock hself hne =>
      obtain ⟨hrequest, -, -, hunsought, -⟩ := Delivery.sought_of_moved hadv
      rw [journal, hos]
      intro x hx
      refine (ih.present hp x hx).advance (Function.update_self ..) hself hrequest hlog ?_
        (others d hne)
      intro m hm
      rw [hunsought] at hm
      exact (List.mem_append.mp hm).imp_left (put hp hputs)
    | @ends t d es os b out hp hadv hbegins hputs hos hstock hself hne =>
      have hunsought := (Delivery.sought_of_done hadv).1
      rw [journal, hos, ← List.append_assoc, arrivals_append, List.foldl_cons, List.foldl_nil,
        Arrival.meet]
      refine (ih.present hp).close (Function.update_self ..) hlog (others d hne)
        (.inr ⟨_, rfl, fun m hm => put hp hputs ?_⟩)
      rwa [hunsought]
    | @drops t d hd hbegins hputs hos hstock hself hne =>
      rw [journal, hos, arrivals_append, List.foldl_cons, List.foldl_nil, Arrival.meet]
      exact ih.close hd hlog hne (.inl rfl)

end Hub
end Rollcall
