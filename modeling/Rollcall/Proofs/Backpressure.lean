import Rollcall.Proofs.Calm

/-!
# Backpressure

How large the channels are decides how often a chunk has to wait for its reader, and so in how many
alternations it is handed over. It decides nothing else: as long as all that is registered is read,
events come to the same whatever the capacity, and in whatever order the tasks run. Main statement:
`backpressure_changes_nothing`.
-/

namespace Rollcall

def Request.resized (n : Nat) (r : Request) : Request :=
  { r with channel := { r.channel with capacity := n } }

namespace Hub

def resized (h : Hub) (n : UInt64) : Hub :=
  { h with
    limits := { h.limits with capacity := n }
    book := { h.book with requests := h.book.requests.map (Request.resized n.toNat) } }

/-- Whether two hubs agree in the tasks and their outcomes, in the cache, the statistics and the
registry, and in how many chunks each request has had. -/
structure SameResults (h g : Hub) : Prop where
  tasks : ∀ t, g.task? t = h.task? t
  outcomes : ∀ t o, (t, o) ∈ g.finished ↔ (t, o) ∈ h.finished
  cache : g.book.cache = h.book.cache
  stats : g.stats = h.stats
  registry : g.book.registry = h.book.registry
  chunks : ∀ id, g.book.view (·.chunks) id = h.book.view (·.chunks) id

def WorkedOff (h : Hub) (t : TaskId) (index : Nat) : Prop :=
  h.task? t = some (.loop index none) ∧ ∃ l, h.loops[index]? = some l ∧ l.queue = []

/-! ## Hubs that differ in their channels -/

/-- Whether two hubs agree in all but what is left to read and how much that may be. -/
structure Alike (s s' : Hub) : Prop where
  tasks : ∀ t, s'.task? t = s.task? t
  finished : s'.finished = s.finished
  caching : s'.caching = s.caching
  intake : s'.intake.drained = s.intake.drained
  read : ∀ {id : RequestId} {r : Request}, s.book.requests[id]? = some r →
    ∃ r', s'.book.requests[id]? = some r' ∧ r'.channel.read = r.channel.read

variable {s s' g g' : Hub} {t : TaskId} {index : Nat} {es : List Event}

theorem Alike.symm (h : Alike s s') : Alike s' s where
  tasks t := (h.tasks t).symm
  finished := h.finished.symm
  caching := h.caching.symm
  intake := h.intake.symm
  read {id r'} hr' := by
    obtain ⟨r, hr, -⟩ := Book.exists_of_drained (congrArg Intake.book h.intake.symm) hr'
    obtain ⟨r₁, hr₁, he⟩ := h.read hr
    cases hr'.symm.trans hr₁
    exact ⟨r, hr, he.symm⟩

theorem requests_resized (h : Hub) (n : UInt64) (id : RequestId) :
    (h.resized n).book.requests[id]? = (h.book.requests[id]?).map (Request.resized n.toNat) :=
  Array.getElem?_map

theorem alike_resized (h : Hub) (n : UInt64) : Alike h (h.resized n) where
  tasks _ := rfl
  finished := rfl
  caching := rfl
  intake := by
    simp only [intake, Intake.drained, Book.drained, resized, Array.map_map]
    rfl
  read {id r} hr := by
    refine ⟨r.resized n.toNat, ?_, rfl⟩
    rw [requests_resized, hr]
    rfl

theorem Results.intake_eq (hs : Alike s s') (hr : Results s t index es g)
    (hr' : Results s' t index es g') : g'.intake.drained = g.intake.drained := by
  rw [hr'.intake, hr.intake, hs.caching]
  exact Intake.drained_takeAll hs.intake es

theorem Results.outcome (hs : Alike s s') (hr : Results s t index es g)
    (hr' : Results s' t index es g') {t' : TaskId} {o : Outcome} (ho : (t', o) ∈ g.finished) :
    (t', o) ∈ g'.finished := by
  rw [hr'.finished]
  rcases (hr.finished t' o).mp ho with
    ho | ⟨x, id, got, r, q, ms, hx, hreq, hq, hcomplete, hplaced, rfl⟩
  · exact .inl (hs.finished ▸ ho)
  · right
    obtain ⟨r', hreq', hread⟩ := hs.read hreq
    obtain ⟨q', hq', he⟩ :=
      Book.exists_of_drained (congrArg Intake.book (hr.intake_eq hs hr')) hq
    have hcomplete' : q'.drained.complete = true := by
      rw [he]
      exact hcomplete
    refine ⟨x, id, got, r', q', ms, (hs.tasks t').trans hx, hreq', hq', hcomplete', ?_, rfl⟩
    rw [Request.placed_of_drained he, hplaced, hread]

theorem Results.same (hs : Alike s s') (hr : Results s t index es g)
    (hr' : Results s' t index es g')
    (hreads : ∀ t x id got, s.task? t = some (Gatherer.task x id got) →
      ∃ r, s.book.requests[id]? = some r) : SameResults g g' := by
  have hintake := hr.intake_eq hs hr'
  have hbook : g'.book.drained = g.book.drained := congrArg Intake.book hintake
  have hcache := congrArg Book.cache hbook
  have hstats := congrArg Intake.stats hintake
  have hregistry := congrArg Book.registry hbook
  refine ⟨fun t' => ?_, fun t' o => ⟨?_, ?_⟩, hcache, hstats, hregistry, fun id => ?_⟩
  · by_cases hx : ∃ x id got, s.task? t' = some (Gatherer.task x id got)
    · obtain ⟨x, id, got, hx⟩ := hx
      obtain ⟨r, hreq⟩ := hreads t' x id got hx
      obtain ⟨r', hreq', hread⟩ := hs.read hreq
      obtain ⟨ms, q, hq, hplaced, htask, -⟩ := hr.reads hx hreq
      obtain ⟨ms', q', hq', hplaced', htask', -⟩ := hr'.reads ((hs.tasks t').trans hx) hreq'
      obtain ⟨q₁, hq₁, he⟩ := Book.exists_of_drained hbook hq
      cases hq'.symm.trans hq₁
      have hcomplete : q'.drained.complete = q.drained.complete := by rw [he]
      have hcomplete : q'.complete = q.complete := hcomplete
      have hms : ms' = ms := by
        rw [Request.placed_of_drained he, hplaced, hread] at hplaced'
        exact List.append_cancel_right (List.reverse_injective hplaced'.symm)
      rw [htask', htask, hcomplete, hms]
    · push Not at hx
      have hx' (x : Gatherer) (id : RequestId) (got : List Member) :
          s'.task? t' ≠ some (x.task id got) := by
        rw [hs.tasks]
        exact hx x id got
      rw [hr'.others hx', hr.others hx, hs.tasks]
  · exact hr'.outcome hs.symm hr
  · exact hr.outcome hs hr'
  · have hview : g'.book.drained.view (·.chunks) id = g.book.drained.view (·.chunks) id := by
      rw [hbook]
    simp only [Book.view, Book.requests_drained, Option.map_map] at hview
    exact hview

/-! ## Resized hubs at rest -/

theorem quiet_resized {h₁ h₂ : Hub} (hn₁ : h₁.IsNew) (hn₂ : h₂.IsNew) {past₁ past₂ : List Action}
    {n : UInt64} (hsame : h₂.after past₂ = (h₁.after past₁).resized n)
    (hq : (h₁.after past₁).Quiet) (hread : (h₁.after past₁).AllRead) :
    (h₂.after past₂).Quiet := by
  intro t
  have htask : (h₂.after past₂).task? t = (h₁.after past₁).task? t := by
    rw [hsame]
    rfl
  -- None of the tasks that are left at rest looks at a capacity.
  cases ht : (h₁.after past₁).task? t with
  | none => exact advance_of_gone (htask.trans ht)
  | some task =>
    apply advance_of_blocked (htask.trans ht)
    rcases reads_or_rests hn₁ hq hread ht with ⟨x, id, got, rfl⟩ | hrests
    · obtain ⟨r, hp⟩ := pending_of_quiet hn₁ hq ht
      have hreq : (h₂.after past₂).book.requests[id]? = some (r.resized n.toNat) := by
        rw [hsame, requests_resized, hp.request]
        rfl
      have hp' : (h₂.after past₂).Pending x id (r.resized n.toNat) := by
        refine ⟨?_, ?_, hreq, hp.waiting, hp.unread⟩
        · rw [hsame]
          exact hp.token
        · rw [hsame]
          exact hp.undue
      exact hp'.blocked (Reached.after hn₂ past₂).sound
    · apply Rests.blocked
      rw [hsame]
      cases hrests with
      | idles hl hf hs hqueue => exact .idles hl hf hs hqueue
      | held hs hd => exact .held hs hd

end Hub

/-- **Backpressure never changes results.** Take two hubs, with any two capacities, after histories
that have left them equal but for the capacity; every registered request is read to its end by a call
for members or by a reader, and no task can move. Give one loop any events, and let the tasks run in
any two orders, with nothing else being done. Then in both hubs the tasks come to rest with all events
worked off, each as if it had been taken in at once, and with the same results. -/
theorem backpressure_changes_nothing {h₁ h₂ : Hub} (hn₁ : h₁.IsNew) (hn₂ : h₂.IsNew)
    (past₁ past₂ : List Action)
    (hsame : h₂.after past₂ = (h₁.after past₁).resized h₂.limits.capacity)
    (hq : (h₁.after past₁).Quiet) (hread : (h₁.after past₁).AllRead) {t : TaskId} {index : Nat}
    (ht : (h₁.after past₁).task? t = some (.loop index none))
    (hpush : (h₁.after past₁).canPush index = true) (es : List Event) :
    (h₁.after (.push index es :: past₁)).Settles fun g₁ =>
      (h₂.after (.push index es :: past₂)).Settles fun g₂ =>
        Hub.SameResults g₁ g₂ ∧ g₁.WorkedOff t index ∧ g₂.WorkedOff t index ∧
        g₁.intake.drained =
          ((h₁.after past₁).intake.takeAll (h₁.after past₁).caching es).drained := by
  have hq₂ := Hub.quiet_resized hn₁ hn₂ hsame hq hread
  have hread₂ : (h₂.after past₂).AllRead := by
    rw [hsame]
    exact hread
  have ht₂ : (h₂.after past₂).task? t = some (.loop index none) := by
    rw [hsame]
    exact ht
  have hpush₂ : (h₂.after past₂).canPush index = true := by
    rw [hsame]
    exact hpush
  have halike : Hub.Alike (h₁.after past₁) (h₂.after past₂) :=
    hsame ▸ Hub.alike_resized (h₁.after past₁) h₂.limits.capacity
  apply Hub.settles
  intro ts₁ hrest₁
  apply Hub.settles
  intro ts₂ hrest₂
  have hr₁ := Hub.results_at_rest hn₁ hq hread ht hpush es ts₁ hrest₁
  have hr₂ := Hub.results_at_rest hn₂ hq₂ hread₂ ht₂ hpush₂ es ts₂ hrest₂
  refine ⟨hr₁.same halike hr₂ ?_, ⟨hr₁.loop, hr₁.queue⟩, ⟨hr₂.loop, hr₂.queue⟩, hr₁.intake⟩
  intro t x id got hx
  obtain ⟨r, hp⟩ := Hub.pending_of_quiet hn₁ hq hx
  exact ⟨r, hp.request⟩

def Hub.roomy : Hub := { Hub.sample .accept with limits := { capacity := 2 } }

theorem Hub.roomy_isNew : Hub.roomy.IsNew := ⟨{ capacity := 2 }, .nothing, [_], true, _, rfl⟩

def awaited : List Action := .run :: emptyHanded

theorem awaited_quiet : ((Hub.sample .accept).after awaited).Quiet := by
  apply Hub.quiet_of_lt
  intro t ht
  have htasks : ((Hub.sample .accept).after awaited).tasks.size = 2 := rfl
  rw [htasks] at ht
  obtain rfl | rfl : t = 0 ∨ t = 1 := by omega
  · rfl
  · rfl

theorem awaited_read : ((Hub.sample .accept).after awaited).AllRead := by
  intro n id hreg
  have hsound := (Reached.after (Hub.sample_isNew .accept) awaited).sound
  obtain ⟨r, hq, -⟩ := (hsound.registered n id).mp hreg
  have hlt : id < 1 := (Array.getElem?_eq_some_iff.mp hq).1
  obtain rfl := Nat.lt_one_iff.mp hlt
  exact ⟨0, .call { inquiry := .all ⟨1⟩, goal := .members (some "t") }, [], rfl⟩

theorem awaited_roomy : Hub.roomy.after awaited =
    ((Hub.sample .accept).after awaited).resized Hub.roomy.limits.capacity := by
  have hrequests : ((Hub.sample .accept).after awaited).book.requests.map (Request.resized 2) =
      (Hub.roomy.after awaited).book.requests := by
    apply Array.ext_getElem?
    intro i
    rw [Array.getElem?_map]
    match i with
    | 0 => rfl
    | i + 1 => rfl
  rw [Hub.resized, show Hub.roomy.limits.capacity.toNat = 2 from rfl, hrequests]
  rfl

/-- A chunk of two members is handed over in two parts, or at once. -/
theorem awaited_same :
    (Hub.sample .accept).IsNew ∧ Hub.roomy.IsNew ∧
      ((Hub.sample .accept).after (.push 0 [.chunk (.sample [.sample "a", .sample "b"])] ::
        awaited)).Settles fun g₁ =>
      (Hub.roomy.after (.push 0 [.chunk (.sample [.sample "a", .sample "b"])] ::
        awaited)).Settles fun g₂ => Hub.SameResults g₁ g₂ ∧ g₁.stats.completed = 1 := by
  have hn₁ := Hub.sample_isNew .accept
  have hn₂ := Hub.roomy_isNew
  have hloop : ((Hub.sample .accept).after awaited).task? 1 = some (.loop 0 none) := rfl
  have hresults := backpressure_changes_nothing hn₁ hn₂ awaited awaited awaited_roomy awaited_quiet
    awaited_read hloop rfl [.chunk (.sample [.sample "a", .sample "b"])]
  refine ⟨hn₁, hn₂, hresults.mono fun g₁ hg₁ => hg₁.mono fun g₂ hg₂ => ?_⟩
  obtain ⟨hsame, -, -, hintake⟩ := hg₂
  have hstats := congrArg (fun x => x.stats.completed) hintake
  exact ⟨hsame, hstats⟩

end Rollcall
