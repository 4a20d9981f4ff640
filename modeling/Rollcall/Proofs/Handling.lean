import Rollcall.Proofs.Caching

/-!
# What a task has handled

The trail of a task tells which events it has handled to their end, in order, which one it has begun
since, and what has been cached of each. It is read off the segments of the task: an event begins
when the task takes it, and it has been handled to its end when the request has consumed its chunk,
or at once if nobody waits for it. Trail and task fit together (`Hub.agrees`), so a hub that keeps a
cache caches every member of what it handles. Main statement: `cached_whatever_comes`.
-/

namespace Rollcall

structure Handling where
  event : Event
  -- the request that waited for it
  request : Option RequestId := none
  -- what has been put into the cache of it, in order
  cached : List Member := []

namespace Handling

/-- The members that an event brings to the request that it was matched with, each in the guild of
the event. -/
def members (x : Handling) : List Member :=
  match x.event, x.request with
  | .chunk c, some _ => c.members.map (Member.inGuild c.guild)
  | _, _ => []

def put (x : Handling) (ms : List Member) : Handling := { x with cached := x.cached ++ ms }

def Left (caching : Bool) (x : Handling) (d : Delivery) : Prop :=
  ∃ c past, x.event = .chunk c ∧ x.request = some d.request ∧ d.declared = c.count ∧
    d.caching = caching ∧ c.stamped = past ++ d.unsought ∧ x.cached = if caching then past else []

end Handling

structure Trail where
  -- the events that have been handled to their end, the earliest first
  ended : List Handling := []
  current : Option Handling := none

namespace Trail

def goOn (tr : Trail) (x : Handling) (ms : List Member) : Move Book Delivery Delivered → Trail
  | .blocked => tr
  | .moved _ _ => { tr with current := some (x.put ms) }
  | .done _ _ => { ended := tr.ended ++ [x.put ms] }

def cached (tr : Trail) : List Member := (tr.ended ++ tr.current.toList).flatMap (·.cached)

end Trail

namespace Hub

variable {h g : Hub} {t t' : TaskId} {a : Action} {d : Delivery} {e : Event} {tr : Trail}

def extend (h : Hub) (t : TaskId) (tr : Trail) : Trail :=
  let cached := (h.puts (.segment t)).map (·.2)
  match h.nextOf t with
  | none => tr
  | some (.event e) =>
    match h.taken? e with
    | none => { tr with ended := tr.ended ++ [{ event := e }] }
    | some d => tr.goOn { event := e, request := some d.request } cached (d.advance t h.book)
  | some (.delivery d) =>
    match tr.current with
    | none => tr
    | some x => tr.goOn x cached (d.advance t h.book)

def trail (h : Hub) (t : TaskId) : List Action → Trail
  | [] => {}
  | .segment t' :: past =>
    if t' = t then (h.after past).extend t (h.trail t past) else h.trail t past
  | _ :: past => h.trail t past

theorem trail_segment (h : Hub) (t : TaskId) (past : List Action) :
    h.trail t (.segment t :: past) = (h.after past).extend t (h.trail t past) := if_pos rfl

theorem trail_of_ne (h : Hub) {t : TaskId} {a : Action} (ha : a ≠ .segment t) (past : List Action) :
    h.trail t (a :: past) = h.trail t past := by
  cases a with
  | segment t' => exact if_neg fun e => ha (congrArg Action.segment e)
  | _ => rfl

/-! ## Segments -/

theorem go_of_handedOn {x : Next} (hd : h.handedOn? x = some d) :
    ∃ g : Hub, h.go t x = g.deliver t d ∧ g.book = h.book := by
  cases x with
  | delivery d' =>
    cases hd
    exact ⟨h, rfl, rfl⟩
  | event e =>
    cases e with
    | other kind => cases hd
    | chunk c =>
      obtain ⟨id, hm, rfl⟩ := Option.map_eq_some_iff.mp hd
      exact ⟨_, receive_of_match hm, rfl⟩

theorem go_of_passed (he : h.taken? e = none) : ∃ g, h.go t (.event e) = .done g () := by
  cases e with
  | other kind => exact ⟨h, rfl⟩
  | chunk c =>
    have hm : h.match? c = none := Option.map_eq_none_iff.mp he
    have hgo := receive.eq_def h t (.chunk c)
    simp only at hgo
    have hm' : match? { h with stats.chunks := h.stats.chunks + 1 } c = none := hm
    rw [hm'] at hgo
    exact ⟨_, hgo⟩

theorem lands_handedOn {x : Next} (hx : h.nextOf t = some x) (hd : h.handedOn? x = some d) :
    ∃ g : Hub, g.book = h.book ∧ h.Lands t (g.deliver t d) (h.perform (.segment t)) := by
  obtain ⟨⟨loops, hl⟩, -⟩ := segment_of_next hx
  have hd' : handedOn? { h with loops } x = some d := hd
  obtain ⟨g, hgo, hbook⟩ := go_of_handedOn (t := t) hd'
  rw [hgo] at hl
  exact ⟨g, hbook, hl⟩

theorem perform_of_blocked {x : Next} (hx : h.nextOf t = some x) (hd : h.handedOn? x = some d)
    (hm : d.advance t h.book = .blocked) : h.perform (.segment t) = h := by
  obtain ⟨g, hbook, hl⟩ := lands_handedOn hx hd
  rw [deliver_of_blocked (by rw [hbook]; exact hm)] at hl
  generalize h.perform (.segment t) = h' at hl ⊢
  cases hl
  rfl

/-- What a task holds, and which requests there are, after a segment in which it hands `d` on. -/
theorem segment_handedOn {x : Next} (hx : h.nextOf t = some x) (hd : h.handedOn? x = some d) :
    match d.advance t h.book with
      | .blocked => h.perform (.segment t) = h
      | .moved b d' => (h.perform (.segment t)).delivery? t = some d' ∧
          (h.perform (.segment t)).book.requests = b.requests
      | .done b _ => (h.perform (.segment t)).delivery? t = none ∧
          (h.perform (.segment t)).book.requests = b.requests := by
  cases hm : d.advance t h.book with
  | blocked => exact perform_of_blocked hx hd hm
  | moved b d' =>
    obtain ⟨g, hbook, hl⟩ := lands_handedOn hx hd
    rw [deliver, hbook, hm] at hl
    generalize h.perform (.segment t) = h' at hl ⊢
    cases hl with
    | moved hstock hself hne hbook => exact ⟨hself, congrArg Book.requests hbook⟩
  | done b out =>
    obtain ⟨g, hbook, hl⟩ := lands_handedOn hx hd
    rw [deliver, hbook, hm] at hl
    generalize h.perform (.segment t) = h' at hl ⊢
    cases hl with
    | done hstock hself hne hbook =>
      exact ⟨hself, (congrArg Book.requests hbook).trans (b.requests_settle d.request out.verdict)⟩

theorem delivery?_passed (hx : h.nextOf t = some (.event e)) (he : h.taken? e = none) :
    (h.perform (.segment t)).delivery? t = none := by
  obtain ⟨⟨loops, hl⟩, -⟩ := segment_of_next hx
  have he' : taken? { h with loops } e = none := he
  obtain ⟨g, hgo⟩ := go_of_passed (t := t) he'
  rw [hgo] at hl
  generalize h.perform (.segment t) = h' at hl ⊢
  cases hl with
  | done hstock hself hne => exact hself

/-- A task that has nothing to do next goes on without a delivery, if it goes on at all. -/
theorem idle_of_moved {task task' : Task} (hx : h.next? task = none)
    (hm : h.advanceTask t task = .moved g task') : ¬task'.Attends ∧ task'.delivery? = none := by
  cases task with
  | call c =>
    obtain ⟨c', rfl, -⟩ := advanceCall_of_moved hm
    exact ⟨fun ha => ha, rfl⟩
  | reader id goal got =>
    obtain ⟨m, rfl⟩ := task_of_advanceReader hm
    exact ⟨fun ha => ha, rfl⟩
  | handler e => cases hx
  | delivering d => cases hx
  | loop index current =>
    -- A loop without anything to do next waits or stops.
    exfalso
    unfold advanceTask advanceLoop at hm
    cases loopIdle hx with
    | absent hl => simp [hl] at hm
    | told hl hs => cases current <;> simp [hl, hs] at hm
    | starved hl hs hqueue =>
      simp only [hl, hs, hqueue] at hm
      split at hm
      · cases hm
      · split at hm <;> cases hm

/-- A task that has nothing to do next holds afterwards what it has held, or nothing. -/
theorem idle_segment (hx : h.nextOf t = none) :
    (h.perform (.segment t)).task? t = h.task? t ∨
      (h.perform (.segment t)).delivery? t = none ∧
        ∀ task, (h.perform (.segment t)).task? t = some task → ¬task.Attends := by
  cases h.segment_cases t with
  | waits hadv he => exact .inl (congrArg (task? · t) he)
  | goesOn task task' g ht hm hf he hself =>
    have hnext : h.next? task = none := by rwa [nextOf, ht] at hx
    obtain ⟨hno, hd⟩ := idle_of_moved hnext hm
    refine .inr ⟨(delivery?_of_task hself).trans hd, fun task₁ h₁ => ?_⟩
    cases hself.symm.trans h₁
    exact hno
  | ends task g o ht hm hf he hself =>
    refine .inr ⟨by rw [delivery?, hself]; rfl, fun task₁ h₁ => ?_⟩
    cases hself.symm.trans h₁

theorem Spawns.delivery? {task : Task} (hs : h.Spawns a task) : task.delivery? = none := by
  cases hs <;> rfl

theorem delivery?_of_other (ha : a ≠ .segment t) :
    (h.perform a).delivery? t = h.delivery? t ∨ (h.perform a).task? t = none := by
  cases h.retasks a with
  | kept he => exact .inl (congrArg (·.bind Task.delivery?) (task?_of_tasks he t))
  | @started task hs he =>
    left
    rw [← delivery?_spawn h hs.delivery? t]
    exact congrArg (·.bind Task.delivery?) (task?_of_tasks he t)
  | @released j place result shard t' c id ha' hj hheld ht' hs he =>
    left
    rw [delivery?, task?_of_set he ht']
    split
    · rename_i e
      rw [e, delivery?_of_task ht']
      rfl
    · rfl
  | @dropped t' task ha' ht' he =>
    have htask := task?_of_set he ht' t
    by_cases e : t = t'
    · rw [if_pos e] at htask
      exact .inr htask
    · rw [if_neg e] at htask
      exact .inl (congrArg (·.bind Task.delivery?) htask)
  | segment t' ha' =>
    have hne : t ≠ t' := fun e => ha (ha'.trans (congrArg Action.segment e.symm))
    exact .inl (by rw [ha', delivery?, task?_segment hne, delivery?])

/-! ## What the cache gets -/

theorem deals_or_stays (h : Hub) (a : Action) :
    h.Deals a (h.perform a) ∨ h.perform a = h ∧ h.puts a = [] := by
  by_cases hstuck : ∃ t e d, a = .segment t ∧ h.nextOf t = some (.event e) ∧
      h.taken? e = some d ∧ d.advance t h.book = .blocked
  · right
    obtain ⟨t, e, d, rfl, hx, hd, hblocked⟩ := hstuck
    refine ⟨perform_of_blocked hx hd hblocked, ?_⟩
    rw [puts, hx, Option.bind_some, handedOn?, hd, Option.elim_some, putsOf, hblocked]
    simp [Delivery.sought]
  · left
    apply deals_unless_stuck
    intro t e d ha hx hd hblocked
    exact hstuck ⟨t, e, d, ha, hx, hd, hblocked⟩

theorem cache_perform (h : Hub) (a : Action) :
    (h.perform a).book.cache = h.book.cache.putAll ((h.puts a).map (·.2)) ∧
      (h.perform a).caching = h.caching := by
  rcases h.deals_or_stays a with hd | ⟨hstay, hnone⟩
  · rw [← replay_eq]
    exact ⟨hd.stock.1, hd.stock.2.2⟩
  · rw [hstay, hnone]
    exact ⟨rfl, rfl⟩

theorem puts_handedOn {x : Next} (hx : h.nextOf t = some x) (hd : h.handedOn? x = some d) :
    (h.puts (.segment t)).map (·.2) = if d.caching then d.sought (d.advance t h.book) else [] := by
  rw [puts, hx, Option.bind_some, hd, Option.elim_some, putsOf]
  split <;> simp [Function.comp_def]

/-! ## Trails and tasks -/

end Hub

namespace Handling

variable {x : Handling} {d d' : Delivery} {t : TaskId} {b b' : Book} {caching : Bool}

theorem Left.prefix (hx : x.Left caching d) : x.cached <+: x.members := by
  obtain ⟨c, past, he, hr, -, -, hsplit, hcached⟩ := hx
  have hmembers : x.members = c.stamped := by rw [members, he, hr, Chunk.stamped]
  rw [hcached, hmembers, hsplit]
  split
  · exact List.prefix_append _ _
  · exact List.nil_prefix

theorem Left.moved (hx : x.Left caching d) (hm : d.advance t b = .moved b' d') :
    (x.put (if d.caching then d.sought (d.advance t b) else [])).Left caching d' := by
  obtain ⟨c, past, he, hr, hf, hk, hsplit, hcached⟩ := hx
  obtain ⟨hrequest, hdeclared, hcaching, hunsought, -⟩ := Delivery.sought_of_moved hm
  refine ⟨c, past ++ d.sought (d.advance t b), he, ?_, hdeclared.trans hf, hcaching.trans hk, ?_, ?_⟩
  · rw [hrequest]
    exact hr
  · rw [hsplit, hunsought, List.append_assoc]
  · rw [put, hcached, hk]
    split <;> simp

theorem Left.done {out : Delivered} (hx : x.Left caching d) (hm : d.advance t b = .done b' out) :
    (x.put (if d.caching then d.sought (d.advance t b) else [])).cached =
      if caching then x.members else [] := by
  obtain ⟨c, past, he, hr, -, hk, hsplit, hcached⟩ := hx
  have hmembers : x.members = c.stamped := by rw [members, he, hr, Chunk.stamped]
  rw [put, hcached, hk, (Delivery.sought_of_done hm).1, hmembers, hsplit]
  split <;> simp

end Handling

namespace Hub

variable {h g : Hub} {t t' : TaskId} {a : Action} {d : Delivery} {e : Event} {tr : Trail}

theorem attends_of_next {x : Next} (hx : h.nextOf t = some x) :
    ∃ task, h.task? t = some task ∧ task.Attends := by
  obtain ⟨task, ht, hx⟩ := Option.bind_eq_some_iff.mp hx
  refine ⟨task, ht, ?_⟩
  cases task with
  | call c => cases hx
  | reader id goal got => cases hx
  | _ => trivial

/-- How a trail and its task fit together, in a hub that caches or does not. -/
structure Agrees (h : Hub) (t : TaskId) (caching : Bool) (tr : Trail) : Prop where
  ended : ∀ x ∈ tr.ended, x.cached = if caching then x.members else []
  current : ∀ x ∈ tr.current, x.cached <+: x.members
  held : ∀ d, h.delivery? t = some d → ∃ x, tr.current = some x ∧ x.Left caching d
  idle : ∀ task, h.task? t = some task → task.Attends → task.delivery? = none → tr.current = none

theorem Agrees.idle_of_event {caching : Bool} {e : Event} (ha : h.Agrees t caching tr)
    (hx : h.nextOf t = some (.event e)) : tr.current = none := by
  obtain ⟨task, ht, hattends⟩ := attends_of_next hx
  exact ha.idle task ht hattends ((delivery?_of_task ht).symm.trans (delivery?_of_next hx))

theorem Agrees.goOn {x : Handling} {y : Next} (ha : h.Agrees t h.caching tr)
    (hy : h.nextOf t = some y) (hd : h.handedOn? y = some d) (hx : x.Left h.caching d) :
    (h.perform (.segment t)).Agrees t h.caching
      (tr.goOn x ((h.puts (.segment t)).map (·.2)) (d.advance t h.book)) := by
  have hnext := segment_handedOn hy hd
  rw [puts_handedOn hy hd]
  cases hm : d.advance t h.book with
  | blocked =>
    rw [perform_of_blocked hy hd hm]
    exact ha
  | moved b d' =>
    have hleft := hx.moved hm
    rw [hm] at hnext hleft
    replace hnext := hnext.1
    refine ⟨ha.ended, fun y hy => ?_, fun d₁ hd₁ => ?_, fun task ht hattends hnone => ?_⟩
    · cases hy
      exact hleft.prefix
    · cases hnext.symm.trans hd₁
      exact ⟨_, rfl, hleft⟩
    · cases ((delivery?_of_task ht).trans hnone).symm.trans hnext
  | done b out =>
    have hdone := hx.done hm
    rw [hm] at hnext hdone
    replace hnext := hnext.1
    refine ⟨fun y hy => ?_, nofun, fun d₁ hd₁ => ?_, fun _ _ _ _ => rfl⟩
    · rcases List.mem_append.mp hy with hy | hy
      · exact ha.ended y hy
      · rw [List.mem_singleton.mp hy]
        exact hdone
    · cases hnext.symm.trans hd₁

theorem Agrees.extend (ha : h.Agrees t h.caching tr) :
    (h.perform (.segment t)).Agrees t h.caching (h.extend t tr) := by
  cases hx : h.nextOf t with
  | none =>
    simp only [Hub.extend, hx]
    rcases idle_segment hx with hsame | ⟨hnone, hno⟩
    · refine ⟨ha.ended, ha.current, fun d hd => ha.held d ?_, fun task ht => ha.idle task ?_⟩
      · rw [← hd, delivery?, delivery?, hsame]
      · rw [← ht, hsame]
    · refine ⟨ha.ended, ha.current, fun d hd => ?_, fun task ht hattends => ?_⟩
      · cases hnone.symm.trans hd
      · exact absurd hattends (hno task ht)
  | some x =>
    cases x with
    | delivery d =>
      obtain ⟨x, hcurrent, hleft⟩ := ha.held d (delivery?_of_next hx)
      simp only [Hub.extend, hx, hcurrent]
      exact ha.goOn hx rfl hleft
    | event e =>
      cases hd : h.taken? e with
      | some d =>
        simp only [Hub.extend, hx, hd]
        apply ha.goOn hx hd
        cases e with
        | other kind => cases hd
        | chunk c =>
          obtain ⟨id, -, rfl⟩ := Option.map_eq_some_iff.mp hd
          refine ⟨c, [], rfl, rfl, rfl, rfl, rfl, ?_⟩
          split <;> rfl
      | none =>
        simp only [Hub.extend, hx, hd]
        have hidle := ha.idle_of_event hx
        refine ⟨fun y hy => ?_, ha.current, fun d' hd' => ?_, fun _ _ _ _ => hidle⟩
        · rcases List.mem_append.mp hy with hy | hy
          · exact ha.ended y hy
          · -- Nobody waits for the event, so there is nothing to be cached of it.
            rw [List.mem_singleton.mp hy]
            cases e <;> simp [Handling.members]
        · cases (delivery?_passed hx hd).symm.trans hd'

theorem trail_unstarted {past : List Action} (hle : (h.after past).tasks.size ≤ t) :
    h.trail t past = {} := by
  induction past with
  | nil => rfl
  | cons a past ih =>
    have hle' := Nat.le_trans (h.size_le_after past [a]) hle
    by_cases ha : a = .segment t
    · subst ha
      have hnone : (h.after past).task? t = none := by
        rw [task?, Array.getElem?_eq_none hle']
        rfl
      have hnext : (h.after past).nextOf t = none := by rw [nextOf, hnone]; rfl
      rw [trail_segment, ih hle', Hub.extend, hnext]
    · rw [trail_of_ne h ha, ih hle']

/-- The trail of a task that has been started since agrees with the task after every history. -/
theorem agrees (h : Hub) (ht : h.tasks.size ≤ t) (past : List Action) :
    (h.after past).caching = h.caching ∧
      (h.after past).Agrees t h.caching (h.trail t past) := by
  induction past with
  | nil =>
    have hnone : h.task? t = none := by
      rw [task?, Array.getElem?_eq_none ht]
      rfl
    refine ⟨rfl, List.forall_mem_nil _, fun x hx => ?_, fun d hd => ?_, fun _ _ _ _ => rfl⟩
    · cases hx
    · rw [after, delivery?, hnone] at hd
      cases hd
  | cons a past ih =>
    obtain ⟨hcaching, hagrees⟩ := ih
    refine ⟨((h.after past).cache_perform a).2.trans hcaching, ?_⟩
    by_cases ha : a = .segment t
    · subst ha
      rw [trail_segment, after, ← hcaching]
      rw [← hcaching] at hagrees
      exact hagrees.extend
    · rw [trail_of_ne h ha]
      refine ⟨hagrees.ended, hagrees.current, fun d hd => ?_, fun task htask hattends hnone => ?_⟩
      · rcases delivery?_of_other ha with he | he
        · exact hagrees.held d (he.symm.trans hd)
        · rw [after, delivery?, he] at hd
          cases hd
      · cases (h.after past).perform_task a t ha with
        | kept he => exact hagrees.idle task (he.symm.trans htask) hattends hnone
        | started task' hsize => rw [trail_unstarted (Nat.le_of_eq hsize.symm)]
        | released c id result ht' hs he =>
          cases he.symm.trans htask
          exact hattends.elim
        | dropped _ he => cases he.symm.trans htask

/-! ## Dispatched events -/

inductive HandlesOne (h : Hub) (t : TaskId) (e : Event) (tr : Trail) : Prop
  | unbegun (ht : h.task? t = some (.handler e)) (htr : tr = {})
  | underway (d : Delivery) (x : Handling) (ht : h.task? t = some (.delivering d))
      (htr : tr = { current := some x }) (he : x.event = e)
  | finished (x : Handling) (ht : h.task? t = none) (htr : tr = { ended := [x] }) (he : x.event = e)

/-- What becomes of a task that handles one event, by what comes of what it has at hand. -/
theorem task?_handler {task : Task} {x : Next} (ht : h.task? t = some task)
    (hm : h.advanceTask t task = handlerMove (h.go t x)) :
    match h.go t x with
    | .blocked => h.perform (.segment t) = h
    | .moved _ d => (h.perform (.segment t)).task? t = some (.delivering d)
    | .done _ _ => (h.perform (.segment t)).task? t = none := by
  cases hgo : h.go t x with
  | blocked =>
    rw [hgo] at hm
    exact (congrArg (Option.getD · h) (advance_of_blocked ht hm))
  | moved g d =>
    rw [hgo] at hm
    cases h.segment_cases t with
    | waits hadv => cases (advance_of_moved ht hm).symm.trans hadv
    | goesOn task₁ task' g' ht' hm' hf he hself =>
      cases ht.symm.trans ht'
      cases hm.symm.trans hm'
      exact hself
    | ends task₁ g' o ht' hm' =>
      cases ht.symm.trans ht'
      cases hm.symm.trans hm'
  | done g u =>
    rw [hgo] at hm
    cases h.segment_cases t with
    | waits hadv => cases (advance_of_done ht hm).symm.trans hadv
    | goesOn task₁ task' g' ht' hm' =>
      cases ht.symm.trans ht'
      cases hm.symm.trans hm'
    | ends task₁ g' o ht' hm' hf he hself => exact hself

theorem handlesOne_goOn {task : Task} {y : Next} {x : Handling} {ms : List Member}
    (ht : h.task? t = some task) (hm : h.advanceTask t task = handlerMove (h.go t y))
    (hd : h.handedOn? y = some d) (hx : x.event = e) (hended : tr.ended = [])
    (hstay : h.HandlesOne t e tr) :
    (h.perform (.segment t)).HandlesOne t e (tr.goOn x ms (d.advance t h.book)) := by
  obtain ⟨g, hgo, hbook⟩ := go_of_handedOn (t := t) hd
  have htask := task?_handler ht hm
  rw [hgo, deliver, hbook] at htask
  cases hadv : d.advance t h.book with
  | blocked =>
    rw [hadv] at htask
    rw [htask]
    exact hstay
  | moved b d' =>
    rw [hadv] at htask
    exact .underway d' (x.put ms) htask (by rw [Trail.goOn, hended]) hx
  | done b out =>
    rw [hadv] at htask
    exact .finished (x.put ms) htask (by rw [Trail.goOn, hended, List.nil_append]) hx

theorem HandlesOne.extend (ho : h.HandlesOne t e tr) :
    (h.perform (.segment t)).HandlesOne t e (h.extend t tr) := by
  cases ho with
  | unbegun ht htr =>
    subst htr
    have hx : h.nextOf t = some (.event e) := by rw [nextOf, ht]; rfl
    have hm : h.advanceTask t (.handler e) = handlerMove (h.go t (.event e)) := rfl
    cases hd : h.taken? e with
    | some d =>
      simp only [Hub.extend, hx, hd]
      exact handlesOne_goOn ht hm hd rfl rfl (.unbegun ht rfl)
    | none =>
      simp only [Hub.extend, hx, hd]
      obtain ⟨g, hgo⟩ := go_of_passed (t := t) hd
      have htask := task?_handler ht hm
      rw [hgo] at htask
      exact .finished { event := e } htask rfl rfl
  | underway d x ht htr he =>
    subst htr
    have hx : h.nextOf t = some (.delivery d) := by rw [nextOf, ht]; rfl
    simp only [Hub.extend, hx]
    exact handlesOne_goOn (y := .delivery d) ht rfl rfl he rfl (.underway d x ht rfl he)
  | finished x ht htr he =>
    have hx : h.nextOf t = none := by rw [nextOf, ht]; rfl
    simp only [Hub.extend, hx]
    exact .finished x (gone_segment ht t) htr he

theorem handlesOne (h : Hub) (e : Event) {before later : List Action}
    (hkept : .dropTask (h.after before).tasks.size ∉ later) :
    (h.after (later ++ .dispatch e :: before)).HandlesOne (h.after before).tasks.size e
      (h.trail (h.after before).tasks.size (later ++ .dispatch e :: before)) := by
  induction later with
  | nil =>
    have ht : (h.after (.dispatch e :: before)).task? (h.after before).tasks.size =
        some (.handler e) := by
      rw [after, perform, dispatch, task?_spawn, if_pos rfl]
    have htrail : h.trail (h.after before).tasks.size before = {} :=
      trail_unstarted (Nat.le_refl _)
    exact .unbegun ht htrail
  | cons a later ih =>
    have hstands := ih fun hm => hkept (List.mem_cons_of_mem _ hm)
    have hsize : (h.after before).tasks.size <
        (h.after (later ++ .dispatch e :: before)).tasks.size := by
      refine Nat.lt_of_lt_of_le ?_ (h.size_le_after (.dispatch e :: before) later)
      simp [after, perform, dispatch, spawn]
    rw [List.cons_append]
    generalize hpast : later ++ .dispatch e :: before = past at hstands hsize ⊢
    generalize (h.after before).tasks.size = t at hstands hsize hkept ⊢
    by_cases ha : a = .segment t
    · subst ha
      rw [trail_segment]
      exact hstands.extend
    · rw [trail_of_ne h ha]
      cases (h.after past).perform_task a t ha with
      | kept he =>
        cases hstands with
        | unbegun ht htr => exact .unbegun (he.trans ht) htr
        | underway d x ht htr hx => exact .underway d x (he.trans ht) htr hx
        | finished x ht htr hx => exact .finished x (he.trans ht) htr hx
      | started task ht => exact absurd ht (Nat.ne_of_lt hsize)
      | released c id result ht =>
        cases hstands with
        | unbegun ht' => cases ht.symm.trans ht'
        | underway d x ht' => cases ht.symm.trans ht'
        | finished x ht' => cases ht.symm.trans ht'
      | dropped hdrop => exact absurd (hdrop ▸ List.mem_cons_self) hkept

/-! ## Every member is cached -/

/-- All that has been put into the cache, the earliest first, each with the task that put it. -/
def shelved (h : Hub) : List Action → List (TaskId × Member)
  | [] => []
  | .segment t :: past =>
    h.shelved past ++ ((h.after past).puts (.segment t)).map fun e => (t, e.2)
  | _ :: past => h.shelved past

theorem map_shelved (h : Hub) (past : List Action) :
    (h.shelved past).map (·.2) = (h.stored past).map (·.2) := by
  induction past with
  | nil => rfl
  | cons a past ih =>
    cases a with
    | segment t => simp [shelved, stored, ih, Function.comp_def]
    | _ => simp [shelved, stored, ih, puts]

theorem cache_shelved (h : Hub) (past : List Action) :
    (h.after past).book.cache = h.book.cache.putAll ((h.shelved past).map (·.2)) := by
  rw [map_shelved]
  induction past with
  | nil => rfl
  | cons a past ih =>
    rw [after, ((h.after past).cache_perform a).1, ih, stored, List.map_append]
    exact List.foldl_append.symm

theorem puts_of_none (hx : (h.nextOf t).bind h.handedOn? = none) : h.puts (.segment t) = [] := by
  rw [puts, hx, Option.elim_none]

theorem Agrees.cached_extend {caching : Bool} (ha : h.Agrees t caching tr) :
    (h.extend t tr).cached = tr.cached ++ (h.puts (.segment t)).map (·.2) := by
  have goOn {x : Handling} {y : Next} {d : Delivery} (hy : h.nextOf t = some y)
      (hd : h.handedOn? y = some d) (hx : tr.cached = tr.ended.flatMap (·.cached) ++ x.cached) :
      (tr.goOn x ((h.puts (.segment t)).map (·.2)) (d.advance t h.book)).cached =
        tr.cached ++ (h.puts (.segment t)).map (·.2) := by
    rw [puts_handedOn hy hd, hx]
    cases hm : d.advance t h.book with
    | blocked => simp [Trail.goOn, Delivery.sought, hx]
    | moved b d' => simp [Trail.goOn, Trail.cached, Handling.put]
    | done b out => simp [Trail.goOn, Trail.cached, Handling.put]
  cases hx : h.nextOf t with
  | none => simp [Hub.extend, hx, puts_of_none]
  | some y =>
    cases y with
    | delivery d =>
      obtain ⟨x, hcurrent, -⟩ := ha.held d (delivery?_of_next hx)
      simp only [Hub.extend, hx, hcurrent]
      exact goOn hx rfl (by simp [Trail.cached, hcurrent])
    | event e =>
      have hidle := ha.idle_of_event hx
      cases hd : h.taken? e with
      | some d =>
        simp only [Hub.extend, hx, hd]
        exact goOn hx hd (by simp [Trail.cached, hidle])
      | none =>
        have hnone : (h.nextOf t).bind h.handedOn? = none := by rw [hx]; exact hd
        simp [Hub.extend, hx, hd, puts_of_none hnone, Trail.cached, hidle]

/-- What a task has put into the cache is what has been cached of its events, one after the other.
-/
theorem cached_trail (h : Hub) (ht : h.tasks.size ≤ t) (past : List Action) :
    ((h.shelved past).filter (·.1 = t)).map (·.2) = (h.trail t past).cached := by
  induction past with
  | nil => rfl
  | cons a past ih =>
    by_cases ha : a = .segment t
    · subst ha
      rw [trail_segment, (h.agrees ht past).2.cached_extend, ← ih, shelved]
      simp [List.filter_map, Function.comp_def]
    · rw [trail_of_ne h ha, ← ih]
      cases a with
      | segment t' =>
        have hne : t' ≠ t := fun e => ha (congrArg Action.segment e)
        simp [shelved, List.filter_map, Function.comp_def, hne]
      | _ => rfl

end Hub

/-- What a task has cached of an event that it has handled to its end is in the cache, unless it has
been overwritten. -/
theorem found_of_handled {h : Hub} (hk : h.caching = true) {past : List Action} {t : TaskId}
    (ht : h.tasks.size ≤ t) {x : Handling} (hx : x ∈ (h.trail t past).ended) {c : Chunk}
    {id : RequestId} (he : x.event = .chunk c) (hid : x.request = some id) {m : Member}
    (hm : m ∈ c.members) : ∃ last ∈ (h.shelved past).map (·.2), last.guild = c.guild ∧
      last.user.id = m.user.id ∧ (h.after past).book.cache.get? c.guild m.user.id = some last := by
  have hmember : m.inGuild c.guild ∈ x.members := by
    rw [Handling.members, he, hid]
    exact List.mem_map_of_mem hm
  have hall : x.cached = x.members := by rw [(h.agrees ht past).2.ended x hx, if_pos hk]
  have hcached : m.inGuild c.guild ∈ (h.trail t past).cached :=
    List.mem_flatMap.mpr ⟨x, List.mem_append_left _ hx, hall ▸ hmember⟩
  rw [← h.cached_trail ht past] at hcached
  have hshelved : m.inGuild c.guild ∈ (h.shelved past).map (·.2) :=
    (List.filter_sublist.map _).subset hcached
  rw [h.cache_shelved past]
  exact MemberCache.get?_of_put hshelved h.book.cache

/-- **Members are cached whatever becomes of them.** Take any hub that keeps a cache, whatever is in
it, and any history. What its tasks have put, in this order, is all that has been done to the cache:
found for a guild and a user is the last member of them that was put, or what was there before if
none was. A task that has been started since has put, one event after the other: of an event that it
has handled to its end all the members, each in the guild of the event, if a request waited for the
event, and nothing otherwise; and the first few members of the event that it has at hand or was
dropped with. So something that was put is found for the guild of an event that was handled to its
end, and for each user in it. A task that was started for one event and is gone, without having been
dropped, has handled just that event. -/
theorem cached_whatever_comes {h : Hub} (hk : h.caching = true) (past : List Action) :
    (h.after past).book.cache = h.book.cache.putAll ((h.shelved past).map (·.2)) ∧
    (∀ guild user, (h.after past).book.cache.get? guild user =
      (((h.shelved past).map (·.2)).reverse.find? fun m => m.guild = guild ∧ m.user.id = user).or
        (h.book.cache.get? guild user)) ∧
    (∀ t, h.tasks.size ≤ t →
      ((h.shelved past).filter (·.1 = t)).map (·.2) = (h.trail t past).cached ∧
      (∀ x ∈ (h.trail t past).ended, x.cached = x.members) ∧
      (∀ x ∈ (h.trail t past).current, x.cached <+: x.members) ∧
      ∀ x ∈ (h.trail t past).ended, ∀ c id, x.event = .chunk c → x.request = some id →
        ∀ m ∈ c.members, ∃ last ∈ (h.shelved past).map (·.2), last.guild = c.guild ∧
          last.user.id = m.user.id ∧
          (h.after past).book.cache.get? c.guild m.user.id = some last) ∧
    ∀ t e later before, past = later ++ .dispatch e :: before → t = (h.after before).tasks.size →
      (h.after past).task? t = none → .dropTask t ∉ later →
      ∃ x, h.trail t past = { ended := [x] } ∧ x.event = e := by
  refine ⟨h.cache_shelved past, fun guild user => ?_, fun t ht => ?_, ?_⟩
  · rw [h.cache_shelved past]
    exact MemberCache.get?_putAll _ _ guild user
  · have hagrees := (h.agrees ht past).2
    refine ⟨h.cached_trail ht past, fun x hx => ?_, hagrees.current,
      fun x hx c id he hid m hm => found_of_handled hk ht hx he hid hm⟩
    rw [hagrees.ended x hx, if_pos hk]
  · rintro t e later before rfl rfl hgone hkept
    cases h.handlesOne e hkept with
    | unbegun ht => cases hgone.symm.trans ht
    | underway d x ht => cases hgone.symm.trans ht
    | finished x ht htr he => exact ⟨x, htr, he⟩

/-- A request that does not take all members is cancelled while the last of three waits for room. -/
def cancelledMidway : List Action :=
  [.segment 1, .cancel 0, .segment 1, .segment 1,
    .dispatch (.chunk (.sample [.sample "a", { Member.sample "b" with guild := ⟨2⟩ }, .sample "c"])),
    .segment 0, .segment 0, .callStream (.filtered ⟨1⟩ fun m => m.user.username ≠ "b")]

theorem cancelledMidway_cached :
    (Hub.sample .accept).caching = true ∧ (Hub.sample .accept).tasks.size ≤ 1 ∧
      ((Hub.sample .accept).shelved cancelledMidway).map (·.2) =
        [.sample "a", .sample "b", .sample "c"] ∧
      ((Hub.sample .accept).trail 1 cancelledMidway).ended.map (·.cached) =
        [[.sample "a", .sample "b", .sample "c"]] ∧
      ((Hub.sample .accept).after cancelledMidway).book.cache.get? ⟨1⟩ ⟨7⟩ =
        some (.sample "c") := by
  obtain ⟨-, hfound, hall, -⟩ := cached_whatever_comes (h := Hub.sample .accept) rfl cancelledMidway
  obtain ⟨-, hended, -⟩ := hall 1 (Nat.zero_le 1)
  refine ⟨rfl, Nat.zero_le 1, rfl, ?_, (hfound ⟨1⟩ ⟨7⟩).trans rfl⟩
  rw [List.map_congr_left hended]
  rfl

end Rollcall
