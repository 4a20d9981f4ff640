import Rollcall.Proofs.Stall
import Rollcall.Proofs.Stock
import Rollcall.Proofs.Verdicts

/-!
# What the hub does with chunks

A segment of a task that attends to events either begins with an event or goes on with the chunk it
holds. All that an action does with chunks is that: nothing else touches the cache, the statistics or
a chunk that is handed over (`Hub.deals`).
-/

namespace Rollcall

theorem Book.cache_settle (b : Book) (id : RequestId) (v : Verdict) :
    (b.settle id v).cache = b.cache := by
  unfold settle
  split
  · exact b.cache_deregisterRequest id
  · rfl

def Stats.meet (s : Stats) : Chunk × Option RequestId → Stats
  | (_, none) => { s with chunks := s.chunks + 1, unmatched := s.unmatched + 1 }
  | (c, some _) =>
    { s with
      chunks := s.chunks + 1
      notFound := s.notFound + UInt64.ofNat c.notFound.length }

namespace Hub

variable {h h' : Hub} {t : TaskId}

/-! ## What is at hand -/

inductive Next where
  | event (e : Event)
  | delivery (d : Delivery)

def next? (h : Hub) : Task → Option Next
  | .handler e => some (.event e)
  | .delivering d => some (.delivery d)
  | .loop index current =>
    match h.loops[index]? with
    | none => none
    | some l =>
      if l.stopping then none
      else match current with
        | some d => some (.delivery d)
        | none => l.queue.head?.map .event
  | _ => none

def nextOf (h : Hub) (t : TaskId) : Option Next := (h.task? t).bind h.next?

inductive LoopIdle (h : Hub) (index : Nat) : Option Delivery → Prop
  | absent {current : Option Delivery} (hl : h.loops[index]? = none) : LoopIdle h index current
  | told {current : Option Delivery} {l : EventLoop} (hl : h.loops[index]? = some l)
      (hs : l.stopping = true) : LoopIdle h index current
  | starved {l : EventLoop} (hl : h.loops[index]? = some l) (hs : l.stopping = false)
      (hqueue : l.queue = []) : LoopIdle h index none

theorem loopIdle {index : Nat} {current : Option Delivery}
    (hx : h.next? (.loop index current) = none) : h.LoopIdle index current := by
  cases hl : h.loops[index]? with
  | none => exact .absent hl
  | some l =>
    simp only [next?, hl] at hx
    cases hs : l.stopping with
    | true => exact .told hl hs
    | false =>
      cases current with
      | some d => simp [hs] at hx
      | none => exact .starved hl hs (by simpa [hs] using hx)

/-- The delivery that an event begins, if it is a chunk that somebody waits for. -/
def taken? (h : Hub) : Event → Option Delivery
  | .other _ => none
  | .chunk c => (h.match? c).map fun id => h.arrival id c

def handedOn? (h : Hub) : Next → Option Delivery
  | .event e => h.taken? e
  | .delivery d => some d

def begins (h : Hub) : Action → List Event
  | .segment t =>
    match h.nextOf t with
    | some (.event e) => [e]
    | _ => []
  | _ => []

def putsOf (h : Hub) (t : TaskId) (d : Delivery) : List (RequestId × Member) :=
  if d.caching then (d.sought (d.advance t h.book)).map fun m => (d.request, m) else []

/-- The members that an action puts into the cache, each with the request that its chunk is for. -/
def puts (h : Hub) : Action → List (RequestId × Member)
  | .segment t => ((h.nextOf t).bind h.handedOn?).elim [] (h.putsOf t)
  | _ => []

def missing (os : List Occurrence) : Nat :=
  (os.flatMap fun
    | .arrived _ _ c => c.notFound
    | _ => []).length

def go (h : Hub) (t : TaskId) : Next → Move Hub Delivery Unit
  | .event e => h.receive t e
  | .delivery d => h.deliver t d

def told (h : Hub) (t : TaskId) : Next → List Occurrence
  | .event e => h.receipts t e
  | .delivery d => h.deliveries t d

inductive Carried : Move Hub Delivery Unit → Move Hub Task Outcome → Prop
  | blocked : Carried .blocked .blocked
  | moved {g : Hub} {d : Delivery} {task : Task} (hd : task.delivery? = some d) :
      Carried (.moved g d) (.moved g task)
  | ended {g : Hub} {task : Task} (hd : task.delivery? = none) : Carried (.done g ()) (.moved g task)
  | done {g : Hub} {o : Outcome} : Carried (.done g ()) (.done g o)

theorem carried_handlerMove (m : Move Hub Delivery Unit) : Carried m (handlerMove m) := by
  cases m with
  | blocked => exact .blocked
  | moved g d => exact .moved rfl
  | done g u => exact .done

theorem carried_loopMove (index : Nat) (m : Move Hub Delivery Unit) :
    Carried m (loopMove index m) := by
  cases m with
  | blocked => exact .blocked
  | moved g d => exact .moved rfl
  | done g u => exact .ended rfl

theorem carried_of_next {task : Task} {x : Next} (hx : h.next? task = some x) :
    (∃ loops, Carried (go { h with loops } t x) (h.advanceTask t task)) ∧
      h.segmentOccurrences t task = h.told t x := by
  cases task with
  | call c => cases hx
  | reader id goal got => cases hx
  | handler e =>
    cases hx
    exact ⟨⟨h.loops, carried_handlerMove _⟩, rfl⟩
  | delivering d =>
    cases hx
    exact ⟨⟨h.loops, carried_handlerMove _⟩, rfl⟩
  | loop index current =>
    cases hl : h.loops[index]? with
    | none => simp [next?, hl] at hx
    | some l =>
      simp only [next?, hl] at hx
      simp only [advanceTask, advanceLoop, segmentOccurrences, loopOccurrences, hl]
      split at hx
      · cases hx
      rename_i hs
      cases current with
      | some d =>
        cases hx
        simp only [hs]
        exact ⟨⟨h.loops, carried_loopMove index _⟩, rfl⟩
      | none =>
        cases hqueue : l.queue with
        | nil => simp [hqueue] at hx
        | cons e rest =>
          simp only [hqueue, List.head?_cons, Option.map_some, Option.some.injEq] at hx
          subst hx
          simp only [hs]
          exact ⟨⟨_, carried_loopMove index _⟩, rfl⟩

inductive Lands (h : Hub) (t : TaskId) : Move Hub Delivery Unit → Hub → Prop
  | blocked : Lands h t .blocked h
  | moved {g h' : Hub} {d : Delivery} (hstock : h'.stock = g.stock)
      (hself : h'.delivery? t = some d)
      (hne : ∀ t', t' ≠ t → h'.delivery? t' = h.delivery? t') (hbook : h'.book = g.book) :
      Lands h t (.moved g d) h'
  | done {g h' : Hub} (hstock : h'.stock = g.stock) (hself : h'.delivery? t = none)
      (hne : ∀ t', t' ≠ t → h'.delivery? t' = h.delivery? t') (hbook : h'.book = g.book) :
      Lands h t (.done g ()) h'

theorem Segment.delivery?_ne {t' : TaskId} (hseg : h.Segment t h') (hne : t' ≠ t) :
    h'.delivery? t' = h.delivery? t' := by
  rw [delivery?, (hseg.ne hne).1, delivery?]

theorem lands {task : Task} {m : Move Hub Delivery Unit} (ht : h.task? t = some task)
    (hc : Carried m (h.advanceTask t task)) : h.Lands t m (h.perform (.segment t)) := by
  have hseg := h.segment_cases t
  have hne (t' : TaskId) (h' : t' ≠ t) := hseg.delivery?_ne h'
  cases hseg with
  | waits hadv he =>
    rw [he]
    cases hm : h.advanceTask t task with
    | blocked =>
      rw [hm] at hc
      cases hc
      exact .blocked
    | moved g task' => cases (advance_of_moved ht hm).symm.trans hadv
    | done g o => cases (advance_of_done ht hm).symm.trans hadv
  | goesOn task' task'' g ht' hm hf he hself =>
    cases ht.symm.trans ht'
    rw [hm] at hc
    have hself := delivery?_of_task hself
    cases hc with
    | moved hd => exact .moved (by rw [he]; rfl) (hself.trans hd) hne (by rw [he]; rfl)
    | ended hd => exact .done (by rw [he]; rfl) (hself.trans hd) hne (by rw [he]; rfl)
  | ends task' g o ht' hm hf he hself =>
    cases ht.symm.trans ht'
    rw [hm] at hc
    cases hc
    refine .done (by rw [he]; rfl) ?_ hne (by rw [he]; rfl)
    rw [delivery?, hself]
    rfl

/-! ## Actions -/

/-- What task `t` hands on in a segment: a delivery that it holds, or one that an event begins. -/
inductive Presents (h : Hub) (t : TaskId) : Delivery → List Event → List Occurrence → Prop
  | held {d : Delivery} (hd : h.delivery? t = some d) : Presents h t d [] []
  | fresh {c : Chunk} {id : RequestId} (hd : h.delivery? t = none) (hm : h.match? c = some id) :
      Presents h t (h.arrival id c) [.chunk c] [.arrived t id c]

def chunksOf (h : Hub) (es : List Event) : List (Chunk × Option RequestId) :=
  es.filterMap fun
    | .chunk c => some (c, h.match? c)
    | .other _ => none

def met (h : Hub) (es : List Event) : Stats := (h.chunksOf es).foldl Stats.meet h.stats

def stocked (h : Hub) (cache : MemberCache) (stats : Stats) : Stock := ⟨cache, stats, h.caching⟩

theorem notFound_met {d : Delivery} {es : List Event} {os : List Occurrence}
    (hp : h.Presents t d es os) :
    (h.met es).notFound = h.stats.notFound + UInt64.ofNat (missing os) := by
  cases hp with
  | held hd => exact (UInt64.add_zero _).symm
  | @fresh c id hd hm => simp [met, chunksOf, hm, Stats.meet, missing]

theorem met_of_passed {e : Event} (he : h.taken? e = none) :
    (h.met [e]).notFound = h.stats.notFound := by
  cases e with
  | other kind => rfl
  | chunk c =>
    have hm : h.match? c = none := Option.map_eq_none_iff.mp he
    simp [met, chunksOf, hm, Stats.meet]

inductive Deals (h : Hub) (a : Action) (h' : Hub) : Prop
  | calm (hbegins : h.begins a = []) (hputs : h.puts a = [])
      (hos : ∀ o ∈ h.occurrences a, o.line? = none) (hstock : h'.stock = h.stock)
      (hsame : ∀ t, h'.delivery? t = h.delivery? t)
  | passes {e : Event} (he : h.taken? e = none) (hbegins : h.begins a = [e]) (hputs : h.puts a = [])
      (hos : h.occurrences a = []) (hstock : h'.stock = h.stocked h.book.cache (h.met [e]))
      (hsame : ∀ t, h'.delivery? t = h.delivery? t)
  | moves {t : TaskId} {d d' : Delivery} {es : List Event} {os : List Occurrence} {b : Book}
      (hp : h.Presents t d es os) (hadv : d.advance t h.book = .moved b d')
      (hbegins : h.begins a = es) (hputs : h.puts a = h.putsOf t d) (hos : h.occurrences a = os)
      (hstock : h'.stock = h.stocked b.cache (h.met es)) (hself : h'.delivery? t = some d')
      (hne : ∀ t', t' ≠ t → h'.delivery? t' = h.delivery? t')
  | ends {t : TaskId} {d : Delivery} {es : List Event} {os : List Occurrence} {b : Book}
      {out : Delivered} (hp : h.Presents t d es os) (hadv : d.advance t h.book = .done b out)
      (hbegins : h.begins a = es) (hputs : h.puts a = h.putsOf t d)
      (hos : h.occurrences a = os ++ [.settled t d.request out])
      (hstock : h'.stock = h.stocked b.cache ((h.met es).settle out))
      (hself : h'.delivery? t = none)
      (hne : ∀ t', t' ≠ t → h'.delivery? t' = h.delivery? t')
  | drops {t : TaskId} {d : Delivery} (hd : h.delivery? t = some d) (hbegins : h.begins a = [])
      (hputs : h.puts a = []) (hos : h.occurrences a = [.interrupted t d.request])
      (hstock : h'.stock = h.stock) (hself : h'.delivery? t = none)
      (hne : ∀ t', t' ≠ t → h'.delivery? t' = h.delivery? t')

/-- A delivery at hand was at hand before, or the action has handed it on. -/
theorem Deals.origin {d : Delivery} (hdeals : h.Deals a h') (hd : h'.delivery? t = some d) :
    h.delivery? t = some d ∨ ∃ d₀ es os b, h.Presents t d₀ es os ∧
      d₀.advance t h.book = .moved b d := by
  cases hdeals with
  | calm hbegins hputs hos hstock hsame => exact .inl ((hsame t).symm.trans hd)
  | passes he hbegins hputs hos hstock hsame => exact .inl ((hsame t).symm.trans hd)
  | @moves t' d₀ d' es os b hp hadv hbegins hputs hos hstock hself hne =>
    by_cases e : t = t'
    · subst e
      cases hself.symm.trans hd
      exact .inr ⟨d₀, es, os, b, hp, hadv⟩
    · exact .inl ((hne t e).symm.trans hd)
  | @ends t' d₀ es os b out hp hadv hbegins hputs hos hstock hself hne =>
    by_cases e : t = t'
    · subst e
      cases hself.symm.trans hd
    · exact .inl ((hne t e).symm.trans hd)
  | @drops t' d₀ hd₀ hbegins hputs hos hstock hself hne =>
    by_cases e : t = t'
    · subst e
      cases hself.symm.trans hd
    · exact .inl ((hne t e).symm.trans hd)

theorem deals_of_presents {d : Delivery} {es : List Event} {os : List Occurrence} {g : Hub}
    (hp : h.Presents t d es os) (hg : g.book = h.book)
    (hstock : g.stock = h.stocked h.book.cache (h.met es))
    (hbegins : h.begins (.segment t) = es) (hputs : h.puts (.segment t) = h.putsOf t d)
    (hadv : d.advance t h.book ≠ .blocked)
    (hos : h.occurrences (.segment t) = os ++ h.deliveries t d)
    (hl : h.Lands t (g.deliver t d) h') : h.Deals (.segment t) h' := by
  have hstats : g.stats = h.met es := congrArg Stock.stats hstock
  have hcaching : g.caching = h.caching := congrArg Stock.caching hstock
  unfold deliver at hl
  rw [hg] at hl
  unfold deliveries at hos
  cases hm : d.advance t h.book with
  | blocked => exact absurd hm hadv
  | moved b d' =>
    rw [hm] at hl hos
    cases hl with
    | moved hs hself hne =>
      rw [List.append_nil] at hos
      refine .moves hp hm hbegins hputs hos (hs.trans ?_) hself hne
      simp only [stock, stocked, hstats, hcaching]
  | done b out =>
    rw [hm] at hl hos
    cases hl with
    | done hs hself hne =>
      have hcache := b.cache_settle d.request out.verdict
      refine .ends hp hm hbegins hputs hos (hs.trans ?_) hself hne
      simp only [settleDelivery_eq, stock, stocked, withIntake, intake, Intake.settle, hcache, hstats,
        hcaching]

theorem delivery?_of_next {x : Next} (hx : h.nextOf t = some x) :
    h.delivery? t = match x with
      | .event _ => none
      | .delivery d => some d := by
  obtain ⟨task, ht, hx⟩ := Option.bind_eq_some_iff.mp hx
  rw [delivery?_of_task ht]
  cases task with
  | call c => cases hx
  | reader id goal got => cases hx
  | handler e =>
    cases hx
    rfl
  | delivering d =>
    cases hx
    rfl
  | loop index current =>
    simp only [next?] at hx
    split at hx
    · cases hx
    split at hx
    · cases hx
    cases current with
    | none =>
      obtain ⟨e, -, rfl⟩ := Option.map_eq_some_iff.mp hx
      rfl
    | some d =>
      cases hx
      rfl

theorem segment_of_next {x : Next} (hx : h.nextOf t = some x) :
    (∃ loops, h.Lands t (go { h with loops } t x) (h.perform (.segment t))) ∧
      h.occurrences (.segment t) = h.told t x := by
  obtain ⟨task, ht, hx⟩ := Option.bind_eq_some_iff.mp hx
  obtain ⟨⟨loops, hc⟩, hos⟩ := carried_of_next (t := t) hx
  refine ⟨⟨loops, lands ht hc⟩, ?_⟩
  rw [← hos, occurrences, ht, Option.elim_some]

theorem deals_of_delivery {d : Delivery} (hx : h.nextOf t = some (.delivery d)) :
    h.Deals (.segment t) (h.perform (.segment t)) := by
  obtain ⟨⟨loops, hl⟩, hos⟩ := segment_of_next hx
  have hd := delivery?_of_next hx
  have hbegins : h.begins (.segment t) = [] := by rw [begins, hx]
  have hputs : h.puts (.segment t) = h.putsOf t d := by
    rw [puts, hx, Option.bind_some, handedOn?, Option.elim_some]
  by_cases hadv : d.advance t h.book = .blocked
  · have hgo : go { h with loops } t (.delivery d) = .blocked := deliver_of_blocked hadv
    rw [hgo] at hl
    generalize h.perform (.segment t) = h' at hl
    cases hl
    refine .calm hbegins ?_ ?_ rfl fun _ => rfl
    · rw [hputs, putsOf, hadv]
      simp [Delivery.sought]
    · rw [hos]
      simp [told, deliveries, hadv]
  · exact deals_of_presents (g := { h with loops }) (.held hd) rfl rfl hbegins hputs hadv hos hl

/-- A chunk that begins to be handled never has to wait at once, if its request is there. -/
theorem taken_ne_blocked (hb : h.book.Sound) {e : Event} {d : Delivery} (hd : h.taken? e = some d) :
    d.advance t h.book ≠ .blocked := by
  cases e with
  | other kind => cases hd
  | chunk c =>
    obtain ⟨id, hm, rfl⟩ := Option.map_eq_some_iff.mp hd
    intro hblocked
    apply receive_ne_blocked (t := t) hb (.chunk c)
    rw [receive_of_match hm, deliver_of_blocked]
    exact hblocked

theorem deals_of_event {e : Event} (hx : h.nextOf t = some (.event e))
    (hadv : ∀ d, h.taken? e = some d → d.advance t h.book ≠ .blocked) :
    h.Deals (.segment t) (h.perform (.segment t)) := by
  obtain ⟨⟨loops, hl⟩, hos⟩ := segment_of_next hx
  have hnone := delivery?_of_next hx
  have hbegins : h.begins (.segment t) = [e] := by rw [begins, hx]
  have hputs : h.puts (.segment t) = (h.taken? e).elim [] (h.putsOf t) := by
    rw [puts, hx, Option.bind_some, handedOn?]
  -- an event that begins no delivery
  have passes (htaken : h.taken? e = none) {g : Hub}
      (hg : go { h with loops } t (.event e) = .done g ())
      (hstock : g.stock = h.stocked h.book.cache (h.met [e]))
      (hnil : h.told t (.event e) = []) : h.Deals (.segment t) (h.perform (.segment t)) := by
    rw [hg] at hl
    rw [htaken] at hputs
    cases hl with
    | done hs hself hne =>
      refine .passes htaken hbegins hputs (hos.trans hnil) (hs.trans hstock) fun t' => ?_
      by_cases he : t' = t
      · rw [he, hself, hnone]
      · exact hne t' he
  cases e with
  | other kind => exact passes rfl rfl rfl rfl
  | chunk c =>
    cases hm : h.match? c with
    | none =>
      have hm' : match? { h with loops, stats.chunks := h.stats.chunks + 1 } c = none := hm
      have hgo := receive.eq_def { h with loops } t (.chunk c)
      simp only [hm'] at hgo
      refine passes (by simp [taken?, hm]) hgo ?_ (by simp [told, receipts, hm])
      simp [stock, stocked, met, chunksOf, hm, Stats.meet]
    | some id =>
      have htaken : h.taken? (.chunk c) = some (h.arrival id c) := by simp [taken?, hm]
      rw [htaken] at hputs
      have hgo : go { h with loops } t (.event (.chunk c)) =
          deliver (withIntake { h with loops } (h.intake.countChunk c)) t (h.arrival id c) :=
        receive_of_match (h := { h with loops }) hm
      have hadv := hadv _ htaken
      rw [hgo] at hl
      refine deals_of_presents (.fresh hnone hm) ?_ ?_ hbegins hputs hadv ?_ hl
      · rfl
      · simp [stock, stocked, met, chunksOf, hm, Stats.meet, withIntake, intake, Intake.countChunk]
      · rw [hos]
        simp only [told, receipts, hm, deliveries]
        cases hadv' : (h.arrival id c).advance t h.book with
        | blocked => exact absurd hadv' hadv
        | moved b d' => rfl
        | done b out => rfl

theorem line_of_yields {id : RequestId} : ∀ o ∈ h.yields id, o.line? = none := by
  intro o ho
  unfold yields at ho
  split at ho
  · rw [List.mem_singleton.mp ho]
    rfl
  · cases ho

theorem line_of_call {c : Call} : ∀ o ∈ h.callOccurrences t c, o.line? = none := by
  intro o ho
  unfold callOccurrences at ho
  split at ho
  · split at ho
    · cases ho
    split at ho
    · rw [List.mem_singleton.mp ho]
      rfl
    · cases ho
  · cases ho
  · split at ho
    · cases ho
    · exact line_of_yields o ho

theorem deals_of_idle {task : Task} (ht : h.task? t = some task) (hx : h.next? task = none)
    (hd : task.delivery? = none) (hos : ∀ o ∈ h.segmentOccurrences t task, o.line? = none)
    (hstock : (h.advanceTask t task).All fun g => g.stock = h.stock)
    (hmoved : ∀ g task', h.advanceTask t task = .moved g task' → task'.delivery? = none) :
    h.Deals (.segment t) (h.perform (.segment t)) := by
  have hnext : h.nextOf t = none := by rw [nextOf, ht, Option.bind_some, hx]
  have hbegins : h.begins (.segment t) = [] := by rw [begins, hnext]
  have hputs : h.puts (.segment t) = [] := by rw [puts, hnext, Option.bind_none, Option.elim_none]
  have hocc : h.occurrences (.segment t) = h.segmentOccurrences t task := by
    rw [occurrences, ht, Option.elim_some]
  have hnone : h.delivery? t = none := (delivery?_of_task ht).trans hd
  have hseg := h.segment_cases t
  have same (hself : (h.perform (.segment t)).delivery? t = none) (t' : TaskId) :
      (h.perform (.segment t)).delivery? t' = h.delivery? t' := by
    by_cases e : t' = t
    · rw [e, hself, hnone]
    · exact hseg.delivery?_ne e
  rw [← hocc] at hos
  cases hseg with
  | waits hadv he =>
    rw [he]
    exact .calm hbegins hputs hos rfl fun _ => rfl
  | goesOn task₀ task' g ht' hm hf he hself =>
    cases ht.symm.trans ht'
    rw [hm] at hstock
    refine .calm hbegins hputs hos (by rw [he]; exact hstock) (same ?_)
    rw [delivery?_of_task hself, hmoved g task' hm]
  | ends task₀ g o ht' hm hf he hself =>
    cases ht.symm.trans ht'
    rw [hm] at hstock
    refine .calm hbegins hputs hos (by rw [he]; exact hstock) (same ?_)
    rw [delivery?, hself]
    rfl

theorem deals_of_stop {index : Nat} {d : Delivery} {l : EventLoop}
    (ht : h.task? t = some (.loop index (some d))) (hl : h.loops[index]? = some l)
    (hs : l.stopping = true) : h.Deals (.segment t) (h.perform (.segment t)) := by
  have hm : h.advanceTask t (.loop index (some d)) =
      .done ((h.interrupt d t).stopLoop index) .stopped := by
    simp only [advanceTask, advanceLoop, hl, hs, if_true]
  have hnext : h.nextOf t = none := by simp [nextOf, ht, next?, hl, hs]
  have hend := perform_of_done ht hm
  have hgone : (h.perform (.segment t)).task? t = none := by
    have htasks : ((h.interrupt d t).stopLoop index).tasks = h.tasks := rfl
    rw [hend]
    exact task?_setTask_self ht htasks none
  apply Deals.drops (delivery?_of_task ht)
  · rw [begins, hnext]
  · rw [puts, hnext]
    rfl
  · simp [occurrences, ht, segmentOccurrences, loopOccurrences, hl, hs]
  · rw [hend]
    rfl
  · rw [delivery?, hgone]
    rfl
  · intro t' hne
    exact (h.segment_cases t).delivery?_ne hne

theorem deals_of_loop {index : Nat} {current : Option Delivery}
    (ht : h.task? t = some (.loop index current)) (hx : h.next? (.loop index current) = none) :
    h.Deals (.segment t) (h.perform (.segment t)) := by
  cases loopIdle hx with
  | absent hl =>
    have hm : h.advanceTask t (.loop index current) = .blocked := by
      simp only [advanceTask, advanceLoop, hl]
    have hnext : h.nextOf t = none := by rw [nextOf, ht, Option.bind_some, hx]
    have hstay : h.perform (.segment t) = h := by rw [perform, advance_of_blocked ht hm]; rfl
    rw [hstay]
    refine .calm ?_ ?_ ?_ rfl fun _ => rfl
    · rw [begins, hnext]
    · rw [puts, hnext]
      rfl
    · simp [occurrences, ht, segmentOccurrences, loopOccurrences, hl]
  | told hl hs =>
    cases current with
    | none =>
      apply deals_of_idle ht hx rfl
      · simp [segmentOccurrences, loopOccurrences, hl, hs]
      · simp only [advanceTask, advanceLoop, hl, hs, if_true]
        rfl
      · intro g task' hm
        simp [advanceTask, advanceLoop, hl, hs] at hm
    | some d => exact deals_of_stop ht hl hs
  | @starved l hl hs hqueue =>
    have hadvance : h.advanceTask t (.loop index none) =
        if l.feeding then .blocked else .done (h.stopLoop index) .stopped := by
      simp [advanceTask, advanceLoop, hl, hs, hqueue]
    apply deals_of_idle ht hx rfl
    · simp [segmentOccurrences, loopOccurrences, hl, hqueue]
    · rw [hadvance]
      split
      · trivial
      · rfl
    · intro g task' hm
      rw [hadvance] at hm
      split at hm <;> cases hm

theorem deals_segment (hadv : ∀ e d, h.nextOf t = some (.event e) → h.taken? e = some d →
    d.advance t h.book ≠ .blocked) : h.Deals (.segment t) (h.perform (.segment t)) := by
  cases hx : h.nextOf t with
  | some x =>
    cases x with
    | event e => exact deals_of_event hx (hadv e · hx)
    | delivery d => exact deals_of_delivery hx
  | none =>
    cases ht : h.task? t with
    | none =>
      have hstay : h.perform (.segment t) = h := by rw [perform, advance_of_gone ht]; rfl
      rw [hstay]
      refine .calm ?_ ?_ ?_ rfl fun _ => rfl
      · rw [begins, hx]
      · rw [puts, hx]
        rfl
      · simp [occurrences, ht]
    | some task =>
      have hx : h.next? task = none := by simpa [nextOf, ht] using hx
      cases task with
      | call c =>
        apply deals_of_idle ht hx rfl line_of_call
        · rw [all_call]
          exact advanceCall_aside.imp stock_of_aside
        · intro g task' hm
          obtain ⟨c', rfl, -⟩ := advanceCall_of_moved hm
          rfl
      | reader id goal got =>
        apply deals_of_idle ht hx rfl
        · intro o ho
          simp only [segmentOccurrences] at ho
          split at ho
          · cases ho
          · exact line_of_yields o ho
        · exact advanceReader_aside.imp stock_of_aside
        · intro g task' hm
          obtain ⟨m, rfl⟩ := task_of_advanceReader hm
          rfl
      | handler e => cases hx
      | delivering d => cases hx
      | loop index current => exact deals_of_loop ht hx

/-! ## Other actions -/

theorem delivery?_spawn (h : Hub) {task : Task} (hd : task.delivery? = none) (t : TaskId) :
    (h.spawn task).2.delivery? t = h.delivery? t := by
  rw [delivery?, task?_spawn, delivery?]
  split
  · rename_i e
    have hnone : h.task? t = none := by
      rw [task?, Array.getElem?_eq_none (Nat.le_of_eq e.symm)]
      rfl
    rw [hnone]
    exact hd
  · rfl

theorem deals_spawn {a : Action} {task : Task} {g : Hub} (hg : g.stock = h.stock)
    (htasks : g.tasks = h.tasks) (hd : task.delivery? = none) (hbegins : h.begins a = [])
    (hputs : h.puts a = []) (hos : ∀ o ∈ h.occurrences a, o.line? = none) :
    h.Deals a (g.spawn task).2 := by
  refine .calm hbegins hputs hos hg fun t => ?_
  rw [delivery?_spawn g hd]
  simp only [delivery?, task?, htasks]

theorem deals_release (j place : Nat) (result : SendResult) :
    h.Deals (.release j place result) (h.perform (.release j place result)) := by
  obtain ⟨shards, he | ⟨t, c, id, ht, hs, he⟩⟩ := h.release_cases j place result
  · rw [perform, he]
    exact .calm rfl rfl (List.forall_mem_nil _) rfl fun _ => rfl
  · rw [perform, he]
    refine .calm rfl rfl (List.forall_mem_nil _) rfl fun t' => ?_
    have htasks : { h with shards }.tasks = h.tasks := rfl
    rw [delivery?, task?_setTask htasks (lt_of_task? ht)]
    split
    · rename_i e
      rw [e, delivery?_of_task ht]
      rfl
    · rfl

theorem deals_dropTask (t : TaskId) : h.Deals (.dropTask t) (h.perform (.dropTask t)) := by
  simp only [perform, dropTask]
  cases ht : h.task? t with
  | none =>
    refine .calm rfl rfl ?_ rfl fun _ => rfl
    simp [occurrences, delivery?, ht]
  | some task =>
    have hstock := h.stock_abandon t task
    have htasks := h.tasks_abandon t task
    have hself : ((h.abandon t task).setTask t none).delivery? t = none := by
      rw [delivery?, task?_setTask_self ht htasks]
      rfl
    have hne (t' : TaskId) (e : t' ≠ t) :
        ((h.abandon t task).setTask t none).delivery? t' = h.delivery? t' := by
      rw [delivery?, task?_setTask htasks (lt_of_task? ht), if_neg e, delivery?]
    have hdelivery := delivery?_of_task ht
    cases hd : task.delivery? with
    | none =>
      rw [hd] at hdelivery
      refine .calm rfl rfl ?_ hstock fun t' => ?_
      · simp [occurrences, hdelivery]
      · by_cases e : t' = t
        · rw [e, hself, hdelivery]
        · exact hne t' e
    | some d =>
      rw [hd] at hdelivery
      exact .drops hdelivery rfl rfl (by simp [occurrences, hdelivery]) hstock hself hne

/-- An action deals with chunks in one of these ways, unless it is to begin with a chunk for a request
that is not there. -/
theorem deals_unless_stuck (a : Action) (hadv : ∀ t e d, a = .segment t →
    h.nextOf t = some (.event e) → h.taken? e = some d → d.advance t h.book ≠ .blocked) :
    h.Deals a (h.perform a) := by
  have called {t : TaskId} {goal : Call.Goal} (o : Occurrence) (ho : o ∈ [.called t goal]) :
      o.line? = none := by
    rw [List.mem_singleton.mp ho]
    rfl
  have silent : ∀ o ∈ ([] : List Occurrence), o.line? = none := List.forall_mem_nil _
  cases a with
  | callStream i => exact deals_spawn rfl rfl rfl rfl rfl called
  | collect i token => exact deals_spawn rfl rfl rfl rfl rfl called
  | callMembers i => exact deals_spawn rfl rfl rfl rfl rfl called
  | dispatch e => exact deals_spawn rfl rfl rfl rfl rfl silent
  | run => exact deals_spawn (g := { h with loops := h.loops.push {} }) rfl rfl rfl rfl rfl silent
  | read id goal =>
    simp only [perform]
    split
    · exact deals_spawn (g := { h with streams := h.streams.erase id }) rfl rfl rfl rfl rfl silent
    · exact .calm rfl rfl silent rfl fun _ => rfl
  | push index events =>
    simp only [perform, push]
    split <;> exact .calm rfl rfl silent rfl fun _ => rfl
  | recv id =>
    simp only [perform]
    split
    · rename_i hid
      refine .calm rfl rfl ?_ (stock_of_aside (aside_recv rfl)) fun _ => rfl
      rw [occurrences, if_pos hid]
      exact line_of_yields
    · rename_i hid
      refine .calm rfl rfl ?_ rfl fun _ => rfl
      rw [occurrences, if_neg hid]
      exact silent
  | cancel id =>
    exact .calm rfl rfl silent (stock_of_aside (aside_withBook (h.book.cache_cancel id))) fun _ => rfl
  | discard id =>
    simp only [perform]
    split
    · refine .calm rfl rfl silent ?_ fun _ => rfl
      exact stock_of_aside (aside_withBook (h.book.cache_dropStream id))
    · exact .calm rfl rfl silent rfl fun _ => rfl
  | cancelToken token =>
    simp only [perform, cancelToken]
    split <;> exact .calm rfl rfl silent rfl fun _ => rfl
  | shutdown =>
    exact .calm rfl rfl silent (stock_of_aside (aside_withBook h.book.cache_shutdown)) fun _ => rfl
  | release j place result => exact deals_release j place result
  | dropTask t => exact deals_dropTask t
  | segment t => exact deals_segment (hadv t · · rfl)
  | _ => exact .calm rfl rfl silent rfl fun _ => rfl

/-- **Every action deals with chunks in one of these ways.** -/
theorem deals (hb : h.book.Sound) (a : Action) : h.Deals a (h.perform a) :=
  deals_unless_stuck a fun _ _ _ _ _ hd => taken_ne_blocked hb hd

end Hub
end Rollcall
