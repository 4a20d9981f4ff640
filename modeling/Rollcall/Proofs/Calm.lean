import Rollcall.Proofs.Outlook

/-!
# One task works, the others read

To a hub in which every registered request is read to its end and no task can move, events are
given: to a loop, or one of them to a handler of its own (`Gives`). While they are worked off
nothing moves but that task and the readers (`Calm`), in whatever order. When no task can move
again, the events have come to what they come to at once, and every reader has what was placed for
it (`Taken`, and for a loop `Results`).
-/

namespace Rollcall
namespace Hub

/-- Whether an action gives events to a hub `s` at rest: to the idle loop of a number, or one of
them to a new handler, which has none. -/
inductive Gives (s : Hub) : Action → TaskId → Option Nat → List Event → Prop
  | push {t : TaskId} {index : Nat} (ht : s.task? t = some (.loop index none))
      (hp : s.canPush index = true) (es : List Event) : Gives s (.push index es) t (some index) es
  | dispatch (e : Event) : Gives s (.dispatch e) s.tasks.size none [e]

structure Apart (s : Hub) (t : TaskId) (index : Option Nat) : Prop where
  reads : ∀ x id got, s.task? t ≠ some (Gatherer.task x id got)
  sole : ∀ {t' i current}, s.task? t' = some (.loop i current) → some i = index → t' = t

/-- How a hub looks while task `t` works off events that were given to it in `s`, at rest, and
nothing else happens. -/
structure Calm (s : Hub) (t : TaskId) (index : Option Nat) (es : List Event) (h : Hub) : Prop where
  around : Around index s h
  works : h.Works t index (s.intake.takeAll s.caching es)
  registered : ∀ {n id}, h.book.registry.get? n = some id → s.book.registry.get? n = some id
  reads : ∀ {t' x id got r}, s.task? t' = some (Gatherer.task x id got) →
    s.book.requests[id]? = some r → h.Progress t' x id got r.channel.read
  others : ∀ {t'}, t' ≠ t → (∀ x id got, s.task? t' ≠ some (Gatherer.task x id got)) →
    h.task? t' = s.task? t'

def Gathered (h : Hub) (t : TaskId) (x : Gatherer) (id : RequestId) (got read : List Member) :
    Prop :=
  ∃ ms r, h.book.requests[id]? = some r ∧ r.channel.placed = (ms ++ read).reverse ∧
    h.task? t = (if r.complete then none else some (x.task id (ms ++ got))) ∧
    (r.complete = true → (t, x.finish (ms ++ got).reverse) ∈ h.finished)

structure Taken (s : Hub) (es : List Event) (h : Hub) : Prop where
  caching : h.caching = s.caching
  intake : h.intake.drained = (s.intake.takeAll s.caching es).drained
  reads : ∀ {t' x id got r}, s.task? t' = some (Gatherer.task x id got) →
    s.book.requests[id]? = some r → h.Gathered t' x id got r.channel.read
  others : ∀ {t'}, (∀ x id got, s.task? t' ≠ some (Gatherer.task x id got)) →
    h.task? t' = s.task? t'

structure Results (s : Hub) (t : TaskId) (index : Nat) (es : List Event) (h : Hub) : Prop
    extends Taken s es h where
  loop : h.task? t = some (.loop index none)
  queue : ∃ l, h.loops[index]? = some l ∧ l.queue = []
  finished : ∀ t' o, (t', o) ∈ h.finished ↔ (t', o) ∈ s.finished ∨
    ∃ x id got r r' ms, s.task? t' = some (Gatherer.task x id got) ∧
      s.book.requests[id]? = some r ∧ h.book.requests[id]? = some r' ∧ r'.complete = true ∧
      r'.channel.placed = (ms ++ r.channel.read).reverse ∧ o = x.finish (ms ++ got).reverse

variable {h g : Hub} {t t' : TaskId} {index : Option Nat} {es : List Event} {id : RequestId}
  {n : String} {a : Action}

theorem Rests.of_around {s : Hub} {task : Task} (hr : s.Rests task) (ha : Around index s g)
    (hne : ∀ i current, task = .loop i current → some i ≠ index) : g.Rests task := by
  cases hr with
  | @idles i l hl hf hs hq => exact .idles ((ha.loops i (hne i none rfl)).trans hl) hf hs hq
  | held hs hd =>
    refine .held hs fun d hd' => ?_
    rw [ha.now]
    exact hd d hd'

theorem registered_of_segment {j : List Occurrence} (hr : Reached j h.scene)
    (hs : ∀ c, h.task? t = some (.call c) → c.stage ≠ .starting)
    (hreg : (h.perform (.segment t)).book.registry.get? n = some id) :
    h.book.registry.get? n = some id := by
  have hch := h.perform_changes (.segment t)
  have hmade : made (h.occurrences (.segment t)) = [] := by
    apply made_occurrences
    rintro t' c ⟨⟩ hc
    exact hs c hc
  -- Only calls that are starting make requests, so `id` was there before.
  have hsize : (h.perform (.segment t)).book.requests.size = h.book.requests.size :=
    hr.size_eq hch hmade
  have hsound : (h.perform (.segment t)).book.Sound := (hr.changes hch).sound
  obtain ⟨r', hq', hn', hw'⟩ := (hsound.registered n id).mp hreg
  have hlt := (Array.getElem?_eq_some_iff.mp hq').1
  rw [hsize] at hlt
  have hq := Array.getElem?_eq_getElem hlt
  obtain ⟨r₁, hq₁, hl⟩ := hr.later_changes hch id _ hq
  have hq₁ : (h.perform (.segment t)).book.requests[id]? = some r₁ := hq₁
  cases hq'.symm.trans hq₁
  exact (hr.sound.registered n id).mpr ⟨_, hq, hl.nonce.symm.trans hn', hl.waiting hw'⟩

theorem delivery?_gatherer (x : Gatherer) (id : RequestId) (got : List Member) :
    (x.task id got).delivery? = none := by
  cases x <;> rfl

theorem gatherer_ne_loop (x : Gatherer) (id : RequestId) (got : List Member) (i : Nat)
    (current : Option Delivery) : x.task id got ≠ .loop i current := by
  cases x <;> exact nofun

theorem after_push {past : List Action} {i : Nat} (hpush : (h.after past).canPush i = true)
    (es : List Event) : h.after (.push i es :: past) = { h.after past with
      loops := (h.after past).loops.modify i fun l => { l with queue := l.queue ++ es } } := by
  simp only [after, perform, push, if_pos hpush]

section

variable (hn : h.IsNew) {past past' : List Action} (hq : (h.after past).Quiet)
  (hread : (h.after past).AllRead)
include hn hq hread

omit hq hread in
theorem Gives.apart (hg : (h.after past).Gives a t index es) : (h.after past).Apart t index := by
  cases hg with
  | push ht =>
    constructor
    · intro x id got hx
      exact absurd (Option.some.inj (hx.symm.trans ht)) (gatherer_ne_loop x id got _ none)
    · rintro t' i current ht' ⟨⟩
      exact loop_sole hn ⟨current, ht'⟩ ⟨none, ht⟩
  | dispatch e =>
    constructor
    · intro x id got hx
      exact absurd (lt_of_task? hx) (Nat.lt_irrefl _)
    · exact nofun

theorem idle_of_rests {i : Nat} (ht : (h.after past).task? t = some (.loop i none)) :
    ∃ l, (h.after past).loops[i]? = some l ∧ l.feeding = true ∧ l.stopping = false ∧
      l.queue = [] := by
  rcases reads_or_rests hn hq hread ht with ⟨x, id, got, he⟩ | hrests
  · exact absurd he.symm (gatherer_ne_loop x id got i none)
  · cases hrests with
    | idles hl hf hs hqueue => exact ⟨_, hl, hf, hs, hqueue⟩

omit hread in
theorem progress_of_quiet {x : Gatherer} {got : List Member} {r : Request}
    (ht : (h.after past).task? t = some (x.task id got))
    (hr : (h.after past).book.requests[id]? = some r) (hg : g.task? t = (h.after past).task? t)
    (hb : g.book = (h.after past).book) : g.Progress t x id got r.channel.read := by
  obtain ⟨r', hp⟩ := pending_of_quiet hn hq ht
  cases hr.symm.trans hp.request
  have hreads : g.task? t = some (x.task id ([] ++ got)) := hg.trans ht
  exact .reads hreads (by rw [hb, hr]) hp.waiting.2 (List.nil_append _).symm

theorem calm_given (hgives : (h.after past).Gives a t index es) :
    Calm (h.after past) t index es (h.after (a :: past)) := by
  cases hgives with
  | @push t index ht hpush es =>
    obtain ⟨l, hl, hf, hs, hqueue⟩ := idle_of_rests hn hq hread ht
    rw [after_push hpush]
    refine ⟨⟨rfl, rfl, rfl, fun i hi => ?_⟩, ?_, fun hreg => hreg,
      fun hx hr => progress_of_quiet hn hq hx hr rfl rfl, fun _ _ => rfl⟩
    · have hi : index ≠ i := fun e => hi (congrArg some e.symm)
      simp [Array.getElem?_modify, hi]
    · have hl' : ((h.after past).loops.modify index fun l =>
          { l with queue := l.queue ++ es })[index]? = some { l with queue := es } := by
        simp [Array.getElem?_modify, hl, hqueue]
      exact .intro (.loop ht hl' hf hs rfl) nofun rfl
  | dispatch e =>
    have hself : (h.after (.dispatch e :: past)).task? (h.after past).tasks.size =
        some (.handler e) := by
      rw [after, perform, dispatch, task?_spawn, if_pos rfl]
    have hothers {t' : TaskId} (hne : t' ≠ (h.after past).tasks.size) :
        (h.after (.dispatch e :: past)).task? t' = (h.after past).task? t' := by
      rw [after, perform, dispatch, task?_spawn, if_neg hne]
    refine ⟨⟨rfl, rfl, rfl, fun _ _ => rfl⟩, .intro (.handler hself) nofun rfl, fun hreg => hreg,
      fun hx hr => ?_, fun hne _ => hothers hne⟩
    exact progress_of_quiet hn hq hx hr (hothers (Nat.ne_of_lt (lt_of_task? hx))) rfl

omit hread in
theorem pending_or_not (t' : TaskId) :
    (∃ x id got r, (h.after past).task? t' = some (Gatherer.task x id got) ∧
      (h.after past).Pending x id r) ∨
    ∀ x id got, (h.after past).task? t' ≠ some (Gatherer.task x id got) := by
  by_cases hx : ∃ x id got, (h.after past).task? t' = some (Gatherer.task x id got)
  · obtain ⟨x, id, got, hx⟩ := hx
    obtain ⟨r, hp⟩ := pending_of_quiet hn hq hx
    exact .inl ⟨x, id, got, r, hx, hp⟩
  · push Not at hx
    exact .inr hx

theorem Calm.delivery (hc : Calm (h.after past) t index es g) {d : Delivery}
    (hd : g.delivery? t' = some d) : t' = t := by
  by_contra hne
  obtain ⟨task, htask, hdel⟩ := Option.bind_eq_some_iff.mp hd
  rcases pending_or_not hn hq t' with ⟨x, id, got, r, hx, hp⟩ | hx
  · cases hc.reads hx hp.request with
    | reads hg =>
      cases htask.symm.trans hg
      cases (delivery?_gatherer x id _).symm.trans hdel
    | ended hg => cases htask.symm.trans hg
  · have hsame := (hc.others hne hx).symm.trans htask
    exact no_delivery hn hq hread ((delivery?_of_task hsame).trans hdel)

theorem Calm.moves (hc : Calm (h.after past) t index es g) (hapart : (h.after past).Apart t index)
    {g' : Hub} (hg : g.advance t' = some g') (hne : t' ≠ t) :
    ∃ x id got r, (h.after past).task? t' = some (Gatherer.task x id got) ∧
      (h.after past).book.requests[id]? = some r := by
  rcases pending_or_not hn hq t' with ⟨x, id, got, r, hx, hp⟩ | hx
  · exact ⟨x, id, got, r, hx, hp.request⟩
  · have hsame := hc.others hne hx
    cases htask : (h.after past).task? t' with
    | none =>
      rw [htask] at hsame
      cases (advance_of_gone hsame).symm.trans hg
    | some task =>
      rcases reads_or_rests hn hq hread htask with ⟨x, id, got, rfl⟩ | hrests
      · exact absurd htask (hx x id got)
      · have hnot (i : Nat) (current : Option Delivery) (he : task = .loop i current) :
            some i ≠ index := fun hi => hne (hapart.sole (he ▸ htask) hi)
        have hblocked := (hrests.of_around hc.around hnot).blocked (t := t')
        cases (advance_of_blocked (hsame.trans htask) hblocked).symm.trans hg

omit hread in
theorem Calm.not_starting (hc : Calm (h.after past) t index es g)
    (hmover : t' = t ∨ ∃ x id got, (h.after past).task? t' = some (Gatherer.task x id got))
    (c : Call) (hg : g.task? t' = some (.call c)) : c.stage ≠ .starting := by
  rcases hmover with rfl | ⟨x, id, got, hx⟩
  · obtain ⟨ht⟩ := hc.works
    cases ht with
    | loop ht => cases hg.symm.trans ht
    | handler ht => cases hg.symm.trans ht
    | delivering ht => cases hg.symm.trans ht
    | handled ht => cases hg.symm.trans ht
  · obtain ⟨r, hp⟩ := pending_of_quiet hn hq hx
    cases hc.reads hx hp.request with
    | ended ht => cases hg.symm.trans ht
    | reads ht =>
      cases x with
      | reader => cases hg.symm.trans ht
      | call c' =>
        cases hg.symm.trans ht
        exact nofun

omit hread in
/-- It stays calm when that task or a reader moves, and no request is cancelled. -/
theorem Calm.next (hc : Calm (h.after past) t index es (h.after past'))
    (hadv : (h.after past').advance t' = some g) (ha : Around index (h.after past') g)
    (hw : g.Works t index ((h.after past).intake.takeAll (h.after past).caching es))
    (hcancels : (h.after past').book.Cancels [] g.book)
    (hown : ∀ {x id got r}, (h.after past).task? t' = some (Gatherer.task x id got) →
      (h.after past).book.requests[id]? = some r → g.Progress t' x id got r.channel.read)
    (hmover : t' = t ∨ ∃ x id got, (h.after past).task? t' = some (Gatherer.task x id got)) :
    Calm (h.after past) t index es g := by
  have hnext := after_segment hadv
  refine ⟨hc.around.trans ha, hw, fun hreg => ?_, fun {t₁} x id got r hx hr => ?_,
    fun {t₁} hne hx => ?_⟩
  · apply hc.registered
    apply registered_of_segment (t := t') (Reached.after hn past')
    · exact hc.not_starting hn hq hmover
    · rw [← hnext] at hreg
      exact hreg
  · by_cases e : t₁ = t'
    · subst e
      exact hown hx hr
    · rw [← hnext] at hcancels ⊢
      exact (hc.reads hx hr).of_others hn (Ne.symm e) hcancels
  · have e : t₁ ≠ t' := by
      rintro rfl
      rcases hmover with rfl | ⟨x, id, got, he⟩
      · exact hne rfl
      · exact hx x id got he
    rw [← hnext]
    exact (task?_segment e).trans (hc.others hne hx)

omit hread in
theorem Calm.reader_step (hc : Calm (h.after past) t index es (h.after past')) {x : Gatherer}
    {got : List Member} {r : Request} (hx : (h.after past).task? t' = some (x.task id got))
    (hr : (h.after past).book.requests[id]? = some r)
    (hadv : (h.after past').advance t' = some g) :
    g.Progress t' x id got r.channel.read ∧ g.intake.drained = (h.after past').intake.drained ∧
      g.loops = (h.after past').loops ∧ ∀ index, Around index (h.after past') g := by
  obtain ⟨r', hp⟩ := pending_of_quiet hn hq hx
  have htoken : (h.after past').tokenCancelled x.token = false := by
    rw [tokenCancelled, hc.around.tokens]
    exact hp.token
  have hundue : (h.after past').Undue x.deadline := by
    intro d hd
    rw [hc.around.now]
    exact hp.undue d hd
  exact gatherer_step htoken hundue (Reached.after hn past').sound (hc.reads hx hr) hadv

theorem Calm.segment (hc : Calm (h.after past) t index es (h.after past'))
    (hapart : (h.after past).Apart t index) (t' : TaskId) :
    Calm (h.after past) t index es (h.after (.segment t' :: past')) := by
  have hreach := Reached.after hn past'
  cases hadv : (h.after past').advance t' with
  | none =>
    simp only [after, perform, hadv, Option.getD_none]
    exact hc
  | some g =>
    have hnext := after_segment hadv
    rw [hnext]
    by_cases e : t' = t
    · subst e
      obtain ⟨hw, ha⟩ := hc.works.step hreach (fun t₁ d hd => hc.delivery hn hq hread hd) hadv
      -- A task that attends to events cancels no request.
      have hcancels := segment_cancels hreach.sound t'
      obtain ⟨htends⟩ := hc.works
      have hnone : cancelledBy ((h.after past').cancels (.segment t')) = [] := by
        cases htends with
        | loop ht => simp only [cancels, ht]; rfl
        | handler ht => simp only [cancels, ht]; rfl
        | delivering ht => simp only [cancels, ht]; rfl
        | handled ht => cases (advance_of_gone ht).symm.trans hadv
      rw [hnone] at hcancels
      have hcancels : (h.after past').book.Cancels [] g.book := hnext ▸ hcancels
      exact hc.next hn hq hadv ha hw hcancels
        (fun {x id got r} hx => absurd hx (hapart.reads x id got))
        (.inl rfl)
    · obtain ⟨x, id, got, r, hx, hr⟩ := hc.moves hn hq hread hapart hadv e
      obtain ⟨-, hdrained, hloops, ha⟩ := hc.reader_step hn hq hx hr hadv
      -- The reader takes members out only, and no outlook depends on that.
      have hstays : g.task? t = (h.after past').task? t := by
        rw [← hnext]
        exact task?_segment (Ne.symm e)
      have hw := hc.works.of_reading hstays hloops (ha index).caching hdrained
      have hcancels := Book.cancels_of_drained (congrArg Intake.book hdrained)
      exact hc.next hn hq hadv (ha index) hw hcancels
        (fun hx hr => (hc.reader_step hn hq hx hr hadv).1) (.inr ⟨x, id, got, hx⟩)

theorem calm_after (hgives : (h.after past).Gives a t index es) (ts : List TaskId) :
    Calm (h.after past) t index es (h.after (ts.map .segment ++ a :: past)) := by
  induction ts with
  | nil => exact calm_given hn hq hread hgives
  | cons t' ts ih => exact ih.segment hn hq hread (hgives.apart hn) t'

/-! ## At rest -/

theorem Calm.allRead (hc : Calm (h.after past) t index es (h.after past')) :
    (h.after past').AllRead := by
  intro n id hreg
  obtain ⟨t', x, got, hx⟩ := hread n id (hc.registered hreg)
  obtain ⟨r, hp⟩ := pending_of_quiet hn hq hx
  cases hc.reads hx hp.request with
  | reads hg => exact ⟨t', x, _, hg⟩
  | @ended ms r' hg hr hcomplete =>
    -- The reader has gone, but then its request is complete and no longer registered.
    obtain ⟨r₁, hr₁, -, hw⟩ := ((Reached.after hn past').sound.registered n id).mp hreg
    cases hr.symm.trans hr₁
    exact absurd hw (Request.not_waiting_of_complete hcomplete)

omit hn hq hread in
theorem Progress.gathered (hn : h.IsNew) (hrest : (h.after past').Quiet) {x : Gatherer}
    {got read : List Member} (hp : (h.after past').Progress t' x id got read) :
    (h.after past').Gathered t' x id got read := by
  cases hp with
  | @reads ms r ht hr hc hread =>
    obtain ⟨r', hp⟩ := pending_of_quiet hn hrest ht
    cases hr.symm.trans hp.request
    refine ⟨ms, r, hr, ?_, ?_, fun hcomplete => ?_⟩
    · simp [Channel.placed, hread, hp.unread]
    · rw [ht, hp.waiting.1]
      rfl
    · exact absurd hp.waiting (Request.not_waiting_of_complete hcomplete)
  | @ended ms r ht hr hcomplete hplaced ho =>
    refine ⟨ms, r, hr, hplaced, ?_, fun _ => ho⟩
    rw [ht, hcomplete]
    rfl

theorem Calm.worked_off (hc : Calm (h.after past) t index es (h.after past'))
    (hrest : (h.after past').Quiet) :
    (h.after past').Tends t index none [] ∧
      (h.after past').intake.drained =
        ((h.after past).intake.takeAll (h.after past).caching es).drained := by
  obtain ⟨htends, -, hx⟩ := hc.works
  rename_i current queue
  obtain rfl : current = none := by
    rw [Option.eq_none_iff_forall_ne_some]
    rintro d rfl
    exact no_delivery hn hrest (hc.allRead hn hq hread) htends.delivery?
  have hreach := Reached.after hn past'
  obtain rfl : queue = [] := by
    cases htends with
    | loop ht hl hf hs hqueue =>
      exact hqueue.symm.trans (queue_of_blocked hreach.sound hl (blocked_of_quiet hrest ht))
    | @handler e ht =>
      have hmoves := handlerMove_ne_blocked (receive_ne_blocked hreach.sound (t := t) e)
      exact absurd (blocked_of_quiet hrest ht) hmoves
    | handled => rfl
  exact ⟨htends, hx⟩

theorem taken_at_rest (hgives : (h.after past).Gives a t index es) (ts : List TaskId)
    (hrest : (h.after (ts.map .segment ++ a :: past)).Quiet) :
    Taken (h.after past) es (h.after (ts.map .segment ++ a :: past)) := by
  have hcalm := calm_after hn hq hread hgives ts
  obtain ⟨htends, hintake⟩ := hcalm.worked_off hn hq hread hrest
  refine ⟨hcalm.around.caching, hintake, fun hx hr => (hcalm.reads hx hr).gathered hn hrest,
    fun {t'} hx => ?_⟩
  by_cases e : t' = t
  · subst e
    cases hgives with
    | push ht =>
      obtain ⟨ht', -⟩ := htends
      rw [ht', ht]
    | dispatch e =>
      cases htends with
      | handled ht' =>
        rw [ht', task?, Array.getElem?_size]
        rfl
  · exact hcalm.others e hx

section

variable {i : Nat} (ht : (h.after past).task? t = some (.loop i none))
  (hpush : (h.after past).canPush i = true)
include ht hpush

/-- What has ended since the events were pushed is a reader, whose request is complete. -/
theorem finished_since (es : List Event) (ts : List TaskId)
    (hrest : (h.after (ts.map .segment ++ .push i es :: past)).Quiet)
    {o : Outcome} (ho : (t', o) ∈ (h.after (ts.map .segment ++ .push i es :: past)).finished) :
    (t', o) ∈ (h.after past).finished ∨ ∃ x id got r r' ms,
      (h.after past).task? t' = some (Gatherer.task x id got) ∧
      (h.after past).book.requests[id]? = some r ∧
      (h.after (ts.map .segment ++ .push i es :: past)).book.requests[id]? = some r' ∧
      r'.complete = true ∧ r'.channel.placed = (ms ++ r.channel.read).reverse ∧
      o = x.finish (ms ++ got).reverse := by
  have htaken := taken_at_rest hn hq hread (.push ht hpush es) ts hrest
  obtain ⟨-, hgone⟩ := gone_of_finished hn ho
  rcases pending_or_not hn hq t' with ⟨x, id, got, r, hx, hp⟩ | hx
  · obtain ⟨ms, r', hr', hplaced, hg, hends⟩ := htaken.reads hx hp.request
    cases hcomplete : r'.complete with
    | false =>
      rw [hcomplete, hgone] at hg
      cases hg
    | true =>
      have hsole := finished_sole hn ho (hends hcomplete)
      exact .inr ⟨x, id, got, r, r', ms, hx, hp.request, hr', hcomplete, hplaced, hsole⟩
  · left
    have hgone' : (h.after (.push i es :: past)).task? t' = none := by
      rw [after_push hpush]
      exact (htaken.others hx).symm.trans hgone
    have hbefore := finished_of_gone hgone' ts ho
    rwa [after_push hpush] at hbefore

theorem results_at_rest (es : List Event) (ts : List TaskId)
    (hrest : (h.after (ts.map .segment ++ .push i es :: past)).Quiet) :
    Results (h.after past) t i es (h.after (ts.map .segment ++ .push i es :: past)) := by
  have htaken := taken_at_rest hn hq hread (.push ht hpush es) ts hrest
  obtain ⟨htends, -⟩ :=
    (calm_after hn hq hread (.push ht hpush es) ts).worked_off hn hq hread hrest
  obtain ⟨htask, hl, -, -, hqueue⟩ := htends
  refine ⟨htaken, htask, ⟨_, hl, hqueue⟩, fun t' o =>
    ⟨finished_since hn hq hread ht hpush es ts hrest, ?_⟩⟩
  rintro (ho | ⟨x, id, got, r, r', ms, hx, hr, hr', hcomplete, hplaced, rfl⟩)
  · have hlater := mem_finished_after ho (ts.map .segment ++ [.push i es])
    rwa [List.append_assoc] at hlater
  · obtain ⟨ms', r₁, hr₁, hplaced', -, hends⟩ := htaken.reads hx hr
    cases hr'.symm.trans hr₁
    obtain rfl : ms' = ms :=
      List.append_cancel_right (List.reverse_injective (hplaced'.symm.trans hplaced))
    exact hends hcomplete

end

end

end Hub
end Rollcall
