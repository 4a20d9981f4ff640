import Rollcall.Proofs.Handover
import Rollcall.Proofs.Stall

/-!
# Requests that share the events

Events are dispatched one after the other, each handled to its end before the next. What this makes of
a request depends on the chunks under its own nonce only; and an event that nobody waits for changes
nothing. Main statement: `requests_kept_apart`.
-/

namespace Rollcall
namespace Hub

inductive RunsOut (t : TaskId) : Hub → Hub → Prop
  | ended {h : Hub} (ht : h.task? t = none) : RunsOut t h h
  | next {h h' g : Hub} (ha : h.advance t = some h') (hr : RunsOut t h' g) : RunsOut t h g

/-- The events are dispatched one after the other, and no send has to wait. -/
inductive Dispatched : Hub → List Event → Hub → Prop
  | none {h : Hub} : Dispatched h [] h
  | next {h h' g : Hub} {e : Event} {es : List Event}
      (hr : RunsOut (h.dispatch e).1 (h.dispatch e).2 h') (hd : Dispatched h' es g) :
      Dispatched h (e :: es) g

variable {h h' g g' : Hub} {t : TaskId} {d : Delivery} {r : Request} {e : Event}

theorem RunsOut.advances {task : Task} (hr : RunsOut t h g) (ht : h.task? t = some task) :
    ∃ h', h.advance t = some h' ∧ RunsOut t h' g := by
  cases hr with
  | ended hnone => cases hnone.symm.trans ht
  | next ha hr => exact ⟨_, ha, hr⟩

theorem RunsOut.unique (hr : RunsOut t h g) (hr' : RunsOut t h g') : g = g' := by
  induction hr with
  | ended ht =>
    cases hr' with
    | ended => rfl
    | next ha => cases (advance_of_gone ht).symm.trans ha
  | next ha hr ih =>
    cases hr' with
    | ended ht => cases (advance_of_gone ht).symm.trans ha
    | next ha' hr' =>
      cases ha.symm.trans ha'
      exact ih hr'

theorem Dispatched.unique {es : List Event} (hd : Dispatched h es g) (hd' : Dispatched h es g') :
    g = g' := by
  induction hd with
  | none =>
    cases hd'
    rfl
  | next hr hd ih =>
    cases hd' with
    | next hr' hd' =>
      cases hr.unique hr'
      exact ih hd'

theorem RunsOut.after {past : List Action} (hr : RunsOut t (h.after past) g) :
    ∃ later, g = h.after (later ++ past) := by
  generalize hs : h.after past = s at hr
  induction hr generalizing past with
  | ended => exact ⟨[], hs.symm⟩
  | @next s s' g ha hr ih =>
    subst hs
    obtain ⟨later, rfl⟩ := ih (after_segment ha)
    exact ⟨later ++ [.segment t], by simp⟩

/-! ## Handling one event -/

def Handles (t : TaskId) (x : Intake) (fits : Prop) (h : Hub) : Prop :=
  (∀ g, RunsOut t h g → fits ∧ g.intake = x) ∧ (fits → ∃ g, RunsOut t h g)

theorem handles_of_nears {task : Task} {x : Intake} {fits : Prop} {m : Move Hub Delivery Unit}
    (ht : h.task? t = some task) (hm : h.Nears t x fits m) (hadv : h.advanceTask t task = handlerMove m)
    (ih : ∀ y d r, y.book.requests[d.request]? = some r → r.Takes t → d.Placing →
      m = .moved (h.withIntake y) d →
      Handles t (y.finish t d) (d.Fits r) ((h.withIntake y).setTask t (some (.delivering d)))) :
    Handles t x fits h := by
  cases hm with
  | @moved y d r hq htakes hs hx hf =>
    have hnext := advance_of_moved ht hadv
    obtain ⟨hends, hruns⟩ := ih y d r hq htakes hs rfl
    refine ⟨fun g hr => ?_, fun hfits => ?_⟩
    · obtain ⟨h', ha, hr⟩ := hr.advances ht
      cases hnext.symm.trans ha
      obtain ⟨hfits, hg⟩ := hends g hr
      exact ⟨hf.mp hfits, hg.trans hx⟩
    · obtain ⟨g, hr⟩ := hruns (hf.mpr hfits)
      exact ⟨g, .next hnext hr⟩
  | done hf =>
    have hnext := advance_of_done ht hadv
    have hgone : task? { (h.withIntake x).setTask t none with
        finished := (h.withIntake x).finished.push (t, .handled) } t = none :=
      task?_setTask_self ht rfl none
    refine ⟨fun g hr => ?_, fun _ => ⟨_, .next hnext (.ended hgone)⟩⟩
    obtain ⟨h', ha, hr⟩ := hr.advances ht
    cases hnext.symm.trans ha
    cases (RunsOut.ended hgone).unique hr
    exact ⟨hf, rfl⟩

theorem handles_delivering (ht : h.task? t = some (.delivering d))
    (hq : h.book.requests[d.request]? = some r) (htakes : r.Takes t)
    (hs : ∀ ms, d.stage ≠ .arriving ms) : Handles t (h.intake.finish t d) (d.Fits r) h := by
  -- By the weight, which every segment makes less.
  generalize hw : h.weight = w
  induction w using Nat.strongRecOn generalizing h d r with
  | ind w ih =>
    by_cases hm : h.deliver t d = .blocked
    · have hadv := advance_of_blocked ht (by rw [advanceTask, hm]; rfl)
      have hno : ¬d.Fits r := by
        refine Delivery.not_fits_of_blocked hq htakes hs ?_
        by_contra hne
        exact deliver_ne_blocked hne hm
      refine ⟨fun g hr => ?_, fun hfits => absurd hfits hno⟩
      obtain ⟨h', ha, -⟩ := hr.advances ht
      cases hadv.symm.trans ha
    · have hnears := deliver_nears hq htakes hs hm
      apply handles_of_nears ht hnears rfl
      intro y d' r' hq' ht' hplacing hmoved
      have hself : ((h.withIntake y).setTask t (some (.delivering d'))).task? t =
          some (.delivering d') := task?_setTask_self ht rfl _
      refine ih _ ?_ hself hq' ht' hplacing.ne_arriving rfl
      rw [← hw]
      apply weight_lt_of_advance
      apply advance_of_moved ht
      rw [advanceTask, hmoved]
      rfl

def FindsNoLine (h : Hub) (e : Event) : Prop :=
  ∀ c id r, e = .chunk c → h.match? c = some id → h.book.requests[id]? = some r → r.line = []

theorem RunsOut.not_behind {c : Chunk} {id : RequestId} (hr : RunsOut t h g)
    (ht : h.task? t = some (.handler (.chunk c))) (hid : h.match? c = some id)
    (hq : h.book.requests[id]? = some r) (hfresh : t ∉ r.line) : r.line = [] := by
  by_contra hne
  -- The chunk joins the line in one segment, and in the next one it is not at the head.
  let d : Delivery := { h.arrival id c with stage := .inLine c.stamped }
  let y : Intake := ⟨h.book.modify id (·.join t), (h.intake.countChunk c).stats⟩
  have hmove : h.advanceTask t (.handler (.chunk c)) = .moved (h.withIntake y) (.delivering d) := by
    rw [advanceTask, receive_behind hid hq hne]
    rfl
  have hself : ((h.withIntake y).setTask t (some (.delivering d))).task? t =
      some (.delivering d) := task?_setTask_self ht rfl _
  have hq' := (Book.replaces_modify hq (·.join t)).self
  have hhead : (r.join t).line.head? ≠ some t := by
    obtain ⟨t', ts, hts⟩ := List.exists_cons_of_ne_nil hne
    have hmem : t ∉ t' :: ts := hts ▸ hfresh
    simp only [Request.join, hts, List.cons_append, List.head?_cons]
    rintro ⟨rfl⟩
    exact hmem List.mem_cons_self
  have hadv : d.advance t y.book = .blocked := by
    simp only [Delivery.advance, d, arrival, y, hq', if_neg hhead]
  have hstuck : advanceTask ((h.withIntake y).setTask t (some (.delivering d))) t
      (.delivering d) = .blocked := by
    rw [advanceTask, deliver_of_blocked hadv]
    rfl
  obtain ⟨h₁, ha, hr⟩ := hr.advances ht
  cases (advance_of_moved ht hmove).symm.trans ha
  obtain ⟨h₂, ha, -⟩ := hr.advances hself
  cases (advance_of_blocked hself hstuck).symm.trans ha

theorem handles_handler (hb : h.book.Sound) (ht : h.task? t = some (.handler e))
    (hfresh : ∀ (id : RequestId) r, h.book.requests[id]? = some r → t ∉ r.line) :
    Handles t (h.intake.take h.caching e) (h.FindsNoLine e ∧ h.HasRoomFor e) h := by
  by_cases hline : h.FindsNoLine e
  · have hnears := receive_nears (t := t) hb hline
    have hboth : h.HasRoomFor e ↔ h.FindsNoLine e ∧ h.HasRoomFor e :=
      ⟨fun hroom => ⟨hline, hroom⟩, And.right⟩
    apply handles_of_nears ht (hnears.congr hboth) rfl
    intro y d r hq htakes hplacing hmoved
    have hself : ((h.withIntake y).setTask t (some (.delivering d))).task? t =
        some (.delivering d) := task?_setTask_self ht rfl _
    exact handles_delivering hself hq htakes hplacing.ne_arriving
  · refine ⟨fun g hr => absurd ?_ hline, fun hfits => absurd hfits.1 hline⟩
    rintro c id r rfl hid hq
    exact hr.not_behind ht hid hq (hfresh id r hq)

theorem handles_dispatch {h : Hub} (hn : h.IsNew) (past : List Action) (e : Event) :
    Handles ((h.after past).dispatch e).1
      ((h.after past).intake.take (h.after past).caching e)
      ((h.after past).FindsNoLine e ∧ (h.after past).HasRoomFor e) ((h.after past).dispatch e).2 := by
  have hr := Reached.after hn past
  have hself := task?_spawn (h.after past) (.handler e) (h.after past).tasks.size
  rw [if_pos rfl] at hself
  have hb : ((h.after past).dispatch e).2.book.Sound := hr.sound
  refine handles_handler hb hself fun id r hq hm => ?_
  -- The task is new, so that it cannot have been in line.
  obtain ⟨d, hd, -⟩ := hr.lined.holds hq hm
  have hnone := hr.unstarted (h.after past).tasks.size (Nat.le_refl _)
  have hnew : (h.after past).scene.delivery? ((h.after past).dispatch e).1 = none := by
    rw [Scene.delivery?, dispatch, spawn, hnone]
    rfl
  cases hnew.symm.trans hd

end Hub

/-! ## What a request makes of the chunks under its nonce -/

def Event.Carries (n : String) : Event → Bool
  | .other _ => false
  | .chunk c => c.nonce = some n

namespace Request

instance (r : Request) : Decidable r.Waiting := inferInstanceAs (Decidable (_ ∧ _))

/-- The request after an event, if that is a chunk under nonce `n`, which stands for the request as
long as it waits. -/
def meet (n : String) (r : Request) : Event → Request
  | .other _ => r
  | .chunk c =>
    if c.nonce = some n ∧ r.Waiting then r.consume c.count (c.stamped.filter r.accepts) else r

theorem meet_of_not_carries {n : String} {e : Event} (he : e.Carries n = false) (r : Request) :
    r.meet n e = r := by
  cases e with
  | other kind => rfl
  | chunk c =>
    have hne : ¬c.nonce = some n := by simpa [Event.Carries] using he
    simp [meet, hne]

theorem nonce_meet (n : String) (r : Request) (e : Event) : (r.meet n e).nonce = r.nonce := by
  cases e with
  | other kind => rfl
  | chunk c =>
    simp only [meet]
    split
    · exact r.nonce_consume _ _
    · rfl

theorem foldl_meet_filter (n : String) (es : List Event) (r : Request) :
    (es.filter (Event.Carries n)).foldl (meet n) r = es.foldl (meet n) r := by
  induction es generalizing r with
  | nil => rfl
  | cons e es ih =>
    by_cases he : e.Carries n = true
    · rw [List.filter_cons_of_pos he, List.foldl_cons, List.foldl_cons, ih]
    · rw [List.filter_cons_of_neg he, List.foldl_cons, ih,
        meet_of_not_carries (Bool.eq_false_iff.mpr he)]

def Admits (n : String) (r : Request) : Event → Prop
  | .other _ => True
  | .chunk c => c.nonce = some n → r.Waiting →
    r.line = [] ∧ (c.stamped.filter r.accepts).length ≤ r.room

def AdmitsAll (n : String) (r : Request) : List Event → Prop
  | [] => True
  | e :: es => (e.Carries n = true → r.Admits n e) ∧ (r.meet n e).AdmitsAll n es

theorem AdmitsAll.filter {n : String} : ∀ {es : List Event} {r : Request}, r.AdmitsAll n es →
    r.AdmitsAll n (es.filter (Event.Carries n))
  | [], _, h => h
  | e :: es, r, h => by
    by_cases he : e.Carries n = true
    · rw [List.filter_cons_of_pos he]
      exact ⟨h.1, h.2.filter⟩
    · rw [List.filter_cons_of_neg he]
      have hrest := h.2.filter
      rwa [meet_of_not_carries (Bool.eq_false_iff.mpr he)] at hrest

end Request

structure Book.Has (b : Book) (id : RequestId) (r : Request) : Prop where
  request : b.requests[id]? = some r
  only : ∀ i, b.registry.get? r.nonce = some i → i = id

namespace Book.Has

variable {b : Book} {id : RequestId} {r : Request} {c : Chunk}

theorem get?_nonce (hb : b.Sound) (hx : b.Has id r) :
    b.registry.get? r.nonce = if r.Waiting then some id else none := by
  have hiff := hb.get?_nonce hx.request
  by_cases hw : r.Waiting
  · rw [if_pos hw, hiff.mpr hw]
  · rw [if_neg hw]
    cases hg : b.registry.get? r.nonce with
    | none => rfl
    | some i =>
      obtain rfl := hx.only i hg
      exact absurd (hiff.mp hg) hw

end Book.Has

namespace Intake

variable {x : Intake} {id : RequestId} {r : Request}

/-- A chunk under another nonce is handed over to another request. -/
theorem has_absorb_other (hb : x.book.Sound) (hx : x.book.Has id r) (caching : Bool) {c : Chunk}
    {i : RequestId} {m : String} (hm : x.book.registry.get? m = some i) (hne : m ≠ r.nonce) :
    (x.absorb caching i c).book.Has id r := by
  obtain ⟨q, hq, rfl, -⟩ := (hb.registered m i).mp hm
  obtain ⟨hrep, hreg⟩ := absorb_book caching c hq hm
  have hi : id ≠ i := by
    rintro rfl
    cases hx.request.symm.trans hq
    exact hne rfl
  refine ⟨(hrep.ne hi).trans hx.request, fun j hj => ?_⟩
  apply hx.only
  rw [hreg] at hj
  split at hj
  · rwa [Registry.get?_erase, if_neg hne] at hj
  · exact hj

theorem has_absorb (hx : x.book.Has id r) (caching : Bool) (c : Chunk)
    (hreg : x.book.registry.get? r.nonce = some id) :
    (x.absorb caching id c).book.Has id (r.consume c.count (c.stamped.filter r.accepts)) := by
  obtain ⟨hrep, hreg'⟩ := absorb_book caching c hx.request hreg
  refine ⟨hrep.self, fun j hj => ?_⟩
  apply hx.only
  rw [r.nonce_consume, hreg'] at hj
  split at hj
  · rw [Registry.get?_erase, if_pos rfl] at hj
    cases hj
  · exact hj

/-- Of an event taken in at once, a request meets the chunk if it is under its nonce. -/
theorem has_take (hb : x.book.Sound) (hx : x.book.Has id r) (caching : Bool) (e : Event) :
    (x.take caching e).book.Has id (r.meet r.nonce e) := by
  cases e with
  | other kind => exact hx
  | chunk c =>
    cases hc : c.nonce with
    | none =>
      simp only [take, Request.meet, hc]
      exact hx
    | some m =>
      simp only [take, Request.meet, hc, Option.bind_some, Option.some.injEq, Book.lookup]
      by_cases hm : m = r.nonce
      · subst hm
        rw [hx.get?_nonce hb]
        by_cases hw : r.Waiting
        · simp only [hw, and_self, if_true]
          exact has_absorb hx caching c ((hb.get?_nonce hx.request).mpr hw)
        · simp only [hw, and_false, if_false]
          exact hx
      · simp only [hm, false_and, if_false]
        cases hg : x.book.registry.get? m with
        | none => exact hx
        | some i => exact has_absorb_other hb hx caching hg hm

end Intake

namespace Hub

variable {h g : Hub} {id : RequestId} {r : Request}

/-- Whether a chunk under the nonce of a request has to wait depends on the request only. -/
theorem admits_iff (hb : h.book.Sound) (hx : h.book.Has id r) {e : Event}
    (he : e.Carries r.nonce = true) : h.FindsNoLine e ∧ h.HasRoomFor e ↔ r.Admits r.nonce e := by
  cases e with
  | other kind => cases he
  | chunk c =>
    have hc : c.nonce = some r.nonce := by simpa [Event.Carries] using he
    have hmatch : h.match? c = if r.Waiting then some id else none := by
      rw [match?, hc]
      exact hx.get?_nonce hb
    constructor
    · rintro ⟨hline, hroom⟩ - hw
      rw [if_pos hw] at hmatch
      exact ⟨hline c id r rfl hmatch hx.request, hroom c id r rfl hmatch hx.request⟩
    · intro hadmits
      have both (c' : Chunk) (i : RequestId) (q : Request) (hc' : Event.chunk c = .chunk c')
          (hi : h.match? c' = some i) (hq : h.book.requests[i]? = some q) :
          q.line = [] ∧ (h.arrival i c').Fits q := by
        cases hc'
        by_cases hw : r.Waiting
        · cases (hmatch.trans (if_pos hw)).symm.trans hi
          cases hx.request.symm.trans hq
          exact hadmits hc hw
        · cases (hmatch.trans (if_neg hw)).symm.trans hi
      exact ⟨fun c' i q hc' hi hq => (both c' i q hc' hi hq).1,
        fun c' i q hc' hi hq => (both c' i q hc' hi hq).2⟩

theorem Dispatched.after {h : Hub} {past : List Action} {es : List Event}
    (hd : Dispatched (h.after past) es g) : ∃ later, g = h.after (later ++ past) := by
  generalize hs : h.after past = s at hd
  induction hd generalizing past with
  | none => exact ⟨[], hs.symm⟩
  | @next s s' g e es hr hd ih =>
    subst hs
    obtain ⟨later, hlater⟩ : ∃ later, s' = h.after (later ++ .dispatch e :: past) := RunsOut.after hr
    obtain ⟨later', rfl⟩ := ih hlater.symm
    exact ⟨later' ++ later ++ [.dispatch e], by simp⟩

theorem RunsOut.has {h s : Hub} (hn : h.IsNew) {past : List Action}
    (hr : RunsOut ((h.after past).dispatch e).1 ((h.after past).dispatch e).2 s)
    (hx : (h.after past).book.Has id r) :
    ∃ later, s = h.after (later ++ .dispatch e :: past) ∧ s.book.Has id (r.meet r.nonce e) := by
  obtain ⟨later, hlater⟩ : ∃ later, s = h.after (later ++ .dispatch e :: past) := RunsOut.after hr
  have hbook : s.book = ((h.after past).intake.take (h.after past).caching e).book :=
    congrArg Intake.book ((handles_dispatch hn past e).1 s hr).2
  refine ⟨later, hlater, ?_⟩
  rw [hbook]
  exact Intake.has_take (Reached.after hn past).sound hx (h.after past).caching e

theorem Dispatched.has {h : Hub} (hn : h.IsNew) {past : List Action} {es : List Event}
    (hd : Dispatched (h.after past) es g) (hx : (h.after past).book.Has id r) :
    g.book.Has id (es.foldl (Request.meet r.nonce) r) ∧ r.AdmitsAll r.nonce es := by
  -- Event by event; the hub in between is one after a longer history, with `r` as it is by then.
  generalize hs : h.after past = s at hd
  induction hd generalizing past r with
  | none =>
    subst hs
    exact ⟨hx, trivial⟩
  | @next s s' g e es hr hd ih =>
    subst hs
    have hb : (h.after past).book.Sound := (Reached.after hn past).sound
    obtain ⟨hfits, -⟩ := (handles_dispatch hn past e).1 s' hr
    obtain ⟨later, hlater, hnext⟩ := hr.has hn hx
    rw [hlater] at hnext
    have hrest := ih hnext hlater.symm
    rw [r.nonce_meet] at hrest
    exact ⟨hrest.1, fun he => (admits_iff hb hx he).mp hfits, hrest.2⟩

theorem exists_dispatched {h : Hub} (hn : h.IsNew) {es : List Event} {past : List Action}
    (hx : (h.after past).book.Has id r) (hes : ∀ e ∈ es, e.Carries r.nonce = true)
    (hadmits : r.AdmitsAll r.nonce es) : ∃ g, Dispatched (h.after past) es g := by
  induction es generalizing past r with
  | nil => exact ⟨_, .none⟩
  | cons e es ih =>
    have hb : (h.after past).book.Sound := (Reached.after hn past).sound
    have he := hes e List.mem_cons_self
    obtain ⟨s, hr⟩ := (handles_dispatch hn past e).2 ((admits_iff hb hx he).mpr (hadmits.1 he))
    obtain ⟨later, hlater, hnext⟩ := hr.has hn hx
    rw [hlater] at hnext
    have hnonce := r.nonce_meet r.nonce e
    obtain ⟨g, hd⟩ := ih hnext
      (fun e' he' => hnonce.symm ▸ hes e' (List.mem_cons_of_mem _ he'))
      (hnonce.symm ▸ hadmits.2)
    rw [← hlater] at hd
    exact ⟨g, .next hr hd⟩

def Ignores (h : Hub) : Event → Prop
  | .other _ => True
  | .chunk c => ∀ n, c.nonce = some n → h.book.registry.get? n = none

theorem Ignores.match? {c : Chunk} (hi : h.Ignores (.chunk c)) : h.match? c = none := by
  cases hc : c.nonce with
  | none => simp [Hub.match?, hc]
  | some n =>
    rw [Hub.match?, hc]
    exact hi n hc

theorem Ignores.take {e : Event} (hi : h.Ignores e) (caching : Bool) :
    (h.intake.take caching e).book = h.book := by
  cases e with
  | other kind => rfl
  | chunk c =>
    have hnone : c.nonce.bind h.intake.book.lookup = none := hi.match?
    simp only [Intake.take, hnone]
    rfl

theorem Ignores.dispatched {h : Hub} (hn : h.IsNew) {past : List Action} {e : Event}
    (hi : (h.after past).Ignores e) : ∃ g, Dispatched (h.after past) [e] g ∧
      (∀ g', Dispatched (h.after past) [e] g' → g' = g) ∧ g.book = (h.after past).book := by
  obtain ⟨hruns, hexists⟩ := handles_dispatch hn past e
  have unmatched {P : Prop} {c : Chunk} {id : RequestId} (he : e = .chunk c)
      (hid : (h.after past).match? c = some id) : P := by
    subst he
    cases hi.match?.symm.trans hid
  obtain ⟨g, hr⟩ := hexists ⟨fun c id r he hid _ => unmatched he hid,
    fun c id r he hid _ => unmatched he hid⟩
  refine ⟨g, .next hr .none, fun g' hd => hd.unique (.next hr .none), ?_⟩
  exact (congrArg Intake.book (hruns g hr).2).trans (hi.take _)

end Hub

/-- **Requests that share the events are kept apart.** Let events be dispatched one after the other
such that no send has to wait. What becomes of a registered request is the same if only the chunks
under its nonce are dispatched, and these do not have to wait either. An event that is no chunk, or
whose nonce stands for no request, is handled at once and leaves the requests, the registry and the
cache as they are. -/
theorem requests_kept_apart {h : Hub} (hn : h.IsNew) (past : List Action) :
    (∀ n id es g, (h.after past).book.registry.get? n = some id →
      Hub.Dispatched (h.after past) es g →
      ∃ g', Hub.Dispatched (h.after past) (es.filter (Event.Carries n)) g' ∧
        (∀ g'', Hub.Dispatched (h.after past) (es.filter (Event.Carries n)) g'' → g'' = g') ∧
        (∃ r, g.book.requests[id]? = some r ∧ g'.book.requests[id]? = some r) ∧
        ∀ m, g.book.registry.get? m = some id ↔ g'.book.registry.get? m = some id) ∧
    ∀ e, (h.after past).Ignores e → ∃ g, Hub.Dispatched (h.after past) [e] g ∧
      (∀ g', Hub.Dispatched (h.after past) [e] g' → g' = g) ∧ g.book = (h.after past).book := by
  refine ⟨fun n id es g hreg hd => ?_, fun e hi => hi.dispatched hn⟩
  have hb : (h.after past).book.Sound := (Reached.after hn past).sound
  obtain ⟨r, hq, rfl, -⟩ := (hb.registered n id).mp hreg
  have hx : (h.after past).book.Has id r :=
    ⟨hq, fun i hi => Option.some.inj (hi.symm.trans hreg)⟩
  obtain ⟨hg, hadmits⟩ := hd.has hn hx
  obtain ⟨g', hd'⟩ := Hub.exists_dispatched hn hx (fun e he => (List.mem_filter.mp he).2)
    hadmits.filter
  -- Both runs come to what the request makes of all the events, of which the others drop out.
  obtain ⟨hg', -⟩ := hd'.has hn hx
  rw [Request.foldl_meet_filter] at hg'
  refine ⟨g', hd', fun g'' hd'' => hd''.unique hd', ⟨_, hg.request, hg'.request⟩, fun m => ?_⟩
  obtain ⟨later, rfl⟩ := hd.after
  obtain ⟨later', rfl⟩ := hd'.after
  have hs : (h.after (later ++ past)).book.Sound := (Reached.after hn _).sound
  have hs' : (h.after (later' ++ past)).book.Sound := (Reached.after hn _).sound
  rw [hs.registered, hs'.registered, hg.request, hg'.request]

/-- A chunk under the nonce of the only request, one under another nonce, and an event of another kind. -/
def mixedEvents : List Event :=
  [.chunk { Chunk.sample [.sample "a"] with nonce := some "y" }, .other "READY",
    .chunk (.sample [.sample "a"]), .chunk (.sample [.sample "b"])]

theorem mixedEvents_kept_apart :
    (Hub.sample .accept).IsNew ∧
      ∃ g g', Hub.Dispatched ((Hub.sample .accept).after [.segment 0, .callStream (.all ⟨1⟩)])
          mixedEvents g ∧
        Hub.Dispatched ((Hub.sample .accept).after [.segment 0, .callStream (.all ⟨1⟩)])
          [.chunk (.sample [.sample "a"]), .chunk (.sample [.sample "b"])] g' ∧
        ∃ r, g.book.requests[0]? = some r ∧ g'.book.requests[0]? = some r := by
  have hn := Hub.sample_isNew .accept
  have hd : Hub.Dispatched ((Hub.sample .accept).after [.segment 0, .callStream (.all ⟨1⟩)])
      mixedEvents _ :=
    .next (.next rfl (.ended rfl)) (.next (.next rfl (.ended rfl))
      (.next (.next rfl (.next rfl (.ended rfl))) (.next (.next rfl (.ended rfl)) .none)))
  obtain ⟨g', hd', -, hsame, -⟩ := (requests_kept_apart hn _).1 "x" 0 _ _ rfl hd
  exact ⟨hn, _, g', hd, hd', hsame⟩

end Rollcall
