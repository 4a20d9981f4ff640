import Rollcall.Proofs.Handling
import Rollcall.Proofs.Queue

/-!
# Loops in order

A loop takes the events that come into its queue in their order, and begins with one only when the
one before it has been handled to its end (`Hub.inTurn`). Once it is gone, nothing more comes of it.
All that together is `Hub.WorksThrough`.
-/

namespace Rollcall

/-- The events of a trail: those that have been handled to their end, then the one begun since. -/
def Trail.begun (tr : Trail) : List Event := (tr.ended ++ tr.current.toList).map (·.event)

namespace Hub

variable {h : Hub} {t : TaskId} {a : Action} {d : Delivery} {index : Nat} {past : List Action}

/-! ## Trails of loops -/

theorem Agrees.begun_extend {caching : Bool} {tr : Trail} (ha : h.Agrees t caching tr)
    (hb : h.book.Sound) : (h.extend t tr).begun = tr.begun ++ h.begins (.segment t) := by
  have goOn {x : Handling} (ms : List Member) (m : Move Book Delivery Delivered)
      (hm : m ≠ .blocked) : (tr.goOn x ms m).begun = tr.ended.map (·.event) ++ [x.event] := by
    cases m with
    | blocked => exact absurd rfl hm
    | moved b d' => simp [Trail.goOn, Trail.begun, Handling.put]
    | done b out => simp [Trail.goOn, Trail.begun, Handling.put]
  cases hx : h.nextOf t with
  | none => simp [Hub.extend, begins, hx]
  | some y =>
    cases y with
    | delivery d =>
      obtain ⟨x, hcurrent, -⟩ := ha.held d (delivery?_of_next hx)
      have hold : tr.begun = tr.ended.map (·.event) ++ [x.event] := by
        simp [Trail.begun, hcurrent]
      have hbegins : h.begins (.segment t) = [] := by rw [begins, hx]
      simp only [Hub.extend, hx, hcurrent]
      rw [hbegins, List.append_nil, hold]
      by_cases hm : d.advance t h.book = .blocked
      · rw [hm, Trail.goOn, hold]
      · exact goOn _ _ hm
    | event e =>
      have hidle := ha.idle_of_event hx
      have hold : tr.begun = tr.ended.map (·.event) := by simp [Trail.begun, hidle]
      have hbegins : h.begins (.segment t) = [e] := by rw [begins, hx]
      rw [hbegins, hold]
      cases hd : h.taken? e with
      | some d =>
        simp only [Hub.extend, hx, hd]
        exact goOn _ _ (taken_ne_blocked hb hd)
      | none => simp [Hub.extend, hx, hd, Trail.begun, hidle]

theorem trail_of_gone (h : Hub) (hlt : t < (h.after past).tasks.size)
    (hnone : (h.after past).task? t = none) (later : List Action) :
    h.trail t (later ++ past) = h.trail t past ∧ t < (h.after (later ++ past)).tasks.size ∧
      (h.after (later ++ past)).task? t = none := by
  induction later with
  | nil => exact ⟨rfl, hlt, hnone⟩
  | cons a later ih =>
    obtain ⟨htrail, hlt, hnone⟩ := ih
    refine ⟨?_, gone_perform hlt hnone a⟩
    rw [List.cons_append]
    by_cases ha : a = .segment t
    · subst ha
      have hx : (h.after (later ++ past)).nextOf t = none := by rw [nextOf, hnone]; rfl
      rw [trail_segment, Hub.extend, hx, htrail]
    · rw [trail_of_ne h ha, htrail]

inductive Stands (h : Hub) (t : TaskId) (index : Nat) (tr : Trail) (stream : List Event) : Prop
  | running (current : Option Delivery) (l : EventLoop) (ht : h.task? t = some (.loop index current))
      (hl : h.loops[index]? = some l) (hrun : l.running = true) (hall : tr.begun ++ l.queue = stream)
  | gone (l : EventLoop) (ht : h.task? t = none) (hl : h.loops[index]? = some l)
      (hrun : l.running = false) (hall : tr.begun <+: stream)

structure InTurn (h : Hub) (t : TaskId) (index : Nat) (tr : Trail) (stream : List Event) : Prop where
  started : t < h.tasks.size
  sole : ∀ t', h.IsLoop t' index → t' = t
  stands : h.Stands t index tr stream

theorem pushes_of_stopped {l : EventLoop} (hl : h.loops[index]? = some l) (hrun : l.running = false)
    (a : Action) : h.pushes index a = [] := by
  have hno : h.canPush index = false := by simp [canPush, hl, hrun]
  cases a with
  | push i events => simp [pushes, hno]
  | _ => rfl

section

variable {h' : Hub} {l : EventLoop} {tr tr' : Trail} {stream : List Event} {caching : Bool}

theorem stands_of_stopped {f : EventLoop → EventLoop} (hl : h.loops[index]? = some l)
    (hall : tr.begun ++ l.queue = stream) (ht : h'.task? t = none)
    (hl' : h'.loops = h.loops.modify index f) (hf : (f l).running = false)
    (hbegun : tr'.begun = tr.begun) : h'.Stands t index tr' stream := by
  refine .gone (f l) ht (by rw [hl']; exact loops_modify_self hl f) hf ?_
  rw [hbegun, ← hall]
  exact List.prefix_append _ _

theorem Stands.segment (hs : h.Stands t index tr stream) (hb : h.book.Sound)
    (ha : h.Agrees t caching tr) :
    (h.perform (.segment t)).Stands t index (h.extend t tr) stream := by
  cases hs with
  | gone l ht hl hrun hall =>
    have hx : h.nextOf t = none := by rw [nextOf, ht]; rfl
    rw [perform, advance_of_gone ht]
    simp only [Hub.extend, hx]
    exact .gone l ht hl hrun hall
  | running current l ht hl hrun hall =>
    have hbegun := ha.begun_extend hb
    cases loop_segment hb ht hl with
    | waits hs he hbegins =>
      rw [hbegins, List.append_nil] at hbegun
      rw [he]
      exact .running current l ht hl hrun (by rw [hbegun, hall])
    | goesOn current' hs hself hl' hbegins =>
      rw [hbegins, List.append_nil] at hbegun
      exact .running current' l hself hl' hrun (by rw [hbegun, hall])
    | takes e rest current' hs hself hqueue hl' hbegins =>
      rw [hbegins] at hbegun
      refine .running current' _ hself hl' hrun ?_
      rw [hbegun, ← hall, hqueue]
      simp
    | stops hwhy he hgone hbegins =>
      rw [hbegins, List.append_nil] at hbegun
      refine stands_of_stopped (f := fun l => { l with queue := [], running := false }) hl hall
        hgone ?_ rfl hbegun
      rw [he]
      cases current <;> rfl

theorem Stands.dropTask (hs : h.Stands t index tr stream) :
    (h.perform (.dropTask t)).Stands t index tr stream := by
  cases hs with
  | gone l ht hl hrun hall =>
    have hsame : h.perform (.dropTask t) = h := by simp only [Hub.perform, Hub.dropTask, ht]
    rw [hsame]
    exact .gone l ht hl hrun hall
  | running current l ht hl hrun hall =>
    have hgone : (h.perform (.dropTask t)).task? t = none := by
      simp only [Hub.perform, Hub.dropTask, ht]
      exact task?_setTask_self ht (tasks_abandon h t _) none
    refine stands_of_stopped (f := fun l => { l with queue := [], running := false }) hl hall
      hgone ?_ rfl rfl
    simp only [Hub.perform, Hub.dropTask, ht]
    cases current <;> rfl

/-- All that others do is to add to the queue, as long as the loop runs. -/
theorem Stands.other (hs : h.Stands t index tr stream) (hlt : t < h.tasks.size)
    (hsole : ∀ t', h.IsLoop t' index → t' = t) {a : Action} (hne : a ≠ .segment t)
    (hdrop : a ≠ .dropTask t) :
    (h.perform a).Stands t index tr (stream ++ h.pushes index a) := by
  have hothers (t' : TaskId) (ht' : h.IsLoop t' index) : a ≠ .segment t' ∧ a ≠ .dropTask t' := by
    rw [hsole t' ht']
    exact ⟨hne, hdrop⟩
  cases hs with
  | gone l ht hl hrun hall =>
    obtain ⟨l', hl', hfed⟩ := loop_of_other hl hothers
    rw [pushes_of_stopped hl hrun, List.append_nil]
    exact .gone l' (gone_perform hlt ht a).2 hl' (hfed.running.trans hrun) hall
  | running current l ht hl hrun hall =>
    obtain ⟨l', hl', hfed⟩ := loop_of_other hl hothers
    have hkept : (h.perform a).task? t = some (.loop index current) := by
      cases h.perform_task a t hne with
      | kept he => exact he.trans ht
      | started task hsize => exact absurd hsize (Nat.ne_of_lt hlt)
      | released c id result ht' => cases ht.symm.trans ht'
      | dropped hd => exact absurd hd hdrop
    refine .running current l' hkept hl' (hfed.running.trans hrun) ?_
    rw [hfed.queue, ← List.append_assoc, hall]

end

theorem Stands.index_lt {tr : Trail} {stream : List Event} (hs : h.Stands t index tr stream) :
    index < h.loops.size := by
  cases hs with
  | running current l ht hl => exact (Array.getElem?_eq_some_iff.mp hl).1
  | gone l ht hl => exact (Array.getElem?_eq_some_iff.mp hl).1

theorem pushed_unstarted (h : Hub) (hle : (h.after past).loops.size ≤ index) :
    h.pushed index past = [] := by
  induction past with
  | nil => rfl
  | cons a past ih =>
    have hle' := Nat.le_trans ((h.after past).perform_grows a).2 hle
    have hno : (h.after past).canPush index = false := by
      simp [canPush, Array.getElem?_eq_none hle']
    rw [pushed, ih hle', List.nil_append]
    cases a with
    | push i events => simp [pushes, hno]
    | _ => rfl

theorem size_le_run {before : List Action} (hrun : (h.after before).run.1 = (t, index)) :
    h.tasks.size ≤ t := by
  have hsize := h.size_le_after [] before
  rw [List.append_nil] at hsize
  have ht : (h.after before).tasks.size = t := congrArg Prod.fst hrun
  exact ht ▸ hsize

section

variable (hn : h.IsNew) {before : List Action}
include hn

theorem inTurn_started (hrun : (h.after before).run.1 = (t, index)) :
    (h.after (.run :: before)).InTurn t index (h.trail t (.run :: before))
      (h.pushed index (.run :: before)) := by
  have ht : t = (h.after before).tasks.size := (congrArg Prod.fst hrun).symm
  have hi : index = (h.after before).loops.size := (congrArg Prod.snd hrun).symm
  subst ht hi
  have hnone : h.trail (h.after before).tasks.size before = {} := trail_unstarted (Nat.le_refl _)
  have htrail : h.trail (h.after before).tasks.size (.run :: before) = {} := hnone
  have hpushed : h.pushed (h.after before).loops.size before = [] :=
    h.pushed_unstarted (Nat.le_refl _)
  refine ⟨?_, fun t' hl => ?_, .running none {} ?_ ?_ rfl ?_⟩
  · simp [after, perform, Hub.run, spawn]
  · rcases isLoop_perform (a := .run) hl with ⟨current, ht⟩ | ⟨hnew, -⟩
    · exact absurd (loop_lt hn ht) (Nat.lt_irrefl _)
    · exact hnew
  · simp [after, perform, Hub.run, task?_spawn]
  · simp [after, perform, Hub.run, spawn]
  · rw [htrail, pushed, hpushed]
    rfl

/-- A loop begins with what comes into its queue in its order. -/
theorem inTurn (hrun : (h.after before).run.1 = (t, index)) (later : List Action) :
    (h.after (later ++ .run :: before)).InTurn t index (h.trail t (later ++ .run :: before))
      (h.pushed index (later ++ .run :: before)) := by
  induction later with
  | nil => exact inTurn_started hn hrun
  | cons a later ih =>
    have hagrees := (h.agrees (size_le_run hrun) (later ++ .run :: before)).2
    have hb := (Reached.after hn (later ++ .run :: before)).sound
    refine ⟨Nat.lt_of_lt_of_le ih.started (h.size_le_after _ [a]), fun t' hl => ?_, ?_⟩
    · rcases isLoop_perform hl with hl | ⟨-, hnew⟩
      · exact ih.sole t' hl
      · exact absurd hnew (Nat.ne_of_lt ih.stands.index_lt)
    · have unpushed (a : Action) (hnone : (h.after (later ++ .run :: before)).pushes index a = []) :
          h.pushed index (a :: (later ++ .run :: before)) =
            h.pushed index (later ++ .run :: before) := by
        rw [pushed, hnone, List.append_nil]
      rw [List.cons_append]
      by_cases ha : a = .segment t
      · subst ha
        rw [trail_segment, unpushed _ rfl]
        exact ih.stands.segment hb hagrees
      · rw [trail_of_ne h ha]
        by_cases hdrop : a = .dropTask t
        · subst hdrop
          rw [unpushed _ rfl]
          exact ih.stands.dropTask
        · exact ih.stands.other ih.started ih.sole ha hdrop

end

/-! ## Stopping -/

structure WorksThrough (h : Hub) (t : TaskId) (index : Nat) (past : List Action) : Prop where
  order : (h.trail t past).begun <+: h.pushed index past
  queued : ∀ current, (h.after past).task? t = some (.loop index current) →
    ∃ l, (h.after past).loops[index]? = some l ∧
      (h.trail t past).begun ++ l.queue = h.pushed index past ∧
      ((h.trail t past).current = none ↔ current = none)
  -- a loop that stops has been told to, or has handled all there was
  ending : ∀ current l, (h.after past).task? t = some (.loop index current) →
    (h.after past).loops[index]? = some l → (h.after (.segment t :: past)).task? t = none →
    (t, .stopped) ∈ (h.after (.segment t :: past)).finished ∧
      (l.stopping = true ∨ l.feeding = false ∧ (h.trail t past).current = none ∧
        (h.trail t past).ended.map (·.event) = h.pushed index past)
  -- from then on nothing comes of it
  gone : (h.after past).task? t = none → ∀ later, h.trail t (later ++ past) = h.trail t past ∧
    h.pushed index (later ++ past) = h.pushed index past ∧
    (∀ es, h.after (.push index es :: later ++ past) = h.after (later ++ past)) ∧
    h.after (.segment t :: later ++ past) = h.after (later ++ past)

theorem Agrees.current_iff {caching : Bool} {tr : Trail} {current : Option Delivery}
    (ha : h.Agrees t caching tr) (ht : h.task? t = some (.loop index current)) :
    tr.current = none ↔ current = none := by
  have hd : h.delivery? t = current := delivery?_of_task ht
  cases current with
  | none => exact iff_of_true (ha.idle _ ht trivial rfl) rfl
  | some d =>
    obtain ⟨x, hx, -⟩ := ha.held d hd
    exact iff_of_false (by rw [hx]; nofun) nofun

theorem after_segment_of_gone (hnone : (h.after past).task? t = none) :
    h.after (.segment t :: past) = h.after past := by
  rw [after, perform, advance_of_gone hnone]
  rfl

section

variable (hn : h.IsNew) {before later : List Action} (hrun : (h.after before).run.1 = (t, index))
include hn hrun

/-- A loop that is gone leaves a queue that nothing comes into. -/
theorem loop_of_gone (hnone : (h.after (later ++ .run :: before)).task? t = none)
    (more : List Action) : ∃ l, l.running = false ∧
      (h.after (more ++ (later ++ .run :: before))).loops[index]? = some l := by
  have hgone := (h.trail_of_gone (inTurn hn hrun later).started hnone more).2.2
  have hstands := (inTurn hn hrun (more ++ later)).stands
  rw [List.append_assoc] at hstands
  cases hstands with
  | running current l ht => cases hgone.symm.trans ht
  | gone l ht hl hstopped => exact ⟨l, hstopped, hl⟩

theorem pushed_of_gone (hnone : (h.after (later ++ .run :: before)).task? t = none)
    (more : List Action) : h.pushed index (more ++ (later ++ .run :: before)) =
      h.pushed index (later ++ .run :: before) := by
  induction more with
  | nil => rfl
  | cons a more ih =>
    obtain ⟨l, hstopped, hl⟩ := loop_of_gone hn hrun hnone more
    rw [List.cons_append, pushed, ih, pushes_of_stopped hl hstopped, List.append_nil]

theorem worksThrough : h.WorksThrough t index (later ++ .run :: before) := by
  have hturn := inTurn hn hrun later
  have hagrees := (h.agrees (size_le_run hrun) (later ++ .run :: before)).2
  have hb := (Reached.after hn (later ++ .run :: before)).sound
  constructor
  · cases hturn.stands with
    | running current l ht hl hrunning hall =>
      rw [← hall]
      exact List.prefix_append _ _
    | gone l ht hl hstopped hall => exact hall
  · intro current ht
    cases hturn.stands with
    | running current' l ht' hl hrunning hall => exact ⟨l, hl, hall, hagrees.current_iff ht⟩
    | gone l ht' => cases ht.symm.trans ht'
  · intro current l ht hl hgone
    cases hturn.stands with
    | gone l ht' => cases ht.symm.trans ht'
    | running current' l' ht' hl' hrunning hall =>
      cases hl.symm.trans hl'
      cases loop_segment hb ht hl with
      | waits hs he => cases ((congrArg (task? · t) he).trans ht).symm.trans hgone
      | goesOn current' hs hself => cases hself.symm.trans hgone
      | takes e rest current' hs hself => cases hself.symm.trans hgone
      | stops hwhy he =>
        refine ⟨by rw [after, he]; exact Array.mem_push_self, hwhy.imp_right ?_⟩
        rintro ⟨rfl, hqueue, hfeeding⟩
        have hcurrent := (hagrees.current_iff ht).mpr rfl
        rw [hqueue, List.append_nil, Trail.begun, hcurrent] at hall
        exact ⟨hfeeding, hcurrent, by simpa using hall⟩
  · intro hnone more
    obtain ⟨htrail, -, hgone⟩ := h.trail_of_gone hturn.started hnone more
    obtain ⟨l, hstopped, hl⟩ := loop_of_gone hn hrun hnone more
    refine ⟨htrail, pushed_of_gone hn hrun hnone more, fun es => ?_, after_segment_of_gone hgone⟩
    have hno : (h.after (more ++ (later ++ .run :: before))).canPush index = false := by
      simp [canPush, hl, hstopped]
    rw [List.cons_append, after, perform, push, hno]
    rfl

end

end Hub
end Rollcall
