import Rollcall.Proofs.Calm

/-!
# Events one at a time

Events may be given to a hub one by one, each worked off before the next one comes. All of them then
come to what they come to together (`Taken.trans`). Two hubs that are given the same events in this
way go in lockstep, and whatever follows from what was taken in holds of them after each event
(`lockstep`).
-/

namespace Rollcall
namespace Hub

variable {h : Hub} {t : TaskId} {x : Gatherer} {id : RequestId} {got read : List Member}
  {es es' : List Event} {past past' later : List Action}

/-! ## Rounds put together -/

theorem Taken.refl (hn : h.IsNew) (hq : (h.after past).Quiet) :
    Taken (h.after past) [] (h.after past) := by
  refine ⟨rfl, rfl, fun hx hr => ?_, fun _ => rfl⟩
  exact (progress_of_quiet hn hq hx hr rfl rfl).gathered hn hq

theorem Gathered.of_complete (hn : h.IsNew) (hg : (h.after past).Gathered t x id got read)
    {r : Request} (hr : (h.after past).book.requests[id]? = some r) (hc : r.complete = true)
    (hgone : (h.after (later ++ past)).task? t = none) :
    (h.after (later ++ past)).Gathered t x id got read := by
  obtain ⟨ms, r₁, hr₁, hplaced, -, hends⟩ := hg
  cases hr.symm.trans hr₁
  obtain ⟨r', hr', hc', -, -, hplaced'⟩ := complete_after hn hr hc later
  refine ⟨ms, r', hr', hplaced'.trans hplaced, ?_, fun _ => mem_finished_after (hends hc) later⟩
  rw [hgone, hc']
  rfl

theorem Gathered.read_eq (hn : h.IsNew) (hq : (h.after past).Quiet) {ms : List Member}
    {r : Request} (hr : (h.after past).book.requests[id]? = some r)
    (hplaced : r.channel.placed = (ms ++ read).reverse)
    (ht : (h.after past).task? t = some (x.task id (ms ++ got))) :
    r.channel.read = ms ++ read := by
  obtain ⟨r', hp⟩ := pending_of_quiet hn hq ht
  cases hr.symm.trans hp.request
  rw [Channel.placed, hp.unread, List.append_nil] at hplaced
  exact List.reverse_injective hplaced

theorem Taken.trans (hn : h.IsNew) (hrest : (h.after past').Quiet)
    (h₁ : Taken (h.after past) es (h.after past'))
    (h₂ : Taken (h.after past') es' (h.after (later ++ past'))) :
    Taken (h.after past) (es ++ es') (h.after (later ++ past')) := by
  refine ⟨h₂.caching.trans h₁.caching, ?_, fun {t x id got r} hx hr => ?_, fun {t} hx => ?_⟩
  · rw [h₂.intake, h₁.caching, Intake.drained_takeAll h₁.intake, Intake.takeAll, Intake.takeAll,
      Intake.takeAll, List.foldl_append]
  · have hgathered := h₁.reads hx hr
    obtain ⟨ms, r', hr', hplaced, ht, -⟩ := h₁.reads hx hr
    cases hc : r'.complete with
    | true =>
      rw [hc, if_pos rfl] at ht
      refine hgathered.of_complete hn hr' hc ((h₂.others fun x id got hx => ?_).trans ht)
      cases ht.symm.trans hx
    | false =>
      rw [hc, if_neg Bool.false_ne_true] at ht
      obtain ⟨ms', r'', hr'', hplaced', ht', hends⟩ := h₂.reads ht hr'
      rw [Gathered.read_eq hn hrest hr' hplaced ht] at hplaced'
      refine ⟨ms' ++ ms, r'', hr'', ?_, ?_, fun hc' => ?_⟩
      · rw [hplaced', List.append_assoc]
      · rw [ht', List.append_assoc]
      · rw [List.append_assoc]
        exact hends hc'
  · have hsame := h₁.others hx
    rw [← hsame]
    exact h₂.others fun x id got => hsame ▸ hx x id got

/-! ## Two hubs -/

/-- Two hubs are given the same events, one at a time, each to a loop or to a handler. However the
tasks of the one and of the other then run, they come to rest before the next event. `R` holds of
the two hubs before the first event, and whenever both have come to rest. -/
def Lockstep (R : Hub → Hub → Prop) : List Event → Hub → Hub → Prop
  | [], g₁, g₂ => R g₁ g₂
  | e :: es, g₁, g₂ => R g₁ g₂ ∧ ∀ {a₁ t₁ i₁ a₂ t₂ i₂}, g₁.Gives a₁ t₁ i₁ [e] →
      g₂.Gives a₂ t₂ i₂ [e] → (g₁.perform a₁).Settles fun k₁ =>
        (g₂.perform a₂).Settles fun k₂ => Lockstep R es k₁ k₂

structure Round (h : Hub) (start : List Action) (es : List Event) (past : List Action) : Prop where
  later : ∃ later, past = later ++ start
  quiet : (h.after past).Quiet
  allRead : (h.after past).AllRead
  taken : Taken (h.after start) es (h.after past)

theorem Round.start (hn : h.IsNew) (hq : (h.after past).Quiet) (hread : (h.after past).AllRead) :
    h.Round past [] past :=
  ⟨⟨[], rfl⟩, hq, hread, .refl hn hq⟩

theorem Round.next (hn : h.IsNew) {start : List Action} (hr : h.Round start es past) {a : Action}
    {index : Option Nat} {e : Event} (hg : (h.after past).Gives a t index [e]) (ts : List TaskId)
    (hrest : (h.after (ts.map .segment ++ a :: past)).Quiet) :
    h.Round start (es ++ [e]) (ts.map .segment ++ a :: past) := by
  obtain ⟨⟨later, hlater⟩, hq, hread, htaken⟩ := hr
  have happ : ts.map .segment ++ a :: past = (ts.map .segment ++ [a]) ++ past := by simp
  refine ⟨⟨ts.map .segment ++ a :: later, by simp [hlater]⟩, hrest,
    (calm_after hn hq hread hg ts).allRead hn hq hread, ?_⟩
  have hround := taken_at_rest hn hq hread hg ts hrest
  rw [happ] at hround ⊢
  exact htaken.trans hn hq hround

/-- What follows from the events that two hubs have taken in holds of them in lockstep. -/
theorem lockstep {R : Hub → Hub → Prop} {h₁ h₂ : Hub} (hn₁ : h₁.IsNew) (hn₂ : h₂.IsNew)
    {start₁ start₂ : List Action}
    (hR : ∀ {es past₁ past₂}, h₁.Round start₁ es past₁ → h₂.Round start₂ es past₂ →
      R (h₁.after past₁) (h₂.after past₂)) (es : List Event) :
    ∀ {done : List Event} {past₁ past₂ : List Action}, h₁.Round start₁ done past₁ →
      h₂.Round start₂ done past₂ → Lockstep R es (h₁.after past₁) (h₂.after past₂) := by
  induction es with
  | nil => exact fun hr₁ hr₂ => hR hr₁ hr₂
  | cons e es ih =>
    intro done past₁ past₂ hr₁ hr₂
    refine ⟨hR hr₁ hr₂, fun {a₁ t₁ i₁ a₂ t₂ i₂} hg₁ hg₂ => ?_⟩
    refine settles fun ts₁ (hrest₁ : (h₁.after (_ ++ a₁ :: past₁)).Quiet) => ?_
    refine settles fun ts₂ (hrest₂ : (h₂.after (_ ++ a₂ :: past₂)).Quiet) => ?_
    exact ih (hr₁.next hn₁ hg₁ ts₁ hrest₁) (hr₂.next hn₂ hg₂ ts₂ hrest₂)

end Hub
end Rollcall
