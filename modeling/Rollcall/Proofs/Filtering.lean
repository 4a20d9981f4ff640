import Rollcall.Proofs.Opening
import Rollcall.Proofs.Rounds

/-!
# Filters act afterwards

A call with a filter comes to what the same call comes to without one, but for the members that the
filter rejects. Take one hub, start the call in it in both ways, and give both hubs the same events.
The calls end on the same event, and neither the cache nor the statistics tell the hubs apart, but
for which of the members offered were placed. Main statement: `filter_acts_afterwards`.
-/

namespace Rollcall

def Outcome.sift (keep : Member → Bool) : Outcome → Outcome
  | .members ms => .members (ms.filter keep)
  | o => o

namespace Hub

/-- Whether the call of task `t` differs in `g₁` and `g₂` by a filter alone: it has ended in both or
in neither, in `g₂` with those members only that the filter accepts; the caches are the same, and
the statistics are, if placed and rejected members are taken together. -/
structure PostFiltered (keep : Member → Bool) (t : TaskId) (g₁ g₂ : Hub) : Prop where
  pending : g₂.task? t = none ↔ g₁.task? t = none
  ends : g₁.task? t = none → ∃ o, (t, o) ∈ g₁.finished
  outcome : ∀ o, (t, o) ∈ g₂.finished ↔ ∃ o', (t, o') ∈ g₁.finished ∧ o = o'.sift keep
  cache : g₂.book.cache = g₁.book.cache
  stats : g₁.stats.Agrees g₂.stats

variable {h : Hub} {keep : Member → Bool} {t : TaskId} {id : RequestId} {es : List Event}
  {start past : List Action}

theorem Gathered.request {x : Gatherer} {got read : List Member} {g : Hub}
    (hg : g.Gathered t x id got read) : ∃ r, g.book.requests[id]? = some r := by
  obtain ⟨-, r, hr, -⟩ := hg
  exact ⟨r, hr⟩

/-- A reader that had read nothing has ended if its request is complete, with all that was placed.
-/
theorem Gathered.ended_iff (hn : h.IsNew) {x : Gatherer}
    (hg : (h.after past).Gathered t x id [] []) {r : Request}
    (hr : (h.after past).book.requests[id]? = some r) :
    ((h.after past).task? t = none ↔ r.complete = true) ∧
      ∀ o, (t, o) ∈ (h.after past).finished ↔ r.complete = true ∧ o = x.finish r.channel.placed := by
  obtain ⟨ms, r', hr', hplaced, ht, hends⟩ := hg
  cases hr.symm.trans hr'
  rw [List.append_nil] at hplaced hends
  cases hc : r.complete with
  | false =>
    rw [hc, if_neg Bool.false_ne_true] at ht
    refine ⟨by simp [ht], fun o => ⟨fun ho => ?_, fun ho => absurd ho.1 Bool.false_ne_true⟩⟩
    cases (gone_of_finished hn ho).2.symm.trans ht
  | true =>
    rw [hc, if_pos rfl] at ht
    have hmem := hends hc
    rw [← hplaced] at hmem
    refine ⟨by simp [ht], fun o => ⟨fun ho => ⟨rfl, finished_sole hn ho hmem⟩, ?_⟩⟩
    rintro ⟨-, rfl⟩
    exact hmem

theorem Round.gone (hn : h.IsNew) (hr : h.Round start es past) (ht : (h.after start).task? t = none)
    {o : Outcome} (ho : (t, o) ∈ (h.after start).finished) :
    (h.after past).task? t = none ∧ ∀ o', (t, o') ∈ (h.after past).finished ↔ o' = o := by
  obtain ⟨later, rfl⟩ := hr.later
  have hmem := mem_finished_after ho later
  refine ⟨(hr.taken.others fun x id got hx => ?_).trans ht, fun o' => ⟨fun ho' => ?_, ?_⟩⟩
  · cases ht.symm.trans hx
  · exact finished_sole hn ho' hmem
  · rintro rfl
    exact hmem

theorem Round.stays (hn : h.IsNew) (hr : h.Round start es past) {task : Task}
    (ht : (h.after start).task? t = some task) (hx : ∀ x id got, task ≠ Gatherer.task x id got) :
    (h.after past).task? t = some task ∧ ∀ o, (t, o) ∉ (h.after past).finished := by
  have hsame := (hr.taken.others fun x id got he =>
    hx x id got (Option.some.inj (ht.symm.trans he))).trans ht
  refine ⟨hsame, fun o ho => ?_⟩
  cases (gone_of_finished hn ho).2.symm.trans hsame

theorem stage_of_gatherer {x : Gatherer} {got : List Member} {c : Call}
    (he : Task.call c = x.task id got) : c.stage = .reading id got := by
  cases x with
  | reader => cases he
  | call c' =>
    cases he
    rfl

/-! ## Both runs -/

theorem Taken.sifted {s₁ s₂ g₁ g₂ : Hub} (hs : Intake.Sifted keep id s₁.intake s₂.intake)
    (hc : s₂.caching = s₁.caching) (h₁ : Taken s₁ es g₁) (h₂ : Taken s₂ es g₂) :
    g₂.book.drained = g₁.book.drained.sift id keep ∧ g₁.stats.Agrees g₂.stats := by
  have hall := hs.takeAll s₁.caching es
  have hintake₁ := h₁.intake
  have hintake₂ := h₂.intake
  rw [hc] at hintake₂
  constructor
  · have hbook₁ : g₁.book.drained = (s₁.intake.takeAll s₁.caching es).book.drained :=
      congrArg Intake.book hintake₁
    have hbook₂ : g₂.book.drained = (s₂.intake.takeAll s₁.caching es).book.drained :=
      congrArg Intake.book hintake₂
    rw [hbook₂, hall.book, Book.drained_sift, hbook₁]
  · have hstats₁ : g₁.stats = (s₁.intake.takeAll s₁.caching es).stats :=
      congrArg Intake.stats hintake₁
    have hstats₂ : g₂.stats = (s₂.intake.takeAll s₁.caching es).stats :=
      congrArg Intake.stats hintake₂
    rw [hstats₁, hstats₂]
    exact hall.stats

theorem allRead_sift {g : Hub} (hg : g.AllRead) : (g.sift keep t id).AllRead := by
  intro n i hreg
  obtain ⟨t', x, got, ht⟩ := hg n i hreg
  by_cases e : t' = t
  · subst e
    cases x with
    | reader =>
      refine ⟨t', .reader, got, ?_⟩
      rw [task?_sift, if_pos rfl, ht]
      rfl
    | call c =>
      refine ⟨t', .call (c.sift keep), got, ?_⟩
      rw [task?_sift, if_pos rfl, ht]
      rfl
  · refine ⟨t', x, got, ?_⟩
    rw [task?_sift, if_neg e]
    exact ht

section

variable {s : Hub} {start₁ start₂ past₁ past₂ : List Action}
  (ho : Opening s t id (h.after start₁))
  (hsame : h.after start₂ = (h.after start₁).sift keep t id)
  (hr₁ : h.Round start₁ es past₁) (hr₂ : h.Round start₂ es past₂)
include ho hsame hr₁ hr₂

theorem Opening.drained : (h.after past₂).book.drained = (h.after past₁).book.drained.sift id keep ∧
    (h.after past₁).stats.Agrees (h.after past₂).stats := by
  have hsifted : Intake.Sifted keep id (h.after start₁).intake (h.after start₂).intake := by
    rw [hsame]
    exact ⟨fun r hr => (ho.bare r hr).plain, rfl, ⟨rfl, rfl, rfl, rfl, rfl⟩⟩
  exact hr₁.taken.sifted hsifted (by rw [hsame]; rfl) hr₂.taken

/-- The request is complete in both runs or in neither, and what was placed differs by the filter.
-/
theorem Opening.request {r₁ r₂ : Request} (hq₁ : (h.after past₁).book.requests[id]? = some r₁)
    (hq₂ : (h.after past₂).book.requests[id]? = some r₂) :
    r₂.complete = r₁.complete ∧ r₂.channel.placed = r₁.channel.placed.filter keep := by
  have hbook := congrArg (fun b : Book => b.requests[id]?) (ho.drained hsame hr₁ hr₂).1
  simp only [Book.getElem?_sift, Book.requests_drained, hq₁, hq₂, Option.map_some,
    Option.some.injEq] at hbook
  constructor
  · have hcomplete : r₂.drained.complete = (r₁.drained.sift keep).complete := by rw [hbook]
    exact hcomplete
  · rw [← Request.placed_drained r₂, hbook, ← Request.placed_drained r₁]
    exact Channel.placed_sift keep _

theorem Opening.reading (hn : h.IsNew) (hq : (h.after start₁).Quiet) {c : Call}
    (ht : (h.after start₁).task? t = some (.call c)) (hs : c.stage = .reading id []) :
    ((h.after past₂).task? t = none ↔ (h.after past₁).task? t = none) ∧
      ((h.after past₁).task? t = none → ∃ o, (t, o) ∈ (h.after past₁).finished) ∧
      ∀ o, (t, o) ∈ (h.after past₂).finished ↔
        ∃ o', (t, o') ∈ (h.after past₁).finished ∧ o = o'.sift keep := by
  have hx₁ : (h.after start₁).task? t = some ((Gatherer.call c).task id []) := by
    rw [ht, Gatherer.task, ← hs]
  obtain ⟨r, hp⟩ := pending_of_quiet hn hq hx₁
  have hread := (ho.bare r hp.request).read
  have hx₂ : (h.after start₂).task? t = some ((Gatherer.call (c.sift keep)).task id []) := by
    rw [hsame, task?_sift, if_pos rfl, hx₁]
    rfl
  have hreq₂ : (h.after start₂).book.requests[id]? = some (r.sift keep) := by
    rw [hsame]
    exact (Book.getElem?_sift _ id keep).trans (congrArg (Option.map _) hp.request)
  have hread₂ : (r.sift keep).channel.read = [] := by
    simp [Request.sift, Channel.sift, hread]
  have hg₁ := hr₁.taken.reads hx₁ hp.request
  have hg₂ := hr₂.taken.reads hx₂ hreq₂
  rw [hread] at hg₁
  rw [hread₂] at hg₂
  obtain ⟨r₁, hq₁⟩ := hg₁.request
  obtain ⟨r₂, hq₂⟩ := hg₂.request
  obtain ⟨hcomplete, hplaced⟩ := ho.request hsame hr₁ hr₂ hq₁ hq₂
  obtain ⟨hgone₁, hends₁⟩ := hg₁.ended_iff hn hq₁
  obtain ⟨hgone₂, hends₂⟩ := hg₂.ended_iff hn hq₂
  rw [hcomplete] at hgone₂ hends₂
  rw [hplaced] at hends₂
  refine ⟨hgone₂.trans hgone₁.symm, fun hgone => ⟨_, (hends₁ _).mpr ⟨hgone₁.mp hgone, rfl⟩⟩,
    fun o => ?_⟩
  rw [hends₂]
  constructor
  · rintro ⟨hc, rfl⟩
    exact ⟨_, (hends₁ _).mpr ⟨hc, rfl⟩, rfl⟩
  · rintro ⟨o', ho', rfl⟩
    obtain ⟨hc, rfl⟩ := (hends₁ o').mp ho'
    exact ⟨hc, rfl⟩

theorem Opening.post_filtered (hn : h.IsNew) (hq : (h.after start₁).Quiet) :
    PostFiltered keep t (h.after past₁) (h.after past₂) := by
  obtain ⟨hbook, hstats⟩ := ho.drained hsame hr₁ hr₂
  have hcache : (h.after past₂).book.drained.cache =
      ((h.after past₁).book.drained.sift id keep).cache := by rw [hbook]
  suffices hcall : ((h.after past₂).task? t = none ↔ (h.after past₁).task? t = none) ∧
      ((h.after past₁).task? t = none → ∃ o, (t, o) ∈ (h.after past₁).finished) ∧
      ∀ o, (t, o) ∈ (h.after past₂).finished ↔
        ∃ o', (t, o') ∈ (h.after past₁).finished ∧ o = o'.sift keep from
    ⟨hcall.1, hcall.2.1, hcall.2.2, hcache, hstats⟩
  have htask₂ : (h.after start₂).task? t = ((h.after start₁).task? t).map (Task.sift keep) := by
    rw [hsame, task?_sift, if_pos rfl]
  rcases ho.call with ⟨c, ht, hc⟩ | ⟨ht, o, hmem, hnone⟩
  · -- A call that does not read waits for its shard, and no event changes that.
    have waits (hs : ∀ id got, c.stage ≠ .reading id got) :
        ((h.after past₂).task? t = none ↔ (h.after past₁).task? t = none) ∧
          ((h.after past₁).task? t = none → ∃ o, (t, o) ∈ (h.after past₁).finished) ∧
          ∀ o, (t, o) ∈ (h.after past₂).finished ↔
            ∃ o', (t, o') ∈ (h.after past₁).finished ∧ o = o'.sift keep := by
      rw [ht] at htask₂
      obtain ⟨ht₁, hno₁⟩ := hr₁.stays hn ht fun x id got he => hs id got (stage_of_gatherer he)
      obtain ⟨ht₂, hno₂⟩ := hr₂.stays hn htask₂ fun x id got he =>
        hs id got (stage_of_gatherer (c := c.sift keep) he)
      simp [ht₁, ht₂, hno₁, hno₂]
    cases hc with
    | reading hs => exact ho.reading hsame hr₁ hr₂ hn hq ht hs
    | starting hs => exact waits fun id got he => by cases hs.symm.trans he
    | held hs => exact waits fun id got he => by cases hs.symm.trans he
  · rw [ht] at htask₂
    obtain ⟨ht₁, hends₁⟩ := hr₁.gone hn ht hmem
    have hmem₂ : (t, o) ∈ (h.after start₂).finished := by
      rw [hsame]
      exact hmem
    obtain ⟨ht₂, hends₂⟩ := hr₂.gone hn htask₂ hmem₂
    have hsift : o.sift keep = o := by
      cases o with
      | members ms =>
        obtain rfl := hnone ms rfl
        rfl
      | _ => rfl
    refine ⟨by simp [ht₁, ht₂], fun _ => ⟨o, (hends₁ o).mpr rfl⟩, fun o' => ?_⟩
    rw [hends₂]
    constructor
    · rintro rfl
      exact ⟨o', (hends₁ o').mpr rfl, hsift.symm⟩
    · rintro ⟨o₁, ho₁, rfl⟩
      rw [(hends₁ o₁).mp ho₁, hsift]

end

end Hub

/-- **A filter acts afterwards.** In a hub in which all that is registered is read to its end, and
no task can move, a call for all members of a guild is started, with or without a filter. The same
command is sent for it. If it reads what it asked for, like all that is registered, then give both
hubs any events, one at a time, to loops or to handlers, and let their tasks run, in any order,
until none can move. After each event the call has ended in both hubs or in neither, with the filter
with just those members that pass it, in the same order. The caches are the same, and so are the
statistics, if members placed and members rejected are taken together. -/
theorem filter_acts_afterwards {h : Hub} (hn : h.IsNew) (past : List Action)
    (hq : (h.after past).Quiet) (hread : (h.after past).AllRead) {ask : Inquiry → Action}
    (hask : Hub.Asks ask) (guild : GuildId) (keep : Member → Bool) (es : List Event) :
    (h.after (ask (.all guild) :: past)).Settles fun g₁ =>
      (h.after (ask (.filtered guild keep) :: past)).Settles fun g₂ =>
        g₂.sent = g₁.sent ∧ (g₁.AllRead →
          Hub.Lockstep (Hub.PostFiltered keep (h.after past).tasks.size) es g₁ g₂) := by
  refine Hub.settles fun ts₁ hrest₁ => Hub.settles fun ts₂ hrest₂ => ?_
  obtain ⟨ho, hsame⟩ := Hub.opened_alike hn hq hread hask (i := .all guild) rfl keep hrest₁ hrest₂
  have hsame : h.after (ts₂.map .segment ++ ask (.filtered guild keep) :: past) = _ := hsame
  refine ⟨by rw [hsame]; rfl, fun hread₁ => ?_⟩
  have hread₂ : (h.after (ts₂.map .segment ++ ask (.filtered guild keep) :: past)).AllRead := by
    rw [hsame]
    exact Hub.allRead_sift hread₁
  exact Hub.lockstep hn hn (fun hr₁ hr₂ => ho.post_filtered hsame hr₁ hr₂ hn hrest₁) es
    (.start hn hrest₁ hread₁) (.start hn hrest₂ hread₂)

def waitsFor (i : Inquiry) : List Action := [.segment 0, .collect i "t"]

def bothOffered (i : Inquiry) : List Action :=
  ([0, 0, 1, 0, 1, 1] : List TaskId).map .segment ++
    .dispatch (.chunk (.sample [.sample "a", .sample "b"])) :: waitsFor i

theorem waitsFor_read : ((Hub.sample .accept).after (waitsFor (.all ⟨1⟩))).AllRead := by
  intro n id hreg
  have hsound := (Reached.after (Hub.sample_isNew .accept) (waitsFor (.all ⟨1⟩))).sound
  obtain ⟨r, hq, -⟩ := (hsound.registered n id).mp hreg
  have hlt : id < 1 := (Array.getElem?_eq_some_iff.mp hq).1
  obtain rfl := Nat.lt_one_iff.mp hlt
  exact ⟨0, .call { inquiry := .all ⟨1⟩, goal := .members (some "t") }, [], rfl⟩

theorem bothOffered_filtered :
    (Hub.sample .accept).IsNew ∧
      (0, .members [.sample "a", .sample "b"]) ∈
        ((Hub.sample .accept).after (bothOffered (.all ⟨1⟩))).finished ∧
      (0, .members [.sample "a"]) ∈ ((Hub.sample .accept).after
        (bothOffered (.filtered ⟨1⟩ fun m => m.user.username == "a"))).finished := by
  have hn := Hub.sample_isNew .accept
  have hq : ((Hub.sample .accept).after []).Quiet := Hub.quiet_of_lt fun t ht => nomatch ht
  have quiet₁ {g : Hub} (hsize : g.tasks.size = 1) (h0 : g.advance 0 = none) : g.Quiet := by
    refine Hub.quiet_of_lt fun t ht => ?_
    obtain rfl : t = 0 := by omega
    exact h0
  have quiet₂ {g : Hub} (hsize : g.tasks.size = 2) (h0 : g.advance 0 = none)
      (h1 : g.advance 1 = none) : g.Quiet := by
    refine Hub.quiet_of_lt fun t ht => ?_
    obtain rfl | rfl : t = 0 ∨ t = 1 := by omega
    · exact h0
    · exact h1
  have hboth := filter_acts_afterwards hn [] hq nofun (.collect "t") ⟨1⟩
    (fun m => m.user.username == "a") [.chunk (.sample [.sample "a", .sample "b"])]
  obtain ⟨-, hsteps⟩ := (hboth.at_rest [0] (quiet₁ rfl rfl)).at_rest [0] (quiet₁ rfl rfl)
  have hevent : ((Hub.sample .accept).after (.dispatch _ :: waitsFor (.all ⟨1⟩))).Settles fun _ =>
      ((Hub.sample .accept).after (.dispatch _ :: waitsFor (.filtered ⟨1⟩ _))).Settles fun _ => _ :=
    (hsteps waitsFor_read).2 (.dispatch _) (.dispatch _)
  have hlast := (hevent.at_rest [0, 0, 1, 0, 1, 1] (quiet₂ rfl rfl rfl)).at_rest
    [0, 0, 1, 0, 1, 1] (quiet₂ rfl rfl rfl)
  have hall : (0, .members [.sample "a", .sample "b"]) ∈
      ((Hub.sample .accept).after (bothOffered (.all ⟨1⟩))).finished :=
    Array.mem_of_getElem? (i := 1) rfl
  exact ⟨hn, hall, (hlast.outcome _).mpr ⟨_, hall, rfl⟩⟩

end Rollcall
