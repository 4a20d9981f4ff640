import Rollcall.Proofs.Ending
import Rollcall.Proofs.Handling
import Rollcall.Proofs.Reckoning

/-!
# What the statistics tell

The statistics of a hub go up at different points of what is done with a chunk, and a task may be
dropped in between. They are compared with an account that does without them: of the chunks whose
handling has begun (`Hub.received`), and of the members that each chunk, segment by segment, has placed
in the channel of its request or had rejected (`Hub.transfers`). Main statement: `statistics_exact`.
-/

namespace Rollcall

/-! ## Statistics and journal -/

def concluded (j : List Occurrence) : List Delivered :=
  j.filterMap fun
    | .settled _ _ out => some out
    | _ => none

theorem concluded_append (j os : List Occurrence) :
    concluded (j ++ os) = concluded j ++ concluded os := List.filterMap_append

theorem concluded_of_line {os : List Occurrence} (ho : ∀ o ∈ os, o.line? = none) :
    concluded os = [] := by
  refine List.filterMap_eq_nil_iff.mpr fun o hm => ?_
  have hline := ho o hm
  cases o with
  | settled t id out => cases hline
  | _ => rfl

namespace Stats

/-- The statistics of chunks that have begun to be handled, each with the request that waited for it,
and of what came of those that were handed over to their ends. -/
def tell (cs : List (Chunk × Option RequestId)) (outs : List Delivered) : Stats where
  chunks := .ofNat cs.length
  unmatched := .ofNat (cs.countP (·.2.isNone))
  forwarded := .ofNat (outs.map (·.placed)).sum
  filtered := .ofNat (outs.map (·.filtered)).sum
  notFound := .ofNat ((cs.filter (·.2.isSome)).flatMap (·.1.notFound)).length
  completed := .ofNat (outs.countP (·.verdict = .complete))

variable {cs : List (Chunk × Option RequestId)} {outs : List Delivered}

theorem meet_tell (x : Chunk × Option RequestId) :
    (tell cs outs).meet x = tell (cs ++ [x]) outs := by
  obtain ⟨c, _ | id⟩ := x
  · simp [tell, meet, UInt64.ofNat_add]
  · simp [tell, meet, UInt64.ofNat_add]

theorem settle_tell (out : Delivered) : (tell cs outs).settle out = tell cs (outs ++ [out]) := by
  by_cases hv : out.verdict = .complete
  · simp [tell, settle, hv, UInt64.ofNat_add]
  · simp [tell, settle, hv, UInt64.ofNat_add]

theorem foldl_meet (later : List (Chunk × Option RequestId)) :
    ∀ cs, later.foldl meet (tell cs outs) = tell (cs ++ later) outs := by
  induction later with
  | nil => exact fun cs => by rw [List.append_nil]; rfl
  | cons x later ih =>
    intro cs
    rw [List.foldl_cons, meet_tell, ih, List.append_assoc, List.singleton_append]

end Stats

namespace Hub

variable {h h' : Hub} {t : TaskId} {a : Action} {d : Delivery}

def received (h : Hub) : List Action → List (Chunk × Option RequestId)
  | [] => []
  | a :: past => h.received past ++ (h.after past).chunksOf ((h.after past).begins a)

theorem Presents.concluded {es : List Event} {os : List Occurrence} (hp : h.Presents t d es os) :
    concluded os = [] := by
  cases hp with
  | held hd => rfl
  | fresh hd hm => rfl

theorem Deals.stats {cs : List (Chunk × Option RequestId)} {outs : List Delivered}
    (hd : h.Deals a h') (hs : h.stats = .tell cs outs) :
    h'.stats = .tell (cs ++ h.chunksOf (h.begins a)) (outs ++ concluded (h.occurrences a)) := by
  have met (es : List Event) : h.met es = .tell (cs ++ h.chunksOf es) outs := by
    rw [Hub.met, hs, Stats.foldl_meet]
  have idle (hbegins : h.begins a = []) (hos : concluded (h.occurrences a) = [])
      (hstock : h'.stock = h.stock) :
      h'.stats = .tell (cs ++ h.chunksOf (h.begins a)) (outs ++ concluded (h.occurrences a)) := by
    have hstats : h'.stats = h.stats := congrArg Stock.stats hstock
    rw [hstats, hs, hbegins, hos, List.append_nil]
    exact congrArg (Stats.tell · outs) (List.append_nil _).symm
  cases hd with
  | calm hbegins hputs hos hstock => exact idle hbegins (concluded_of_line hos) hstock
  | drops hd hbegins hputs hos hstock => exact idle hbegins (by rw [hos]; rfl) hstock
  | passes he hbegins hputs hos hstock =>
    have hstats : h'.stats = _ := congrArg Stock.stats hstock
    rw [hstats, hbegins, hos]
    exact (met _).trans (congrArg (Stats.tell _) (List.append_nil _).symm)
  | moves hp hadv hbegins hputs hos hstock =>
    have hstats : h'.stats = _ := congrArg Stock.stats hstock
    rw [hstats, hbegins, hos, hp.concluded, List.append_nil]
    exact met _
  | @ends t d es os b out hp hadv hbegins hputs hos hstock =>
    have hstats : h'.stats = (h.met es).settle out := congrArg Stock.stats hstock
    rw [hstats, hbegins, hos, concluded_append, hp.concluded, met, Stats.settle_tell]
    rfl

theorem stats_after (hn : h.IsNew) (past : List Action) :
    (h.after past).stats = .tell (h.received past) (concluded (h.journal past)) := by
  induction past with
  | nil =>
    obtain ⟨limits, selection, shards, caching, nonces, rfl⟩ := hn.eq
    rfl
  | cons a past ih =>
    rw [received, journal, concluded_append]
    exact (deals (Reached.after hn past).sound a).stats ih

end Hub

/-! ## Completed requests -/

theorem length_completions (j : List Occurrence) :
    (completions j).length = (concluded j).countP (·.verdict = .complete) := by
  induction j with
  | nil => rfl
  | cons o j ih =>
    rw [← List.singleton_append, completions_append, concluded_append, List.length_append,
      List.countP_append, ih]
    congr 1
    cases o with
    | settled t id out =>
      by_cases hv : out.verdict = .complete
      · simp [completions, concluded, hv]
      · simp [completions, concluded, hv]
    | _ => rfl

theorem countP_eq_range {α : Type} (p : α → Bool) (l : List α) :
    l.countP p = (List.range l.length).countP fun i => (l[i]?).any p := by
  induction l with
  | nil => rfl
  | cons x l ih =>
    rw [List.countP_cons, ih, List.length_cons, List.range_succ_eq_map, List.countP_cons,
      List.countP_map]
    simp [Function.comp_def]

theorem Reached.length_completions {j : List Occurrence} {s : Scene} (hr : Reached j s) :
    (completions j).length = s.book.requests.countP (·.complete) := by
  let done (id : RequestId) : Bool := (s.book.requests[id]?).any (·.complete)
  -- No request is completed twice, so the journal lists the complete ones up to order.
  have hperm : (completions j).Perm ((List.range s.book.requests.size).filter done) := by
    refine List.perm_iff_count.mpr fun id => ?_
    rw [← hr.tally_complete id, (List.nodup_range.filter done).count]
    simp only [List.mem_filter, List.mem_range]
    cases hq : s.book.requests[id]? with
    | none =>
      rw [Book.tally_none hq, if_neg]
      simp [done, hq]
    | some r =>
      have hlt := (Array.getElem?_eq_some_iff.mp hq).1
      have hdone : done id = r.complete := by simp only [done, hq, Option.any_some]
      rw [Book.tally_eq hq, hdone]
      cases hc : r.complete <;> simp [hlt]
  rw [hperm.length_eq, ← List.countP_eq_length_filter, ← Array.countP_toList,
    countP_eq_range _ s.book.requests.toList]
  simp [done]

/-! ## Transfers -/

structure Transfer where
  chunk : Chunk
  request : RequestId
  -- the members that it has placed in the channel of the request
  placed : List Member := []
  -- the members that the filter has rejected while the sender was open
  rejected : List Member := []

namespace Transfer

def result (x : Transfer × Verdict) : Delivered := ⟨x.1.placed.length, x.1.rejected.length, x.2⟩

def Whole (x : Transfer × Verdict) : Prop :=
  x.1.placed.length + x.1.rejected.length ≤ x.1.chunk.members.length ∧
    (x.2 ≠ .abandoned →
      x.1.placed.length + x.1.rejected.length = x.1.chunk.members.length)

structure Left (x : Transfer) (d : Delivery) : Prop where
  request : x.request = d.request
  counts : d.counts = (x.placed.length, x.rejected.length)
  members : x.placed.length + x.rejected.length + (d.waiting.length + d.unsought.length) =
    x.chunk.members.length

end Transfer

structure Transfers where
  -- the transfer that each task has at hand, or was dropped with
  current : TaskId → Option Transfer := fun _ => none
  -- the transfers that have run to their ends, each with its verdict, the earliest first
  ended : List (Transfer × Verdict) := []

def Transfers.goOn (xs : Transfers) (t : TaskId) (x : Transfer) :
    Move Book Delivery Delivered → Transfers
  | .blocked => xs
  | .moved _ _ => { xs with current := Function.update xs.current t (some x) }
  | .done _ out =>
    { current := Function.update xs.current t none, ended := xs.ended ++ [(x, out.verdict)] }

namespace Hub

def follow (h : Hub) (t : TaskId) (d : Delivery) (x : Transfer) : Transfer :=
  let before := h.book.placedIn x.request
  let after := (h.perform (.segment t)).book.placedIn x.request
  let past := d.sought (d.advance t h.book)
  { x with
    placed := x.placed ++ after.drop before.length
    rejected := x.rejected ++ (h.book.requests[x.request]?).elim [] (·.rejects past) }

def transfer? (h : Hub) (t : TaskId) (current : Option Transfer) : Option (Transfer × Delivery) :=
  match h.nextOf t with
  | some (.event (.chunk c)) =>
    (h.match? c).map fun id => ({ chunk := c, request := id }, h.arrival id c)
  | some (.delivery d) => current.map fun x => (x, d)
  | _ => none

def enter (h : Hub) (t : TaskId) (xs : Transfers) : Transfers :=
  match h.transfer? t (xs.current t) with
  | none => xs
  | some (x, d) => xs.goOn t (h.follow t d x) (d.advance t h.book)

def transfers (h : Hub) : List Action → Transfers
  | [] => {}
  | .segment t :: past => (h.after past).enter t (h.transfers past)
  | _ :: past => h.transfers past

variable {h : Hub} {t : TaskId} {d : Delivery} {x : Transfer} {xs : Transfers} {r : Request}

theorem enter_of_none (hnone : h.transfer? t (xs.current t) = none) : h.enter t xs = xs := by
  rw [enter, hnone]

theorem enter_of_some (hsome : h.transfer? t (xs.current t) = some (x, d)) :
    h.enter t xs = xs.goOn t (h.follow t d x) (d.advance t h.book) := by
  rw [enter, hsome]

theorem follow_eq (hx : x.request = d.request) (hq : h.book.requests[d.request]? = some r)
    {new past : List Member} (hpast : d.sought (d.advance t h.book) = past)
    (hnew : (h.perform (.segment t)).book.placedIn d.request = h.book.placedIn d.request ++ new) :
    h.follow t d x =
      { x with placed := x.placed ++ new, rejected := x.rejected ++ r.rejects past } := by
  simp only [follow, hx, hq, hpast, hnew, Option.elim_some, List.drop_left]

end Hub

namespace Transfer.Left

variable {h : Hub} {t : TaskId} {d d' : Delivery} {x : Transfer} {r : Request} {b : Book}
  {out : Delivered}

theorem moved (hx : x.Left d) (hq : h.book.requests[d.request]? = some r)
    (hopen : ∀ m rest n k, d.stage = .placing m rest n k → r.senderOpen = true)
    (hm : d.advance t h.book = .moved b d')
    (hb : (h.perform (.segment t)).book.requests = b.requests) : (h.follow t d x).Left d' := by
  have hreckons := Delivery.advance_reckons (t := t) hq hopen
  rw [hm] at hreckons
  obtain ⟨past, new, hpast, hplaced, hcounts, hall⟩ := hreckons
  obtain ⟨hrequest, -, -, hsplit, -⟩ := Delivery.sought_of_moved hm
  have hsought := List.append_cancel_right (hsplit.symm.trans hpast)
  rw [← Book.placedIn_of_requests hb] at hplaced
  rw [Hub.follow_eq hx.request hq hsought hplaced]
  refine ⟨hx.request.trans hrequest.symm, ?_, ?_⟩
  · rw [hcounts, hx.counts, List.length_append, List.length_append]
  · have hmembers := hx.members
    rw [hpast, List.length_append] at hmembers
    simp only [List.length_append]
    omega

theorem done (hx : x.Left d) (hq : h.book.requests[d.request]? = some r)
    (hopen : ∀ m rest n k, d.stage = .placing m rest n k → r.senderOpen = true)
    (hm : d.advance t h.book = .done b out)
    (hb : (h.perform (.segment t)).book.requests = b.requests) :
    result (h.follow t d x, out.verdict) = out ∧ Whole (h.follow t d x, out.verdict) := by
  have hreckons := Delivery.advance_reckons (t := t) hq hopen
  rw [hm] at hreckons
  obtain ⟨new, hplaced, hout, hfiltered, hle, hall⟩ := hreckons
  rw [← Book.placedIn_of_requests hb] at hplaced
  rw [Hub.follow_eq hx.request hq (Delivery.sought_of_done hm).1 hplaced]
  rw [hx.counts] at hout hfiltered
  have hmembers := hx.members
  refine ⟨?_, ?_, fun hv => ?_⟩
  · simp only [result, List.length_append, ← hout, ← hfiltered]
  · simp only [List.length_append]
    omega
  · have hall := hall hv
    simp only [List.length_append]
    omega

end Transfer.Left

namespace Hub

variable {h h' : Hub} {t : TaskId} {a : Action} {d : Delivery} {x : Transfer} {r : Request}
  {xs : Transfers} {outs : List Delivered}

/-- How the account of transfers fits the tasks, and what came of the chunks that were handed over to
their ends. -/
structure Balanced (h : Hub) (xs : Transfers) (outs : List Delivered) : Prop where
  held : ∀ t d, h.delivery? t = some d → ∃ x, xs.current t = some x ∧ x.Left d
  ended : xs.ended.map Transfer.result = outs
  whole : ∀ x ∈ xs.ended, Transfer.Whole x

theorem Balanced.kept (hb : h.Balanced xs outs)
    (hd : ∀ t d, h'.delivery? t = some d → h.delivery? t = some d) : h'.Balanced xs outs :=
  ⟨fun t d h => hb.held t d (hd t d h), hb.ended, hb.whole⟩

theorem concluded_handedOn {y : Next} (hy : h.nextOf t = some y) (hd : h.handedOn? y = some d) :
    concluded (h.occurrences (.segment t)) = match d.advance t h.book with
      | .done _ out => [out]
      | _ => [] := by
  rw [(segment_of_next hy).2]
  cases y with
  | delivery d' =>
    cases hd
    simp only [told, deliveries]
    cases d.advance t h.book <;> rfl
  | event e =>
    cases e with
    | other kind => cases hd
    | chunk c =>
      obtain ⟨id, hm, rfl⟩ := Option.map_eq_some_iff.mp hd
      simp only [told, receipts, hm]
      cases (h.arrival id c).advance t h.book <;> rfl

theorem Balanced.goOn {y : Next} (hb : h.Balanced xs outs) (hy : h.nextOf t = some y)
    (hd : h.handedOn? y = some d) (hx : x.Left d) (hq : h.book.requests[d.request]? = some r)
    (hopen : ∀ m rest n k, d.stage = .placing m rest n k → r.senderOpen = true) :
    (h.perform (.segment t)).Balanced (xs.goOn t (h.follow t d x) (d.advance t h.book))
      (outs ++ concluded (h.occurrences (.segment t))) := by
  have hnext := segment_handedOn hy hd
  have others {t' : TaskId} (e : t' ≠ t) (y : Option Transfer) {d' : Delivery}
      (hd' : (h.perform (.segment t)).delivery? t' = some d') :
      ∃ x', Function.update xs.current t y t' = some x' ∧ x'.Left d' := by
    rw [Function.update_of_ne e]
    exact hb.held t' d' (((h.segment_cases t).delivery?_ne e).symm.trans hd')
  rw [concluded_handedOn hy hd]
  cases hm : d.advance t h.book with
  | blocked =>
    rw [hm] at hnext
    rw [hnext, List.append_nil]
    exact hb
  | moved b d' =>
    rw [hm] at hnext
    obtain ⟨hself, hreq⟩ := hnext
    rw [List.append_nil]
    refine ⟨fun t' d₁ hd₁ => ?_, hb.ended, hb.whole⟩
    by_cases e : t' = t
    · subst e
      cases hself.symm.trans hd₁
      exact ⟨_, Function.update_self .., hx.moved hq hopen hm hreq⟩
    · exact others e _ hd₁
  | done b out =>
    rw [hm] at hnext
    obtain ⟨hself, hreq⟩ := hnext
    obtain ⟨hresult, hwhole⟩ := hx.done hq hopen hm hreq
    refine ⟨fun t' d₁ hd₁ => ?_, ?_, fun x' hx' => ?_⟩
    · by_cases e : t' = t
      · subst e
        cases hself.symm.trans hd₁
      · exact others e _ hd₁
    · rw [Transfers.goOn, List.map_append, hb.ended, List.map_singleton, hresult]
    · rcases List.mem_append.mp hx' with hx' | hx'
      · exact hb.whole x' hx'
      · rw [List.mem_singleton.mp hx']
        exact hwhole

theorem concluded_loop {index : Nat} {current : Option Delivery}
    (hx : h.next? (.loop index current) = none) :
    concluded (h.loopOccurrences t index current) = [] := by
  unfold loopOccurrences
  cases loopIdle hx with
  | absent hl =>
    rw [hl]
    rfl
  | told hl hs => cases current <;> simp [hl, hs, concluded]
  | starved hl hs hqueue => simp [hl, hqueue, concluded]

theorem concluded_idle (hx : h.nextOf t = none) : concluded (h.occurrences (.segment t)) = [] := by
  rw [occurrences]
  cases ht : h.task? t with
  | none => rfl
  | some task =>
    rw [nextOf, ht, Option.bind_some] at hx
    rw [Option.elim_some]
    cases task with
    | call c => exact concluded_of_line line_of_call
    | reader id goal got =>
      rw [segmentOccurrences]
      split
      · rfl
      · exact concluded_of_line line_of_yields
    | handler e => cases hx
    | delivering d => cases hx
    | loop index current => exact concluded_loop hx

theorem concluded_passed {e : Event} (hx : h.nextOf t = some (.event e)) (he : h.taken? e = none) :
    concluded (h.occurrences (.segment t)) = [] := by
  rw [(segment_of_next hx).2]
  cases e with
  | other kind => rfl
  | chunk c =>
    have hm : h.match? c = none := Option.map_eq_none_iff.mp he
    simp only [told, receipts, hm]
    rfl

theorem concluded_other (ha : ∀ t, a ≠ .segment t) : concluded (h.occurrences a) = [] := by
  cases a with
  | segment t => exact absurd rfl (ha t)
  | recv id =>
    rw [occurrences]
    split
    · exact concluded_of_line line_of_yields
    · rfl
  | dropTask t =>
    rw [occurrences]
    cases h.delivery? t <;> rfl
  | _ => rfl

theorem Balanced.idle (hb : h.Balanced xs outs)
    (hself : (h.perform (.segment t)).delivery? t = h.delivery? t ∨
      (h.perform (.segment t)).delivery? t = none)
    (hos : concluded (h.occurrences (.segment t)) = [])
    (hnone : h.transfer? t (xs.current t) = none) :
    (h.perform (.segment t)).Balanced (h.enter t xs)
      (outs ++ concluded (h.occurrences (.segment t))) := by
  rw [enter_of_none hnone, hos, List.append_nil]
  refine hb.kept fun t' d hd => ?_
  by_cases e : t' = t
  · subst e
    rcases hself with hself | hself
    · exact hself.symm.trans hd
    · cases hself.symm.trans hd
  · exact ((h.segment_cases t).delivery?_ne e).symm.trans hd

theorem Balanced.enter {j : List Occurrence} (hb : h.Balanced xs outs) (hr : Reached j h.scene) :
    (h.perform (.segment t)).Balanced (h.enter t xs)
      (outs ++ concluded (h.occurrences (.segment t))) := by
  cases hx : h.nextOf t with
  | none =>
    refine hb.idle ?_ (concluded_idle hx) (by rw [transfer?, hx])
    rcases idle_segment hx with hsame | ⟨hnone, -⟩
    · exact .inl (by rw [delivery?, hsame, delivery?])
    · exact .inr hnone
  | some y =>
    cases y with
    | delivery d =>
      have hd := delivery?_of_next hx
      obtain ⟨x, hcurrent, hleft⟩ := hb.held t d hd
      obtain ⟨r, hq, -⟩ := hr.lined.listed hd
      have hsome : h.transfer? t (xs.current t) = some (x, d) := by
        rw [transfer?, hx, hcurrent]
        rfl
      rw [enter_of_some hsome]
      refine hb.goOn hx rfl hleft hq fun m rest n k hs => ?_
      -- A chunk with a member that waits for room stands at an open sender.
      obtain ⟨q, hq', -, hopen⟩ := hr.lined.placing hd hs
      cases hq.symm.trans hq'
      exact hopen
    | event e =>
      have passed (he : h.taken? e = none) :=
        hb.idle (.inr (delivery?_passed hx he)) (concluded_passed hx he)
      cases e with
      | other kind => exact passed rfl (by rw [transfer?, hx])
      | chunk c =>
        have htransfer : h.transfer? t (xs.current t) = (h.match? c).map fun id =>
            ({ chunk := c, request := id }, h.arrival id c) := by rw [transfer?, hx]
        cases hm : h.match? c with
        | none => exact passed (by rw [taken?, hm]; rfl) (by rw [htransfer, hm]; rfl)
        | some id =>
          rw [hm] at htransfer
          have htaken : h.taken? (.chunk c) = some (h.arrival id c) := by rw [taken?, hm]; rfl
          have hleft : ({ chunk := c, request := id } : Transfer).Left (h.arrival id c) :=
            ⟨rfl, rfl, by simp [arrival, Delivery.waiting, Delivery.unsought, Chunk.stamped]⟩
          obtain ⟨n, -, hn⟩ := Option.bind_eq_some_iff.mp hm
          obtain ⟨r, hq, -⟩ := (hr.sound.registered n id).mp hn
          rw [enter_of_some htransfer]
          refine hb.goOn hx htaken hleft hq fun m rest n k hs => ?_
          cases hs

theorem balanced (hn : h.IsNew) (past : List Action) :
    (h.after past).Balanced (h.transfers past) (concluded (h.journal past)) := by
  induction past with
  | nil =>
    obtain ⟨limits, selection, shards, caching, nonces, rfl⟩ := hn.eq
    exact ⟨fun t d hd => (by cases hd), rfl, List.forall_mem_nil _⟩
  | cons a past ih =>
    rw [journal, concluded_append]
    by_cases ha : ∃ t, a = .segment t
    · obtain ⟨t, rfl⟩ := ha
      exact ih.enter (Reached.after hn past)
    · have ha (t : TaskId) : a ≠ .segment t := fun e => ha ⟨t, e⟩
      have hsame : h.transfers (a :: past) = h.transfers past := by
        cases a with
        | segment t => exact absurd rfl (ha t)
        | _ => rfl
      rw [concluded_other ha, List.append_nil, hsame]
      refine ih.kept fun t d hd => ?_
      rcases delivery?_of_other (ha t) with he | he
      · exact he.symm.trans hd
      · rw [after, delivery?, he] at hd
        cases hd

end Hub

def Tells (counter : UInt64) (n : Nat) : Prop := n < 2 ^ 64 → counter.toNat = n

theorem tells_ofNat (n : Nat) : Tells (.ofNat n) n := UInt64.toNat_ofNat_of_lt'

/-- **The statistics are exact.** Take any history of a new hub, and any number that does not outgrow
its counter. There have been as many chunks as have begun to be handled, and as many unmatched as
came without a nonce or under one that was not registered at that moment; the users not found are
those that the matched ones list. As many requests were completed as are complete. The members
forwarded and filtered are those that the matched chunks which were handed over to their ends have
placed in the channel and had rejected while the sender was open; what was dropped midway does not
count. Each of these has placed and had rejected all its members unless it was abandoned, and never
more. -/
theorem statistics_exact {h : Hub} (hn : h.IsNew) (past : List Action) :
    Tells (h.after past).stats.chunks (h.received past).length ∧
    Tells (h.after past).stats.unmatched ((h.received past).countP (·.2.isNone)) ∧
    Tells (h.after past).stats.notFound
      (((h.received past).filter (·.2.isSome)).flatMap (·.1.notFound)).length ∧
    Tells (h.after past).stats.completed ((h.after past).book.requests.countP (·.complete)) ∧
    Tells (h.after past).stats.forwarded ((h.transfers past).ended.map (·.1.placed.length)).sum ∧
    Tells (h.after past).stats.filtered ((h.transfers past).ended.map (·.1.rejected.length)).sum ∧
    ∀ x ∈ (h.transfers past).ended,
      x.1.placed.length + x.1.rejected.length ≤ x.1.chunk.members.length ∧
      (x.2 ≠ .abandoned →
        x.1.placed.length + x.1.rejected.length = x.1.chunk.members.length) := by
  have hbalanced := Hub.balanced hn past
  have hcompleted : (h.after past).book.requests.countP (·.complete) = _ :=
    (Reached.after hn past).length_completions.symm
  have offered (f : Delivered → Nat) : Tells (.ofNat ((concluded (h.journal past)).map f).sum)
      ((h.transfers past).ended.map fun x => f (Transfer.result x)).sum := by
    rw [← hbalanced.ended, List.map_map]
    exact tells_ofNat _
  rw [Hub.stats_after hn, hcompleted, length_completions]
  exact ⟨tells_ofNat _, tells_ofNat _, tells_ofNat _, tells_ofNat _, offered (·.placed),
    offered (·.filtered), hbalanced.whole⟩

/-- A request that takes no bots gets two chunks, of which the first has a bot in it. Between them one
is dropped while its member waits for room, and another comes when nobody waits any more. -/
def mixedFates : List Action :=
  let chunk (ms : List Member) : Chunk := { Chunk.sample ms with count := 2, notFound := [⟨9⟩] }
  [.segment 4, .dispatch (.chunk (chunk [.sample "e"])),
    .segment 3, .segment 3, .dispatch (.chunk (chunk [.sample "d"])), .recv 0,
    .dropTask 2, .segment 2, .dispatch (.chunk (chunk [.sample "c"])),
    .segment 1, .segment 1, .dispatch (.chunk (chunk [.sample "a", .sample "b"])),
    .segment 0, .callStream (.filtered ⟨1⟩ fun m => m.user.username ≠ "b")]

theorem mixedFates_told :
    (Hub.sample .accept).IsNew ∧
      ((Hub.sample .accept).after mixedFates).stats.chunks.toNat = 4 ∧
      ((Hub.sample .accept).after mixedFates).stats.unmatched.toNat = 1 ∧
      ((Hub.sample .accept).after mixedFates).stats.notFound.toNat = 3 ∧
      ((Hub.sample .accept).after mixedFates).stats.completed.toNat = 1 ∧
      ((Hub.sample .accept).after mixedFates).stats.forwarded.toNat = 2 ∧
      ((Hub.sample .accept).after mixedFates).stats.filtered.toNat = 1 := by
  have hn := Hub.sample_isNew .accept
  obtain ⟨hchunks, hunmatched, hnotFound, hcompleted, hforwarded, hfiltered, -⟩ :=
    statistics_exact hn mixedFates
  have told {counter : UInt64} {n m : Nat} (ht : Tells counter n) (hm : n = m) (hlt : m < 2 ^ 64) :
      counter.toNat = m := by
    subst hm
    exact ht hlt
  exact ⟨hn, told hchunks rfl (by decide), told hunmatched rfl (by decide),
    told hnotFound rfl (by decide), told hcompleted rfl (by decide), told hforwarded rfl (by decide),
    told hfiltered rfl (by decide)⟩

end Rollcall
