import Rollcall.Proofs.Gathering
import Rollcall.Proofs.LateWork
import Rollcall.Proofs.Room
import Rollcall.Proofs.Starting

/-!
# What shards are handed

The shards of a hub and the commands they were handed change in the first segment of a call and
nowhere else, as far as tasks are concerned: `Hub.Opens` says what such a segment comes to. Callers
switch shards and have them let calls go, but the shards stay the same ones, with their numbers and
intents.
-/

namespace Rollcall

/-- What a shard is for good. -/
def Shard.identity (s : Shard) : UInt32 × Intents := (s.number, s.intents)

namespace Hub

variable {h : Hub} {t : TaskId} {c : Call}

structure Outlet where
  shards : Array Shard
  sent : Array (UInt32 × MemberCommand)

def outlet (h : Hub) : Outlet := ⟨h.shards, h.sent⟩

/-! ## What hands nothing over -/

theorem outlet_abandon (h : Hub) (t : TaskId) (task : Task) :
    (h.abandon t task).outlet = h.outlet := by
  unfold abandon
  cases task with
  | call c => simp only; split <;> rfl
  | loop index current => cases current <;> rfl
  | _ => rfl

theorem afterSend_outlet {id : RequestId} {result : SendResult} :
    (h.afterSend c id result).All fun g => g.outlet = h.outlet := by
  unfold afterSend
  split
  · rfl
  · split <;> rfl

theorem advanceReading_outlet {id : RequestId} {got : List Member} :
    (h.advanceReading c id got).All fun g => g.outlet = h.outlet := by
  unfold advanceReading
  split
  · rfl
  · split
    · rfl
    · trivial
    · rfl

theorem expire_outlet : (h.expire c).All fun g => g.outlet = h.outlet := by
  unfold expire
  split
  · trivial
  split
  · trivial
  cases c.stage <;> rfl

theorem advanceCall_outlet (hs : c.stage ≠ .starting) :
    (h.advanceCall t c).All fun g => g.outlet = h.outlet := by
  unfold advanceCall
  extract_lets inner
  have hinner : inner.All fun g => g.outlet = h.outlet := by
    simp only [inner]
    cases hstage : c.stage with
    | starting => exact absurd hstage hs
    | sending i result =>
      cases result with
      | none => trivial
      | some result => exact afterSend_outlet
    | reading i got => exact advanceReading_outlet
  clear_value inner
  cases inner with
  | blocked => exact expire_outlet
  | moved g c' => exact hinner
  | done g o => exact hinner

theorem advanceReader_outlet {id : RequestId} {goal : ReadGoal} {got : List Member} :
    (h.advanceReader id goal got).All fun g => g.outlet = h.outlet := by
  unfold advanceReader
  split
  · rfl
  split
  · split <;> rfl
  · trivial
  · rfl

theorem deliver_outlet {d : Delivery} :
    (h.deliver t d).All fun g => g.outlet = h.outlet := by
  unfold deliver
  split
  · trivial
  · rfl
  · rfl

theorem receive_outlet {e : Event} : (h.receive t e).All fun g => g.outlet = h.outlet := by
  unfold receive
  cases e with
  | other kind => rfl
  | chunk c =>
    simp only
    split
    · rfl
    · exact deliver_outlet

theorem advanceLoop_outlet {index : Nat} {current : Option Delivery} :
    (h.advanceLoop t index current).All fun g => g.outlet = h.outlet := by
  unfold advanceLoop
  split
  · trivial
  split
  · split
    · rfl
    · rw [all_loopMove]
      exact deliver_outlet
  · split
    · rfl
    split
    · rw [all_loopMove]
      exact receive_outlet
    · split
      · trivial
      · rfl

theorem advanceTask_outlet {task : Task} (hs : ∀ c, task = .call c → c.stage ≠ .starting) :
    (h.advanceTask t task).All fun g => g.outlet = h.outlet := by
  cases task with
  | call c =>
    rw [all_call]
    exact advanceCall_outlet (hs c rfl)
  | reader id goal got => exact advanceReader_outlet
  | handler e =>
    rw [advanceTask, all_handlerMove]
    exact receive_outlet
  | delivering d =>
    rw [advanceTask, all_handlerMove]
    exact deliver_outlet
  | loop index current => exact advanceLoop_outlet

/-! ## First segments -/

def finish (h : Hub) (t : TaskId) (o : Outcome) : Hub :=
  { h.setTask t none with finished := h.finished.push (t, o) }

inductive Opens (h : Hub) (t : TaskId) (c : Call) : Hub → Prop
  | cancelled (htok : h.tokenCancelled (watched c.goal) = true) :
      Opens h t c (h.finish t (.failed .cancelled))
  | failed {f : Failure} {g : Hub} (htok : h.tokenCancelled (watched c.goal) = false)
      (hst : h.start t c.inquiry = (.failed f, g)) : Opens h t c (g.finish t (.failed f))
  | oversized {g : Hub} (htok : h.tokenCancelled (watched c.goal) = false)
      (hst : h.start t c.inquiry = (.oversized, g)) : Opens h t c (g.finish t .oversized)
  | held {id : RequestId} {g : Hub} (htok : h.tokenCancelled (watched c.goal) = false)
      (hst : h.start t c.inquiry = (.sent id none, g)) :
      Opens h t c (g.setTask t (some (.call { c.timed h.now with stage := .sending id none })))
  | refused {id : RequestId} {cause : TransportFailure} {g : Hub}
      (htok : h.tokenCancelled (watched c.goal) = false)
      (hst : h.start t c.inquiry = (.sent id (some (.refused cause)), g)) :
      Opens h t c ((g.dropStream id).finish t (.failed (.sendFailed cause)))
  | stream {id : RequestId} {g : Hub} (htok : h.tokenCancelled (watched c.goal) = false)
      (hst : h.start t c.inquiry = (.sent id (some .sent), g)) (hg : c.goal = .stream) :
      Opens h t c (finish { g with streams := g.streams ++ [id] } t (.stream id (g.book.nonceOf id)))
  | reading {id : RequestId} {g : Hub} {token : Option Token}
      (htok : h.tokenCancelled (watched c.goal) = false)
      (hst : h.start t c.inquiry = (.sent id (some .sent), g)) (hg : c.goal = .members token) :
      Opens h t c (g.setTask t (some (.call { c.timed h.now with stage := .reading id [] })))

theorem perform_of_moved {task task' : Task} {g : Hub} (ht : h.task? t = some task)
    (hm : h.advanceTask t task = .moved g task') :
    h.perform (.segment t) = g.setTask t (some task') := by
  rw [perform, advance_of_moved ht hm, Option.getD_some]

theorem perform_of_done {task : Task} {g : Hub} {o : Outcome} (ht : h.task? t = some task)
    (hm : h.advanceTask t task = .done g o) : h.perform (.segment t) = g.finish t o := by
  rw [perform, advance_of_done ht hm, Option.getD_some]
  rfl

theorem advanceTask_call (h : Hub) (t : TaskId) (c : Call) : h.advanceTask t (.call c) =
    match h.advanceCall t c with
    | .blocked => .blocked
    | .moved g c' => .moved g (.call c')
    | .done g o => .done g o := rfl

theorem advanceCall_starting (hs : c.stage = .starting)
    (hb : h.advanceStart t c ≠ .blocked) : h.advanceCall t c = h.advanceStart t c := by
  unfold advanceCall
  rw [hs]
  cases hm : h.advanceStart t c with
  | blocked => exact absurd hm hb
  | moved g c' => rfl
  | done g o => rfl

theorem opens (ht : h.task? t = some (.call c)) (hs : c.stage = .starting) :
    h.Opens t c (h.perform (.segment t)) := by
  have ended {g : Hub} {o : Outcome} (hm : h.advanceStart t c = .done g o) :
      h.perform (.segment t) = g.finish t o := by
    apply perform_of_done ht
    rw [advanceTask_call, advanceCall_starting hs (by rw [hm]; simp), hm]
  have went {g : Hub} {c' : Call} (hm : h.advanceStart t c = .moved g c') :
      h.perform (.segment t) = g.setTask t (some (.call c')) := by
    apply perform_of_moved ht
    rw [advanceTask_call, advanceCall_starting hs (by rw [hm]; simp), hm]
  by_cases htok : h.tokenCancelled (watched c.goal) = true
  · rw [ended (by rw [advanceStart, if_pos htok])]
    exact .cancelled htok
  unfold advanceStart at ended went
  rw [if_neg htok] at ended went
  have htok : h.tokenCancelled (watched c.goal) = false := by simpa using htok
  cases hst : h.start t c.inquiry with
  | mk started g =>
    rw [hst] at ended went
    cases started with
    | failed f =>
      rw [ended rfl]
      exact .failed htok hst
    | oversized =>
      rw [ended rfl]
      exact .oversized htok hst
    | sent id result =>
      cases result with
      | none =>
        rw [went rfl]
        exact .held htok hst
      | some result =>
        cases result with
        | refused cause =>
          rw [ended rfl]
          exact .refused htok hst
        | sent =>
          simp only [afterSend, Call.timed_goal] at ended went
          cases hg : c.goal with
          | stream =>
            rw [hg] at ended
            rw [ended rfl]
            exact .stream htok hst hg
          | members token =>
            rw [hg] at went
            rw [went rfl, ← hg]
            exact .reading htok hst hg

/-! ## Handing over -/

theorem outlet_opened (h : Hub) (t : TaskId) (i : Inquiry) (shard : Shard) (k : Nat) :
    (h.opened t i shard k).2.sent = h.sent.push (shard.number,
      i.command (h.book.nonces.candidate k) (shard.intents.contains .guildPresences)) ∧
    (h.opened t i shard k).2.shards =
      if shard.mode = .hold then
        h.shards.modify (h.shardPlace i.guild) fun s => { s with held := s.held ++ [t] }
      else h.shards := by
  simp only [opened, handOver]
  cases shard.mode with
  | accept => exact ⟨rfl, rfl⟩
  | hold => exact ⟨rfl, rfl⟩
  | refuse context => exact ⟨rfl, rfl⟩

theorem book_opened (h : Hub) (t : TaskId) (i : Inquiry) (shard : Shard) (k : Nat) :
    (h.opened t i shard k).2.book = h.book.enter (k + 1) (h.book.nonces.candidate k)
      (i.request h.limits.capacity.toNat (h.book.nonces.candidate k)) := by
  simp only [opened, handOver]
  cases shard.mode <;> rfl

theorem start_sent (hsize : h.shards.size < UInt64.size) {i : Inquiry} {id : RequestId}
    {result : Option SendResult} {g : Hub} (hst : h.start t i = (.sent id result, g)) :
    ∃ shard k, h.Admits i shard ∧ h.limits.capacity.toNat ≤ Limits.greatestCapacity ∧
      k < NonceSource.attempts ∧ h.book.registry.get? (h.book.nonces.candidate k) = none ∧
      id = h.book.requests.size ∧ h.opened t i shard k = (result, g) := by
  have hcases := starts hsize t i
  rw [hst] at hcases
  cases hcases with
  | @sent shard k ha hfit hk hfree => exact ⟨shard, k, ha, hfit, hk, hfree, rfl, rfl⟩

structure HandsOver (h : Hub) (t : TaskId) (c : Call) (shard : Shard) (k : Nat) : Prop where
  call : h.task? t = some (.call c)
  starting : c.stage = .starting
  admits : h.Admits c.inquiry shard
  fits : h.limits.capacity.toNat ≤ Limits.greatestCapacity
  attempt : k < NonceSource.attempts
  free : h.book.registry.get? (h.book.nonces.candidate k) = none
  start : h.start t c.inquiry = (.sent h.book.requests.size (h.opened t c.inquiry shard k).1,
    (h.opened t c.inquiry shard k).2)
  outlet : (h.perform (.segment t)).outlet = (h.opened t c.inquiry shard k).2.outlet
  made : h.occurrences (.segment t) = [.made t h.book.requests.size]

theorem Opens.handsOver (hsize : h.shards.size < UInt64.size) (ht : h.task? t = some (.call c))
    (hs : c.stage = .starting) (htok : h.tokenCancelled (watched c.goal) = false)
    {id : RequestId} {result : Option SendResult} {g : Hub}
    (hst : h.start t c.inquiry = (.sent id result, g))
    (hout : (h.perform (.segment t)).outlet = g.outlet) : ∃ shard k, h.HandsOver t c shard k := by
  obtain ⟨shard, k, ha, hfit, hk, hfree, rfl, hopen⟩ := start_sent hsize hst
  refine ⟨shard, k, ht, hs, ha, hfit, hk, hfree, by rw [hst, hopen], by rw [hopen, hout], ?_⟩
  simp [occurrences, ht, segmentOccurrences, callOccurrences, hs, htok, hst]

theorem not_handed (ht : h.task? t = some (.call c)) (hs : c.stage = .starting)
    (hno : h.tokenCancelled (watched c.goal) = true ∨
      ∀ id result, (h.start t c.inquiry).1 ≠ .sent id result) :
    made (h.occurrences (.segment t)) = [] := by
  simp only [occurrences, ht, Option.elim_some, segmentOccurrences, callOccurrences, hs]
  split
  · rfl
  · rename_i htok
    rcases hno with htok' | hno
    · exact absurd htok' htok
    · split
      · rename_i id result hst
        exact absurd hst (hno id result)
      · rfl

theorem outlet_first (hsize : h.shards.size < UInt64.size) (ht : h.task? t = some (.call c))
    (hs : c.stage = .starting) :
    (∃ shard k, h.HandsOver t c shard k) ∨
    ((h.perform (.segment t)).outlet = h.outlet ∧ made (h.occurrences (.segment t)) = []) := by
  have hopens := opens ht hs
  generalize he : h.perform (.segment t) = h' at hopens
  have handed {id : RequestId} {result : Option SendResult} {g : Hub}
      (htok : h.tokenCancelled (watched c.goal) = false)
      (hst : h.start t c.inquiry = (.sent id result, g)) (hout : h'.outlet = g.outlet) :
      ∃ shard k, h.HandsOver t c shard k :=
    Opens.handsOver hsize ht hs htok hst (by rw [he, hout])
  cases hopens with
  | cancelled htok => exact .inr ⟨rfl, not_handed ht hs (.inl htok)⟩
  | @failed f g htok hst =>
    have hcases := starts hsize t c.inquiry
    rw [hst] at hcases
    have hout : g.outlet = h.outlet := by cases hcases <;> rfl
    exact .inr ⟨hout, not_handed ht hs (.inr (by simp [hst]))⟩
  | @oversized g htok hst =>
    have hcases := starts hsize t c.inquiry
    rw [hst] at hcases
    have hout : g.outlet = h.outlet := by cases hcases; rfl
    exact .inr ⟨hout, not_handed ht hs (.inr (by simp [hst]))⟩
  | held htok hst => exact .inl (handed htok hst rfl)
  | refused htok hst => exact .inl (handed htok hst rfl)
  | stream htok hst => exact .inl (handed htok hst rfl)
  | reading htok hst => exact .inl (handed htok hst rfl)

theorem Segment.outlet {h' : Hub} (hseg : h.Segment t h')
    (hs : ∀ c, h.task? t = some (.call c) → c.stage ≠ .starting) : h'.outlet = h.outlet := by
  have same {task : Task} (ht : h.task? t = some task) :
      (h.advanceTask t task).All fun g => g.outlet = h.outlet := by
    apply advanceTask_outlet
    rintro c rfl
    exact hs c ht
  cases hseg with
  | waits hadv he => rw [he]
  | goesOn task task' g ht hm hf he =>
    have hout := same ht
    rw [hm] at hout
    rw [he]
    exact hout
  | ends task g o ht hm hf he =>
    have hout := same ht
    rw [hm] at hout
    rw [he]
    exact hout

theorem sent_perform (hsize : h.shards.size < UInt64.size) (a : Action) :
    (∃ t c shard k, a = .segment t ∧ h.HandsOver t c shard k) ∨
    ((h.perform a).sent = h.sent ∧ made (h.occurrences a) = []) := by
  by_cases hfirst : ∃ t c, a = .segment t ∧ h.task? t = some (.call c) ∧ c.stage = .starting
  · obtain ⟨t, c, rfl, ht, hs⟩ := hfirst
    rcases outlet_first hsize ht hs with ⟨shard, k, hover⟩ | ⟨hout, hmade⟩
    · exact .inl ⟨t, c, shard, k, rfl, hover⟩
    · exact .inr ⟨congrArg Outlet.sent hout, hmade⟩
  have hno : ∀ t c, a = .segment t → h.task? t = some (.call c) → c.stage ≠ .starting :=
    fun t c ha ht hs => hfirst ⟨t, c, ha, ht, hs⟩
  refine .inr ⟨?_, made_occurrences a hno⟩
  cases a with
  | read id goal =>
    simp only [perform]
    split <;> rfl
  | push index events =>
    simp only [perform, push]
    split <;> rfl
  | recv id =>
    simp only [perform]
    split <;> rfl
  | discard id =>
    simp only [perform]
    split <;> rfl
  | cancelToken token =>
    simp only [perform, cancelToken]
    split <;> rfl
  | release shard place result =>
    obtain ⟨shards, he | ⟨t, c, id, -, -, he⟩⟩ := h.release_cases shard place result
    · simp only [perform, he]
    · simp only [perform, he, setTask]
  | dropTask t =>
    simp only [perform, dropTask]
    cases h.task? t with
    | none => rfl
    | some task => exact congrArg Outlet.sent (h.outlet_abandon t task)
  | segment t => exact congrArg Outlet.sent ((h.segment_cases t).outlet fun c ht => hno t c rfl ht)
  | _ => rfl

/-! ## The shards -/

inductive Reshapes (h : Hub) (a : Action) : Array Shard → Prop
  | same : Reshapes h a h.shards
  | switched (j : Nat) (mode : SendMode) : Reshapes h a (h.shards.modify j fun s => { s with mode })
  | released {j : Nat} {shard : Shard} (place : Nat) (hj : h.shards[j]? = some shard) :
      Reshapes h a (h.shards.modify j fun s => { s with held := shard.held.eraseIdx place })
  | held {t : TaskId} {c : Call} {shard : Shard} {k : Nat} (ha : a = .segment t)
      (hover : h.HandsOver t c shard k) : Reshapes h a
        (h.shards.modify (h.shardPlace c.inquiry.guild) fun s => { s with held := s.held ++ [t] })

theorem reshapes (hsize : h.shards.size < UInt64.size) (a : Action) :
    h.Reshapes a (h.perform a).shards := by
  cases a with
  | read id goal =>
    simp only [perform]
    split <;> exact .same
  | push index events =>
    simp only [perform, push]
    split <;> exact .same
  | recv id =>
    simp only [perform]
    split <;> exact .same
  | discard id =>
    simp only [perform]
    split <;> exact .same
  | cancelToken token =>
    simp only [perform, cancelToken]
    split <;> exact .same
  | setMode j mode => exact .switched j mode
  | release j place result =>
    simp only [perform, release]
    split
    · exact .same
    rename_i shard hj
    split
    · exact .same
    split
    · split <;> exact .released place hj
    · exact .released place hj
  | dropTask t =>
    simp only [perform, dropTask]
    cases h.task? t with
    | none => exact .same
    | some task =>
      have hout : (h.abandon t task).shards = h.shards :=
        congrArg Outlet.shards (h.outlet_abandon t task)
      simp only [setTask, hout]
      exact .same
  | segment t =>
    have kept (hout : (h.perform (.segment t)).outlet = h.outlet) :
        h.Reshapes (.segment t) (h.perform (.segment t)).shards := by
      have hshards : (h.perform (.segment t)).shards = h.shards := congrArg Outlet.shards hout
      rw [hshards]
      exact .same
    by_cases hfirst : ∃ c, h.task? t = some (.call c) ∧ c.stage = .starting
    · obtain ⟨c, ht, hs⟩ := hfirst
      rcases outlet_first hsize ht hs with ⟨shard, k, hover⟩ | ⟨hout, -⟩
      · have hshards : (h.perform (.segment t)).shards = (h.opened t c.inquiry shard k).2.shards :=
          congrArg Outlet.shards hover.outlet
        rw [hshards, (h.outlet_opened t c.inquiry shard k).2]
        split
        · exact .held rfl hover
        · exact .same
      · exact kept hout
    · exact kept ((h.segment_cases t).outlet fun c ht hs => hfirst ⟨c, ht, hs⟩)
  | _ => exact .same

theorem identities_modify {shards : Array Shard} (j : Nat) {f : Shard → Shard}
    (hf : ∀ s, (f s).identity = s.identity) :
    (shards.modify j f).map Shard.identity = shards.map Shard.identity := by
  apply Array.ext_getElem?
  intro k
  rw [Array.getElem?_map, Array.getElem?_modify, Array.getElem?_map]
  by_cases hk : j = k
  · rw [if_pos hk]
    cases shards[k]? with
    | none => rfl
    | some s => simp [hf]
  · rw [if_neg hk]

theorem identities_perform (hsize : h.shards.size < UInt64.size) (a : Action) :
    (h.perform a).shards.map Shard.identity = h.shards.map Shard.identity := by
  have hreshapes := reshapes hsize a
  generalize (h.perform a).shards = shards at hreshapes
  cases hreshapes with
  | same => rfl
  | switched j mode => exact identities_modify (f := fun s => { s with mode }) j fun _ => rfl
  | @released j shard place hj =>
    exact identities_modify (f := fun s => { s with held := shard.held.eraseIdx place }) j
      fun _ => rfl
  | @held t c shard k ha hover =>
    exact identities_modify (f := fun s => { s with held := s.held ++ [t] }) _ fun _ => rfl

theorem identities_after (hsize : h.shards.size < UInt64.size) : ∀ past : List Action,
    (h.after past).shards.map Shard.identity = h.shards.map Shard.identity
  | [] => rfl
  | a :: past => by
    have ih := identities_after hsize past
    have hsame := congrArg Array.size ih
    simp only [Array.size_map] at hsame
    exact (identities_perform (by omega) a).trans ih

theorem size_shards_after (hsize : h.shards.size < UInt64.size) (past : List Action) :
    (h.after past).shards.size = h.shards.size := by
  have hsame := congrArg Array.size (identities_after hsize past)
  simpa only [Array.size_map] using hsame

theorem shards_after (hsize : h.shards.size < UInt64.size) (past : List Action) :
    (h.after past).shards.size < UInt64.size := by
  rw [size_shards_after hsize past]
  exact hsize

theorem shardPlace_after (hsize : h.shards.size < UInt64.size) (past : List Action) (g : GuildId) :
    (h.after past).shardPlace g = h.shardPlace g := by
  rw [shardPlace, size_shards_after hsize past, shardPlace]

theorem identity_of_serves (hsize : h.shards.size < UInt64.size) {past : List Action} {g : GuildId}
    {shard : Shard} (hs : (h.after past).Serves g shard) :
    (h.shards[h.shardPlace g]?).map Shard.identity = some shard.identity := by
  rw [← Array.getElem?_map, ← identities_after hsize past, Array.getElem?_map,
    ← shardPlace_after hsize past, show (h.after past).shards[_]? = _ from hs]
  rfl

/-- If nobody waits in the beginning, a shard keeps only those waiting who have handed a command
over to it. -/
theorem held_after (hsize : h.shards.size < UInt64.size)
    (hfree : ∀ (j : Nat) (shard : Shard), h.shards[j]? = some shard → shard.held = [])
    {past : List Action} {j : Nat} {shard : Shard} (hj : (h.after past).shards[j]? = some shard)
    (ht : t ∈ shard.held) :
    ∃ later earlier c s k, past = later ++ .segment t :: earlier ∧
      (h.after earlier).HandsOver t c s k ∧ j = (h.after earlier).shardPlace c.inquiry.guild := by
  induction past generalizing shard with
  | nil =>
    rw [hfree j shard hj] at ht
    cases ht
  | cons a past ih =>
    have before {shard' : Shard} (hj : (h.after past).shards[j]? = some shard')
        (ht : t ∈ shard'.held) : ∃ later earlier c s k, a :: past = later ++ .segment t :: earlier ∧
          (h.after earlier).HandsOver t c s k ∧
          j = (h.after earlier).shardPlace c.inquiry.guild := by
      obtain ⟨later, earlier, c, s, k, rfl, hrest⟩ := ih hj ht
      exact ⟨a :: later, earlier, c, s, k, rfl, hrest⟩
    have hreshapes := reshapes (shards_after hsize past) a
    change (h.after past).Reshapes a (h.after (a :: past)).shards at hreshapes
    generalize (h.after (a :: past)).shards = shards at hreshapes hj
    cases hreshapes with
    | same => exact before hj ht
    | switched k mode =>
      rw [Array.getElem?_modify] at hj
      split at hj
      · obtain ⟨s, hs, rfl⟩ := Option.map_eq_some_iff.mp hj
        exact before hs ht
      · exact before hj ht
    | @released k s place hk =>
      rw [Array.getElem?_modify] at hj
      split at hj
      · rename_i e
        subst e
        rw [hk] at hj
        cases hj
        exact before hk (List.mem_of_mem_eraseIdx ht)
      · exact before hj ht
    | @held t' c s k ha hover =>
      rw [Array.getElem?_modify] at hj
      split at hj
      · rename_i e
        obtain ⟨s', hs, rfl⟩ := Option.map_eq_some_iff.mp hj
        rcases List.mem_append.mp ht with ht | ht
        · exact before hs ht
        · obtain rfl := List.mem_singleton.mp ht
          exact ⟨[], past, c, s, k, by rw [ha]; rfl, hover, e.symm⟩
      · exact before hj ht

/-! ## Who handed over what -/

def handed (h : Hub) : List Action → List (TaskId × UInt32 × MemberCommand)
  | [] => []
  | .segment t :: past =>
    let fresh := (h.after (.segment t :: past)).sent.toList.drop (h.after past).sent.size
    h.handed past ++ fresh.map fun e => (t, e)
  | _ :: past => h.handed past

theorem handed_same {a : Action} {past : List Action}
    (hs : (h.after (a :: past)).sent = (h.after past).sent) :
    h.handed (a :: past) = h.handed past := by
  cases a with
  | segment t => simp [handed, hs]
  | _ => rfl

theorem HandsOver.sent {shard : Shard} {k : Nat} (hover : h.HandsOver t c shard k) :
    (h.perform (.segment t)).sent = h.sent.push (shard.number,
      c.inquiry.command (h.book.nonces.candidate k) (shard.intents.contains .guildPresences)) :=
  (congrArg Outlet.sent hover.outlet).trans (h.outlet_opened t c.inquiry shard k).1

theorem handed_over {past : List Action} {shard : Shard} {k : Nat}
    (hover : (h.after past).HandsOver t c shard k) :
    h.handed (.segment t :: past) = h.handed past ++ [(t, shard.number, c.inquiry.command
      ((h.after past).book.nonces.candidate k) (shard.intents.contains .guildPresences))] := by
  have hsent : (h.after (.segment t :: past)).sent = _ := hover.sent
  simp [handed, hsent]

section
variable (hsize : h.shards.size < UInt64.size)
include hsize

theorem handed_sent (hn : h.IsNew) (past : List Action) :
    (h.handed past).map (·.2) = (h.after past).sent.toList := by
  induction past with
  | nil =>
    obtain ⟨limits, selection, shards, caching, nonces, rfl⟩ := hn.eq
    rfl
  | cons a past ih =>
    rcases sent_perform (shards_after hsize past) a with ⟨t, c, shard, k, rfl, hover⟩ | ⟨hsent, -⟩
    · have hpush : (h.after (.segment t :: past)).sent = _ := hover.sent
      rw [handed_over hover, List.map_append, ih, hpush]
      simp
    · rw [handed_same hsent, ih]
      exact congrArg Array.toList hsent.symm

/-- Those who have handed a command over are those who have made a request. -/
theorem mem_handed_iff (past : List Action) (t : TaskId) :
    t ∈ (h.handed past).map (·.1) ↔ ∃ id, .made t id ∈ h.journal past := by
  induction past with
  | nil => simp [handed, journal]
  | cons a past ih =>
    rcases sent_perform (shards_after hsize past) a with
      ⟨t', c, shard, k, rfl, hover⟩ | ⟨hsent, hmade⟩
    · rw [handed_over hover, journal, hover.made]
      simp only [List.map_append, List.mem_append, ih, List.map_cons, List.map_nil,
        List.mem_singleton, Occurrence.made.injEq]
      constructor
      · rintro (⟨id, hm⟩ | rfl)
        · exact ⟨id, .inl hm⟩
        · exact ⟨_, .inr ⟨rfl, rfl⟩⟩
      · rintro ⟨id, hm | ⟨rfl, -⟩⟩
        · exact .inl ⟨id, hm⟩
        · exact .inr rfl
    · have hnone : ∀ id, .made t id ∉ (h.after past).occurrences a := by
        intro id hm
        have hid := mem_made.mpr ⟨t, hm⟩
        rw [hmade] at hid
        cases hid
      rw [handed_same hsent, ih, journal]
      simp [hnone]

theorem nodup_handed (hn : h.IsNew) (past : List Action) : ((h.handed past).map (·.1)).Nodup := by
  induction past with
  | nil => exact List.nodup_nil
  | cons a past ih =>
    rcases sent_perform (shards_after hsize past) a with ⟨t, c, shard, k, rfl, hover⟩ | ⟨hsent, -⟩
    · rw [handed_over hover, List.map_append]
      refine List.nodup_append.mpr ⟨ih, List.nodup_singleton _, ?_⟩
      intro x hx y hy hxy
      have hy : y = t := by simpa using hy
      subst hxy hy
      -- A call that is starting has made nothing yet.
      obtain ⟨id, hm⟩ := (mem_handed_iff hsize past x).mp hx
      have hstream := ((Reached.after hn past).made_iff hover.call id).mp hm
      simp [Task.stream?, hover.starting] at hstream
    · rw [handed_same hsent]
      exact ih

theorem handed_split {past : List Action} {k : Nat} {t : TaskId} {e : UInt32 × MemberCommand}
    (hk : (h.handed past)[k]? = some (t, e)) :
    ∃ later earlier c shard n, past = later ++ .segment t :: earlier ∧
      (h.handed earlier).length = k ∧ (h.after earlier).HandsOver t c shard n ∧
      e = (shard.number, c.inquiry.command ((h.after earlier).book.nonces.candidate n)
        (shard.intents.contains .guildPresences)) := by
  induction past with
  | nil => simp [handed] at hk
  | cons a past ih =>
    have before (hk : (h.handed past)[k]? = some (t, e)) := ih hk
    rcases sent_perform (shards_after hsize past) a with ⟨t', c, shard, n, rfl, hover⟩ | ⟨hsent, -⟩
    · rw [handed_over hover, List.getElem?_append] at hk
      split at hk
      · obtain ⟨later, earlier, c, shard, n, rfl, hrest⟩ := before hk
        exact ⟨_ :: later, earlier, c, shard, n, rfl, hrest⟩
      · rename_i hge
        obtain ⟨hz, he⟩ := List.getElem?_eq_some_iff.mp hk
        simp only [List.length_singleton] at hz
        simp only [List.getElem_singleton, Prod.mk.injEq] at he
        obtain ⟨rfl, rfl⟩ := he
        exact ⟨[], past, c, shard, n, rfl, by omega, hover, rfl⟩
    · rw [handed_same hsent] at hk
      obtain ⟨later, earlier, c, shard, n, rfl, hrest⟩ := before hk
      exact ⟨a :: later, earlier, c, shard, n, rfl, hrest⟩

/-- Where requests are made, channels have no more places than they can have. -/
theorem fits_of_made {past : List Action} {id : RequestId} (hm : id ∈ made (h.journal past)) :
    h.limits.capacity.toNat ≤ Limits.greatestCapacity := by
  induction past with
  | nil => simp [journal, made] at hm
  | cons a past ih =>
    rw [journal, made_append] at hm
    rcases sent_perform (shards_after hsize past) a with ⟨t, c, shard, n, rfl, hover⟩ | ⟨-, hmade⟩
    · have hfit := hover.fits
      rwa [limits_after] at hfit
    · rw [hmade, List.append_nil] at hm
      exact ih hm

theorem fits_of_exhausted (hn : h.IsNew) {past : List Action}
    (he : (h.after past).book.Exhausted) :
    (h.after past).limits.capacity.toNat ≤ Limits.greatestCapacity := by
  have hreach := Reached.after hn past
  have htaken := he 0 (by decide)
  rw [Registry.contains_eq_isSome, Option.isSome_iff_exists] at htaken
  obtain ⟨id, hget⟩ := htaken
  obtain ⟨r, hq, -⟩ := (hreach.sound.registered _ id).mp hget
  have hlt : id < (h.after past).book.requests.size := (Array.getElem?_eq_some_iff.mp hq).1
  rw [limits_after]
  have hmade : id ∈ made (h.journal past) := by
    rw [hreach.made_eq]
    exact List.mem_range.mpr hlt
  exact fits_of_made hsize hmade

end

end Hub
end Rollcall
