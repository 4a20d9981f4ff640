import Rollcall.Exchange
import Rollcall.Proofs.Deadlines
import Rollcall.Proofs.Replies
import Rollcall.Proofs.Responses
import Rollcall.Proofs.Settling

/-!
# What comes of the commands in an exchange

The commands that a hub hands to its shards are passed on to the responders in order: none is taken
back (`Hub.Grows`), and none is left behind when the tasks rest, since no call is about to start then
(`Hub.Begun`). What the responder of a shard has given out and what it has left are at all times the
answers to the commands passed on to it (`Exchange.Serves`), and what is given out becomes events of
the hub (`Exchange.hub_emit`). Main statement: `commands_answered`.
-/

namespace Rollcall

/-! ## Hubs that run -/

structure Hub.Grows (h g : Hub) : Prop where
  sent : h.sent.toList <+: g.sent.toList
  shards : g.shards.size = h.shards.size

namespace Hub.Grows

variable {h g k : Hub}

theorem refl (h : Hub) : h.Grows h := ⟨List.prefix_refl _, rfl⟩

theorem trans (hg : h.Grows g) (hk : g.Grows k) : h.Grows k :=
  ⟨hg.sent.trans hk.sent, hk.shards.trans hg.shards⟩

theorem perform (hsize : h.shards.size < UInt64.size) (a : Action) : h.Grows (h.perform a) where
  sent := by
    rcases sent_perform hsize a with ⟨t, c, shard, n, rfl, hover⟩ | ⟨hsent, -⟩
    · rw [hover.sent, Array.toList_push]
      exact List.prefix_append ..
    · exact hsent ▸ List.prefix_refl _
  shards := size_shards_after hsize [a]

theorem runs {ts : List TaskId} (hr : h.Runs ts g) (hsize : h.shards.size < UInt64.size) :
    h.Grows g := by
  induction hr with
  | nil h => exact refl h
  | @cons h g k t ts ha hr ih =>
    have hsegment : h.after [.segment t] = g := after_segment ha
    have hstep : h.Grows g := hsegment ▸ perform hsize (.segment t)
    exact hstep.trans (ih (hstep.shards ▸ hsize))

theorem settle (hsize : h.shards.size < UInt64.size) : h.Grows h.settle := by
  obtain ⟨ts, hr⟩ := h.settle_rests.1
  exact runs hr hsize

theorem push (h : Hub) (index : Nat) (events : List Event) : h.Grows (h.push index events) := by
  unfold Hub.push
  split
  · exact ⟨List.prefix_refl _, rfl⟩
  · exact refl h

end Hub.Grows

namespace Hub

variable {h g : Hub}

def Begun (h : Hub) : Prop := ∀ t c, h.task? t = some (.call c) → c.stage ≠ .starting

theorem begun_of_quiet (hq : h.Quiet) : h.Begun := by
  intro t c ht hs
  apply starting_runs ht hs
  rw [perform, hq t]
  exact ht

theorem Begun.segment (hb : h.Begun) (hsize : h.shards.size < UInt64.size) (t : TaskId) :
    (h.perform (.segment t)).Begun ∧ (h.perform (.segment t)).sent = h.sent := by
  constructor
  · intro t' c ht
    cases follows ht with
    | started ht ha => cases ha
    | kept ht => exact hb t' c ht
    | went ha ht hm => exact hm.begun
    | released ha => cases ha
  · rcases sent_perform hsize (.segment t) with ⟨t', c, shard, n, -, hover⟩ | ⟨hsent, -⟩
    · exact absurd hover.starting (hb t' c hover.call)
    · exact hsent

theorem Begun.runs {ts : List TaskId} (hr : h.Runs ts g) (hb : h.Begun)
    (hsize : h.shards.size < UInt64.size) : g.sent = h.sent := by
  induction hr with
  | nil h => rfl
  | @cons h g k t ts ha hr ih =>
    have hsegment : h.after [.segment t] = g := after_segment ha
    obtain ⟨hb', hsent⟩ : (h.after [.segment t]).Begun ∧ (h.after [.segment t]).sent = h.sent :=
      hb.segment hsize t
    have hshards := size_shards_after hsize [.segment t]
    rw [hsegment] at hb' hsent hshards
    exact (ih hb' (hshards ▸ hsize)).trans hsent

theorem Begun.settle (hb : h.Begun) (hsize : h.shards.size < UInt64.size) :
    h.settle.sent = h.sent := by
  obtain ⟨ts, hr⟩ := h.settle_rests.1
  exact hb.runs hr hsize

structure Reads (h g : Hub) : Prop where
  sent : g.sent = h.sent
  shards : g.shards = h.shards
  begun : h.Begun → g.Begun

theorem Reads.refl (h : Hub) : h.Reads h := ⟨rfl, rfl, id⟩

theorem Reads.trans {k : Hub} (hg : h.Reads g) (hk : g.Reads k) : h.Reads k :=
  ⟨hk.sent.trans hg.sent, hk.shards.trans hg.shards, hk.begun ∘ hg.begun⟩

theorem reads_read (h : Hub) (id : RequestId) (goal : ReadGoal) : h.Reads (h.read id goal).2 := by
  refine ⟨rfl, rfl, fun hb t c ht => ?_⟩
  rw [Hub.read, task?_spawn] at ht
  split at ht
  · cases ht
  · exact hb t c ht

end Hub

namespace Exchange

variable {x : Exchange} {p : Peer} {k : Nat} {out : List Chunk}

/-! ## Where commands and chunks are -/

/-- The commands that the responder of shard `k` has been passed. -/
def passedOn (x : Exchange) (k : Nat) : List MemberCommand :=
  ((x.hub.sent.toList.take x.passed).filter fun s => s.1.toNat = k).map (·.2)

def backlog (x : Exchange) (k : Nat) : List Chunk :=
  (x.responders[k]?).elim [] (·.left x.peer)

def emitted (x : Exchange) (k : Nat) : List Chunk :=
  ((x.responders[k]?).bind fun r => (r.emit x.peer x.hub.now).1).toList

structure Serves (x : Exchange) (p : Peer) (k : Nat) (out : List Chunk) : Prop where
  peer : x.peer = p
  size : x.hub.shards.size < UInt64.size
  responder : k < x.responders.length
  passed : x.passed ≤ x.hub.sent.size
  balance : out ++ x.backlog k = (x.passedOn k).flatMap fun c => p.answer c.toFrame

theorem passedOn_of_all (hp : x.passed = x.hub.sent.size) (k : Nat) :
    x.passedOn k = (x.hub.sent.toList.filter fun s => s.1.toNat = k).map (·.2) := by
  rw [passedOn, hp, List.take_of_length_le (by simp)]

/-! ## One step -/

theorem Serves.withHub {g : Hub} (hs : x.Serves p k out) (hg : x.hub.Grows g) :
    Serves { x with hub := g } p k out where
  peer := hs.peer
  size := hg.shards ▸ hs.size
  responder := hs.responder
  passed := Nat.le_trans hs.passed (by simpa using hg.sent.length_le)
  balance := by
    have hsame : Exchange.passedOn { x with hub := g } k = x.passedOn k := by
      rw [passedOn, passedOn, List.prefix_iff_eq_take.mp hg.sent, List.take_take,
        Nat.min_eq_left (by simpa using hs.passed)]
    rw [hsame]
    exact hs.balance

theorem length_passOn (sent : List (UInt32 × MemberCommand)) (rs : List Responder) :
    (sent.foldl passOn rs).length = rs.length := by
  induction sent generalizing rs with
  | nil => rfl
  | cons s sent ih => rw [List.foldl_cons, ih, passOn, List.length_modify]

theorem left_passOn (p : Peer) (sent : List (UInt32 × MemberCommand)) (rs : List Responder)
    (hk : k < rs.length) : ((sent.foldl passOn rs)[k]?).elim [] (·.left p) =
      (rs[k]?).elim [] (·.left p) ++
        ((sent.filter fun s => s.1.toNat = k).map (·.2)).flatMap fun c => p.answer c.toFrame := by
  induction sent generalizing rs with
  | nil => exact (List.append_nil _).symm
  | cons s sent ih =>
    rw [List.foldl_cons, ih _ (by rw [passOn, List.length_modify]; exact hk), passOn,
      List.getElem?_modify]
    by_cases hshard : s.1.toNat = k
    · simp [hshard, hk, Responder.left_take]
    · simp [hshard]

theorem Serves.passAll (hs : x.Serves p k out) : x.passAll.Serves p k out where
  peer := hs.peer
  size := hs.size
  responder := (length_passOn ..).symm ▸ hs.responder
  passed := Nat.le_refl _
  balance := by
    have hpassed : x.passAll.passedOn k = x.passedOn k ++
        ((x.hub.sent.toList.drop x.passed).filter fun s => s.1.toNat = k).map (·.2) := by
      rw [passedOn_of_all rfl, passedOn, ← List.map_append, ← List.filter_append,
        List.take_append_drop]
      rfl
    have hleft := left_passOn x.peer (x.hub.sent.toList.drop x.passed) x.responders hs.responder
    rw [hpassed, List.flatMap_append, ← hs.balance, List.append_assoc, ← hs.peer]
    exact congrArg _ hleft

theorem follow_eq (x : Exchange) (w : Worker) :
    ∃ hub, (x.follow w).2 = { x with hub } ∧ x.hub.Reads hub := by
  unfold follow
  split
  · exact ⟨_, rfl, Hub.reads_read ..⟩
  · exact ⟨_, rfl, .refl _⟩

theorem followAll_eq (x : Exchange) :
    ∃ hub workers, x.followAll = { x with hub, workers } ∧ x.hub.Reads hub := by
  unfold followAll
  refine List.foldlRecOn (motive := fun acc : List Worker × Exchange => ∃ hub workers,
    { acc.2 with workers := acc.1.reverse } = { x with hub, workers } ∧ x.hub.Reads hub)
    x.workers _ ?_ ?_
  · exact ⟨x.hub, [], rfl, .refl _⟩
  · rintro ⟨done, y⟩ ⟨hub, workers, he, hr⟩ w -
    obtain ⟨hub', he', hr'⟩ := y.follow_eq w
    have hhub : y.hub = hub := congrArg Exchange.hub he
    let workers' := ((y.follow w).1 :: done).reverse
    have hnext : { (y.follow w).2 with workers := workers' } =
        ({ x with hub := hub', workers := workers' } : Exchange) := by
      rw [he']
      exact congrArg (fun z : Exchange => { z with hub := hub', workers := workers' }) he
    exact ⟨hub', workers', hnext, hr.trans (hhub ▸ hr')⟩

theorem Serves.settle (hs : x.Serves p k out) :
    x.settle.Serves p k out ∧ x.settle.passed = x.settle.hub.sent.size := by
  have hpassed := (hs.withHub (.settle hs.size)).passAll
  obtain ⟨hub, workers, he, hr⟩ := Exchange.followAll_eq { x with hub := x.hub.settle }.passAll
  have hread := hpassed.withHub (g := hub) ⟨hr.sent ▸ List.prefix_refl _, by rw [hr.shards]⟩
  -- no call is about to start when the readers are, so nothing is handed over after the passing on
  have hsent := (hr.begun (Hub.begun_of_quiet x.hub.settle_rests.2)).settle hread.size
  have hsettled := hread.withHub (.settle hread.size)
  rw [Exchange.settle, he]
  refine ⟨⟨hsettled.peer, hsettled.size, hsettled.responder, hsettled.passed, hsettled.balance⟩, ?_⟩
  exact congrArg Array.size (hsent.trans hr.sent).symm

/-- What the responders give out comes into the queue of the loop as events, in the order of shards. -/
theorem hub_emit (x : Exchange) : x.emit.2.hub = x.hub.push x.queue
    ((x.responders.filterMap fun r => (r.emit x.peer x.hub.now).1).map .chunk) := by
  simp only [emit, Event.ofDispatches_toDispatch, List.filterMap_map, Function.comp_def]

theorem emitted_backlog (x : Exchange) (k : Nat) :
    x.emitted k ++ x.emit.2.backlog k = x.backlog k := by
  simp only [emitted, backlog, emit, List.getElem?_map]
  cases hr : x.responders[k]? with
  | none => rfl
  | some r => exact r.emit_left x.peer x.hub.now

theorem Serves.emit (hs : x.Serves p k out) : x.emit.2.Serves p k (out ++ x.emitted k) := by
  have hpushed := hs.withHub (g := x.emit.2.hub) (.push ..)
  refine ⟨hpushed.peer, hpushed.size, ?_, hpushed.passed, ?_⟩
  · simpa [Exchange.emit] using hs.responder
  · rw [List.append_assoc, emitted_backlog]
    exact hpushed.balance

/-! ## Runs -/

def givenNext (x : Exchange) (k : Nat) : List Chunk :=
  if x.settle.isDone then [] else x.settle.emitted k

theorem Serves.step (hs : x.Serves p k out) : x.step.2.Serves p k (out ++ x.givenNext k) := by
  have hsettled := hs.settle.1
  have hemitted := hsettled.emit
  unfold Exchange.step givenNext
  by_cases hdone : x.settle.isDone = true
  · simp only [hdone, if_true, List.append_nil]
    exact hsettled
  · simp only [hdone, Bool.false_eq_true, if_false]
    split
    · rename_i y he
      rw [he] at hemitted
      exact hemitted
    · rename_i y he
      rw [he] at hemitted
      split
      · exact hemitted
      · exact hemitted.withHub ⟨List.prefix_refl _, rfl⟩

/-- What the responder of shard `k` gives out in so many steps. -/
def given (k : Nat) : Nat → Exchange → List Chunk
  | 0, _ => []
  | n + 1, x => x.givenNext k ++ if x.step.1 then given k n x.step.2 else []

theorem Serves.steps (n : Nat) (hs : x.Serves p k out) :
    (steps n x).Serves p k (out ++ given k n x) := by
  induction n generalizing x out with
  | zero =>
    rw [Exchange.steps, given, List.append_nil]
    exact hs
  | succ n ih =>
    have hstep := hs.step
    rw [Exchange.steps, given, ← List.append_assoc]
    generalize x.step = y at hstep
    obtain ⟨goes, y⟩ := y
    cases goes with
    | true => exact ih hstep
    | false =>
      rw [if_neg Bool.false_ne_true, List.append_nil]
      exact hstep

/-! ## From the beginning -/

theorem Serves.begin (hs : x.Serves p k out) (e : Errand) : (x.begin e).Serves p k out := by
  have hg : x.hub.Grows (startErrand x.hub e).2 := by
    unfold startErrand
    split <;> exact ⟨List.prefix_refl _, rfl⟩
  have hbegun := hs.withHub hg
  exact ⟨hbegun.peer, hbegun.size, hbegun.responder, hbegun.passed, hbegun.balance⟩

theorem Serves.beginAll (hs : x.Serves p k out) (errands : List Errand) :
    (errands.foldl Exchange.begin x).Serves p k out := by
  induction errands generalizing x with
  | nil => exact hs
  | cons e errands ih => exact ih (hs.begin e)

theorem serves_create {s : Settings} {rosters : List Roster} {nonces : NonceSource}
    (hx : create s rosters nonces = .ok x) (hsize : s.shards < UInt64.size) (hk : k < s.shards) :
    x.Serves ⟨rosters, s.chunkSize, s.chunkDelay⟩ k [] := by
  rw [create, Hub.create] at hx
  cases hlimits : s.limits.check with
  | error f =>
    rw [hlimits] at hx
    cases hx
  | ok _ =>
    rw [hlimits] at hx
    cases hx
    refine ⟨rfl, ?_, ?_, Nat.le_refl _, ?_⟩
    · simpa [Hub.run, Hub.spawn] using hsize
    · simpa using hk
    · simp [backlog, passedOn, Responder.left, hk]

end Exchange

/-- **Commands are answered in order.** Whenever an exchange has come to rest, what the responder of a
shard has given out, followed by what it has left, are the replies to the commands that the shard was
handed, in their order: of each the whole reply with the members selected from the roster of its
guild, or none if there is no such guild. -/
theorem commands_answered {s : Settings} {rosters : List Roster} {nonces : NonceSource}
    {x : Exchange} (hx : Exchange.create s rosters nonces = .ok x) (hsize : s.shards < UInt64.size)
    (errands : List Errand) {k : Nat} (hk : k < s.shards) (n : Nat) :
    let p : Peer := ⟨rosters, s.chunkSize, s.chunkDelay⟩
    let y := errands.foldl Exchange.begin x
    let z := (y.steps n).settle
    Exchange.given k n y ++ z.backlog k =
      ((z.hub.sent.toList.filter fun sent => sent.1.toNat = k).map (·.2)).flatMap fun c =>
        (p.roster? c.guild).elim [] fun r => c.reply p.chunkSize (r.select c) := by
  obtain ⟨hserves, hpassed⟩ :=
    (((Exchange.serves_create hx hsize hk).beginAll errands).steps n).settle
  have hbalance := hserves.balance
  rw [Exchange.passedOn_of_all hpassed] at hbalance
  simp only [List.nil_append, Peer.answer_toFrame] at hbalance
  exact hbalance

end Rollcall
