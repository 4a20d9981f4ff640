import Rollcall.Proofs.Release
import Rollcall.Proofs.Streams

/-!
# Room in the channels

Every channel is made with the capacity that the limits give, and never holds more than that
(`room_after`). So a chunk that cannot go on once no task can move stands at a channel that is full,
and its request waits (`Hub.full_of_quiet`).
-/

namespace Rollcall

/-! ## Channels -/

theorem Delivery.Turn.room {t : TaskId} {declared : UInt32} {r r' : Request} {stage : Stage}
    {out : Stage ⊕ Delivered} (h : Turn t declared r stage r' out)
    (hr : r.channel.unread.length ≤ r.channel.capacity) :
    r'.channel.unread.length ≤ r'.channel.capacity := by
  have placed {m : Member} (room : r.channel.hasRoom = true) :
      (r.place m).channel.unread.length ≤ (r.place m).channel.capacity := by
    have hlt : r.channel.unread.length < r.channel.capacity := by simpa [Channel.hasRoom] using room
    simpa [Request.place, Channel.place] using Nat.succ_le_of_lt hlt
  cases h with
  | first => exact hr
  | next live listening room => exact placed room
  | late => exact hr
  | refused => exact hr
  | cut => exact hr
  | nothing => simpa [Request.leave] using hr
  | last live listening room => simpa [Request.leave] using placed room

theorem Reached.room {j : List Occurrence} {s : Scene} (hr : Reached j s) :
    ∀ {id : RequestId} {r : Request}, s.book.requests[id]? = some r →
      r.channel.unread.length ≤ r.channel.capacity := by
  induction hr with
  | new nonces => exact nofun
  | @step j os s s' hr h ih =>
    intro id r hq
    have replaced {i : RequestId} {q : Request} (hrep : s.book.Replaces i q s'.book)
        (hroom : q.channel.unread.length ≤ q.channel.capacity) :
        r.channel.unread.length ≤ r.channel.capacity := by
      by_cases hi : id = i
      · subst hi
        rw [hrep.self] at hq
        cases hq
        exact hroom
      · exact ih ((hrep.ne hi).symm.trans hq)
    cases hr.passage h with
    | calm ho hb hd =>
      obtain ⟨r₀, h0, hk⟩ := hb.earlier hq
      rw [hk.capacity]
      exact Nat.le_trans hk.unread (ih h0)
    | make ho hb hf hd =>
      rw [hb, Array.getElem?_push] at hq
      split at hq
      · obtain ⟨n, g, f, c, he⟩ := hf
        cases hq
        rw [he]
        exact Nat.zero_le _
      · exact ih hq
    | @arrive s' t d c n hd hc hn hne hs hb =>
      obtain ⟨q, h0⟩ := Option.ne_none_iff_exists'.mp hne
      have hrep : s.book.Replaces d.request (q.join t) s'.book :=
        hb ▸ Book.replaces_modify h0 (·.join t)
      have hroom := ih h0
      exact replaced hrep hroom
    | advance hd hb =>
      obtain ⟨q, q', h0, hrep, -, hturn, -⟩ := hr.lined.head_of_moved hd hb
      exact replaced hrep (hturn.room (ih h0))
    | settle hd hb hs =>
      obtain ⟨q, q', h0, hrep, hturn, -⟩ := hr.lined.head_of_done hd hb
      exact replaced (hs ▸ hrep) (hturn.room (ih h0))
    | @interrupt s' t d hd hb =>
      obtain ⟨q, h0, -⟩ := hr.lined.listed hd
      have hrep : s.book.Replaces d.request (q.leave t) s'.book :=
        hb ▸ Book.replaces_modify h0 (·.leave t)
      have hroom := ih h0
      exact replaced hrep hroom

/-! ## Limits -/

namespace Hub

theorem limits_perform (h : Hub) (a : Action) : (h.perform a).limits = h.limits := by
  cases h.reframes a with
  | kept hf => exact congrArg Frame.limits hf
  | queued hf => exact congrArg Frame.limits hf
  | cancelled token hf => exact congrArg Frame.limits hf
  | advanced d hf => exact congrArg Frame.limits hf
  | ended t task g o ha ht hm hf he =>
    rw [he]
    exact congrArg Frame.limits hf

theorem limits_after (h : Hub) : ∀ past, (h.after past).limits = h.limits
  | [] => rfl
  | a :: past => (limits_perform _ a).trans (h.limits_after past)

theorem IsNew.capacity_pos {h : Hub} (hn : h.IsNew) : 0 < h.limits.capacity.toNat := by
  obtain ⟨limits, selection, shards, caching, nonces, hc⟩ := hn
  unfold create Limits.check Limits.refusal? at hc
  split at hc
  · cases hc
  · rename_i hnone
    cases hc
    have hne : limits.capacity ≠ 0 := by
      intro h0
      rw [if_pos h0] at hnone
      cases hnone
    exact Nat.pos_of_ne_zero fun h0 => hne (UInt64.toNat_inj.mp h0)

end Hub

/-! ## Capacities -/

def Book.Fits (b : Book) (n : Nat) : Prop :=
  ∀ (id : RequestId) (r : Request), b.requests[id]? = some r → r.channel.capacity = n

theorem Book.Kept.fits {b b' : Book} {n : Nat} (h : b.Kept b') (hf : b.Fits n) : b'.Fits n := by
  intro id r hr
  obtain ⟨r₀, h0, hk⟩ := h.earlier hr
  exact hk.capacity.trans (hf id r₀ h0)

theorem Reached.size_eq {j os : List Occurrence} {s s' : Scene} (hr : Reached j s)
    (h : Changes s os s') (hm : made os = []) : s'.book.requests.size = s.book.requests.size := by
  have hrange := (hr.changes h).made_eq
  rw [made_append, hm, List.append_nil, hr.made_eq] at hrange
  simpa using (congrArg List.length hrange).symm

theorem Reached.fits {j os : List Occurrence} {s s' : Scene} {n : Nat} (hr : Reached j s)
    (h : Changes s os s') (hm : made os = []) (hf : s.book.Fits n) : s'.book.Fits n := by
  have hsize := hr.size_eq h hm
  intro id r' hr'
  have hlt := (Array.getElem?_eq_some_iff.mp hr').1
  rw [hsize] at hlt
  obtain ⟨r, hq⟩ : ∃ r, s.book.requests[id]? = some r := ⟨_, Array.getElem?_eq_getElem hlt⟩
  obtain ⟨q, hq', hl⟩ := hr.later_changes h id r hq
  rw [hr'] at hq'
  cases hq'
  exact hl.capacity.trans (hf id r hq)

namespace Hub

variable {h : Hub} {t : TaskId}

theorem made_yields (h : Hub) (id : RequestId) : made (h.yields id) = [] := by
  unfold yields
  split <;> rfl

theorem made_deliveries (h : Hub) (t : TaskId) (d : Delivery) : made (h.deliveries t d) = [] := by
  unfold deliveries
  split <;> rfl

theorem made_receipts (h : Hub) (t : TaskId) (e : Event) : made (h.receipts t e) = [] := by
  unfold receipts
  cases e with
  | other kind => rfl
  | chunk c =>
    simp only
    split
    · rfl
    · split <;> rfl

theorem made_segmentOccurrences {task : Task}
    (hs : ∀ c, task = .call c → c.stage ≠ .starting) :
    made (h.segmentOccurrences t task) = [] := by
  cases task with
  | call c =>
    simp only [segmentOccurrences, callOccurrences]
    split
    · rename_i hc
      exact absurd hc (hs c rfl)
    · rfl
    · split
      · rfl
      · exact h.made_yields _
  | reader id goal got =>
    simp only [segmentOccurrences]
    split
    · rfl
    · exact h.made_yields id
  | handler e => exact h.made_receipts t e
  | delivering d => exact h.made_deliveries t d
  | loop index current =>
    simp only [segmentOccurrences, loopOccurrences]
    split
    · rfl
    split
    · split
      · rfl
      · exact h.made_deliveries t _
    · split
      · rfl
      split
      · rfl
      · exact h.made_receipts t _

theorem made_occurrences (a : Action)
    (hs : ∀ t c, a = .segment t → h.task? t = some (.call c) → c.stage ≠ .starting) :
    made (h.occurrences a) = [] := by
  cases a with
  | recv id =>
    simp only [occurrences]
    split
    · exact h.made_yields id
    · rfl
  | dropTask t =>
    simp only [occurrences]
    cases h.delivery? t <;> rfl
  | segment t =>
    simp only [occurrences]
    cases ht : h.task? t with
    | none => rfl
    | some task => exact made_segmentOccurrences fun c hc => hs t c rfl (hc ▸ ht)
  | _ => rfl

theorem fits_start {n : Nat} (hn : h.limits.capacity.toNat = n) (hf : h.book.Fits n) (i : Inquiry) :
    (h.start t i).2.book.Fits n := by
  rcases start_cases h t i with ⟨-, -, nonces, hsc⟩ | ⟨id, res, build, b, -, -, -, hcap, hb, hsc⟩
  · rw [show (h.start t i).2.book = _ from congrArg Scene.book hsc]
    exact hf
  · rw [show (h.start t i).2.book = _ from congrArg Scene.book hsc]
    obtain ⟨nonce, -, -, hreq, -⟩ := Book.registerWith_some hb
    intro i r hr
    rw [hreq, Array.getElem?_push] at hr
    split at hr
    · cases hr
      exact (hcap nonce).trans hn
    · exact hf i r hr

theorem fits_advanceStart {n : Nat} (hn : h.limits.capacity.toNat = n) (hf : h.book.Fits n)
    {c : Call} : (h.advanceStart t c).All fun g => g.book.Fits n := by
  unfold advanceStart
  split
  · exact hf
  have hstart : (h.start t c.inquiry).2.book.Fits n := fits_start hn hf c.inquiry
  generalize h.start t c.inquiry = x at hstart
  obtain ⟨started, g⟩ := x
  cases started with
  | failed f => exact hstart
  | oversized => exact hstart
  | sent id result =>
    cases result with
    | none => exact hstart
    | some result =>
      simp only [afterSend]
      split
      · exact (Book.kept_dropStream g.book id).fits hstart
      · split <;> exact hstart

theorem fits_advanceCall {n : Nat} (hn : h.limits.capacity.toNat = n) (hf : h.book.Fits n)
    {c : Call} (hs : c.stage = .starting) : (h.advanceCall t c).All fun g => g.book.Fits n := by
  have hstart := fits_advanceStart (t := t) (c := c) hn hf
  simp only [advanceCall, hs]
  cases hm : h.advanceStart t c with
  | blocked =>
    simp only [expire, hs]
    split
    · trivial
    split
    · trivial
    · exact hf
  | moved g c' =>
    rw [hm] at hstart
    exact hstart
  | done g o =>
    rw [hm] at hstart
    exact hstart

theorem fits_perform {j : List Occurrence} (hr : Reached j h.scene) {n : Nat}
    (hn : h.limits.capacity.toNat = n) (hf : h.book.Fits n) (a : Action) :
    (h.perform a).book.Fits n := by
  by_cases hs : ∀ t c, a = .segment t → h.task? t = some (.call c) → c.stage ≠ .starting
  · exact hr.fits (h.perform_changes a) (made_occurrences a hs) hf
  push Not at hs
  obtain ⟨t, c, rfl, ht, hstage⟩ := hs
  have hcall := fits_advanceCall (t := t) hn hf hstage
  cases h.segment_cases t with
  | waits hadv he =>
    rw [he]
    exact hf
  | goesOn task task' g ht' hm hframe he =>
    cases ht.symm.trans ht'
    obtain ⟨c', rfl, hc⟩ := advanceCall_of_moved hm
    rw [hc] at hcall
    rw [he]
    exact hcall
  | ends task g o ht' hm hframe he =>
    cases ht.symm.trans ht'
    rw [advanceCall_of_done hm] at hcall
    rw [he]
    exact hcall

theorem fits_after (hn : h.IsNew) : ∀ past, (h.after past).book.Fits h.limits.capacity.toNat
  | [] => by
    obtain ⟨limits, selection, shards, caching, nonces, rfl⟩ := hn.eq
    exact nofun
  | a :: past => fits_perform (Reached.after hn past)
      (congrArg (·.capacity.toNat) (h.limits_after past)) (fits_after hn past) a

end Hub

theorem room_after {h : Hub} (hn : h.IsNew) (past : List Action) {id : RequestId} {r : Request}
    (hq : (h.after past).book.requests[id]? = some r) :
    r.channel.unread.length ≤ h.limits.capacity.toNat := by
  have hroom := (Reached.after hn past).room hq
  rwa [Hub.fits_after hn past id r hq] at hroom

/-! ## At rest -/

namespace Delivery

def Placing (d : Delivery) : Prop := ∃ m rest n k, d.stage = .placing m rest n k

theorem Placing.ne_arriving {d : Delivery} (hp : d.Placing) (ms : List Member) :
    d.stage ≠ .arriving ms := by
  obtain ⟨m, rest, n, k, hd⟩ := hp
  rw [hd]
  exact nofun

/-- A chunk that has to wait stands behind another, or finds no room. -/
theorem blocked_cases {d : Delivery} {t : TaskId} {b : Book} {r : Request}
    (hr : b.requests[d.request]? = some r) (hs : ∀ ms, d.stage ≠ .arriving ms)
    (h : d.advance t b = .blocked) :
    ((∃ ms, d.stage = .inLine ms) ∧ r.line.head? ≠ some t) ∨
      (d.Placing ∧ r.channel.hasRoom = false) := by
  unfold advance at h
  rw [hr] at h
  cases hd : d.stage with
  | arriving ms => exact absurd hd (hs ms)
  | inLine ms =>
    refine .inl ⟨⟨ms, rfl⟩, fun hhead => ?_⟩
    simp only [hd, hhead, if_true] at h
    exact begin_ne_blocked h
  | placing m rest n k =>
    refine .inr ⟨⟨m, rest, n, k, hd⟩, ?_⟩
    simp only [hd, abandon] at h
    split at h
    · cases h
    split at h
    · exact absurd h proceed_ne_blocked
    · rename_i hroom
      simpa using hroom

end Delivery

namespace Hub

variable {h : Hub} {t : TaskId}

theorem blocked_of_delivery (hn : h.IsNew) {past : List Action} (hq : (h.after past).Quiet)
    {d : Delivery} (hd : (h.after past).delivery? t = some d) :
    d.advance t (h.after past).book = .blocked := by
  obtain ⟨task, ht, hdel⟩ := Option.bind_eq_some_iff.mp hd
  by_contra hmoves
  have hloops (index : Nat) (current : Option Delivery) (he : task = .loop index current) :
      index < (h.after past).loops.size := loop_lt hn (he ▸ ht)
  exact advanceTask_ne_blocked hdel hloops hmoves (blocked_of_quiet hq ht)

/-- When no task can move, a chunk that is handed over waits for a full channel, or for its turn
behind such a chunk; the request waits. -/
theorem full_of_quiet (hn : h.IsNew) {past : List Action} (hq : (h.after past).Quiet)
    {d : Delivery} (hd : (h.after past).delivery? t = some d) :
    ∃ r, (h.after past).book.requests[d.request]? = some r ∧ r.Waiting ∧
      r.channel.unread.length = h.limits.capacity.toNat ∧
      (d.Placing ∨ (∃ ms, d.stage = .inLine ms) ∧ ∃ t' d', t' ≠ t ∧ r.line.head? = some t' ∧
        (h.after past).delivery? t' = some d' ∧ d'.request = d.request ∧ d'.Placing) := by
  have hreach := Reached.after hn past
  obtain ⟨r, hr, -⟩ := hreach.lined.listed hd
  have hwait : r.Waiting := by
    by_contra hno
    exact no_delivery_of_quiet hn hq hr hno hd rfl
  have full (hroom : r.channel.hasRoom = false) :
      r.channel.unread.length = h.limits.capacity.toNat := by
    have hle := room_after hn past hr
    have hcap := fits_after hn past _ r hr
    simp only [Channel.hasRoom, decide_eq_false_iff_not] at hroom
    omega
  refine ⟨r, hr, hwait, ?_⟩
  rcases Delivery.blocked_cases hr (hreach.lined.arrived hd) (blocked_of_delivery hn hq hd) with
    ⟨hline, hhead⟩ | ⟨hplacing, hroom⟩
  · -- The head of the line does not wait for its turn, so it waits for room.
    obtain ⟨q, hq', hm⟩ := hreach.lined.listed hd
    cases hr.symm.trans hq'
    obtain ⟨t', ts, hcons⟩ := List.exists_cons_of_ne_nil (List.ne_nil_of_mem hm)
    have hhead' : r.line.head? = some t' := by rw [hcons, List.head?_cons]
    obtain ⟨d', hd', hid⟩ := hreach.lined.holds hr (List.mem_of_mem_head? hhead')
    rcases Delivery.blocked_cases (hid ▸ hr) (hreach.lined.arrived hd')
      (blocked_of_delivery hn hq hd') with ⟨-, hno⟩ | ⟨hplacing, hroom⟩
    · exact absurd hhead' hno
    · have hne : t' ≠ t := fun e => hhead (e ▸ hhead')
      exact ⟨full hroom, .inr ⟨hline, t', d', hne, hhead', hd', hid, hplacing⟩⟩
  · exact ⟨full hroom, .inl hplacing⟩

end Hub
end Rollcall
