import Rollcall.Proofs.Line
import Rollcall.Proofs.Segment

/-!
# The standing of requests

A request waits from the moment it is made until it is complete or cancelled. `Book.Sound` says that
the registry holds just the requests that wait, each under its nonce, and that the channel of a
request that waits is open at both ends. Every change keeps it. Main statement:
`registered_iff_waiting`.
-/

namespace Rollcall

def Request.Waiting (r : Request) : Prop := r.complete = false ∧ r.cancelled = false

structure Request.Sound (r : Request) : Prop where
  not_both : ¬(r.complete = true ∧ r.cancelled = true)
  sender : r.Waiting → r.senderOpen = true
  receiver : r.Waiting → r.channel.receiver = .listening
  sender_of_complete : r.complete = true → r.senderOpen = false

structure Book.Sound (b : Book) : Prop where
  registered : ∀ (n : String) (id : RequestId), b.registry.get? n = some id ↔
    ∃ r, b.requests[id]? = some r ∧ r.nonce = n ∧ r.Waiting
  request : ∀ (id : RequestId) (r : Request), b.requests[id]? = some r → r.Sound

namespace Request

theorem not_waiting_of_cancelled {r : Request} (h : r.cancelled = true) : ¬r.Waiting := by
  intro hw
  rw [hw.2] at h
  cases h

theorem not_waiting_of_complete {r : Request} (h : r.complete = true) : ¬r.Waiting := by
  intro hw
  rw [hw.1] at h
  cases h

theorem complete_of_not_waiting {r : Request} (hc : r.cancelled = false) (hw : ¬r.Waiting) :
    r.complete = true := by
  by_contra hno
  exact hw ⟨by simpa using hno, hc⟩

theorem Sound.waiting_of_open {r : Request} (hs : r.Sound) (hc : r.cancelled = false)
    (ho : r.senderOpen = true) : r.Waiting := by
  by_contra hw
  rw [hs.sender_of_complete (complete_of_not_waiting hc hw)] at ho
  cases ho

theorem Sound.of_closed {r : Request} (hs : r.Sound) (h : r.senderOpen = false) : ¬r.Waiting := by
  intro hw
  rw [hs.sender hw] at h
  cases h

theorem Sound.of_deaf {r : Request} (hs : r.Sound) (h : r.channel.isListening = false) :
    ¬r.Waiting := by
  intro hw
  simp [Channel.isListening, hs.receiver hw] at h

theorem Sound.fresh {r : Request} (h : r.Fresh) : r.Sound ∧ r.Waiting := by
  obtain ⟨nonce, guild, filter, capacity, rfl⟩ := h
  exact ⟨⟨by simp, fun _ => rfl, fun _ => rfl, by simp⟩, rfl, rfl⟩

/-! ## What keeps a request sound -/

theorem sound_close {r : Request} (hc : r.complete = false) : r.close.Sound where
  not_both h := by
    have : r.complete = true := h.1
    rw [hc] at this
    cases this
  sender hw := absurd hw (not_waiting_of_cancelled rfl)
  receiver hw := absurd hw (not_waiting_of_cancelled rfl)
  sender_of_complete h := by
    have : r.complete = true := h
    rw [hc] at this
    cases this

theorem Sound.dropReceiver {r : Request} (hs : r.Sound) (hw : ¬r.Waiting) : r.dropReceiver.Sound where
  not_both := hs.not_both
  sender h := absurd h hw
  receiver h := absurd h hw
  sender_of_complete := hs.sender_of_complete

theorem Sound.closeSender {r : Request} (hs : r.Sound) (hw : ¬r.Waiting) : r.closeSender.Sound where
  not_both := hs.not_both
  sender h := absurd h hw
  receiver h := absurd h hw
  sender_of_complete _ := rfl

theorem Sound.cancelled_of_complete {r : Request} (hs : r.Sound) (hc : r.complete = true) :
    r.cancelled = false := by
  cases hd : r.cancelled with
  | false => rfl
  | true => exact absurd ⟨hc, hd⟩ hs.not_both

theorem Sound.line {r : Request} (hs : r.Sound) (line : List TaskId) :
    ({ r with line } : Request).Sound :=
  ⟨hs.not_both, hs.sender, hs.receiver, hs.sender_of_complete⟩

theorem Sound.place {r : Request} (hs : r.Sound) (m : Member) : (r.place m).Sound :=
  ⟨hs.not_both, hs.sender, hs.receiver, hs.sender_of_complete⟩

theorem waiting_afterReading (r : Request) : r.afterReading.Waiting ↔ r.Waiting := by
  unfold afterReading
  split <;> exact .rfl

theorem Sound.afterReading {r : Request} (hs : r.Sound) : r.afterReading.Sound := by
  unfold Request.afterReading
  split
  · exact hs
  · exact ⟨hs.not_both, hs.sender, fun hw => (Channel.receiver_take _).trans (hs.receiver hw),
      hs.sender_of_complete⟩

theorem Sound.countChunk {r : Request} (hs : r.Sound) (hc : r.cancelled = false) (declared : UInt32) :
    (r.countChunk declared).Sound := by
  have hcan := (cancelled_countChunk r declared).trans hc
  rcases countChunk_cases r declared with ⟨-, h1, h2⟩ | ⟨-, h1, h2⟩
  · refine ⟨fun h => ?_, fun hw => absurd hw (not_waiting_of_complete h1),
      fun hw => absurd hw (not_waiting_of_complete h1), fun _ => h2⟩
    rw [hcan] at h
    cases h.2
  · refine ⟨fun h => ?_, fun hw => ?_, fun hw => ?_, fun h => ?_⟩
    · rw [hcan] at h
      cases h.2
    · rw [h2]; exact hs.sender ⟨h1 ▸ hw.1, hc⟩
    · rw [channel_countChunk]; exact hs.receiver ⟨h1 ▸ hw.1, hc⟩
    · rw [h2]; exact hs.sender_of_complete (h1 ▸ h)

end Request

namespace Book

variable {b b' : Book} {id : RequestId} {r r' : Request}

/-- A request may be replaced by one that waits under the same nonce just if it did. -/
theorem Sound.replace (hb : b.Sound) (hr : b.requests[id]? = some r) (h : b.Replaces id r' b')
    (hreg : b'.registry = b.registry) (hn : r'.nonce = r.nonce) (hw : r'.Waiting ↔ r.Waiting)
    (hs : r'.Sound) : b'.Sound where
  registered n i := by
    rw [hreg, hb.registered]
    by_cases hi : i = id
    · subst hi
      rw [h.self, hr]
      constructor
      · rintro ⟨r₀, h0, h1, h2⟩
        cases h0
        exact ⟨r', rfl, hn.trans h1, hw.mpr h2⟩
      · rintro ⟨r₀, h0, h1, h2⟩
        cases h0
        exact ⟨r, rfl, hn ▸ h1, hw.mp h2⟩
    · rw [h.ne hi]
  request i r₀ h0 := by
    by_cases hi : i = id
    · subst hi
      rw [h.self] at h0
      cases h0
      exact hs
    · rw [h.ne hi] at h0
      exact hb.request i r₀ h0

/-- A request that no longer waits has to leave the registry. -/
theorem Sound.strike (hb : b.Sound) (h : b.Replaces id r' b')
    (hreg : ∀ n, b'.registry.get? n =
      if b.registry.get? n = some id then none else b.registry.get? n)
    (hw : ¬r'.Waiting) (hs : r'.Sound) : b'.Sound where
  registered n i := by
    rw [hreg]
    by_cases hi : i = id
    · subst hi
      rw [h.self]
      constructor
      · intro h0
        split at h0
        · cases h0
        · rename_i hne
          exact absurd h0 hne
      · rintro ⟨r₀, h0, -, h2⟩
        cases h0
        exact absurd h2 hw
    · rw [h.ne hi, ← hb.registered]
      split
      · rename_i he
        rw [he]
        simp [Ne.symm hi]
      · exact .rfl
  request i r₀ h0 := by
    by_cases hi : i = id
    · subst hi
      rw [h.self] at h0
      cases h0
      exact hs
    · rw [h.ne hi] at h0
      exact hb.request i r₀ h0

theorem Sound.nonce_of_get? (hb : b.Sound) (hr : b.requests[id]? = some r) {n : String}
    (hn : b.registry.get? n = some id) : r.nonce = n := by
  obtain ⟨r₀, h0, h1, -⟩ := (hb.registered n id).mp hn
  rw [hr] at h0
  cases h0
  exact h1

theorem Sound.get?_nonce (hb : b.Sound) (hr : b.requests[id]? = some r) :
    b.registry.get? r.nonce = some id ↔ r.Waiting := by
  rw [hb.registered]
  constructor
  · rintro ⟨r₀, h0, -, h2⟩
    rw [hr] at h0
    cases h0
    exact h2
  · intro hw
    exact ⟨r, hr, rfl, hw⟩

theorem Sound.get?_erase (hb : b.Sound) (hr : b.requests[id]? = some r)
    (hw : b.registry.get? r.nonce = some id) (n : String) :
    (b.registry.erase r.nonce).get? n =
      if b.registry.get? n = some id then none else b.registry.get? n := by
  rw [Registry.get?_erase]
  by_cases hn : r.nonce = n
  · subst hn
    rw [if_pos rfl, if_pos hw]
  · rw [if_neg hn, if_neg fun h => hn (hb.nonce_of_get? hr h)]

/-! ## What keeps a book sound -/

theorem Sound.recv (hb : b.Sound) (id : RequestId) : (b.recv id).2.Sound := by
  cases hr : b.requests[id]? with
  | none => rw [recv_none hr]; exact hb
  | some r =>
    rw [recv_eq hr]
    have hn : r.afterReading.nonce = r.nonce := (Request.kept_afterReading r).nonce
    exact hb.replace hr (replaces_modify hr _) rfl hn (Request.waiting_afterReading r)
      (hb.request id r hr).afterReading

theorem Sound.cancel (hb : b.Sound) (id : RequestId) : (b.cancel id).2.Sound := by
  rcases b.cancel_cases id with h | ⟨r, hr, hc, hw, h⟩
  · rw [h]; exact hb
  · rw [h]
    exact hb.strike (replaces_modify hr _) (hb.get?_erase hr hw)
      (Request.not_waiting_of_cancelled rfl) (Request.sound_close hc)

theorem Sound.not_waiting_of_cancel (hb : b.Sound) (hr : (b.cancel id).2.requests[id]? = some r) :
    ¬r.Waiting := by
  rcases b.cancel_cases id with h | ⟨r₀, hr₀, hc, hw, h⟩
  · rw [h] at hr
    intro hwait
    have hreg := (hb.get?_nonce hr).mpr hwait
    have hcan : b.cancel id = (true, { b.modify id .close with registry := b.registry.erase r.nonce }) := by
      unfold Book.cancel
      simp only [hr, hwait.1, deregisterRequest_eq hr, if_pos hreg]
      rfl
    rw [hcan] at h
    cases h
  · rw [h] at hr
    have := (replaces_modify hr₀ Request.close).self
    rw [show (b.modify id .close).requests[id]? = some r from hr] at this
    cases this
    exact Request.not_waiting_of_cancelled rfl

theorem Sound.dropStream (hb : b.Sound) (id : RequestId) : (b.dropStream id).Sound := by
  have hc := hb.cancel id
  cases hr : (b.cancel id).2.requests[id]? with
  | none =>
    have hsame : (b.dropStream id).requests = (b.cancel id).2.requests := by
      apply Array.ext_getElem?
      intro i
      unfold Book.dropStream
      rw [requests_modify]
      by_cases hi : i = id
      · subst hi; simp [hr]
      · simp [hi]
    exact ⟨by rw [hsame]; exact hc.registered, by rw [hsame]; exact hc.request⟩
  | some r =>
    exact hc.replace hr (replaces_modify hr _) rfl rfl .rfl
      ((hc.request id r hr).dropReceiver (hb.not_waiting_of_cancel hr))

theorem Sound.not_waiting_of_dropStream (hb : b.Sound)
    (hr : (b.dropStream id).requests[id]? = some r) : ¬r.Waiting := by
  unfold Book.dropStream at hr
  rw [requests_modify, if_pos rfl] at hr
  obtain ⟨r₀, hr₀, rfl⟩ := Option.map_eq_some_iff.mp hr
  intro hw
  exact hb.not_waiting_of_cancel hr₀ ⟨hw.1, hw.2⟩

theorem Sound.shutdown (hb : b.Sound) : b.shutdown.2.Sound := by
  have swept {i : RequestId} {r : Request} (hr : b.requests[i]? = some r) (hw : r.Waiting) :
      i ∈ b.drain.1 := mem_drain.mpr ⟨r.nonce, (hb.get?_nonce hr).mpr hw⟩
  refine ⟨fun n i => ?_, fun i r₀ h0 => ?_⟩
  · rw [registry_shutdown, requests_shutdown]
    constructor
    · intro h
      simp [Registry.get?, Registry.empty] at h
    · rintro ⟨r₀, h0, -, hw⟩
      obtain ⟨r, hr, rfl⟩ := Option.map_eq_some_iff.mp h0
      split at hw
      · exact absurd hw (Request.not_waiting_of_cancelled rfl)
      · rename_i hno
        exact absurd ⟨swept hr hw, hw.1⟩ hno
  · rw [requests_shutdown] at h0
    obtain ⟨r, hr, rfl⟩ := Option.map_eq_some_iff.mp h0
    split
    · rename_i hc
      exact Request.sound_close hc.2
    · exact hb.request i r hr

theorem Sound.registerWith (hb : b.Sound) {build : String → Request}
    (hf : ∀ nonce, (build nonce).Fresh ∧ (build nonce).nonce = nonce)
    (h : b.registerWith build = (some id, b')) : b'.Sound := by
  obtain ⟨nonce, hfree, rfl, hreq, hreg⟩ := registerWith_some h
  obtain ⟨hs, hw⟩ := Request.Sound.fresh (hf nonce).1
  have bound {n : String} {i : RequestId} (hn : b.registry.get? n = some i) :
      i < b.requests.size := by
    obtain ⟨r₀, h0, -⟩ := (hb.registered n i).mp hn
    exact (Array.getElem?_eq_some_iff.mp h0).1
  refine ⟨fun n i => ?_, fun i r₀ h0 => ?_⟩
  · rw [hreg, hreq, Registry.get?_insert, Array.getElem?_push]
    by_cases hi : i = b.requests.size
    · subst hi
      rw [if_pos rfl]
      constructor
      · intro h0
        split at h0
        · rename_i hn
          exact ⟨build nonce, rfl, (hf nonce).2.trans hn, hw⟩
        · exact absurd (bound h0) (Nat.lt_irrefl _)
      · rintro ⟨r₀, h0, h1, -⟩
        cases h0
        rw [if_pos ((hf nonce).2.symm.trans h1)]
    · rw [if_neg hi, ← hb.registered]
      split
      · rename_i hn
        subst hn
        rw [hfree]
        simp [Ne.symm hi]
      · exact .rfl
  · rw [hreq, Array.getElem?_push] at h0
    split at h0
    · cases h0; exact hs
    · exact hb.request i r₀ h0

/-! ## Deliveries -/

theorem Sound.advance {d d' : Delivery} {t : TaskId} (hb : b.Sound)
    (hs : ∀ ms, d.stage ≠ .arriving ms) (h : d.advance t b = .moved b' d') : b'.Sound := by
  cases hr : b.requests[d.request]? with
  | none => simp [Delivery.advance, hr] at h
  | some r =>
    obtain ⟨r', hrep, hreg, -, -, hturn⟩ := Delivery.advance_moved hr hs h
    have hr' := hb.request _ r hr
    generalize d.stage = stage at hturn
    generalize d'.stage = stage' at hturn
    cases hturn with
    | first => exact hb.replace hr hrep hreg rfl .rfl hr'
    | next => exact hb.replace hr hrep hreg rfl .rfl (hr'.place _)

/-- A chunk that ends takes its request out of the registry if the request no longer waits. -/
theorem Sound.settle {d : Delivery} {t : TaskId} {out : Delivered} (hb : b.Sound)
    (hs : ∀ ms, d.stage ≠ .arriving ms) (h : d.advance t b = .done b' out) :
    (b'.settle d.request out.verdict).Sound := by
  cases hr : b.requests[d.request]? with
  | none => simp [Delivery.advance, hr] at h
  | some r =>
    obtain ⟨r', hrep, hreg, hturn⟩ := Delivery.advance_done hr hs h
    have hr' := hb.request _ r hr
    have hself := hrep.self
    -- Whatever ends the request goes with a final verdict.
    have ended (hn : r'.nonce = r.nonce) (hw : ¬r'.Waiting) (hs' : r'.Sound)
        (hv : out.verdict.isFinal = true) : (b'.settle d.request out.verdict).Sound := by
      unfold Book.settle
      rw [if_pos hv, deregisterRequest_eq hself, hreg, hn]
      split
      · rename_i hw'
        have hrep' : b.Replaces d.request r' { b' with registry := b.registry.erase r.nonce } := hrep
        exact hb.strike hrep' (hb.get?_erase hr hw') hw hs'
      · rename_i hw'
        refine hb.strike hrep (fun n => ?_) hw hs'
        rw [hreg, if_neg]
        intro hn'
        exact hw' ((hb.nonce_of_get? hr hn').symm ▸ hn')
    -- A chunk that is counted leaves the request waiting unless it is the last.
    have counted {q : Request} (hq : q.Sound) (hqn : q.nonce = r.nonce) (hqw : q.Waiting ↔ r.Waiting)
        (hlive : q.cancelled = false) (e : r' = (q.countChunk d.declared).leave t)
        (hv : out.verdict = Delivery.lastVerdict q d.declared) :
        (b'.settle d.request out.verdict).Sound := by
      have hs' : r'.Sound := e ▸ (hq.countChunk hlive d.declared).line _
      have hn' : r'.nonce = r.nonce := by
        rw [e]; exact (Request.nonce_countChunk q d.declared).trans hqn
      have hcan : r'.cancelled = q.cancelled := by
        rw [e]; exact Request.cancelled_countChunk q d.declared
      have hcomp : r'.complete = (q.countChunk d.declared).complete := by rw [e]; rfl
      rcases Request.countChunk_cases q d.declared with ⟨h0, h1, -⟩ | ⟨h0, h1, -⟩
      · refine ended hn' (Request.not_waiting_of_complete (hcomp.trans h1)) hs' ?_
        rw [hv, Delivery.lastVerdict, if_pos h0]
        rfl
      · have hp : out.verdict = .pending := by
          rw [hv, Delivery.lastVerdict, if_neg (by simp [h0])]
        rw [hp]
        refine hb.replace hr hrep hreg hn' (Iff.trans ?_ hqw) hs'
        unfold Request.Waiting
        rw [hcomp, h1, hcan]
    generalize d.stage = stage at hturn
    cases hturn with
    | late head closed => exact ended rfl (hr'.of_closed closed) (hr'.line _) rfl
    | refused head sender dead verdict =>
      have hw := Request.not_waiting_of_cancelled dead
      exact ended rfl hw ((hr'.closeSender hw).line _) (by rw [verdict]; rfl)
    | cut dead verdict =>
      have hw : ¬r.Waiting := by
        rcases dead with dead | dead
        · exact Request.not_waiting_of_cancelled dead
        · exact hr'.of_deaf dead
      exact ended rfl hw ((hr'.closeSender hw).line _) (by rw [verdict]; rfl)
    | nothing head sender live found verdict => exact counted hr' rfl .rfl live rfl verdict
    | last live listening room found verdict =>
      exact counted (hr'.place _) rfl .rfl live rfl verdict

theorem Sound.modify_line (hb : b.Sound) {f : Request → Request}
    (hf : ∀ r : Request, ∃ line, f r = { r with line }) : (b.modify id f).Sound := by
  cases hr : b.requests[id]? with
  | none =>
    have hsame : (b.modify id f).requests = b.requests := by
      apply Array.ext_getElem?
      intro i
      rw [requests_modify]
      by_cases hi : i = id
      · subst hi; simp [hr]
      · simp [hi]
    exact ⟨by rw [hsame]; exact hb.registered, by rw [hsame]; exact hb.request⟩
  | some r =>
    obtain ⟨line, he⟩ := hf r
    have hrep := replaces_modify hr f
    rw [he] at hrep
    exact hb.replace hr hrep rfl rfl .rfl ((hb.request id r hr).line line)

theorem Sound.of_requests (hb : b.Sound) (hreq : b'.requests = b.requests)
    (hreg : b'.registry = b.registry) : b'.Sound :=
  ⟨by rw [hreq, hreg]; exact hb.registered, by rw [hreq]; exact hb.request⟩

end Book

/-! ## Every history -/

theorem Reached.sound {j : List Occurrence} {s : Scene} (hr : Reached j s) : s.book.Sound := by
  induction hr with
  | new nonces => exact ⟨fun n id => by simp [Registry.get?, Registry.empty], nofun⟩
  | @step j os s s' hr h ih =>
    have sound_recv {id : RequestId} {x : Reading} {b : Book} (hb : s.book.recv id = (x, b)) :
        b.Sound := by
      have hs := ih.recv id
      rwa [hb] at hs
    have standing {t : TaskId} {task : Task} {d : Delivery} (ht : s.tasks t = some task)
        (hd : task.delivery? = some d) : ∀ ms, d.stage ≠ .arriving ms :=
      hr.lined.arrived ((Scene.delivery?_of_task ht).trans hd)
    cases h with
    | call => exact ih
    | attend => exact ih
    | read => exact ih
    | recv hid hb => exact sound_recv hb
    | cancel id => exact ih.cancel id
    | discard => exact ih.dropStream _
    | shutdown => exact ih.shutdown
    | draw nonces => exact ih.of_requests rfl rfl
    | make ht hs hf hb => exact ih.registerWith hf hb
    | release => exact ih
    | handOut => exact ih
    | begin => exact ih
    | gather ht hs hb => exact sound_recv hb
    | take ht hb => exact sound_recv hb
    | leave => exact ih.dropStream _
    | stop => exact ih
    | arrive => exact ih.modify_line fun r => ⟨_, rfl⟩
    | advance ht hd hb => exact ih.advance (standing ht hd) hb
    | settle ht hd hb => exact ih.settle (standing ht hd) hb
    | interrupt => exact ih.modify_line fun r => ⟨_, rfl⟩

/-- **The registry tells the truth.** After every history, a request is registered, under its own
nonce, just if it is neither complete nor cancelled. It is never both, and while it is registered
its sender is open. -/
theorem registered_iff_waiting {h : Hub} (hn : h.IsNew) (past : List Action) {id : RequestId}
    {r : Request} (hr : (h.after past).book.requests[id]? = some r) :
    (∀ n, (h.after past).book.registry.get? n = some id ↔
      n = r.nonce ∧ r.complete = false ∧ r.cancelled = false) ∧
    ¬(r.complete = true ∧ r.cancelled = true) ∧
    ∀ n, (h.after past).book.registry.get? n = some id → r.senderOpen = true := by
  have hb : (h.after past).book.Sound := (Reached.after hn past).sound
  have registered (n : String) : (h.after past).book.registry.get? n = some id ↔
      n = r.nonce ∧ r.complete = false ∧ r.cancelled = false := by
    constructor
    · intro h0
      have hnonce := hb.nonce_of_get? hr h0
      subst hnonce
      exact ⟨rfl, (hb.get?_nonce hr).mp h0⟩
    · rintro ⟨rfl, hw⟩
      exact (hb.get?_nonce hr).mpr hw
  refine ⟨registered, (hb.request id r hr).not_both, fun n h0 => ?_⟩
  exact (hb.request id r hr).sender ((registered n).mp h0).2

theorem registered_once_sent :
    (Hub.sample .accept).IsNew ∧
      ((Hub.sample .accept).after [.segment 0, .callStream (.all ⟨1⟩)]).book.registry.get? "x" =
        some 0 := by
  have hn := Hub.sample_isNew .accept
  exact ⟨hn, ((registered_iff_waiting hn _ rfl).1 "x").mpr ⟨rfl, rfl, rfl⟩⟩

end Rollcall
