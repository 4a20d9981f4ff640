import Rollcall.Proofs.Asking
import Rollcall.Proofs.Outlet

/-!
# Refusals leave no trace

A call fails in its first segment as the first check says that fails, or when the shard refuses its
command then; later it fails when the shard lets it go with a refusal. Up to the drawing of nonces
nothing but the end of the call is left of that. A request that was made is taken back: its stream is
dropped, which touches nobody else's entry in the registry. Main statement: `refused_without_trace`.
-/

namespace Rollcall

namespace Hub

variable {h h' : Hub} {t : TaskId} {c : Call} {i : Inquiry} {f : Failure}

/-! ## Why a request is refused -/

def TooMany (h : Hub) (i : Inquiry) : Prop :=
  ∃ ids, i.scope = .users ids ∧ h.limits.idsPerRequest.toNat < ids.length

/-- The failures of the first segment of a call, each where those before it do not apply. -/
inductive Refuses (h : Hub) (i : Inquiry) : Failure → Prop
  | shardNotFound (hz : h.shards.size = 0) : Refuses h i (.shardNotFound i.guild)
  | missingIntent {shard : Shard} (hs : h.Serves i.guild shard)
      (hm : shard.intents.missing .guildMembers = true) :
      Refuses h i (.missingIntent .guildMembers)
  | invalidRequest {shard : Shard} {reason : String} (hs : h.Serves i.guild shard)
      (hm : shard.intents.missing .guildMembers = false) (hmany : h.TooMany i)
      (hr : i.refusal? h.limits = some (.invalidRequest reason)) :
      Refuses h i (.invalidRequest reason)
  | nonceExhausted {shard : Shard} (ha : h.Admits i shard) (he : h.book.Exhausted) :
      Refuses h i (.nonceExhausted NonceSource.attempts)
  | sendFailed {shard : Shard} {cause : TransportFailure} (ha : h.Admits i shard)
      (he : ¬h.book.Exhausted) (hfit : h.limits.capacity.toNat ≤ Limits.greatestCapacity)
      (hm : shard.mode = .refuse cause.context) : Refuses h i (.sendFailed cause)

theorem Serves.unique {g : GuildId} {s s' : Shard} (hs : h.Serves g s) (hs' : h.Serves g s') :
    s = s' :=
  Option.some.inj (hs.symm.trans hs')

theorem Serves.size_ne {g : GuildId} {s : Shard} (hs : h.Serves g s) : h.shards.size ≠ 0 := by
  have hlt := (Array.getElem?_eq_some_iff.mp hs).1
  omega

theorem Admits.not_tooMany {shard : Shard} (ha : h.Admits i shard) : ¬h.TooMany i := by
  rintro ⟨ids, hi, hlen⟩
  have hle := ha.few ids hi
  omega

theorem Starts.admitted {shard : Shard} {x : Started} (hst : h.Starts t i x h')
    (ha : h.Admits i shard) :
    (x = .oversized ∧ Limits.greatestCapacity < h.limits.capacity.toNat) ∨
    (x = .failed (.nonceExhausted NonceSource.attempts) ∧ h.book.Exhausted) ∨
    ∃ k, x = .sent h.book.requests.size (h.opened t i shard k).1 ∧ ¬h.book.Exhausted := by
  cases hst with
  | shardNotFound hz => exact absurd hz ha.serves.size_ne
  | missingIntent hs hm =>
    rw [hs.unique ha.serves, ha.intent] at hm
    cases hm
  | invalidRequest hs hm hi hlen => exact absurd ⟨_, hi, hlen⟩ ha.not_tooMany
  | oversized ha' hbig => exact .inl ⟨rfl, hbig⟩
  | nonceExhausted ha' hfit he => exact .inr (.inl ⟨rfl, he⟩)
  | sent ha' hfit hk hfree =>
    rw [ha'.serves.unique ha.serves]
    exact .inr (.inr ⟨_, rfl, Book.not_exhausted hk hfree⟩)

theorem Refuses.start {x : Started} (hfit : h.book.Exhausted →
      h.limits.capacity.toNat ≤ Limits.greatestCapacity)
    (hr : h.Refuses i f) (hst : h.Starts t i x h') :
    x = .failed f ∨ ∃ id cause, x = .sent id (some (.refused cause)) ∧ f = .sendFailed cause := by
  cases hr with
  | shardNotFound hz =>
    cases hst with
    | shardNotFound => exact .inl rfl
    | missingIntent hs' => exact absurd hz hs'.size_ne
    | invalidRequest hs' => exact absurd hz hs'.size_ne
    | oversized ha' => exact absurd hz ha'.serves.size_ne
    | nonceExhausted ha' => exact absurd hz ha'.serves.size_ne
    | sent ha' => exact absurd hz ha'.serves.size_ne
  | missingIntent hs hm =>
    have clash {s' : Shard} (hs' : h.Serves i.guild s')
        (hm' : s'.intents.missing .guildMembers = false) : False := by
      rw [hs.unique hs', hm'] at hm
      cases hm
    cases hst with
    | shardNotFound hz => exact absurd hz hs.size_ne
    | missingIntent => exact .inl rfl
    | invalidRequest hs' hm' => exact (clash hs' hm').elim
    | oversized ha' => exact (clash ha'.serves ha'.intent).elim
    | nonceExhausted ha' => exact (clash ha'.serves ha'.intent).elim
    | sent ha' => exact (clash ha'.serves ha'.intent).elim
  | invalidRequest hs hm hmany hr =>
    cases hst with
    | shardNotFound hz => exact absurd hz hs.size_ne
    | missingIntent hs' hm' =>
      rw [hs'.unique hs, hm] at hm'
      cases hm'
    | invalidRequest hs' hm' hi hlen hr' =>
      cases hr.symm.trans hr'
      exact .inl rfl
    | oversized ha' => exact absurd hmany ha'.not_tooMany
    | nonceExhausted ha' => exact absurd hmany ha'.not_tooMany
    | sent ha' => exact absurd hmany ha'.not_tooMany
  | nonceExhausted ha he =>
    rcases hst.admitted ha with ⟨-, hbig⟩ | ⟨rfl, -⟩ | ⟨k, -, hfree⟩
    · exact absurd (hfit he) (Nat.not_le_of_lt hbig)
    · exact .inl rfl
    · exact absurd he hfree
  | @sendFailed shard cause ha he hfit' hmode =>
    rcases hst.admitted ha with ⟨-, hbig⟩ | ⟨-, he'⟩ | ⟨k, rfl, -⟩
    · exact absurd hfit' (Nat.not_le_of_lt hbig)
    · exact absurd he' he
    · refine .inr ⟨h.book.requests.size, cause, ?_, rfl⟩
      simp only [opened, handOver, hmode, SendMode.result]

theorem refuses_of_start (hsize : h.shards.size < UInt64.size) {x : Started}
    (hst : h.start t i = (x, h')) (hx : x = .failed f ∨
      ∃ id cause, x = .sent id (some (.refused cause)) ∧ f = .sendFailed cause) : h.Refuses i f := by
  rcases hx with rfl | ⟨id, cause, rfl, rfl⟩
  · have hcases := starts hsize t i
    rw [hst] at hcases
    cases hcases with
    | shardNotFound hz => exact .shardNotFound hz
    | missingIntent hs hm => exact .missingIntent hs hm
    | invalidRequest hs hm hi hlen hr => exact .invalidRequest hs hm ⟨_, hi, hlen⟩ hr
    | nonceExhausted ha hfit he => exact .nonceExhausted ha he
  · obtain ⟨shard, k, ha, hfit, hk, hfree, -, hopen⟩ := start_sent hsize hst
    refine .sendFailed ha (Book.not_exhausted hk hfree) hfit ?_
    have hres := congrArg Prod.fst hopen
    simp only [opened, handOver] at hres
    cases hm : shard.mode with
    | accept => simp [hm, SendMode.result] at hres
    | hold => simp [hm] at hres
    | refuse context =>
      simp only [hm, SendMode.result, Option.some.injEq, SendResult.refused.injEq] at hres
      rw [← hres]

/-! ## Failing -/

def Fails (h : Hub) (t : TaskId) (f : Failure) (h' : Hub) : Prop :=
  h'.finished = h.finished.push (t, .failed f)

theorem fails_finish {g : Hub} {o : Outcome} (hg : g.frame = h.frame) :
    h.Fails t f (g.finish t o) ↔ o = .failed f := by
  have hfin : g.finished = h.finished := congrArg Frame.finished hg
  simp only [Fails, finish, hfin]
  constructor
  · intro he
    exact congrArg Prod.snd (Array.push_eq_push.mp he).1
  · rintro rfl
    rfl

theorem not_fails_setTask {g : Hub} (hg : g.frame = h.frame) (x : Option Task) :
    ¬h.Fails t f (g.setTask t x) := by
  intro he
  have hfin : g.finished = h.finished := congrArg Frame.finished hg
  have hsize := congrArg Array.size he
  simp only [setTask, hfin, Array.size_push] at hsize
  omega

theorem frame_start (h : Hub) (t : TaskId) (i : Inquiry) : (h.start t i).2.frame = h.frame := by
  rcases start_cases h t i with ⟨-, hf, -⟩ | ⟨id, res, build, b, -, hf, -⟩
  · exact hf
  · exact hf

/-- A call that fails in its first segment was cancelled, or refused at once, or by the shard. -/
theorem Opens.of_fails (hopens : h.Opens t c h') (hf : h.Fails t f h') :
    (f = .cancelled ∧ h' = h.finish t (.failed f)) ∨
    (∃ g, h.start t c.inquiry = (.failed f, g) ∧ h' = g.finish t (.failed f)) ∨
    ∃ id cause g, h.tokenCancelled (watched c.goal) = false ∧
      h.start t c.inquiry = (.sent id (some (.refused cause)), g) ∧
      f = .sendFailed cause ∧ h' = (g.dropStream id).finish t (.failed f) := by
  have hframe := h.frame_start t c.inquiry
  cases hopens with
  | cancelled htok =>
    rw [fails_finish rfl] at hf
    cases hf
    exact .inl ⟨rfl, rfl⟩
  | @failed f' g htok hst =>
    rw [hst] at hframe
    rw [fails_finish hframe] at hf
    cases hf
    exact .inr (.inl ⟨g, hst, rfl⟩)
  | oversized htok hst =>
    rw [hst] at hframe
    rw [fails_finish hframe] at hf
    cases hf
  | held htok hst =>
    rw [hst] at hframe
    exact absurd hf (not_fails_setTask hframe _)
  | @refused id cause g htok hst =>
    rw [hst] at hframe
    have hdrop : (g.dropStream id).frame = h.frame := hframe
    rw [fails_finish hdrop] at hf
    cases hf
    exact .inr (.inr ⟨id, cause, g, htok, hst, rfl, rfl⟩)
  | @stream id g htok hst hg =>
    rw [hst] at hframe
    have hout : frame { g with streams := g.streams ++ [id] } = h.frame := hframe
    rw [fails_finish hout] at hf
    cases hf
  | reading htok hst hg =>
    rw [hst] at hframe
    exact absurd hf (not_fails_setTask hframe _)

/-- The first segment of a call fails with just what the checks say, and with nothing else. -/
theorem fails_first (hsize : h.shards.size < UInt64.size) (ht : h.task? t = some (.call c))
    (hs : c.stage = .starting)
    (hfit : h.book.Exhausted → h.limits.capacity.toNat ≤ Limits.greatestCapacity) (f : Failure) :
    h.Fails t f (h.perform (.segment t)) ↔
      if h.tokenCancelled (watched c.goal) = true then f = .cancelled else h.Refuses c.inquiry f := by
  have hopens := opens ht hs
  generalize h.perform (.segment t) = h' at hopens
  have hframe := h.frame_start t c.inquiry
  have refusal {x : Started} {g : Hub} (hst : h.start t c.inquiry = (x, g)) :
      h.Refuses c.inquiry f ↔ x = .failed f ∨
        ∃ id cause, x = .sent id (some (.refused cause)) ∧ f = .sendFailed cause := by
    refine ⟨fun hr => ?_, refuses_of_start hsize hst⟩
    have hcases := starts hsize t c.inquiry
    rw [hst] at hcases
    exact hr.start hfit hcases
  cases hopens with
  | cancelled htok =>
    rw [if_pos htok, fails_finish rfl]
    simp [eq_comm]
  | failed htok hst =>
    rw [hst] at hframe
    rw [if_neg (by simp [htok]), fails_finish hframe, refusal hst]
    simp
  | oversized htok hst =>
    rw [hst] at hframe
    rw [if_neg (by simp [htok]), fails_finish hframe, refusal hst]
    simp
  | held htok hst =>
    rw [hst] at hframe
    rw [if_neg (by simp [htok]), iff_false_left (not_fails_setTask hframe _), refusal hst]
    simp
  | @refused id cause g htok hst =>
    rw [hst] at hframe
    have hdrop : (g.dropStream id).frame = h.frame := hframe
    rw [if_neg (by simp [htok]), fails_finish hdrop, refusal hst]
    simp [eq_comm]
  | @stream id g htok hst hg =>
    rw [hst] at hframe
    have hout : frame { g with streams := g.streams ++ [id] } = h.frame := hframe
    rw [if_neg (by simp [htok]), fails_finish hout, refusal hst]
    simp
  | reading htok hst hg =>
    rw [hst] at hframe
    rw [if_neg (by simp [htok]), iff_false_left (not_fails_setTask hframe _), refusal hst]
    simp

theorem cancelled_first (ht : h.task? t = some (.call c)) (hs : c.stage = .starting)
    (htok : h.tokenCancelled (watched c.goal) = true) :
    h.perform (.segment t) = h.finish t (.failed .cancelled) := by
  have hopens := opens ht hs
  generalize h.perform (.segment t) = h' at hopens
  cases hopens with
  | cancelled => rfl
  | _ htok' => simp [htok] at htok'

/-- Up to the drawing of nonces, a call that is refused has done nothing but end. -/
theorem untouched_first (hsize : h.shards.size < UInt64.size) (ht : h.task? t = some (.call c))
    (hs : c.stage = .starting) (hf : h.Fails t f (h.perform (.segment t)))
    (hno : ∀ cause, f ≠ .sendFailed cause) :
    (f.kind ≠ "NonceExhausted" ∧ h.perform (.segment t) = h.finish t (.failed f)) ∨
      (f = .nonceExhausted NonceSource.attempts ∧ h.perform (.segment t) =
        finish { h with book := { h.book with nonces := h.book.nonces.skip NonceSource.attempts } } t
          (.failed f)) := by
  rcases (opens ht hs).of_fails hf with ⟨rfl, he⟩ | ⟨g, hst, he⟩ | ⟨id, cause, g, -, -, rfl, -⟩
  · exact .inl ⟨by decide, he⟩
  · have hcases := starts hsize t c.inquiry
    rw [hst] at hcases
    rw [he]
    cases hcases with
    | shardNotFound => exact .inl ⟨by simp [Failure.kind], rfl⟩
    | missingIntent => exact .inl ⟨by simp [Failure.kind], rfl⟩
    | invalidRequest => exact .inl ⟨by simp [Failure.kind], rfl⟩
    | nonceExhausted => exact .inr ⟨rfl, rfl⟩
  · exact absurd rfl (hno cause)

/-! ## Failing later -/

/-- A call that has made its request fails when the shard has refused its command, when it is
cancelled, or when its time is over. -/
theorem advanceCall_failed {g : Hub} (hs : c.stage ≠ .starting)
    (hm : h.advanceCall t c = .done g (.failed f)) :
    (∃ id cause, c.stage = .sending id (some (.refused cause)) ∧ f = .sendFailed cause) ∨
      f = .cancelled ∨ ∃ after, f = .timedOut after := by
  cases ending hm with
  | expired d hd hdue ho =>
    cases ho
    exact .inr (.inr ⟨d.after, rfl⟩)
  | cancelled ho =>
    cases ho
    exact .inr (.inl rfl)
  | refused f' hstart => exact absurd hstart hs
  | oversized hstart => exact absurd hstart hs
  | unsent id cause hh ho =>
    cases ho
    cases hh with
    | told hstage => exact .inl ⟨id, cause, hstage, rfl⟩
    | atOnce hstart => exact absurd hstart hs
  | opened id hg hh ho => cases ho
  | gathered id got hstage htoken hend hlive ho => cases ho

theorem fails_later (ht : h.task? t = some (.call c)) (hs : c.stage ≠ .starting)
    (hf : h.Fails t f (h.perform (.segment t))) :
    (∃ id cause, c.stage = .sending id (some (.refused cause)) ∧ f = .sendFailed cause) ∨
      f = .cancelled ∨ ∃ after, f = .timedOut after := by
  cases h.segment_cases t with
  | waits hadv he =>
    rw [he] at hf
    have hsize := congrArg Array.size hf
    rw [Array.size_push] at hsize
    omega
  | goesOn task task' g ht' hm hfr he =>
    rw [he] at hf
    exact absurd hf (not_fails_setTask hfr _)
  | ends task g o ht' hm hfr he =>
    cases ht.symm.trans ht'
    have hfin : h.finished.push (t, o) = h.finished.push (t, .failed f) := by
      rw [he] at hf
      exact hf
    have ho : o = .failed f := congrArg Prod.snd (Array.push_eq_push.mp hfin).1
    subst ho
    exact advanceCall_failed hs (advanceCall_of_done hm)

theorem perform_refused {id : RequestId} {cause : TransportFailure}
    (ht : h.task? t = some (.call c)) (hs : c.stage = .sending id (some (.refused cause))) :
    h.perform (.segment t) = (h.dropStream id).finish t (.failed (.sendFailed cause)) := by
  apply perform_of_done ht
  rw [advanceTask_call, advanceCall, hs]
  rfl

theorem sendFailed_later (ht : h.task? t = some (.call c)) (hs : c.stage ≠ .starting)
    (cause : TransportFailure) :
    h.Fails t (.sendFailed cause) (h.perform (.segment t)) ↔
      ∃ id, c.stage = .sending id (some (.refused cause)) := by
  constructor
  · intro hf
    rcases fails_later ht hs hf with ⟨id, cause', hstage, he⟩ | he | ⟨after, he⟩
    · cases he
      exact ⟨id, hstage⟩
    · cases he
    · cases he
  · rintro ⟨id, hstage⟩
    rw [perform_refused ht hstage]
    have hdrop : (h.dropStream id).frame = h.frame := rfl
    rw [fails_finish hdrop]

theorem untouched (hsize : h.shards.size < UInt64.size) (ht : h.task? t = some (.call c))
    (hf : h.Fails t f (h.perform (.segment t)))
    (hk : f.kind ∈ ["ShardNotFound", "MissingIntent", "InvalidRequest", "NonceExhausted"]) :
    (f.kind ≠ "NonceExhausted" ∧ h.perform (.segment t) = h.finish t (.failed f)) ∨
      (f = .nonceExhausted NonceSource.attempts ∧ h.perform (.segment t) =
        finish { h with book := { h.book with nonces := h.book.nonces.skip NonceSource.attempts } } t
          (.failed f)) := by
  by_cases hs : c.stage = .starting
  · apply untouched_first hsize ht hs hf
    rintro cause rfl
    simp [Failure.kind] at hk
  · rcases fails_later ht hs hf with ⟨id, cause, -, rfl⟩ | rfl | ⟨after, rfl⟩
    · simp [Failure.kind] at hk
    · simp [Failure.kind] at hk
    · simp [Failure.kind] at hk

/-! ## Other requests -/

end Hub

def Book.KeepsOthers (b : Book) (id : RequestId) (b' : Book) : Prop :=
  ∀ n i, i ≠ id → (b'.registry.get? n = some i ↔ b.registry.get? n = some i)

namespace Book

variable {b b' b'' : Book} {id : RequestId}

theorem KeepsOthers.of_registry (hreg : b'.registry = b.registry) : b.KeepsOthers id b' := by
  intro n i _
  rw [hreg]

theorem KeepsOthers.trans (h : b.KeepsOthers id b') (h' : b'.KeepsOthers id b'') :
    b.KeepsOthers id b'' := by
  intro n i hi
  rw [h' n i hi, h n i hi]

theorem keepsOthers_enter {k : Nat} {nonce : String} {r : Request}
    (hfree : b.registry.get? nonce = none) :
    b.KeepsOthers b.requests.size (b.enter k nonce r) := by
  intro n i hi
  simp only [enter, Registry.get?_insert]
  by_cases hn : nonce = n
  · subst hn
    simp [hfree, Ne.symm hi]
  · simp [hn]

theorem keepsOthers_dropStream (b : Book) (id : RequestId) : b.KeepsOthers id (b.dropStream id) := by
  intro n i hi
  have hreg : (b.dropStream id).registry = (b.cancel id).2.registry := rfl
  rw [hreg]
  rcases b.cancel_cases id with he | ⟨r, -, -, hget, he⟩
  · rw [he]
  · simp only [he, Registry.get?_erase]
    by_cases hn : r.nonce = n
    · subst hn
      simp [hget, Ne.symm hi]
    · simp [hn]

end Book

namespace Hub

variable {h h' : Hub} {t : TaskId} {c : Call} {id : RequestId}

theorem afterSend_keepsOthers {result : SendResult} :
    (h.afterSend c id result).All fun g => h.book.KeepsOthers id g.book := by
  unfold afterSend
  split
  · exact h.book.keepsOthers_dropStream id
  · split <;> exact .of_registry rfl

theorem advanceReading_keepsOthers {got : List Member} :
    (h.advanceReading c id got).All fun g => h.book.KeepsOthers id g.book := by
  unfold advanceReading
  split
  · exact h.book.keepsOthers_dropStream id
  have hrecv := Book.spares_recv h.book id
  split
  · rename_i m b heq
    rw [heq] at hrecv
    exact .of_registry hrecv.registry
  · trivial
  · exact h.book.keepsOthers_dropStream id

theorem expire_keepsOthers (hs : (Task.call c).stream? = some id) :
    (h.expire c).All fun g => h.book.KeepsOthers id g.book := by
  have hdrop := h.book.keepsOthers_dropStream id
  unfold expire
  split
  · trivial
  split
  · trivial
  cases hstage : c.stage with
  | starting => exact .of_registry rfl
  | sending i result =>
    simp only [Task.stream?, hstage, Option.some.injEq] at hs
    subst hs
    exact hdrop
  | reading i got =>
    simp only [Task.stream?, hstage, Option.some.injEq] at hs
    subst hs
    exact hdrop

theorem advanceCall_keepsOthers (hs : (Task.call c).stream? = some id) :
    (h.advanceCall t c).All fun g => h.book.KeepsOthers id g.book := by
  unfold advanceCall
  extract_lets inner
  have hinner : inner.All fun g => h.book.KeepsOthers id g.book := by
    simp only [inner]
    cases hstage : c.stage with
    | starting => simp [Task.stream?, hstage] at hs
    | sending i result =>
      simp only [Task.stream?, hstage, Option.some.injEq] at hs
      subst hs
      cases result with
      | none => trivial
      | some result => exact afterSend_keepsOthers
    | reading i got =>
      simp only [Task.stream?, hstage, Option.some.injEq] at hs
      subst hs
      exact advanceReading_keepsOthers
  clear_value inner
  cases inner with
  | blocked => exact expire_keepsOthers hs
  | moved g c' => exact hinner
  | done g o => exact hinner

theorem segment_keepsOthers (ht : h.task? t = some (.call c))
    (hs : (Task.call c).stream? = some id) :
    h.book.KeepsOthers id (h.perform (.segment t)).book := by
  have hall := advanceCall_keepsOthers (h := h) (t := t) hs
  rw [← all_call] at hall
  cases h.segment_cases t with
  | waits hadv he =>
    rw [he]
    exact .of_registry rfl
  | goesOn task task' g ht' hm hf he =>
    cases ht.symm.trans ht'
    rw [hm] at hall
    rw [he]
    exact hall
  | ends task g o ht' hm hf he =>
    cases ht.symm.trans ht'
    rw [hm] at hall
    rw [he]
    exact hall

/-- The first segment of a call either registers its request, or leaves the registry as it is. -/
theorem first_keepsOthers (hsize : h.shards.size < UInt64.size) (ht : h.task? t = some (.call c))
    (hs : c.stage = .starting) :
    (.made t h.book.requests.size ∈ h.occurrences (.segment t) ∧
      h.book.KeepsOthers h.book.requests.size (h.perform (.segment t)).book) ∨
    (h.perform (.segment t)).book.registry = h.book.registry := by
  have hopens := opens ht hs
  generalize h.perform (.segment t) = h' at hopens
  have entered {id : RequestId} {result : Option SendResult} {g : Hub}
      (htok : h.tokenCancelled (watched c.goal) = false)
      (hst : h.start t c.inquiry = (.sent id result, g)) :
      id = h.book.requests.size ∧ .made t h.book.requests.size ∈ h.occurrences (.segment t) ∧
        h.book.KeepsOthers h.book.requests.size g.book := by
    obtain ⟨shard, k, -, -, -, hfree, rfl, hopen⟩ := start_sent hsize hst
    have hg : (h.opened t c.inquiry shard k).2 = g := by rw [hopen]
    rw [← hg, book_opened]
    refine ⟨rfl, ?_, Book.keepsOthers_enter hfree⟩
    simp [occurrences, ht, segmentOccurrences, callOccurrences, hs, htok, hst]
  have hcases := starts hsize t c.inquiry
  cases hopens with
  | cancelled htok => exact .inr rfl
  | failed htok hst =>
    rw [hst] at hcases
    right
    cases hcases <;> rfl
  | oversized htok hst =>
    rw [hst] at hcases
    cases hcases
    exact .inr rfl
  | held htok hst => exact .inl (entered htok hst).2
  | @refused id cause g htok hst =>
    obtain ⟨rfl, hmade, hkeeps⟩ := entered htok hst
    exact .inl ⟨hmade, hkeeps.trans (g.book.keepsOthers_dropStream _)⟩
  | stream htok hst => exact .inl (entered htok hst).2
  | reading htok hst => exact .inl (entered htok hst).2

/-! ## The traces of a call -/

section
variable (hn : h.IsNew) (hsize : h.shards.size < UInt64.size)
include hn hsize

theorem others_kept {later earlier : List Action}
    (hm : .made t id ∈ h.journal (later ++ .segment t :: earlier)) :
    (h.after earlier).book.KeepsOthers id (h.after (.segment t :: earlier)).book := by
  have hreach := Reached.after hn earlier
  have hlong := Reached.after hn (later ++ .segment t :: earlier)
  cases ht : (h.after earlier).task? t with
  | none =>
    have hsame : h.after (.segment t :: earlier) = h.after earlier := by
      rw [after, perform, advance_of_gone ht, Option.getD_none]
    rw [hsame]
    exact .of_registry rfl
  | some task =>
    obtain ⟨goal, hc⟩ := called_of_made hlong hm
    have hsplit : later ++ .segment t :: earlier = (later ++ [.segment t]) ++ earlier := by simp
    rw [hsplit] at hc
    obtain ⟨c, rfl, -⟩ := call_of_called hn _ hc ht
    -- What the journal says of the request by now is still there in the end.
    have grown {i : RequestId} (hi : .made t i ∈ h.journal (.segment t :: earlier)) : i = id := by
      obtain ⟨os, hj, -⟩ := h.changes_append (.segment t :: earlier) later
      refine hlong.made_unique ?_ hm
      rw [hj]
      exact List.mem_append_left _ hi
    by_cases hs : c.stage = .starting
    · rcases first_keepsOthers (shards_after hsize earlier) ht hs with ⟨hmade, hkeeps⟩ | hreg
      · rw [← grown (List.mem_append_right _ hmade)]
        exact hkeeps
      · exact .of_registry hreg
    · have hstream : ∃ i, (Task.call c).stream? = some i := by
        cases hstage : c.stage with
        | starting => exact absurd hstage hs
        | sending i result => exact ⟨i, by simp [Task.stream?, hstage]⟩
        | reading i got => exact ⟨i, by simp [Task.stream?, hstage]⟩
      obtain ⟨i, hi⟩ := hstream
      rw [← grown (List.mem_append_left _ ((hreach.made_iff ht i).mpr hi))]
      exact segment_keepsOthers ht hi

theorem dropped_of_sendFailed {past : List Action} (ht : (h.after past).task? t = some (.call c))
    {cause : TransportFailure}
    (hf : (h.after past).Fails t (.sendFailed cause) (h.after (.segment t :: past))) :
    ∃ (id : RequestId) (b : Book), .made t id ∈ h.journal (.segment t :: past) ∧
      (h.after (.segment t :: past)).book = b.dropStream id := by
  by_cases hs : c.stage = .starting
  · rcases (opens ht hs).of_fails hf with ⟨he, -⟩ | ⟨g, hst, -⟩ | ⟨id, cause', g, htok, hst, -, he⟩
    · cases he
    · have hcases := starts (shards_after hsize past) t c.inquiry
      rw [hst] at hcases
      cases hcases
    · refine ⟨id, g.book, List.mem_append_right _ ?_, congrArg Hub.book he⟩
      simp [occurrences, ht, segmentOccurrences, callOccurrences, hs, htok, hst]
  · obtain ⟨id, hstage⟩ := (sendFailed_later ht hs cause).mp hf
    have hmade : .made t id ∈ h.journal past :=
      ((Reached.after hn past).made_iff ht id).mpr (by simp [Task.stream?, hstage])
    refine ⟨id, (h.after past).book, List.mem_append_left _ hmade, ?_⟩
    rw [after, perform_refused ht hstage]
    rfl

end

theorem deaf_dropStream {b : Book} {r : Request}
    (hr : (b.dropStream id).requests[id]? = some r) : r.channel.isListening = false := by
  simp only [Book.dropStream, Book.requests_modify, if_true] at hr
  obtain ⟨q, -, rfl⟩ := Option.map_eq_some_iff.mp hr
  rfl

theorem not_registered_dropped (hn : h.IsNew) {past : List Action} {b : Book}
    (hm : .made t id ∈ h.journal past) (hb : (h.after past).book = b.dropStream id)
    (later : List Action) (n : String) :
    (h.after (later ++ past)).book.registry.get? n ≠ some id := by
  have hreach := Reached.after hn past
  intro hget
  obtain ⟨r', hr', -, hw⟩ := ((Reached.after hn (later ++ past)).sound.registered n id).mp hget
  obtain ⟨r, hr⟩ : ∃ r, (h.after past).book.requests[id]? = some r :=
    ⟨_, Array.getElem?_eq_getElem (hreach.made_lt hm).2⟩
  obtain ⟨os, -, hch⟩ := h.changes_append past later
  obtain ⟨r'', hr'', hlater⟩ := hreach.later_changes hch id r hr
  cases hr'.symm.trans hr''
  have hdeaf : r.channel.isListening = false := by
    rw [hb] at hr
    exact deaf_dropStream hr
  exact (hreach.sound.request id r hr).of_deaf hdeaf (hlater.waiting hw)

/-! ## All refusals -/

def FailsAs (h : Hub) (t : TaskId) (kind : String) (h' : Hub) : Prop :=
  ∃ f, f.kind = kind ∧ h.Fails t f h'

theorem refuses_kinds (h : Hub) (i : Inquiry) :
    ((∃ f : Failure, f.kind = "ShardNotFound" ∧ h.Refuses i f) ↔ h.shards.size = 0) ∧
    ∀ shard, h.Serves i.guild shard →
      ((∃ f : Failure, f.kind = "MissingIntent" ∧ h.Refuses i f) ↔
        shard.intents.missing .guildMembers = true) ∧
      (shard.intents.missing .guildMembers = false →
        ((∃ f : Failure, f.kind = "InvalidRequest" ∧ h.Refuses i f) ↔ h.TooMany i) ∧
        (¬h.TooMany i →
          ((∃ f : Failure, f.kind = "NonceExhausted" ∧ h.Refuses i f) ↔ h.book.Exhausted))) := by
  refine ⟨⟨?_, fun hz => ⟨_, rfl, .shardNotFound hz⟩⟩, fun shard hserves => ⟨⟨?_, ?_⟩,
    fun hm => ⟨⟨?_, ?_⟩, fun hfew => ⟨?_, ?_⟩⟩⟩⟩
  · rintro ⟨f, hk, hr⟩
    cases hr with
    | shardNotFound hz => exact hz
    | _ => simp [Failure.kind] at hk
  · rintro ⟨f, hk, hr⟩
    cases hr with
    | missingIntent hs hm => exact hserves.unique hs ▸ hm
    | _ => simp [Failure.kind] at hk
  · intro hm
    exact ⟨_, rfl, .missingIntent hserves hm⟩
  · rintro ⟨f, hk, hr⟩
    cases hr with
    | invalidRequest hs hm hmany => exact hmany
    | _ => simp [Failure.kind] at hk
  · intro hmany
    obtain ⟨ids, hi, hlen⟩ := hmany
    obtain ⟨reason, hr⟩ : ∃ reason, i.refusal? h.limits = some (.invalidRequest reason) :=
      ⟨_, by simp only [Inquiry.refusal?, hi, if_pos hlen]; rfl⟩
    exact ⟨_, rfl, .invalidRequest hserves hm ⟨ids, hi, hlen⟩ hr⟩
  · rintro ⟨f, hk, hr⟩
    cases hr with
    | nonceExhausted ha he => exact he
    | _ => simp [Failure.kind] at hk
  · intro he
    have few (ids : List UserId) (hi : i.scope = .users ids) :
        ids.length ≤ h.limits.idsPerRequest.toNat := by
      by_contra hlen
      exact hfew ⟨ids, hi, by omega⟩
    exact ⟨_, rfl, .nonceExhausted ⟨hserves, hm, few⟩ he⟩

section
variable (hsize : h.shards.size < UInt64.size) (ht : h.task? t = some (.call c))
  (hs : c.stage = .starting)
  (hfit : h.book.Exhausted → h.limits.capacity.toNat ≤ Limits.greatestCapacity)
  (htok : h.tokenCancelled (watched c.goal) = false)
include hsize ht hs hfit htok

theorem refuses_sendFailed {shard : Shard} (hserves : h.Serves c.inquiry.guild shard)
    (cause : TransportFailure) :
    h.Refuses c.inquiry (.sendFailed cause) ↔
      (h.perform (.segment t)).sent ≠ h.sent ∧ shard.mode = .refuse cause.context := by
  constructor
  · intro hr
    refine ⟨?_, ?_⟩
    · rcases outlet_first hsize ht hs with ⟨shard', k, hover⟩ | ⟨-, hmade⟩
      · rw [hover.sent]
        intro e
        have hlen := congrArg Array.size e
        simp at hlen
      · have hcases := starts hsize t c.inquiry
        rcases hr.start hfit hcases with hst | ⟨id, cause', hst, -⟩
        · rw [hst] at hcases
          cases hcases
        · simp [occurrences, ht, segmentOccurrences, callOccurrences, hs, htok, hst, made] at hmade
    · cases hr with
      | sendFailed ha he hfit' hm => rwa [hserves.unique ha.serves]
  · rintro ⟨hsent, hm⟩
    rcases outlet_first hsize ht hs with ⟨shard', k, hover⟩ | ⟨hout, -⟩
    · rw [hserves.unique hover.admits.serves] at hm
      exact .sendFailed hover.admits (Book.not_exhausted hover.attempt hover.free) hover.fits hm
    · exact absurd (congrArg Outlet.sent hout) hsent

/-- A call that is not cancelled fails in its first segment as the first check says that fails. -/
theorem checks :
    (h.FailsAs t "ShardNotFound" (h.perform (.segment t)) ↔ h.shards.size = 0) ∧
    ∀ shard, h.Serves c.inquiry.guild shard →
      (h.FailsAs t "MissingIntent" (h.perform (.segment t)) ↔
        shard.intents.missing .guildMembers = true) ∧
      (shard.intents.missing .guildMembers = false →
        (h.FailsAs t "InvalidRequest" (h.perform (.segment t)) ↔ h.TooMany c.inquiry) ∧
        (¬h.TooMany c.inquiry →
          (h.FailsAs t "NonceExhausted" (h.perform (.segment t)) ↔ h.book.Exhausted) ∧
          (¬h.book.Exhausted → ∀ cause,
            (h.Fails t (.sendFailed cause) (h.perform (.segment t)) ↔
              (h.perform (.segment t)).sent ≠ h.sent ∧ shard.mode = .refuse cause.context)))) := by
  have hfails (f : Failure) := fails_first hsize ht hs hfit f
  simp only [htok, Bool.false_eq_true, if_false] at hfails
  simp only [FailsAs, hfails]
  obtain ⟨hfound, hrest⟩ := h.refuses_kinds c.inquiry
  refine ⟨hfound, fun shard hserves => ?_⟩
  obtain ⟨hintent, hlater⟩ := hrest shard hserves
  refine ⟨hintent, fun hm => ⟨(hlater hm).1, fun hfew => ⟨(hlater hm).2 hfew, fun _ cause => ?_⟩⟩⟩
  exact refuses_sendFailed hsize ht hs hfit htok hserves cause

end

end Hub

open Hub

/-- **Refusals leave no trace.** Let a call run for a segment. If it has not begun and its token is
cancelled, it only ends. Otherwise the checks decide in their order: no shards, the intents of the
guild's shard, too many users, no free nonce, and the refusal of the shard. A call that has begun
fails later with none of the first four, and with the last just if a shard has let it go with that;
this was the shard of its guild, unless shards kept others waiting from the start. The first three
leave the hub as it is but for the end of the call, the fourth uses nonces up. A call whose command
could not be sent has handed over one command, its request is not registered ever after, and no
segment of the call has changed another entry of the registry. -/
theorem refused_without_trace {h : Hub} (hn : h.IsNew) (hsize : h.shards.size < UInt64.size)
    (past : List Action) {t : TaskId} {c : Call} (ht : (h.after past).task? t = some (.call c)) :
    let s := h.after past
    let s' := h.after (.segment t :: past)
    (c.stage = .starting → s.tokenCancelled (watched c.goal) = true →
      s' = s.finish t (.failed .cancelled)) ∧
    (c.stage = .starting → s.tokenCancelled (watched c.goal) = false →
      (s.FailsAs t "ShardNotFound" s' ↔ s.shards.size = 0) ∧
      ∀ shard, s.Serves c.inquiry.guild shard →
        (s.FailsAs t "MissingIntent" s' ↔ shard.intents.missing .guildMembers = true) ∧
        (shard.intents.missing .guildMembers = false →
          (s.FailsAs t "InvalidRequest" s' ↔ s.TooMany c.inquiry) ∧
          (¬s.TooMany c.inquiry →
            (s.FailsAs t "NonceExhausted" s' ↔ s.book.Exhausted) ∧
            (¬s.book.Exhausted → ∀ cause, (s.Fails t (.sendFailed cause) s' ↔
              s'.sent ≠ s.sent ∧ shard.mode = .refuse cause.context))))) ∧
    (c.stage ≠ .starting →
      (∀ kind ∈ ["ShardNotFound", "MissingIntent", "InvalidRequest", "NonceExhausted"],
        ¬s.FailsAs t kind s') ∧
      ∀ cause, s.Fails t (.sendFailed cause) s' ↔
        ∃ id, c.stage = .sending id (some (.refused cause))) ∧
    (∀ id result, c.stage = .sending id (some result) →
      ∃ later j place earlier shard, past = later ++ .release j place result :: earlier ∧
        (h.after earlier).shards[j]? = some shard ∧ shard.held[place]? = some t ∧
        ((∀ (j : Nat) (shard : Shard), h.shards[j]? = some shard → shard.held = []) →
          j = h.shardPlace c.inquiry.guild)) ∧
    (∀ f, s.Fails t f s' → f.kind ∈ ["ShardNotFound", "MissingIntent", "InvalidRequest"] →
      s' = s.finish t (.failed f)) ∧
    (∀ f, s.Fails t f s' → f.kind = "NonceExhausted" → s' = finish
      { s with book := { s.book with nonces := s.book.nonces.skip NonceSource.attempts } } t
        (.failed f)) ∧
    (∀ cause, s.Fails t (.sendFailed cause) s' → ∃ id, ∀ later,
      let past' := later ++ .segment t :: past
      .made t id ∈ h.journal past' ∧ ((h.handed past').map (·.1)).count t = 1 ∧
        (∀ n, (h.after past').book.registry.get? n ≠ some id) ∧
        ∀ between earlier, past' = between ++ .segment t :: earlier →
          (h.after earlier).book.KeepsOthers id (h.after (.segment t :: earlier)).book) := by
  have hsize' := shards_after hsize past
  have hreach := Reached.after hn past
  refine ⟨fun hs htok => ?_, fun hs htok => ?_, fun hs => ⟨?_, ?_⟩, fun id result hs => ?_,
    fun f hf hk => ?_, fun f hf hk => ?_, fun cause hf => ?_⟩
  · exact cancelled_first ht hs htok
  · exact checks hsize' ht hs (fits_of_exhausted hsize hn) htok
  · rintro kind hkind ⟨f, rfl, hf⟩
    rcases fails_later ht hs hf with ⟨id, cause, -, rfl⟩ | rfl | ⟨after, rfl⟩
    · simp [Failure.kind] at hkind
    · simp [Failure.kind] at hkind
    · simp [Failure.kind] at hkind
  · exact sendFailed_later ht hs
  · obtain ⟨later, j, place, earlier, shard, he, hj, hheld, c₀, ht₀, hi⟩ :=
      released_before hn ht hs
    refine ⟨later, j, place, earlier, shard, he, hj, hheld, fun hfree => ?_⟩
    obtain ⟨later', first, c₁, s, k, rfl, hover, hplace⟩ :=
      held_after hsize hfree hj (List.mem_of_getElem? hheld)
    have hsame := inquiry_kept (later' ++ [.segment t]) hover.call
      (by rw [List.append_assoc, List.singleton_append]; exact ht₀)
    rw [hplace, shardPlace_after hsize, ← hsame, hi]
  · have hk' : f.kind ∈ ["ShardNotFound", "MissingIntent", "InvalidRequest", "NonceExhausted"] :=
      List.mem_append_left ["NonceExhausted"] hk
    rcases untouched hsize' ht hf hk' with ⟨-, he⟩ | ⟨he, -⟩
    · exact he
    · simp [he, Failure.kind] at hk
  · rcases untouched hsize' ht hf (by simp [hk]) with ⟨hne, -⟩ | ⟨-, he⟩
    · exact absurd hk hne
    · exact he
  · obtain ⟨id, b, hm, hb⟩ := dropped_of_sendFailed hn hsize ht hf
    refine ⟨id, fun later => ?_⟩
    have hmade : .made t id ∈ h.journal (later ++ .segment t :: past) := by
      obtain ⟨os, hj, -⟩ := h.changes_append (.segment t :: past) later
      rw [hj]
      exact List.mem_append_left _ hm
    refine ⟨hmade, ?_, not_registered_dropped hn hm hb later, ?_⟩
    · have hmem := (mem_handed_iff hsize (later ++ .segment t :: past) t).mpr ⟨id, hmade⟩
      exact List.count_eq_one_of_mem (nodup_handed hsize hn _) hmem
    · intro between earlier he
      rw [he] at hmade
      exact others_kept hn hsize hmade

theorem refused_at_once :
    (Hub.sample (.refuse "down")).IsNew ∧
      ((Hub.sample (.refuse "down")).after [.callStream (.all ⟨1⟩)]).Fails 0 (.sendFailed ⟨"down"⟩)
        ((Hub.sample (.refuse "down")).after [.segment 0, .callStream (.all ⟨1⟩)]) ∧
      ∃ id, ∀ later n, ((Hub.sample (.refuse "down")).after
        (later ++ [.segment 0, .callStream (.all ⟨1⟩)])).book.registry.get? n ≠ some id := by
  have hn := Hub.sample_isNew (.refuse "down")
  have hf : ((Hub.sample (.refuse "down")).after [.callStream (.all ⟨1⟩)]).Fails 0
      (.sendFailed ⟨"down"⟩)
      ((Hub.sample (.refuse "down")).after [.segment 0, .callStream (.all ⟨1⟩)]) := rfl
  obtain ⟨-, -, -, -, -, -, hsend⟩ := refused_without_trace hn (by decide) [.callStream (.all ⟨1⟩)]
    (t := 0) (c := { inquiry := .all ⟨1⟩, goal := .stream }) rfl
  obtain ⟨id, hid⟩ := hsend ⟨"down"⟩ hf
  exact ⟨hn, hf, id, fun later n => (hid later).2.2.1 n⟩

end Rollcall
