import Rollcall.Proofs.Desk

/-!
# When a request is complete

The chunks that are consumed to their ends are counted. The first that declares no more of them than
there have been completes the request, and those after it are given up (`Desk.Counts`). Main
statement: `completes_at_declared_count`.
-/

namespace Rollcall
namespace Desk

def results (s : Desk) : List (UInt32 × Delivered) :=
  s.spent.filterMap fun e => e.result.map fun out => (e.declared, out)

/-- Whether the chunk at a place declares no more chunks than there have been with it. -/
def Closes (rs : List (UInt32 × Delivered)) (k : Nat) : Prop :=
  ∃ e, rs[k]? = some e ∧ e.1.toNat ≤ k + 1

structure Counts (rs : List (UInt32 × Delivered)) (r : Request) : Prop where
  complete : r.complete = true ↔ ∃ k, Closes rs k
  result : ∀ k e, rs[k]? = some e →
    ((∀ i < k, ¬Closes rs i) → e.2.verdict = if e.1.toNat ≤ k + 1 then .complete else .pending) ∧
    ((∃ i < k, Closes rs i) → e.2 = { verdict := .abandoned })
  pending : (∀ k, ¬Closes rs k) → r.chunks.toNat = rs.length ∧ rs.length < 0xffffffff
  completed : ∀ k, Closes rs k → (∀ i < k, ¬Closes rs i) → r.chunks.toNat = k + 1

section

variable {rs : List (UInt32 × Delivered)} {e : UInt32 × Delivered} {k : Nat}

theorem Closes.lt (hk : Closes rs k) : k < rs.length := by
  obtain ⟨e, he, -⟩ := hk
  exact (List.getElem?_eq_some_iff.mp he).1

theorem closes_concat : Closes (rs ++ [e]) k ↔ Closes rs k ∨ k = rs.length ∧ e.1.toNat ≤ k + 1 := by
  unfold Closes
  rcases Nat.lt_trichotomy k rs.length with hlt | rfl | hgt
  · rw [List.getElem?_append_left hlt]
    simp [Nat.ne_of_lt hlt]
  · simp
  · rw [List.getElem?_eq_none (by simp; omega), List.getElem?_eq_none (Nat.le_of_lt hgt)]
    simp [Nat.ne_of_gt hgt]

theorem closes_concat_of_lt (hlt : k < rs.length) : Closes (rs ++ [e]) k ↔ Closes rs k := by
  rw [closes_concat, or_iff_left]
  exact fun h => Nat.ne_of_lt hlt h.1

end

section

variable {r r' : Request} {rs : List (UInt32 × Delivered)} {declared : UInt32} {out : Delivered}

theorem Counts.fresh (hf : r.Fresh) : Counts [] r := by
  obtain ⟨nonce, guild, filter, capacity, rfl⟩ := hf
  have none (k : Nat) : ¬Closes [] k := fun h => Nat.not_lt_zero k h.lt
  exact ⟨by simp [none], nofun, fun _ => ⟨rfl, by simp⟩, fun k hk => absurd hk (none k)⟩

theorem Counts.kept (hc : Counts rs r) (hcomplete : r'.complete = r.complete)
    (hchunks : r'.chunks = r.chunks) : Counts rs r' where
  complete := by rw [hcomplete]; exact hc.complete
  result := hc.result
  pending := by rw [hchunks]; exact hc.pending
  completed := by rw [hchunks]; exact hc.completed

theorem Counts.result_concat (hc : Counts rs r) (e : UInt32 × Delivered)
    (hlast : ((∀ i, ¬Closes rs i) →
        e.2.verdict = if e.1.toNat ≤ rs.length + 1 then .complete else .pending) ∧
      ((∃ i, Closes rs i) → e.2 = { verdict := .abandoned })) :
    ∀ k x, (rs ++ [e])[k]? = some x →
      ((∀ i < k, ¬Closes (rs ++ [e]) i) →
        x.2.verdict = if x.1.toNat ≤ k + 1 then .complete else .pending) ∧
      ((∃ i < k, Closes (rs ++ [e]) i) → x.2 = { verdict := .abandoned }) := by
  intro k x hx
  rcases Nat.lt_trichotomy k rs.length with hlt | rfl | hgt
  · rw [List.getElem?_append_left hlt] at hx
    have same (i : Nat) (hi : i < k) : Closes (rs ++ [e]) i ↔ Closes rs i :=
      closes_concat_of_lt (Nat.lt_trans hi hlt)
    obtain ⟨hfirst, hlater⟩ := hc.result k x hx
    refine ⟨fun hno => hfirst fun i hi h => hno i hi ((same i hi).mpr h), ?_⟩
    rintro ⟨i, hi, h⟩
    exact hlater ⟨i, hi, (same i hi).mp h⟩
  · have hself : e = x := by simpa using hx
    subst hself
    refine ⟨fun hno => hlast.1 fun i h => hno i h.lt ((closes_concat_of_lt h.lt).mpr h), ?_⟩
    rintro ⟨i, hi, h⟩
    exact hlast.2 ⟨i, (closes_concat_of_lt hi).mp h⟩
  · rw [List.getElem?_eq_none (by simp; omega)] at hx
    cases hx

theorem Counts.ends (hc : Counts rs r) (he : Ends r declared r' out) :
    Counts (rs ++ [(declared, out)]) r' := by
  cases he with
  | late hcomplete hout hcomplete' hchunks =>
    obtain ⟨k₀, hk₀⟩ := hc.complete.mp hcomplete
    have hclosed : ∃ k, Closes (rs ++ [(declared, out)]) k := ⟨k₀, closes_concat.mpr (.inl hk₀)⟩
    refine ⟨iff_of_true hcomplete' hclosed, hc.result_concat _ ⟨fun hno => absurd hk₀ (hno k₀),
      fun _ => hout⟩, fun hno => absurd hclosed (not_exists.mpr hno), fun k hk hno => ?_⟩
    -- The first that closes is one of those before.
    have hle : k ≤ k₀ := by
      rcases Nat.lt_or_ge k₀ k with hlt | hge
      · exact absurd (closes_concat.mpr (.inl hk₀)) (hno k₀ hlt)
      · exact hge
    have hlt := Nat.lt_of_le_of_lt hle hk₀.lt
    rw [hchunks]
    refine hc.completed k ((closes_concat_of_lt hlt).mp hk) fun i hi h => hno i hi ?_
    exact closes_concat.mpr (.inl h)
  | counted hcomplete hout hcomplete' hchunks =>
    have hno (k : Nat) : ¬Closes rs k := by
      intro hk
      rw [hc.complete.mpr ⟨k, hk⟩] at hcomplete
      cases hcomplete
    obtain ⟨hcount, hsmall⟩ := hc.pending hno
    have hnext : (nextWord r.chunks).toNat = rs.length + 1 := by
      have hmin := toNat_nextWord (n := r.chunks) (k := rs.length) (by omega)
      omega
    have hlast : r.completesAt declared = decide (declared.toNat ≤ rs.length + 1) := by
      rw [Request.completesAt, decide_eq_decide, UInt32.le_iff_toNat_le, hnext]
    have hcloses (k : Nat) : Closes (rs ++ [(declared, out)]) k ↔
        k = rs.length ∧ declared.toNat ≤ k + 1 := by
      rw [closes_concat, or_iff_right (hno k)]
    refine ⟨?_, hc.result_concat _ ⟨fun _ => ?_, fun hex => absurd hex (not_exists.mpr hno)⟩,
      fun hopen => ?_, fun k hk _ => ?_⟩
    · rw [hcomplete', hlast, decide_eq_true_eq]
      constructor
      · intro hle
        exact ⟨rs.length, (hcloses _).mpr ⟨rfl, hle⟩⟩
      · rintro ⟨k, hk⟩
        obtain ⟨rfl, hle⟩ := (hcloses k).mp hk
        exact hle
    · rw [hout, Delivery.lastVerdict, hlast]
      simp
    · -- A word that declares more chunks than there have been leaves room for one more.
      have hmore : ¬declared.toNat ≤ rs.length + 1 := fun hle =>
        hopen rs.length ((hcloses _).mpr ⟨rfl, hle⟩)
      have hword := declared.toNat_lt
      rw [hchunks, hnext, List.length_append, List.length_singleton]
      exact ⟨rfl, by omega⟩
    · obtain ⟨rfl, -⟩ := (hcloses k).mp hk
      rw [hchunks, hnext]

end

/-! ## Every step -/

structure Keeps (id : RequestId) (s : Desk) (r : Request) : Prop where
  lined : Lined id s r
  paid : ∃ ps now, Paid s r ps now
  counts : Counts s.results r

structure Stays (r r' : Request) : Prop where
  complete : r.complete = true → r'.complete = true
  chunks : r.complete = true → r'.chunks = r.chunks
  placed : r.complete = true → r'.channel.placed = r.channel.placed
  accepts : r'.accepts = r.accepts

theorem Stays.refl (r : Request) : Stays r r := ⟨fun h => h, fun _ => rfl, fun _ => rfl, rfl⟩

theorem stays_join (r : Request) (t : TaskId) : Stays r (r.join t) :=
  ⟨fun h => h, fun _ => rfl, fun _ => rfl, rfl⟩

theorem Stays.trans {r r' r'' : Request} (h : Stays r r') (h' : Stays r' r'') : Stays r r'' where
  complete hc := h'.complete (h.complete hc)
  chunks hc := (h'.chunks (h.complete hc)).trans (h.chunks hc)
  placed hc := (h'.placed (h.complete hc)).trans (h.placed hc)
  accepts := h'.accepts.trans h.accepts

section

variable {id : RequestId} {s s' : Desk} {r r' : Request} {t : TaskId} {x : Handed} {b : Book}

theorem results_spend (s : Desk) (x : Handed) (result : Option Delivered) :
    (s.spend x result).results =
      s.results ++ (result.map fun out => (x.delivery.declared, out)).toList := by
  rw [results, spend, List.filterMap_append, results]
  cases result <;> rfl

theorem keeps_of_opens (ho : Opens id s) : ∃ r, Keeps id s r := by
  obtain ⟨r, hf, hl⟩ := lined_of_opens ho
  refine ⟨r, hl, ⟨[], [], ho.spent.symm ▸ rfl, nofun, ?_, fun hx => ?_, fun _ => rfl⟩, ?_⟩
  · obtain ⟨nonce, guild, filter, capacity, rfl⟩ := hf
    rfl
  · cases (ho.hands _).symm.trans hx
  · rw [results, ho.spent]
    exact .fresh hf

theorem Keeps.bring (hk : Keeps id s r) (ht : s.hands t = none) (ms : List Member)
    (declared : UInt32) (caching : Bool) :
    Keeps id (s.set t s.book (some ⟨ms, id, declared, caching, .arriving ms⟩)) r := by
  obtain ⟨ps, now, hp⟩ := hk.paid
  refine ⟨hk.lined.bring ht ms declared caching, ⟨ps, now, hp.keep rfl rfl rfl
    (hands_set_iff ?_ ?_)⟩, hk.counts⟩
  · intro y m rest n k hy
    cases ht.symm.trans hy
  · intro y m rest n k hy
    cases hy
    nofun

theorem Keeps.join {ms : List Member} (hk : Keeps id s r) (ht : s.hands t = some x)
    (hs : x.delivery.stage = .arriving ms) : Keeps id (s.join id t x ms) (r.join t) := by
  obtain ⟨ps, now, hp⟩ := hk.paid
  refine ⟨hk.lined.join ht hs, ⟨ps, now, hp.keep rfl rfl rfl (hands_set_iff ?_ ?_)⟩,
    hk.counts.kept rfl rfl⟩
  · intro y m rest n k hy
    cases ht.symm.trans hy
    rw [hs]
    nofun
  · intro y m rest n k hy
    cases hy
    nofun

theorem Keeps.goOn {d : Delivery} (hk : Keeps id s r) (ht : s.hands t = some x)
    (hs : ∀ ms, x.delivery.stage ≠ .arriving ms) (hb : x.delivery.advance t s.book = .moved b d) :
    ∃ r', Keeps id (s.set t b (some { x with delivery := d })) r' ∧ Stays r r' := by
  obtain ⟨ps, now, hp⟩ := hk.paid
  have hid := hk.lined.own ht
  obtain ⟨r', hrep, -, hreq, -, hturn⟩ :=
    Delivery.advance_moved (by rw [hid]; exact hk.lined.request) hs hb
  rw [hid] at hrep hreq
  obtain ⟨hlined, -, hcomplete, hopen⟩ := hk.lined.turn ht hrep hreq hturn
  obtain ⟨now', hp'⟩ := hk.lined.turn_pays (b := b) hp ht hturn
  have hno (hc : r.complete = true) : False := by
    rw [hopen] at hc
    cases hc
  exact ⟨r', ⟨hlined, ⟨ps, now', hp'⟩, hk.counts.kept hcomplete hturn.chunks_moved.2⟩,
    fun hc => (hno hc).elim, fun hc => (hno hc).elim, fun hc => (hno hc).elim,
    Ordered.accepts_eq hturn.later.filter⟩

theorem Keeps.finish {out : Delivered} (hk : Keeps id s r) (ht : s.hands t = some x)
    (hs : ∀ ms, x.delivery.stage ≠ .arriving ms) (hb : x.delivery.advance t s.book = .done b out) :
    ∃ r', Keeps id ((s.set t b none).spend x (some out)) r' ∧ Stays r r' := by
  obtain ⟨ps, now, hp⟩ := hk.paid
  have hid := hk.lined.own ht
  obtain ⟨r', hrep, -, hturn⟩ :=
    Delivery.advance_done (by rw [hid]; exact hk.lined.request) hs hb
  rw [hid] at hrep
  obtain ⟨hlined, hpaid, hends⟩ := hk.lined.ended hp ht hrep hturn
  refine ⟨r', ⟨hlined, hpaid, ?_⟩, ?_⟩
  · rw [results_spend]
    exact hk.counts.ends hends
  · have haccepts := Ordered.accepts_eq hturn.later.filter
    cases hends with
    | late hcomplete hout hcomplete' hchunks hplaced =>
      exact ⟨fun _ => hcomplete', fun _ => hchunks, fun _ => hplaced, haccepts⟩
    | counted hcomplete =>
      have hno (hc : r.complete = true) : False := by
        rw [hcomplete] at hc
        cases hc
      exact ⟨fun hc => (hno hc).elim, fun hc => (hno hc).elim, fun hc => (hno hc).elim, haccepts⟩

theorem Keeps.drop (hk : Keeps id s r) (ht : s.hands t = some x) :
    Keeps id ((s.set t (x.delivery.interrupt t s.book) none).spend x none) (r.leave t) := by
  obtain ⟨ps, now, hp⟩ := hk.paid
  have hrep : s.book.Replaces id (r.leave t) (x.delivery.interrupt t s.book) := by
    rw [Delivery.interrupt, hk.lined.own ht]
    exact Book.replaces_modify hk.lined.request _
  refine ⟨hk.lined.leave ht none hrep hk.lined.live hk.lined.listening hk.lined.sender rfl
    fun _ => rfl, ?_, ?_⟩
  · by_cases hs : ∃ m rest n k, x.delivery.stage = .placing m rest n k
    · obtain ⟨m, rest, n, k, hs⟩ := hs
      have hother := hk.lined.alone (hk.lined.placing_head ht hs).1
      have hallows : Allows r.accepts ⟨x.members, x.delivery.declared, none⟩ now :=
        ⟨_, (hp.placing ht hs).symm⟩
      refine ⟨_, [], hp.leave ht rfl ?_ hallows (.inl ⟨rfl, hother⟩)⟩
      rw [List.append_nil]
      exact hp.placed
    · have hallows : Allows r.accepts ⟨x.members, x.delivery.declared, none⟩ [] := List.nil_prefix
      refine ⟨_, now, hp.leave ht rfl ?_ hallows (.inr ⟨rfl, fun m rest n k h => ?_⟩)⟩
      · rw [List.append_nil]
        exact hp.placed
      · exact hs ⟨m, rest, n, k, h⟩
  · rw [results_spend]
    exact (List.append_nil _).symm ▸ hk.counts.kept rfl rfl

theorem Keeps.aside {q : Request} (hk : Keeps id s r) (hq : s.book.requests[id]? = some q)
    (hq' : b.requests[id]? = some r') (hk' : q.Kept r') (hlive : r'.cancelled = false)
    (hlistening : r'.channel.receiver = .listening) :
    ∃ r', Keeps id { s with book := b } r' ∧ Stays r r' := by
  cases hk.lined.request.symm.trans hq
  obtain ⟨ps, now, hp⟩ := hk.paid
  have hl := hk.lined
  have haccepts : r'.accepts = r.accepts := Ordered.accepts_eq hk'.filter
  refine ⟨r', ⟨⟨hq', hlive, hlistening, ?_, hl.own, fun hx => ?_, fun hm => hl.held (hk'.line ▸ hm),
    hk'.line ▸ hl.nodup⟩, ⟨ps, now, hp.keep rfl haccepts hk'.placed fun _ => .rfl⟩,
    hk.counts.kept hk'.complete hk'.chunks⟩, hk'.complete.trans, fun _ => hk'.chunks,
    fun _ => hk'.placed, haccepts⟩
  · rw [hk'.live hlive, hk'.complete, hl.sender]
  · exact (hl.fits hx).keep (by rw [hk'.line]) (fun hh => hk'.line ▸ hh) fun _ => hk'.complete.trans

theorem Keeps.step (hk : Keeps id s r) (hs : Step id s s') : ∃ r', Keeps id s' r' ∧ Stays r r' := by
  cases hs with
  | @bring t ms declared caching ht => exact ⟨r, hk.bring ht ms declared caching, .refl r⟩
  | @enter t ms declared caching ht =>
    have hself := hands_set s t s.book (some ⟨ms, id, declared, caching, .arriving ms⟩) t
    rw [if_pos rfl] at hself
    have hjoined := (hk.bring ht ms declared caching).join hself rfl
    rw [join_set] at hjoined
    exact ⟨r.join t, hjoined, stays_join r t⟩
  | @goOn t x b d ht hb =>
    by_cases hs : ∃ ms, x.delivery.stage = .arriving ms
    · obtain ⟨ms, hs⟩ := hs
      obtain rfl := hk.lined.own ht
      have hjoined := hk.join ht hs
      have hself := hands_join s x.delivery.request t x ms t
      rw [if_pos rfl] at hself
      by_cases hline : r.line = []
      · -- The chunk is at the head of the line as soon as it has joined it.
        rw [Delivery.advance_arriving hk.lined.request hs hline] at hb
        obtain ⟨r', hk', hstays⟩ := hjoined.goOn hself (fun _ h => by cases h) hb
        rw [set_join] at hk'
        exact ⟨r', hk', (stays_join r t).trans hstays⟩
      · rw [Delivery.advance_arriving_behind hk.lined.request hs hline] at hb
        cases hb
        exact ⟨r.join t, hjoined, stays_join r t⟩
    · exact hk.goOn ht (fun ms h => hs ⟨ms, h⟩) hb
  | @finish t x b out ht hb =>
    by_cases hs : ∃ ms, x.delivery.stage = .arriving ms
    · obtain ⟨ms, hs⟩ := hs
      obtain rfl := hk.lined.own ht
      have hjoined := hk.join ht hs
      have hself := hands_join s x.delivery.request t x ms t
      rw [if_pos rfl] at hself
      by_cases hline : r.line = []
      · rw [Delivery.advance_arriving hk.lined.request hs hline] at hb
        obtain ⟨r', hk', hstays⟩ := hjoined.finish hself (fun _ h => by cases h) hb
        rw [set_join] at hk'
        exact ⟨r', hk', (stays_join r t).trans hstays⟩
      · rw [Delivery.advance_arriving_behind hk.lined.request hs hline] at hb
        cases hb
    · exact hk.finish ht (fun ms h => hs ⟨ms, h⟩) hb
  | drop ht =>
    exact ⟨_, hk.drop ht, fun hc => hc, fun _ => rfl, fun _ => rfl, rfl⟩
  | aside hq hq' hk' hlive hlistening => exact hk.aside hq hq' hk' hlive hlistening

theorem Keeps.steps (hk : Keeps id s r) (hs : Steps id s s') : ∃ r', Keeps id s' r' ∧ Stays r r' := by
  induction hs with
  | none => exact ⟨r, hk, .refl r⟩
  | more _ h ih =>
    obtain ⟨r', hk', hstays⟩ := ih
    obtain ⟨r'', hk'', hstays'⟩ := hk'.step h
    exact ⟨r'', hk'', hstays.trans hstays'⟩

end

theorem Counts.verdicts_of_equal {rs : List (UInt32 × Delivered)} {r : Request} {n : Nat}
    (hc : Counts rs r) (hn : 0 < n) (hlen : rs.length = n) (hall : ∀ e ∈ rs, e.1.toNat = n) :
    rs.map (·.2.verdict) = List.replicate (n - 1) .pending ++ [.complete] ∧ r.complete = true := by
  have hcloses (k : Nat) : Closes rs k ↔ k + 1 = n := by
    constructor
    · intro hk
      obtain ⟨e, he, hle⟩ := id hk
      rw [hall e (List.mem_of_getElem? he)] at hle
      have hlt := hk.lt
      omega
    · intro hk
      have hlt : k < rs.length := by omega
      refine ⟨rs[k], List.getElem?_eq_getElem hlt, ?_⟩
      rw [hall _ (List.getElem_mem hlt)]
      omega
  have hverdict (k : Nat) (e : UInt32 × Delivered) (he : rs[k]? = some e) :
      e.2.verdict = if k + 1 = n then .complete else .pending := by
    have hlt := (List.getElem?_eq_some_iff.mp he).1
    rw [(hc.result k e he).1, hall e (List.mem_of_getElem? he)]
    · have hiff : n ≤ k + 1 ↔ k + 1 = n := by omega
      simp only [hiff]
    · intro i hi hclose
      rw [hcloses] at hclose
      omega
  refine ⟨List.ext_getElem? fun k => ?_, hc.complete.mpr ⟨n - 1, (hcloses _).mpr (by omega)⟩⟩
  rw [List.getElem?_map]
  rcases Nat.lt_trichotomy (k + 1) n with hlt | heq | hgt
  · have hk : k < rs.length := by omega
    have hk' : k < n - 1 := by omega
    rw [List.getElem?_eq_getElem hk, Option.map_some,
      hverdict k _ (List.getElem?_eq_getElem hk), if_neg (Nat.ne_of_lt hlt),
      List.getElem?_append_left (by rwa [List.length_replicate]), List.getElem?_replicate,
      if_pos hk']
  · have hk : k < rs.length := by omega
    have hk' : k = n - 1 := by omega
    rw [List.getElem?_eq_getElem hk, Option.map_some,
      hverdict k _ (List.getElem?_eq_getElem hk), if_pos heq]
    simp [hk']
  · rw [List.getElem?_eq_none (by omega), List.getElem?_eq_none (by simp; omega)]
    rfl

/-- **The declared number completes a request.** However chunks are brought for a new request and
consumed, in whatever order and with whatever numbers they declare, the first that declares no more
chunks than have been consumed with it completes the request. Before it all are pending, the channel
is open and the count is what has been consumed; with it the channel closes, after the accepted
members of every chunk up to there have been placed. From then on every chunk is given up with
nothing placed, and the count, the mark and the channel stay. So where `n` chunks all declare `n`,
the last of them completes the request. A hub has its live requests at such desks (`Hub.desk`). -/
theorem completes_at_declared_count {id : RequestId} {s s' : Desk} (ho : Opens id s)
    (hs : Steps id s s') : ∃ r, s'.book.requests[id]? = some r ∧
      (∀ k e, s'.results[k]? = some e →
        ((∀ i < k, ¬Closes s'.results i) →
          e.2.verdict = if e.1.toNat ≤ k + 1 then .complete else .pending) ∧
        ((∃ i < k, Closes s'.results i) → e.2 = ⟨0, 0, .abandoned⟩)) ∧
      ((∀ k, ¬Closes s'.results k) → r.complete = false ∧ r.senderOpen = true ∧
        r.chunks.toNat = s'.results.length) ∧
      (∀ k, Closes s'.results k → (∀ i < k, ¬Closes s'.results i) → r.complete = true ∧
        r.senderOpen = false ∧ r.chunks.toNat = k + 1) ∧
      (∃ ps now, Paid s' r ps now ∧ (r.complete = true → now = [])) ∧
      (∀ s'', Steps id s' s'' → r.complete = true → ∃ r'', s''.book.requests[id]? = some r'' ∧
        r''.complete = true ∧ r''.senderOpen = false ∧ r''.chunks = r.chunks ∧
        r''.channel.placed = r.channel.placed) ∧
      ∀ n, 0 < n → s'.results.length = n → (∀ e ∈ s'.results, e.1.toNat = n) →
        s'.results.map (·.2.verdict) = List.replicate (n - 1) .pending ++ [.complete] ∧
          r.complete = true := by
  obtain ⟨r₀, hk₀⟩ := keeps_of_opens ho
  obtain ⟨r, hk, -⟩ := hk₀.steps hs
  have hsender := hk.lined.sender
  refine ⟨r, hk.lined.request, hk.counts.result, fun hno => ?_, fun k hclose hfirst => ?_, ?_,
    fun s'' hs' hcomplete => ?_, fun n hn hlen hall => hk.counts.verdicts_of_equal hn hlen hall⟩
  · have hopen : r.complete = false := by
      rw [Bool.eq_false_iff]
      intro hc
      obtain ⟨k, hclose⟩ := hk.counts.complete.mp hc
      exact hno k hclose
    rw [hopen] at hsender
    exact ⟨hopen, hsender, (hk.counts.pending hno).1⟩
  · have hcomplete := hk.counts.complete.mpr ⟨k, hclose⟩
    rw [hcomplete] at hsender
    exact ⟨hcomplete, hsender, hk.counts.completed k hclose hfirst⟩
  · obtain ⟨ps, now, hp⟩ := hk.paid
    refine ⟨ps, now, hp, fun hcomplete => hp.idle fun t x m rest n k hx hst => ?_⟩
    rw [(hk.lined.placing_head hx hst).2] at hcomplete
    cases hcomplete
  · obtain ⟨r'', hk'', hstays⟩ := hk.steps hs'
    have hcomplete'' := hstays.complete hcomplete
    have hsender'' := hk''.lined.sender
    rw [hcomplete''] at hsender''
    exact ⟨r'', hk''.lined.request, hcomplete'', hsender'', hstays.chunks hcomplete,
      hstays.placed hcomplete⟩

def sample : Desk where
  book :=
    { requests := #[{ nonce := "x", guild := ⟨1⟩, channel := { capacity := 1 } }]
      nonces := .scripted [] }
  hands := fun _ => none
  spent := []

/-- Two chunks declare that there are two; the second is brought, and begins to wait, before the
first has come to its end. -/
theorem second_of_two_completes :
    ∃ s r, Steps 0 sample s ∧ s.book.requests[0]? = some r ∧ r.complete = true ∧
      s.results.map (·.2.verdict) = [.pending, .complete] := by
  have hopens : Opens 0 sample :=
    ⟨⟨_, rfl, "x", ⟨1⟩, none, 1, rfl⟩, fun _ => rfl, rfl⟩
  have hsteps : Steps 0 sample _ :=
    ((((((Steps.none).more (@Step.bring _ _ 0 [.sample "a"] 2 true rfl)).more
      (.goOn (t := 0) rfl rfl)).more (@Step.bring _ _ 1 [] 2 true rfl)).more
      (.goOn (t := 1) rfl rfl)).more (.finish (t := 0) rfl rfl)).more (.finish (t := 1) rfl rfl)
  obtain ⟨r, hq, -, -, -, -, -, hequal⟩ := completes_at_declared_count hopens hsteps
  obtain ⟨hverdicts, hcomplete⟩ := hequal 2 (by decide) rfl (by decide)
  exact ⟨_, r, hsteps, hq, hcomplete, hverdicts⟩

end Desk
end Rollcall
