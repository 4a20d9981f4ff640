import Rollcall.Proofs.Drained

/-!
# Sifted requests

A request with a filter differs from the same request without one in what has been placed in its
channel: only the members that the filter lets through, in the same order (`Request.sift`). It stays
so whatever events are taken in (`Sifted.takeAll`), and each member that has not been placed has
been counted as rejected instead.
-/

namespace Rollcall

variable {keep : Member → Bool} {r : Request} {ms : List Member} {id i : RequestId}

def Channel.sift (keep : Member → Bool) (c : Channel) : Channel :=
  { c with read := c.read.filter keep, unread := c.unread.filter keep }

theorem Channel.placed_sift (keep : Member → Bool) (c : Channel) :
    (c.sift keep).placed = c.placed.filter keep := by
  simp [placed, sift, List.filter_append, List.filter_reverse]

namespace Request

/-- The request as it would be if its members had had to pass a filter. -/
def sift (keep : Member → Bool) (r : Request) : Request :=
  { r with filter := some keep, channel := r.channel.sift keep }

theorem drained_sift (keep : Member → Bool) (r : Request) :
    (r.sift keep).drained = r.drained.sift keep := by
  have hplaced : (r.sift keep).channel.placed.reverse = r.channel.placed.reverse.filter keep := by
    rw [List.filter_reverse]
    exact congrArg List.reverse (r.channel.placed_sift keep)
  unfold drained
  rw [hplaced]
  rfl

theorem consume_sift (r : Request) (declared : UInt32) (ms : List Member) :
    (r.sift keep).consume declared (ms.filter keep) = (r.consume declared ms).sift keep := by
  have hfill : (r.sift keep).fill (ms.filter keep) = (r.fill ms).sift keep := by
    simp [sift, fill, Channel.sift]
  have hsame : ((r.fill ms).sift keep).completesAt declared = (r.fill ms).completesAt declared := rfl
  unfold consume countChunk
  rw [hfill, hsame]
  by_cases hc : (r.fill ms).completesAt declared = true
  · rw [if_pos hc, if_pos hc]
    rfl
  · rw [if_neg hc, if_neg hc]
    rfl

theorem filter_accepts_plain (hf : r.filter = none) (ms : List Member) :
    ms.filter r.accepts = ms := by
  rw [List.filter_eq_self]
  intro m _
  simp [accepts, passes, hf]

theorem filter_consume (r : Request) (declared : UInt32) (ms : List Member) :
    (r.consume declared ms).filter = r.filter := by
  unfold consume countChunk
  split <;> rfl

end Request

/-! ## Books -/

namespace Book

variable {b : Book} {f : Request → Request}

def sift (b : Book) (id : RequestId) (keep : Member → Bool) : Book := b.modify id (Request.sift keep)

theorem drained_sift (b : Book) (id : RequestId) (keep : Member → Bool) :
    (b.sift id keep).drained = b.drained.sift id keep := by
  simp only [drained, sift, modify]
  congr 1
  apply Array.ext_getElem?
  intro i
  simp only [Array.getElem?_map, Array.getElem?_modify]
  cases b.requests[i]? with
  | none => simp
  | some r =>
    split
    · simp [Request.drained_sift]
    · rfl

theorem modify_comm (b : Book) (hi : i ≠ id) (f g : Request → Request) :
    (b.modify i f).modify id g = (b.modify id g).modify i f := by
  simp only [modify]
  congr 1
  apply Array.ext_getElem?
  intro k
  simp only [Array.getElem?_modify]
  by_cases hk : id = k
  · subst hk
    simp [hi]
  · simp [hk]

theorem deregisterRequest_modify (b : Book) (hf : ∀ r, (f r).nonce = r.nonce) (id i : RequestId) :
    (b.modify id f).deregisterRequest i =
      ((b.deregisterRequest i).1, (b.deregisterRequest i).2.modify id f) := by
  unfold deregisterRequest
  rw [requests_modify]
  cases hq : b.requests[i]? with
  | none => simp
  | some r =>
    have hnonce : (if i = id then (some r).map f else some r).map Request.nonce = some r.nonce := by
      split
      · exact congrArg some (hf r)
      · rfl
    generalize (if i = id then (some r).map f else some r) = q at hnonce
    obtain ⟨r', rfl, hn⟩ := Option.map_eq_some_iff.mp hnonce
    have hsame : (b.modify id f).registry.holds r.nonce i = b.registry.holds r.nonce i := rfl
    simp only [hn, hsame]
    split <;> rfl

theorem settle_modify (hf : ∀ r, (f r).nonce = r.nonce) (i : RequestId) (v : Verdict) :
    (b.modify id f).settle i v = (b.settle i v).modify id f := by
  unfold settle
  split
  · rw [deregisterRequest_modify b hf]
  · rfl

theorem getElem?_sift (b : Book) (id : RequestId) (keep : Member → Bool) :
    (b.sift id keep).requests[id]? = (b.requests[id]?).map (Request.sift keep) := by
  rw [sift, requests_modify, if_pos rfl]

end Book

/-! ## Chunks -/

namespace Delivery

variable {d : Delivery} {b : Book}

theorem handOver_sift (b : Book) (hd : d.stage = .arriving ms) (hf : r.filter = none) :
    d.handOver (b.sift d.request keep) (r.sift keep) = (d.handOver b r).sift d.request keep := by
  have hahead : d.ahead r = ms := by
    simp only [ahead, waiting, unsought, hd, List.nil_append, Request.filter_accepts_plain hf]
  have hahead' : d.ahead (r.sift keep) = ms.filter keep := by
    simp only [ahead, waiting, unsought, hd, List.nil_append]
    rfl
  have hconsume : ((·.consume d.declared (ms.filter keep)) ∘ Request.sift keep) =
      (Request.sift keep ∘ (·.consume d.declared ms)) := by
    funext q
    exact q.consume_sift d.declared ms
  have hbook : ((b.sift d.request keep).modify d.request (·.consume d.declared (ms.filter keep))) =
      (b.modify d.request (·.consume d.declared ms)).sift d.request keep := by
    rw [Book.sift, Book.sift, Book.modify_modify, Book.modify_modify, hconsume]
  simp only [handOver, giveAll, hahead, hahead', hbook]
  rfl

theorem handOver_sift_of_ne (hi : d.request ≠ id) :
    d.handOver (b.sift id keep) r = (d.handOver b r).sift id keep := by
  have hbook := b.modify_comm hi (·.consume d.declared (d.ahead r)) (Request.sift keep)
  simp only [handOver, giveAll, Book.sift, ← hbook]
  rfl

theorem placed_outcome (hd : d.stage = .arriving ms) (r : Request) :
    (d.outcome r).placed + (d.outcome r).filtered = ms.length := by
  simp only [outcome, total, ahead, waiting, unsought, counts, hd, List.nil_append, Nat.zero_add]
  rw [← List.countP_eq_length_filter, List.length_eq_countP_add_countP r.accepts]
  simp

end Delivery

/-! ## Statistics -/

def Stats.offered (s : Stats) : UInt64 := s.forwarded + s.filtered

structure Stats.Agrees (s s' : Stats) : Prop where
  chunks : s'.chunks = s.chunks
  unmatched : s'.unmatched = s.unmatched
  offered : s'.offered = s.offered
  notFound : s'.notFound = s.notFound
  completed : s'.completed = s.completed

theorem Stats.Agrees.settle {s s' : Stats} {out out' : Delivered} (h : s.Agrees s')
    (hn : out'.placed + out'.filtered = out.placed + out.filtered)
    (hv : out'.verdict = out.verdict) : (s.settle out).Agrees (s'.settle out') := by
  have offered_settle (s : Stats) (out : Delivered) :
      (s.settle out).offered = s.offered + UInt64.ofNat (out.placed + out.filtered) := by
    simp only [Stats.offered, Stats.settle, UInt64.ofNat_add]
    ac_rfl
  refine ⟨h.chunks, h.unmatched, ?_, h.notFound, ?_⟩
  · rw [offered_settle, offered_settle, h.offered, hn]
  · simp only [Stats.settle, h.completed, hv]

/-! ## Events -/

structure Intake.Sifted (keep : Member → Bool) (id : RequestId) (x y : Intake) : Prop where
  plain : ∀ r, x.book.requests[id]? = some r → r.filter = none
  book : y.book = x.book.sift id keep
  stats : x.stats.Agrees y.stats

namespace Intake.Sifted

variable {x y : Intake}

theorem settle (h : Sifted keep id x y) {out out' : Delivered}
    (hn : out'.placed + out'.filtered = out.placed + out.filtered)
    (hv : out'.verdict = out.verdict) : Sifted keep id (x.settle i out) (y.settle i out') := by
  refine ⟨fun r hq => h.plain r ?_, ?_, h.stats.settle hn hv⟩
  · rwa [Intake.settle, Book.requests_settle] at hq
  · simp only [Intake.settle, h.book, hv]
    exact Book.settle_modify (f := Request.sift keep) (fun _ => rfl) i out.verdict

theorem countChunk (h : Sifted keep id x y) (c : Chunk) :
    Sifted keep id (x.countChunk c) (y.countChunk c) where
  plain := h.plain
  book := h.book
  stats := by
    refine ⟨?_, h.stats.unmatched, h.stats.offered, ?_, h.stats.completed⟩
    · exact congrArg (· + 1) h.stats.chunks
    · exact congrArg (· + UInt64.ofNat c.notFound.length) h.stats.notFound

theorem countUnmatched (h : Sifted keep id x y) :
    Sifted keep id x.countUnmatched y.countUnmatched where
  plain := h.plain
  book := h.book
  stats := by
    refine ⟨?_, ?_, h.stats.offered, h.stats.notFound, h.stats.completed⟩
    · exact congrArg (· + 1) h.stats.chunks
    · exact congrArg (· + 1) h.stats.unmatched

theorem absorb (h : Sifted keep id x y) (caching : Bool) (i : RequestId) (c : Chunk) :
    Sifted keep id (x.absorb caching i c) (y.absorb caching i c) := by
  let d : Delivery := ⟨i, c.count, caching, .arriving c.stamped⟩
  have hcount := h.countChunk c
  by_cases hi : i = id
  · subst hi
    have hy : y.book.requests[i]? = (x.book.requests[i]?).map (Request.sift keep) := by
      rw [h.book, Book.getElem?_sift]
    cases hx : x.book.requests[i]? with
    | none =>
      simp only [Intake.absorb, hx, hy, Option.map_none]
      exact hcount
    | some r =>
      simp only [Intake.absorb, hx, hy, Option.map_some]
      suffices hover : Sifted keep i { x.countChunk c with book := d.handOver x.book r }
          { y.countChunk c with book := d.handOver y.book (r.sift keep) } from
        hover.settle ((d.placed_outcome rfl _).trans (d.placed_outcome rfl _).symm) rfl
      refine ⟨fun q hq => ?_, ?_, hcount.stats⟩
      · have hself : (d.handOver x.book r).requests[i]? = some (r.consume c.count (d.ahead r)) :=
          (Book.replaces_modify hx (·.consume c.count (d.ahead r))).self
        cases hself.symm.trans hq
        rw [Request.filter_consume]
        exact h.plain r hx
      · rw [h.book]
        exact Delivery.handOver_sift (d := d) x.book rfl (h.plain r hx)
  · have hy : y.book.requests[i]? = x.book.requests[i]? := by
      rw [h.book, Book.sift, Book.requests_modify, if_neg hi]
    cases hx : x.book.requests[i]? with
    | none =>
      simp only [Intake.absorb, hx, hy]
      exact hcount
    | some r =>
      simp only [Intake.absorb, hx, hy]
      suffices hover : Sifted keep id { x.countChunk c with book := d.handOver x.book r }
          { y.countChunk c with book := d.handOver y.book r } from hover.settle rfl rfl
      refine ⟨fun q hq => h.plain q ?_, ?_, hcount.stats⟩
      · have hother : (d.handOver x.book r).requests[id]? = x.book.requests[id]? :=
          (Book.replaces_modify hx (·.consume c.count (d.ahead r))).ne (Ne.symm hi)
        exact hother.symm.trans hq
      · rw [h.book]
        exact Delivery.handOver_sift_of_ne (d := d) hi

theorem take (h : Sifted keep id x y) (caching : Bool) (e : Event) :
    Sifted keep id (x.take caching e) (y.take caching e) := by
  cases e with
  | other kind => exact h
  | chunk c =>
    have hlookup : c.nonce.bind y.book.lookup = c.nonce.bind x.book.lookup := by
      rw [h.book]
      rfl
    simp only [Intake.take, hlookup]
    cases c.nonce.bind x.book.lookup with
    | none => exact h.countUnmatched
    | some i => exact h.absorb caching i c

theorem takeAll (h : Sifted keep id x y) (caching : Bool) (es : List Event) :
    Sifted keep id (x.takeAll caching es) (y.takeAll caching es) := by
  induction es generalizing x y with
  | nil => exact h
  | cons e es ih => exact ih (h.take caching e)

end Intake.Sifted

end Rollcall
