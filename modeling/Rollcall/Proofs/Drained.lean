import Rollcall.Proofs.Handover

/-!
# What remains when channels are forgotten

A drained request tells which members have been placed, but neither how many of them have been read
nor how large the channel is. What events come to at once depends on the drained requests only
(`drained_take`, `drained_finish`), and what a task reads changes nothing in them
(`drained_afterReading`).
-/

namespace Rollcall

namespace Request

/-- The request as if all its members had been read, with nobody in line. -/
def drained (r : Request) : Request :=
  { r with line := [], channel := { capacity := 0, read := r.channel.placed.reverse } }

theorem drained_of_channel {r r' : Request} (h : r'.channel.placed = r.channel.placed)
    (he : r' = { r with channel := r'.channel }) : r'.drained = r.drained := by
  rw [drained, h, he]
  rfl

theorem placed_drained (r : Request) : r.drained.channel.placed = r.channel.placed := by
  simp [drained, Channel.placed]

theorem placed_of_drained {r r' : Request} (h : r'.drained = r.drained) :
    r'.channel.placed = r.channel.placed := by
  rw [← placed_drained r', h, placed_drained]

theorem drained_drained (r : Request) : r.drained.drained = r.drained := by
  rw [drained, placed_drained]
  rfl

theorem drained_leave (r : Request) (t : TaskId) : (r.leave t).drained = r.drained := rfl

theorem drained_dropReceiver (r : Request) : r.dropReceiver.drained = r.drained := rfl

theorem drained_afterReading (r : Request) : r.afterReading.drained = r.drained := by
  unfold afterReading
  split
  · rfl
  · exact drained_of_channel (Channel.placed_take _) rfl

theorem drained_consume (r : Request) (declared : UInt32) (ms : List Member) :
    (r.consume declared ms).drained = (r.drained.consume declared ms).drained := by
  have hplaced : (r.drained.fill ms).channel.placed = (r.fill ms).channel.placed := by
    rw [placed_fill, placed_fill, placed_drained]
  have hsame : (r.drained.fill ms).completesAt declared = (r.fill ms).completesAt declared := rfl
  unfold consume countChunk
  rw [hsame]
  by_cases hc : (r.fill ms).completesAt declared = true
  · rw [if_pos hc, if_pos hc, drained, drained]
    simp only [hplaced]
    rfl
  · rw [if_neg hc, if_neg hc, drained, drained]
    simp only [hplaced]
    rfl

end Request

namespace Book

def drained (b : Book) : Book := { b with requests := b.requests.map Request.drained }

variable {b : Book} {id : RequestId} {f : Request → Request}

theorem requests_drained (b : Book) (id : RequestId) :
    b.drained.requests[id]? = (b.requests[id]?).map Request.drained := by
  simp [drained]

theorem exists_of_drained {b' : Book} {r : Request} (h : b'.drained = b.drained)
    (hq : b.requests[id]? = some r) :
    ∃ r', b'.requests[id]? = some r' ∧ r'.drained = r.drained := by
  have hsame := b'.requests_drained id
  rw [h, requests_drained, hq] at hsame
  exact Option.map_eq_some_iff.mp hsame.symm

theorem drained_modify (h : ∀ r, (f r).drained = (f r.drained).drained) :
    (b.modify id f).drained = (b.drained.modify id f).drained := by
  simp only [drained, modify]
  congr 1
  apply Array.ext_getElem?
  intro i
  simp only [Array.getElem?_map, Array.getElem?_modify, Option.map_map]
  cases b.requests[i]? with
  | none => simp
  | some r =>
    split
    · simp [h r]
    · simp [Request.drained_drained]

theorem drained_modify_same (h : ∀ r, (f r).drained = r.drained) :
    (b.modify id f).drained = b.drained := by
  simp only [drained, modify]
  congr 1
  apply Array.ext_getElem?
  intro i
  simp only [Array.getElem?_map, Array.getElem?_modify]
  cases b.requests[i]? with
  | none => simp
  | some r =>
    split
    · simp [h r]
    · simp

theorem drained_drained (b : Book) : b.drained.drained = b.drained := by
  simp only [drained, Array.map_map]
  congr 2
  funext r
  exact r.drained_drained

theorem drained_deregisterRequest (b : Book) (id : RequestId) :
    (b.deregisterRequest id).2.drained = (b.drained.deregisterRequest id).2 := by
  unfold deregisterRequest
  rw [requests_drained]
  cases b.requests[id]? with
  | none => rfl
  | some r =>
    simp only [Option.map_some]
    have hsame : b.drained.registry.holds r.drained.nonce id = b.registry.holds r.nonce id := rfl
    rw [hsame]
    split <;> rfl

theorem drained_settle (b : Book) (id : RequestId) (v : Verdict) :
    (b.settle id v).drained = b.drained.settle id v := by
  unfold settle
  split
  · exact drained_deregisterRequest b id
  · rfl

end Book

theorem Delivery.drained_handOver (d : Delivery) (b : Book) (r : Request) :
    (d.handOver b r).drained = (d.handOver b.drained r.drained).drained := by
  have hmodify : (b.modify d.request (·.consume d.declared (d.ahead r))).drained =
      (b.drained.modify d.request (·.consume d.declared (d.ahead r))).drained :=
    Book.drained_modify fun q => q.drained_consume _ _
  exact congrArg (fun b' : Book => { b' with cache := d.unsought.foldl (keep d.caching) b.cache })
    hmodify

namespace Intake

def drained (x : Intake) : Intake := { x with book := x.book.drained }

theorem drained_settle (x : Intake) (id : RequestId) (out : Delivered) :
    (x.settle id out).drained = x.drained.settle id out := by
  simp only [drained, settle, Book.drained_settle]

theorem drained_settle_congr {x y : Intake} (h : x.drained = y.drained) (id : RequestId)
    (out : Delivered) : (x.settle id out).drained = (y.settle id out).drained := by
  rw [drained_settle, h, drained_settle]

theorem drained_finish (x : Intake) (t : TaskId) (d : Delivery) :
    (x.finish t d).drained = (x.drained.finish t d).drained := by
  unfold finish
  rw [show x.drained.book.requests[d.request]? = (x.book.requests[d.request]?).map Request.drained
    from Book.requests_drained _ _]
  cases x.book.requests[d.request]? with
  | none => simp only [Option.map_none, drained, Book.drained_drained]
  | some r =>
    refine drained_settle_congr ?_ d.request (d.outcome r)
    simp only [drained]
    congr 1
    rw [Book.drained_modify_same fun q => q.drained_leave t,
      Book.drained_modify_same fun q => q.drained_leave t]
    exact d.drained_handOver x.book r

theorem drained_absorb (caching : Bool) (x : Intake) (id : RequestId) (c : Chunk) :
    (x.absorb caching id c).drained = (x.drained.absorb caching id c).drained := by
  unfold absorb
  rw [show x.drained.book.requests[id]? = (x.book.requests[id]?).map Request.drained
    from Book.requests_drained _ _]
  cases x.book.requests[id]? with
  | none => simp only [Option.map_none, drained, countChunk, Book.drained_drained]
  | some r =>
    let d : Delivery := ⟨id, c.count, caching, .arriving c.stamped⟩
    refine drained_settle_congr ?_ id (d.outcome r)
    simp only [drained]
    congr 1
    exact d.drained_handOver x.book r

theorem drained_take (caching : Bool) (x : Intake) (e : Event) :
    (x.take caching e).drained = (x.drained.take caching e).drained := by
  have idle (y : Intake) : y.drained = y.drained.drained := by
    simp only [drained, Book.drained_drained]
  cases e with
  | other kind => exact idle x
  | chunk c =>
    simp only [take]
    rw [show c.nonce.bind x.drained.book.lookup = c.nonce.bind x.book.lookup from rfl]
    cases c.nonce.bind x.book.lookup with
    | none => exact idle x.countUnmatched
    | some id => exact drained_absorb caching x id c

def takeAll (caching : Bool) (x : Intake) (es : List Event) : Intake := es.foldl (take caching) x

theorem drained_takeAll {caching : Bool} {x y : Intake} (h : x.drained = y.drained)
    (es : List Event) : (x.takeAll caching es).drained = (y.takeAll caching es).drained := by
  induction es generalizing x y with
  | nil => exact h
  | cons e es ih =>
    apply ih
    rw [drained_take, h, ← drained_take]

end Intake

end Rollcall
