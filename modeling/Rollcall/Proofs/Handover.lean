import Rollcall.Proofs.Room

/-!
# Chunks handed over at once

What a chunk comes to does not depend on when its members find room. `Delivery.handOver` does all that
is left of a chunk as if there were room for it. While the request takes members, no segment changes
what that leads to (`handOver_of_moved`), and the last one leads there (`handOver_of_done`).
`Intake.take` does the same for a whole event.
-/

namespace Rollcall

namespace Book

variable {b : Book} {id : RequestId} {r : Request} {f g : Request → Request}

theorem modify_modify (b : Book) (id : RequestId) (f g : Request → Request) :
    (b.modify id f).modify id g = b.modify id (g ∘ f) := by
  simp only [modify]
  congr 1
  apply Array.ext_getElem?
  intro i
  simp only [Array.getElem?_modify]
  split
  · rw [Option.map_map]
  · rfl

theorem modify_congr (hq : b.requests[id]? = some r) (h : f r = g r) :
    b.modify id f = b.modify id g := by
  simp only [modify]
  congr 1
  apply Array.ext_getElem?
  intro i
  simp only [Array.getElem?_modify]
  by_cases hi : id = i
  · subst hi
    simp [hq, h]
  · simp [hi]

end Book

/-! ## Requests that take members -/

namespace Request

def fill (r : Request) (ms : List Member) : Request :=
  { r with channel := { r.channel with unread := r.channel.unread ++ ms } }

theorem fill_nil (r : Request) : r.fill [] = r := by
  simp [fill]

theorem fill_place (r : Request) (m : Member) (ms : List Member) :
    (r.place m).fill ms = r.fill (m :: ms) := by
  simp [fill, place, Channel.place]

theorem placed_fill (r : Request) (ms : List Member) :
    (r.fill ms).channel.placed = r.channel.placed ++ ms := by
  simp [fill, Channel.placed]

/-- The request after a chunk of which `ms` were still to be placed. -/
def consume (r : Request) (declared : UInt32) (ms : List Member) : Request :=
  (r.fill ms).countChunk declared

theorem leave_consume (r : Request) (t : TaskId) (declared : UInt32) (ms : List Member) :
    (r.consume declared ms).leave t = (r.leave t).consume declared ms := by
  have hsame : ((r.leave t).fill ms).completesAt declared = (r.fill ms).completesAt declared := rfl
  unfold consume countChunk
  rw [hsame]
  by_cases hc : (r.fill ms).completesAt declared = true
  · rw [if_pos hc, if_pos hc]
    rfl
  · rw [if_neg hc, if_neg hc]
    rfl

theorem nonce_consume (r : Request) (declared : UInt32) (ms : List Member) :
    (r.consume declared ms).nonce = r.nonce :=
  nonce_countChunk (r.fill ms) declared

def room (r : Request) : Nat := r.channel.capacity - r.channel.unread.length

structure Takes (r : Request) (t : TaskId) : Prop where
  live : r.cancelled = false
  sender : r.senderOpen = true
  listening : r.channel.isListening = true
  head : r.line.head? = some t

theorem Takes.place {r : Request} {t : TaskId} (h : r.Takes t) (m : Member) : (r.place m).Takes t :=
  ⟨h.live, h.sender, h.listening, h.head⟩

end Request

namespace Delivery

/-! ## What is left of a chunk -/

def waiting (d : Delivery) : List Member :=
  match d.stage with
  | .placing m _ _ _ => [m]
  | _ => []

def unsought (d : Delivery) : List Member :=
  match d.stage with
  | .arriving ms => ms
  | .inLine ms => ms
  | .placing _ rest _ _ => rest

def counts (d : Delivery) : Nat × Nat :=
  match d.stage with
  | .placing _ _ n k => (n, k)
  | _ => (0, 0)

def ahead (d : Delivery) (r : Request) : List Member := d.waiting ++ d.unsought.filter r.accepts

theorem ahead_of_inLine {d : Delivery} {ms : List Member} (r : Request)
    (hd : d.stage = .inLine ms) : d.ahead r = ms.filter r.accepts := by
  simp only [ahead, waiting, unsought, hd, List.nil_append]

theorem ahead_of_placing {d : Delivery} {m : Member} {rest : List Member} {n k : Nat} (r : Request)
    (hd : d.stage = .placing m rest n k) : d.ahead r = m :: rest.filter r.accepts := by
  simp only [ahead, waiting, unsought, hd, List.cons_append, List.nil_append]

def giveAll (d : Delivery) (b : Book) (ms rest : List Member) : Book :=
  { b.modify d.request (·.consume d.declared ms) with cache := rest.foldl (keep d.caching) b.cache }

def total (d : Delivery) (r : Request) (ms rest : List Member) (n k : Nat) : Delivered where
  placed := n + ms.length
  filtered := k + rest.countP fun m => !r.accepts m
  verdict := lastVerdict r d.declared

/-- The book after all that is left of a chunk has been handed over to its request `r`. -/
def handOver (d : Delivery) (b : Book) (r : Request) : Book := d.giveAll b (d.ahead r) d.unsought

def outcome (d : Delivery) (r : Request) : Delivered :=
  d.total r (d.ahead r) d.unsought d.counts.1 d.counts.2

variable {d d' : Delivery} {t : TaskId} {b b' : Book} {r : Request} {out : Delivered}

theorem giveAll_place (m : Member) (ms rest : List Member) :
    d.giveAll (b.modify d.request (·.place m)) ms rest = d.giveAll b (m :: ms) rest := by
  have hplace : (·.consume d.declared ms) ∘ (·.place m) =
      fun r : Request => r.consume d.declared (m :: ms) := by
    funext r
    simp only [Function.comp_apply, Request.consume, Request.fill_place]
  rw [giveAll, Book.modify_modify, hplace]
  rfl

def Fits (d : Delivery) (r : Request) : Prop := (d.ahead r).length ≤ r.room

theorem proceed_moves {rest : List Member} {n k : Nat}
    (h : d.proceed t b r.filter (r.completesAt d.declared) rest n k = .moved b' d') :
    b'.requests = b.requests ∧ d'.request = d.request ∧ d'.Placing ∧
      d'.ahead r = rest.filter r.accepts ∧
      d'.handOver b' r = d.giveAll b (rest.filter r.accepts) rest ∧
      d'.outcome r = d.total r (rest.filter r.accepts) rest n k := by
  unfold proceed at h
  split at h
  · rename_i cache k' m rest' heq
    cases h
    obtain ⟨hfilter, hcache, hcount⟩ := seek_found heq
    have hahead : rest.filter r.accepts = m :: rest'.filter r.accepts := hfilter
    refine ⟨rfl, rfl, ⟨m, rest', n, k', rfl⟩, ?_, ?_, ?_⟩
    · simp only [ahead, waiting, unsought, hahead]
      rfl
    · simp only [handOver, giveAll, ahead, waiting, unsought, hahead, hcache]
      rfl
    · simp only [outcome, total, ahead, waiting, unsought, counts, hahead]
      congr 1
  · cases h

theorem proceed_ends {rest : List Member} {n k : Nat}
    (h : d.proceed t b r.filter (r.completesAt d.declared) rest n k = .done b' out) :
    rest.filter r.accepts = [] ∧
      b' = (d.giveAll b (rest.filter r.accepts) rest).modify d.request (·.leave t) ∧
      out = d.total r (rest.filter r.accepts) rest n k := by
  unfold proceed at h
  split at h
  · cases h
  · rename_i cache k' heq
    cases h
    obtain ⟨hfilter, hcache, hcount⟩ := seek_exhausted heq
    have hahead : rest.filter r.accepts = [] := hfilter
    have hleave : (·.leave t) ∘ (·.consume d.declared []) =
        fun r : Request => (r.countChunk d.declared).leave t := by
      funext r
      simp only [Function.comp_apply, Request.consume, Request.fill_nil]
    refine ⟨hahead, ?_, ?_⟩
    · rw [hahead, ← hleave, ← Book.modify_modify, hcache]
      rfl
    · simp only [total, hahead, hcount, lastVerdict]
      rfl

theorem total_place (m : Member) (ms rest : List Member) (n k : Nat) :
    d.total (r.place m) ms rest (n + 1) k = d.total r (m :: ms) rest n k := by
  simp only [total, List.length_cons]
  congr 1
  omega

theorem fits_place {m : Member} {ms : List Member} (hroom : r.channel.hasRoom = true) :
    ms.length ≤ (r.place m).room ↔ (m :: ms).length ≤ r.room := by
  simp only [Channel.hasRoom, decide_eq_true_eq] at hroom
  simp only [Request.room, Request.place, Channel.place, List.length_append, List.length_cons,
    List.length_nil]
  omega

/-! ## Segments -/

section

variable (hq : b.requests[d.request]? = some r) (ht : r.Takes t)
  (hs : ∀ ms, d.stage ≠ .arriving ms)
include hq ht hs

theorem not_fits_of_blocked (h : d.advance t b = .blocked) : ¬d.Fits r := by
  rcases blocked_cases hq hs h with ⟨-, hhead⟩ | ⟨⟨m, rest, n, k, hd⟩, hroom⟩
  · exact absurd ht.head hhead
  · simp only [Channel.hasRoom, decide_eq_false_iff_not] at hroom
    simp only [Fits, ahead_of_placing r hd, Request.room, List.length_cons]
    omega

/-- A segment of a chunk whose request takes members leaves what the chunk comes to as it is. -/
theorem handOver_of_moved (h : d.advance t b = .moved b' d') :
    ∃ r', b'.requests[d.request]? = some r' ∧ r'.Takes t ∧ d'.request = d.request ∧ d'.Placing ∧
      (d'.Fits r' ↔ d.Fits r) ∧ d'.handOver b' r' = d.handOver b r ∧
      d'.outcome r' = d.outcome r := by
  unfold advance at h
  simp only [hq] at h
  cases hd : d.stage with
  | arriving ms => exact absurd hd (hs ms)
  | inLine ms =>
    have hahead := ahead_of_inLine r hd
    simp only [hd, ht.head, if_true, begin, ht.sender, ht.live] at h
    obtain ⟨hreq, hid, hplacing, hnext, hover, hout⟩ := proceed_moves h
    refine ⟨r, by rw [hreq, hq], ht, hid, hplacing, ?_, ?_, ?_⟩
    · simp only [Fits, hnext, hahead]
    · rw [hover]
      simp only [handOver, hahead, unsought, hd]
    · rw [hout]
      simp only [outcome, hahead, unsought, counts, hd]
  | placing m rest n k =>
    have hahead := ahead_of_placing r hd
    simp only [hd, ht.live, ht.listening, Bool.not_true, Bool.or_self] at h
    by_cases hroom : r.channel.hasRoom = true
    · simp only [hroom, if_true] at h
      -- The member that had to wait is placed, and the next one is found.
      obtain ⟨hreq, hid, hplacing, hnext, hover, hout⟩ := proceed_moves (r := r.place m) h
      refine ⟨r.place m, ?_, ht.place m, hid, hplacing, ?_, ?_, ?_⟩
      · rw [hreq]
        exact (Book.replaces_modify hq (·.place m)).self
      · rw [Fits, Fits, hnext, hahead]
        exact fits_place hroom
      · rw [hover, giveAll_place]
        simp only [handOver, hahead, unsought, hd]
        rfl
      · rw [hout, total_place]
        simp only [outcome, hahead, unsought, counts, hd]
        rfl
    · simp [hroom] at h

theorem handOver_of_done (h : d.advance t b = .done b' out) :
    d.Fits r ∧ b' = (d.handOver b r).modify d.request (·.leave t) ∧ out = d.outcome r := by
  unfold advance at h
  simp only [hq] at h
  cases hd : d.stage with
  | arriving ms => exact absurd hd (hs ms)
  | inLine ms =>
    have hahead := ahead_of_inLine r hd
    simp only [hd, ht.head, if_true, begin, ht.sender, ht.live] at h
    obtain ⟨hnil, hbook, hout⟩ := proceed_ends h
    refine ⟨?_, ?_, ?_⟩
    · rw [Fits, hahead, hnil]
      exact Nat.zero_le _
    · simp only [hbook, handOver, hahead, unsought, hd]
    · simp only [hout, outcome, hahead, unsought, counts, hd]
  | placing m rest n k =>
    have hahead := ahead_of_placing r hd
    simp only [hd, ht.live, ht.listening, Bool.not_true, Bool.or_self] at h
    by_cases hroom : r.channel.hasRoom = true
    · simp only [hroom, if_true] at h
      obtain ⟨hnil, hbook, hout⟩ := proceed_ends (r := r.place m) h
      have hnil : rest.filter r.accepts = [] := hnil
      refine ⟨?_, ?_, ?_⟩
      · rw [Fits, hahead, hnil, ← fits_place hroom]
        exact Nat.zero_le _
      · rw [hbook, giveAll_place]
        simp only [handOver, hahead, unsought, hd]
        rfl
      · rw [hout, total_place]
        simp only [outcome, hahead, unsought, counts, hd]
        rfl
    · simp [hroom] at h

end

theorem leave_join {r : Request} (ht : t ∉ r.line) : (r.join t).leave t = r := by
  simp [Request.join, Request.leave, List.erase_append, ht]

/-- That a chunk has to join the line first makes no difference to what it comes to. -/
theorem handOver_of_join {ms : List Member} (hd : d.stage = .arriving ms)
    (hq : b.requests[d.request]? = some r) (ht : t ∉ r.line) :
    (handOver { d with stage := .inLine ms } (b.modify d.request (·.join t)) (r.join t)).modify
      d.request (·.leave t) = d.handOver b r := by
  let consumed (q : Request) : Request := q.consume d.declared (d.ahead r)
  have hsame : (((·.leave t) ∘ consumed) ∘ (·.join t)) r = consumed r := by
    simp only [Function.comp_apply, consumed, Request.leave_consume, leave_join ht]
  have hahead : ahead { d with stage := .inLine ms } (r.join t) = d.ahead r := by
    simp only [ahead, waiting, unsought, hd]
    rfl
  have hbook := Book.modify_congr hq hsame
  rw [← Book.modify_modify, ← Book.modify_modify] at hbook
  simp only [handOver, giveAll, hahead, unsought, hd]
  exact congrArg (fun b' : Book => { b' with cache := ms.foldl (keep d.caching) b.cache }) hbook

end Delivery

/-! ## Intake -/

structure Intake where
  book : Book
  stats : Stats

namespace Hub

def intake (h : Hub) : Intake := ⟨h.book, h.stats⟩

def withIntake (h : Hub) (x : Intake) : Hub := { h with book := x.book, stats := x.stats }

end Hub

def Stats.settle (s : Stats) (out : Delivered) : Stats :=
  { s with
    forwarded := s.forwarded + UInt64.ofNat out.placed
    filtered := s.filtered + UInt64.ofNat out.filtered
    completed := s.completed + if out.verdict = .complete then 1 else 0 }

namespace Intake

def settle (x : Intake) (id : RequestId) (out : Delivered) : Intake :=
  ⟨x.book.settle id out.verdict, x.stats.settle out⟩

def finish (x : Intake) (t : TaskId) (d : Delivery) : Intake :=
  match x.book.requests[d.request]? with
  | none => x
  | some r =>
    settle { x with book := (d.handOver x.book r).modify d.request (·.leave t) } d.request
      (d.outcome r)

def countChunk (x : Intake) (c : Chunk) : Intake :=
  { x with stats := { x.stats with
      chunks := x.stats.chunks + 1
      notFound := x.stats.notFound + UInt64.ofNat c.notFound.length } }

def countUnmatched (x : Intake) : Intake :=
  { x with stats := { x.stats with
      chunks := x.stats.chunks + 1, unmatched := x.stats.unmatched + 1 } }

def absorb (caching : Bool) (x : Intake) (id : RequestId) (c : Chunk) : Intake :=
  match x.book.requests[id]? with
  | none => x.countChunk c
  | some r =>
    let d : Delivery := ⟨id, c.count, caching, .arriving c.stamped⟩
    settle { x.countChunk c with book := d.handOver x.book r } id (d.outcome r)

def take (caching : Bool) (x : Intake) : Event → Intake
  | .other _ => x
  | .chunk c =>
    match c.nonce.bind x.book.lookup with
    | none => x.countUnmatched
    | some id => x.absorb caching id c

theorem isFinal_lastVerdict (r : Request) (declared : UInt32) :
    (Delivery.lastVerdict r declared).isFinal = r.completesAt declared := by
  unfold Delivery.lastVerdict
  by_cases hc : r.completesAt declared = true
  · rw [if_pos hc, hc]
    rfl
  · rw [if_neg hc, Bool.eq_false_iff.mpr hc]
    rfl

/-- What a chunk does to the book, when it is handed over at once to a request that is registered. -/
theorem absorb_book {x : Intake} {id : RequestId} {r : Request} (caching : Bool) (c : Chunk)
    (hq : x.book.requests[id]? = some r) (hreg : x.book.registry.get? r.nonce = some id) :
    x.book.Replaces id (r.consume c.count (c.stamped.filter r.accepts))
      (x.absorb caching id c).book ∧
    (x.absorb caching id c).book.registry =
      if r.completesAt c.count then x.book.registry.erase r.nonce else x.book.registry := by
  have hrep := Book.replaces_modify hq (·.consume c.count (c.stamped.filter r.accepts))
  have hnonce := r.nonce_consume c.count (c.stamped.filter r.accepts)
  simp only [absorb, hq]
  constructor
  · intro i
    rw [← hrep i, settle, Book.requests_settle]
    rfl
  · simp only [settle, Book.settle, Delivery.outcome, Delivery.total, isFinal_lastVerdict]
    by_cases hc : r.completesAt c.count = true
    · rw [if_pos hc, if_pos hc]
      let d : Delivery := ⟨id, c.count, caching, .arriving c.stamped⟩
      have hself : (d.handOver x.book r).requests[id]? =
          some (r.consume c.count (c.stamped.filter r.accepts)) := hrep.self
      have hregistry : (d.handOver x.book r).registry = x.book.registry := rfl
      rw [Book.deregisterRequest_eq hself, hnonce, hregistry, if_pos hreg]
    · rw [if_neg hc, if_neg hc]
      rfl

end Intake

namespace Hub

variable {h : Hub} {t : TaskId} {d : Delivery} {r : Request}

theorem settleDelivery_eq (h : Hub) (d : Delivery) (out : Delivered) :
    h.settleDelivery d out = h.withIntake (h.intake.settle d.request out) := rfl

theorem deliver_of_blocked (hm : d.advance t h.book = .blocked) : h.deliver t d = .blocked := by
  rw [deliver, hm]

/-- What a segment comes to that leaves as they are what a chunk comes to, `x`, and whether there is
room for all of it, `fits`. -/
inductive Nears (h : Hub) (t : TaskId) (x : Intake) (fits : Prop) : Move Hub Delivery Unit → Prop
  | moved {y : Intake} {d : Delivery} {r : Request} (hq : y.book.requests[d.request]? = some r)
      (ht : r.Takes t) (hs : d.Placing) (hx : y.finish t d = x) (hf : d.Fits r ↔ fits) :
      Nears h t x fits (.moved (h.withIntake y) d)
  | done (hf : fits) : Nears h t x fits (.done (h.withIntake x) ())

theorem Nears.congr {x : Intake} {fits fits' : Prop} {m : Move Hub Delivery Unit}
    (hm : h.Nears t x fits m) (hf : fits ↔ fits') : h.Nears t x fits' m := by
  cases hm with
  | moved hq ht hs hx hfits => exact .moved hq ht hs hx (hfits.trans hf)
  | done hfits => exact .done (hf.mp hfits)

theorem deliver_nears (hq : h.book.requests[d.request]? = some r) (ht : r.Takes t)
    (hs : ∀ ms, d.stage ≠ .arriving ms) (hm : h.deliver t d ≠ .blocked) :
    h.Nears t (h.intake.finish t d) (d.Fits r) (h.deliver t d) := by
  have hfinish : h.intake.finish t d = Intake.settle
      { h.intake with book := (d.handOver h.book r).modify d.request (·.leave t) } d.request
      (d.outcome r) := by
    simp only [Intake.finish, intake, hq]
  unfold deliver at hm ⊢
  cases hadv : d.advance t h.book with
  | blocked => simp [hadv] at hm
  | moved b d' =>
    obtain ⟨r', hq', ht', hid, hplacing, hfits, hover, hout⟩ :=
      Delivery.handOver_of_moved hq ht hs hadv
    rw [← hid] at hq'
    refine .moved (y := ⟨b, h.stats⟩) hq' ht' hplacing ?_ hfits
    rw [hfinish]
    simp only [Intake.finish, hq', hover, hout]
    rw [hid]
    rfl
  | done b out =>
    obtain ⟨hfits, hbook, hout⟩ := Delivery.handOver_of_done hq ht hs hadv
    have hsettled : settleDelivery { h with book := b } d out =
        h.withIntake (h.intake.finish t d) := by
      rw [settleDelivery_eq, hfinish, hbook, hout]
      rfl
    simp only [hsettled]
    exact .done hfits

theorem Nears.of_withIntake {x y : Intake} {fits : Prop} {m : Move Hub Delivery Unit}
    (hm : (h.withIntake y).Nears t x fits m) : h.Nears t x fits m := by
  cases hm with
  | moved hq ht hs hx hf => exact .moved hq ht hs hx hf
  | done hf => exact .done hf

theorem deliver_arriving {ms : List Member} (hq : h.book.requests[d.request]? = some r)
    (hd : d.stage = .arriving ms) (hline : r.line = []) :
    h.deliver t d = deliver { h with book := h.book.modify d.request (·.join t) } t
      { d with stage := .inLine ms } := by
  unfold deliver
  rw [Delivery.advance_arriving hq hd hline]
  rfl

/-- A chunk that arrives at a request that waits, with no other in line, comes to what it would come
to without a line. -/
theorem arrival_nears {ms : List Member} (hb : h.book.Sound)
    (hq : h.book.requests[d.request]? = some r) (hw : r.Waiting) (hline : r.line = [])
    (hd : d.stage = .arriving ms) :
    h.Nears t (Intake.settle { h.intake with book := d.handOver h.book r } d.request (d.outcome r))
      (d.Fits r) (h.deliver t d) := by
  have hq' := (Book.replaces_modify hq (·.join t)).self
  have hsound := hb.request _ r hq
  have hhead : (r.join t).line.head? = some t := by
    simp [Request.join, hline]
  have htakes : (r.join t).Takes t :=
    ⟨hw.2, hsound.sender hw, decide_eq_true (hsound.receiver hw), hhead⟩
  have hfinish : Intake.finish ⟨h.book.modify d.request (·.join t), h.stats⟩ t
      { d with stage := .inLine ms } =
      Intake.settle { h.intake with book := d.handOver h.book r } d.request (d.outcome r) := by
    have hover := Delivery.handOver_of_join (t := t) hd hq (by simp [hline])
    have hout : Delivery.outcome { d with stage := .inLine ms } (r.join t) = d.outcome r := by
      simp only [Delivery.outcome, Delivery.ahead, Delivery.waiting, Delivery.unsought,
        Delivery.counts, hd]
      rfl
    simp only [Intake.finish, hq', hover, hout]
    rfl
  have hfits : Delivery.Fits { d with stage := .inLine ms } (r.join t) ↔ d.Fits r := by
    simp only [Delivery.Fits, Delivery.ahead, Delivery.waiting, Delivery.unsought, hd]
    exact .rfl
  -- The chunk is at the head as soon as it has joined, and goes on in the same segment.
  rw [deliver_arriving hq hd hline, ← hfinish]
  apply Nears.congr _ hfits
  apply Nears.of_withIntake (y := ⟨h.book.modify d.request (·.join t), h.stats⟩)
  apply deliver_nears hq' htakes (fun ms hs => by cases hs)
  apply deliver_ne_blocked
  exact Delivery.advance_ne_blocked hq' hhead fun m rest n k hs => by cases hs

def HasRoomFor (h : Hub) (e : Event) : Prop :=
  ∀ c id r, e = .chunk c → h.match? c = some id → h.book.requests[id]? = some r →
    (h.arrival id c).Fits r

theorem receive_of_match {c : Chunk} {id : RequestId} (hid : h.match? c = some id) :
    h.receive t (.chunk c) =
      deliver (h.withIntake (h.intake.countChunk c)) t (h.arrival id c) := by
  have hsome : c.nonce.bind h.book.lookup = some id := hid
  simp only [receive, match?, hsome]
  rfl

theorem receive_behind {c : Chunk} {id : RequestId} (hid : h.match? c = some id)
    (hq : h.book.requests[id]? = some r) (hne : r.line ≠ []) :
    h.receive t (.chunk c) =
      .moved (h.withIntake ⟨h.book.modify id (·.join t), (h.intake.countChunk c).stats⟩)
        { h.arrival id c with stage := .inLine c.stamped } := by
  have hadv : (h.arrival id c).advance t (h.withIntake (h.intake.countChunk c)).book = _ :=
    Delivery.advance_arriving_behind hq rfl hne
  rw [receive_of_match hid, deliver, hadv]
  rfl

/-- An event comes to what it would come to at once, unless its request has others in line. -/
theorem receive_nears (hb : h.book.Sound) {e : Event}
    (hline : ∀ c id r, e = .chunk c → h.match? c = some id → h.book.requests[id]? = some r →
      r.line = []) :
    h.Nears t (h.intake.take h.caching e) (h.HasRoomFor e) (h.receive t e) := by
  cases e with
  | other kind => exact .done nofun
  | chunk c =>
    cases hid : h.match? c with
    | none =>
      have hnone : c.nonce.bind h.book.lookup = none := hid
      have htake : h.intake.take h.caching (.chunk c) = h.intake.countUnmatched := by
        simp only [Intake.take, intake, hnone]
      have hreceive : h.receive t (.chunk c) = .done (h.withIntake h.intake.countUnmatched) () := by
        simp only [receive, match?, hnone]
        rfl
      rw [htake, hreceive]
      refine .done fun c' id r hc hmatch => ?_
      cases hc
      rw [hid] at hmatch
      cases hmatch
    | some id =>
      have hsome : c.nonce.bind h.book.lookup = some id := hid
      obtain ⟨n, -, hn⟩ := Option.bind_eq_some_iff.mp hsome
      obtain ⟨r, hq, -, hw⟩ := (hb.registered n id).mp hn
      have htake : h.intake.take h.caching (.chunk c) = h.intake.absorb h.caching id c := by
        simp only [Intake.take, intake, hsome]
      have habsorb : h.intake.absorb h.caching id c = Intake.settle
          { h.intake.countChunk c with book := (h.arrival id c).handOver h.book r } id
          ((h.arrival id c).outcome r) := by
        simp only [Intake.absorb, intake, hq]
        rfl
      have hroom : (h.arrival id c).Fits r ↔ h.HasRoomFor (.chunk c) := by
        refine ⟨fun hf c' id' r' hc hmatch hq' => ?_, fun hf => hf c id r rfl hid hq⟩
        cases hc
        cases hid.symm.trans hmatch
        cases hq.symm.trans hq'
        exact hf
      rw [htake, receive_of_match hid, habsorb]
      apply Nears.congr _ hroom
      apply Nears.of_withIntake (y := h.intake.countChunk c)
      exact arrival_nears hb hq hw (hline c id r rfl hid hq) rfl

end Hub
end Rollcall
