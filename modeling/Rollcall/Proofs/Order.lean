import Rollcall.Proofs.Arrival
import Rollcall.Proofs.Course
import Rollcall.Proofs.Segment

/-!
# Exact and ordered delivery

A log accounts for the channel of a request: what has been placed is, one part after the other, what
has been placed for the arrivals. Only the first arrival that is underway has anything in its part
(`Ordered`). Main statement: `placed_in_order`.
-/

namespace Rollcall

def Delivery.Stage.Stands (keep : Member → Bool) (a : Arrival) (ms : List Member) :
    Delivery.Stage → Prop
  | .arriving _ => False
  | .inLine left => left = a.chunk.stamped ∧ ms = []
  | .placing m rest _ _ => ms ++ m :: rest.filter keep = a.accepted keep

theorem Delivery.Stage.Stands.prefix {keep : Member → Bool} {a : Arrival} {ms : List Member}
    {stage : Delivery.Stage} (h : stage.Stands keep a ms) : ms <+: a.accepted keep := by
  cases stage with
  | arriving left => cases h
  | inLine left =>
    rw [h.2]
    exact List.nil_prefix
  | placing m rest n k => exact ⟨_, h⟩

namespace Delivery.Turn

variable {t : TaskId} {declared : UInt32} {r r' : Request} {stage : Stage} {a : Arrival}
  {ms : List Member}

theorem stands {stage' : Stage} (h : Turn t declared r stage r' (.inl stage'))
    (hs : stage.Stands r.accepts a ms) : ∃ new, r'.channel.placed = r.channel.placed ++ new ∧
      stage'.Stands r.accepts a (ms ++ new) := by
  cases h with
  | first head sender live found =>
    obtain ⟨rfl, rfl⟩ := hs
    exact ⟨[], (List.append_nil _).symm, found.symm⟩
  | next live listening room found =>
    refine ⟨[_], Channel.placed_place _ _, ?_⟩
    rw [Stage.Stands, ← hs, found, List.append_assoc]
    rfl

/-- A chunk that ends is placed whole, unless the request takes no more. -/
theorem allows {out : Delivered} (h : Turn t declared r stage r' (.inr out))
    (hs : stage.Stands r.accepts a ms) : ∃ new, r'.channel.placed = r.channel.placed ++ new ∧
      ({ a with fate := .ended out.verdict } : Arrival).Allows r.accepts (ms ++ new) := by
  have whole {q : Request} {new : List Member} (hv : out.verdict = lastVerdict q declared)
      (he : ms ++ new = a.accepted r.accepts) :
      ({ a with fate := .ended out.verdict } : Arrival).Allows r.accepts (ms ++ new) := by
    rw [hv, lastVerdict]
    split
    · exact he
    · exact he
  have part (hv : out.verdict = .abandoned) :
      ({ a with fate := .ended out.verdict } : Arrival).Allows r.accepts (ms ++ []) := by
    rw [hv, List.append_nil]
    exact hs.prefix
  cases h with
  | late head closed => exact ⟨[], (List.append_nil _).symm, part rfl⟩
  | refused head sender dead verdict => exact ⟨[], (List.append_nil _).symm, part verdict⟩
  | cut dead verdict => exact ⟨[], (List.append_nil _).symm, part verdict⟩
  | nothing head sender live found verdict =>
    obtain ⟨rfl, rfl⟩ := hs
    refine ⟨[], ?_, whole verdict found.symm⟩
    rw [Request.leave, Request.channel_countChunk, List.append_nil]
  | @last m rest n k out live listening room found verdict =>
    refine ⟨[m], ?_, whole verdict ?_⟩
    · rw [Request.leave, Request.channel_countChunk]
      exact Channel.placed_place _ _
    · rw [← hs, found]

end Delivery.Turn

structure Ordered (j : List Occurrence) (s : Scene) (id : RequestId) (r : Request)
    (ps : List Part) : Prop where
  arrivals : ps.map (·.1) = arrivals j id
  placed : Part.placed ps = r.channel.placed
  line : Part.line ps = r.line
  -- behind a chunk that is underway nothing has been placed
  serial : ps.Pairwise fun p q => p.1.isUnderway = true → q.2 = []
  closed : ∀ p ∈ ps, p.1.isUnderway = false → p.1.Allows r.accepts p.2
  stands : ∀ p ∈ ps, p.1.isUnderway = true → ∃ d, s.delivery? p.1.task = some d ∧
    d.request = id ∧ d.stage.Stands r.accepts p.1 p.2
  nonce : ∀ p ∈ ps, p.1.chunk.nonce = some r.nonce

namespace Ordered

variable {j j' : List Occurrence} {s s' : Scene} {id : RequestId} {r r' : Request}
  {ps : List Part}

theorem accepts_eq (h : r'.filter = r.filter) : r'.accepts = r.accepts := by
  funext m
  rw [Request.accepts, h, Request.accepts]

theorem keep (ho : Ordered j s id r ps) (hj : Rollcall.arrivals j' id = Rollcall.arrivals j id)
    (hl : r.Later r') (hplaced : r'.channel.placed = r.channel.placed) (hline : r'.line = r.line)
    (hd : ∀ t ∈ r.line, s'.delivery? t = s.delivery? t) : Ordered j' s' id r' ps where
  arrivals := ho.arrivals.trans hj.symm
  placed := ho.placed.trans hplaced.symm
  line := ho.line.trans hline.symm
  serial := ho.serial
  closed p hp hu := by
    rw [accepts_eq hl.filter]
    exact ho.closed p hp hu
  stands p hp hu := by
    have ht : p.1.task ∈ r.line := ho.line ▸ Part.mem_line.mpr ⟨p, hp, hu, rfl⟩
    rw [accepts_eq hl.filter, hd _ ht]
    exact ho.stands p hp hu
  nonce p hp := by
    rw [hl.nonce]
    exact ho.nonce p hp

theorem allows (ho : Ordered j s id r ps) {p : Part} (hp : p ∈ ps) : p.1.Allows r.accepts p.2 := by
  cases hu : p.1.isUnderway with
  | false => exact ho.closed p hp hu
  | true =>
    obtain ⟨d, -, -, hstands⟩ := ho.stands p hp hu
    have hfate : p.1.fate = .underway := by simpa [Arrival.isUnderway] using hu
    rw [Arrival.Allows, hfate]
    exact hstands.prefix

/-- The chunk of a task in line has a part of its own in the log. -/
theorem split (ho : Ordered j s id r ps) (hnd : r.line.Nodup) {t : TaskId} (ht : t ∈ r.line) :
    ∃ before p after, ps = before ++ p :: after ∧ p.1.isUnderway = true ∧ p.1.task = t ∧
      t ∉ Part.line before ∧ t ∉ Part.line after := by
  rw [← ho.line] at ht hnd
  obtain ⟨before, p, after, rfl, hu, he, hno⟩ := Part.split_of_mem_line ht
  refine ⟨before, p, after, rfl, hu, he, hno, fun hm => ?_⟩
  rw [Part.line_append, Part.line_cons_underway hu, he] at hnd
  exact (List.nodup_cons.mp hnd.of_append_right).1 hm

/-- A part is replaced: `ms` are added to it, and the task goes on or leaves the line. -/
theorem update {before after : List Part} {p : Part} {a : Arrival} {ms : List Member}
    (ho : Ordered j s id r (before ++ p :: after)) (hu : p.1.isUnderway = true)
    (hj : (before ++ (a, p.2 ++ ms) :: after).map (·.1) = Rollcall.arrivals j' id)
    (hl : r.Later r') (hplaced : r'.channel.placed = r.channel.placed ++ ms)
    (hline : Part.line (before ++ (a, p.2 ++ ms) :: after) = r'.line)
    (hms : ms = [] ∨ Part.line before = [])
    (hclosed : a.isUnderway = false → a.Allows r.accepts (p.2 ++ ms))
    (hstands : a.isUnderway = true → ∃ d, s'.delivery? a.task = some d ∧ d.request = id ∧
      d.stage.Stands r.accepts a (p.2 ++ ms))
    (hc : a.chunk = p.1.chunk)
    (hd : ∀ q ∈ before ++ after, q.1.isUnderway = true →
      s'.delivery? q.1.task = s.delivery? q.1.task) :
    Ordered j' s' id r' (before ++ (a, p.2 ++ ms) :: after) := by
  obtain ⟨hbefore, hafter, hcross⟩ := List.pairwise_append.mp ho.serial
  obtain ⟨hp, hafter⟩ := List.pairwise_cons.mp hafter
  have nothing : ∀ q ∈ after, q.2 = [] := fun q hq => hp q hq hu
  have old {q : Part} (hq : q ∈ before ++ after) : q ∈ before ++ p :: after := by
    rcases List.mem_append.mp hq with hq | hq
    · exact List.mem_append_left _ hq
    · exact List.mem_append_right _ (List.mem_cons_of_mem _ hq)
  have cases {q : Part} (hq : q ∈ before ++ (a, p.2 ++ ms) :: after) :
      q = (a, p.2 ++ ms) ∨ q ∈ before ++ after := by
    rcases List.mem_append.mp hq with hq | hq
    · exact .inr (List.mem_append_left _ hq)
    · rcases List.mem_cons.mp hq with rfl | hq
      · exact .inl rfl
      · exact .inr (List.mem_append_right _ hq)
  refine ⟨hj, ?_, hline, ?_, fun q hq hq' => ?_, fun q hq hq' => ?_, fun q hq => ?_⟩
  · have hold := ho.placed
    rw [Part.placed_append, Part.placed_cons, Part.placed_eq_nil nothing, List.append_nil] at hold
    rw [hplaced, ← hold, Part.placed_append, Part.placed_cons, Part.placed_eq_nil nothing,
      List.append_nil, List.append_assoc]
  · refine List.pairwise_append.mpr ⟨hbefore, List.pairwise_cons.mpr ⟨fun q hq _ => nothing q hq,
      hafter⟩, fun q hq q' hq' hqu => ?_⟩
    rcases List.mem_cons.mp hq' with rfl | hq'
    · have hempty := hcross q hq p List.mem_cons_self hqu
      rcases hms with rfl | hnone
      · rw [hempty]
        rfl
      · have hmem : q.1.task ∈ Part.line before := Part.mem_line.mpr ⟨q, hq, hqu, rfl⟩
        rw [hnone] at hmem
        cases hmem
    · exact hcross q hq q' (List.mem_cons_of_mem _ hq') hqu
  · rw [accepts_eq hl.filter]
    rcases cases hq with rfl | hq
    · exact hclosed hq'
    · exact ho.closed q (old hq) hq'
  · rw [accepts_eq hl.filter]
    rcases cases hq with rfl | hq
    · exact hstands hq'
    · rw [hd q hq hq']
      exact ho.stands q (old hq) hq'
  · rw [hl.nonce]
    rcases cases hq with rfl | hq
    · rw [hc]
      exact ho.nonce p (List.mem_append_right _ List.mem_cons_self)
    · exact ho.nonce q (old hq)

theorem split_head (ho : Ordered j s id r ps) (hnd : r.line.Nodup) {t : TaskId}
    (hh : r.line.head? = some t) : ∃ before p after, ps = before ++ p :: after ∧
      p.1.isUnderway = true ∧ p.1.task = t ∧ Part.line before = [] ∧ t ∉ Part.line after := by
  obtain ⟨before, p, after, rfl, hu, he, hno, hno'⟩ :=
    ho.split hnd (List.mem_of_mem_head? hh)
  refine ⟨before, p, after, rfl, hu, he, ?_, hno'⟩
  rw [← ho.line, Part.line_append] at hh
  cases hb : Part.line before with
  | nil => rfl
  | cons t' ts =>
    rw [hb] at hh hno
    cases hh
    exact absurd List.mem_cons_self hno

/-- The task of a chunk leaves the line, with `ms` added to its part. -/
theorem close {before after : List Part} {p : Part} {ms : List Member} {t : TaskId}
    (ho : Ordered j s id r (before ++ p :: after)) (fate : Fate) (hu : p.1.isUnderway = true)
    (ht : p.1.task = t) (hno : t ∉ Part.line before) (hno' : t ∉ Part.line after)
    (hf : fate ≠ .underway)
    (hj : Rollcall.arrivals j' id = (Rollcall.arrivals j id).map (Arrival.close t fate))
    (hl : r.Later r') (hplaced : r'.channel.placed = r.channel.placed ++ ms)
    (hline : r'.line = r.line.erase t) (hms : ms = [] ∨ Part.line before = [])
    (hallows : ({ p.1 with fate } : Arrival).Allows r.accepts (p.2 ++ ms))
    (hne : ∀ t', t' ≠ t → s'.delivery? t' = s.delivery? t') : ∃ ps, Ordered j' s' id r' ps := by
  have hclosed : ({ p.1 with fate } : Arrival).isUnderway = false := by
    simp [Arrival.isUnderway, hf]
  have hself : Arrival.close t fate p.1 = { p.1 with fate } := by
    simp [Arrival.close, ht, hu]
  refine ⟨_, ho.update (a := { p.1 with fate }) hu ?_ hl hplaced ?_ hms (fun _ => hallows)
    (fun h => ?_) rfl fun q hq hqu => hne _ ?_⟩
  · rw [hj, ← ho.arrivals]
    simp only [List.map_append, List.map_cons, hself]
    rw [Part.map_close hno, Part.map_close hno']
  · have hold := ho.line
    rw [Part.line_append, Part.line_cons_underway hu, ht] at hold
    rw [Part.line_append, Part.line_cons_closed hclosed, hline, ← hold,
      List.erase_append_right _ hno, List.erase_cons_head]
  · rw [hclosed] at h
    cases h
  · rintro rfl
    rcases List.mem_append.mp hq with hq | hq
    · exact hno (Part.mem_line.mpr ⟨q, hq, hqu, rfl⟩)
    · exact hno' (Part.mem_line.mpr ⟨q, hq, hqu, rfl⟩)

theorem join {t : TaskId} {c : Chunk} {d : Delivery} (ho : Ordered j s id r ps)
    (hj : Rollcall.arrivals j' id = Rollcall.arrivals j id ++ [{ task := t, chunk := c }])
    (hn : c.nonce = some r.nonce) (hd : s'.delivery? t = some d) (hid : d.request = id)
    (hs : d.stage = .inLine c.stamped) (hno : t ∉ r.line)
    (hne : ∀ t', t' ≠ t → s'.delivery? t' = s.delivery? t') :
    Ordered j' s' id (r.join t) (ps ++ [({ task := t, chunk := c }, [])]) where
  arrivals := by rw [List.map_append, ho.arrivals, hj]; rfl
  placed := by
    rw [Part.placed_append, ho.placed]
    exact List.append_nil _
  line := by
    rw [Part.line_append, ho.line]
    rfl
  serial := by
    refine List.pairwise_append.mpr ⟨ho.serial, List.pairwise_singleton _ _, fun p hp q hq _ => ?_⟩
    rw [List.mem_singleton.mp hq]
  closed p hp hu := by
    rcases List.mem_append.mp hp with hp | hp
    · exact ho.closed p hp hu
    · rw [List.mem_singleton.mp hp] at hu
      cases hu
  stands p hp hu := by
    rcases List.mem_append.mp hp with hp | hp
    · have hmem : p.1.task ∈ r.line := ho.line ▸ Part.mem_line.mpr ⟨p, hp, hu, rfl⟩
      rw [hne _ fun e => hno (e ▸ hmem)]
      exact ho.stands p hp hu
    · rw [List.mem_singleton.mp hp]
      refine ⟨d, hd, hid, ?_⟩
      rw [hs]
      exact ⟨rfl, rfl⟩
  nonce p hp := by
    rcases List.mem_append.mp hp with hp | hp
    · exact ho.nonce p hp
    · rw [List.mem_singleton.mp hp]
      exact hn

/-! ### What the passages do to a log -/

variable {t : TaskId} {d : Delivery} {declared : UInt32}

theorem fresh (hj : Rollcall.arrivals j id = []) (hplaced : r.channel.placed = [])
    (hline : r.line = []) : Ordered j s id r [] where
  arrivals := hj.symm
  placed := hplaced.symm
  line := hline.symm
  serial := .nil
  closed p hp := by cases hp
  stands p hp := by cases hp
  nonce p hp := by cases hp

theorem goOn {d' : Delivery} (ho : Ordered j s id r ps) (hnd : r.line.Nodup)
    (hhead : r.line.head? = some t) (hd : s.delivery? t = some d)
    (hturn : Delivery.Turn t declared r d.stage r' (.inl d'.stage))
    (hd' : s'.delivery? t = some d') (hreq : d'.request = id)
    (hj : Rollcall.arrivals j' id = Rollcall.arrivals j id)
    (hne : ∀ t', t' ≠ t → s'.delivery? t' = s.delivery? t') : ∃ ps, Ordered j' s' id r' ps := by
  obtain ⟨before, p, after, rfl, hu, rfl, hnone, hno⟩ := ho.split_head hnd hhead
  obtain ⟨d₀, h0, -, hstands⟩ := ho.stands p (List.mem_append_right _ List.mem_cons_self) hu
  rw [hd] at h0
  cases h0
  obtain ⟨new, hplaced, hstands⟩ := hturn.stands hstands
  have hline : Part.line (before ++ (p.1, p.2 ++ new) :: after) = r'.line := by
    rw [hturn.moved.1, ← ho.line]
    simp [Part.line, hu]
  refine ⟨_, ho.update (a := p.1) hu ?_ hturn.later hplaced hline (.inr hnone) (fun h => ?_)
    (fun _ => ⟨d', hd', hreq, hstands⟩) rfl fun q hq hqu => hne _ ?_⟩
  · rw [hj, ← ho.arrivals]
    simp
  · rw [hu] at h
    cases h
  · intro he
    rcases List.mem_append.mp hq with hm | hm
    · have hm := Part.mem_line.mpr ⟨q, hm, hqu, he⟩
      rw [hnone] at hm
      cases hm
    · exact hno (Part.mem_line.mpr ⟨q, hm, hqu, he⟩)

theorem settle {out : Delivered} (ho : Ordered j s id r ps) (hnd : r.line.Nodup)
    (hhead : r.line.head? = some t) (hd : s.delivery? t = some d)
    (hturn : Delivery.Turn t declared r d.stage r' (.inr out))
    (hj : Rollcall.arrivals j' id =
      (Rollcall.arrivals j id).map (Arrival.close t (.ended out.verdict)))
    (hne : ∀ t', t' ≠ t → s'.delivery? t' = s.delivery? t') : ∃ ps, Ordered j' s' id r' ps := by
  obtain ⟨before, p, after, rfl, hu, rfl, hnone, hno⟩ := ho.split_head hnd hhead
  obtain ⟨d₀, h0, -, hstands⟩ := ho.stands p (List.mem_append_right _ List.mem_cons_self) hu
  rw [hd] at h0
  cases h0
  obtain ⟨new, hplaced, hallows⟩ := hturn.allows hstands
  exact ho.close (.ended out.verdict) hu rfl (by simp [hnone]) hno (by simp) hj hturn.later hplaced
    hturn.ended.1 (.inr hnone) hallows hne

theorem interrupt (ho : Ordered j s id r ps) (hnd : r.line.Nodup) (hm : t ∈ r.line)
    (hj : Rollcall.arrivals j' id = (Rollcall.arrivals j id).map (Arrival.close t .dropped))
    (hne : ∀ t', t' ≠ t → s'.delivery? t' = s.delivery? t') :
    ∃ ps, Ordered j' s' id (r.leave t) ps := by
  obtain ⟨before, p, after, rfl, hu, ht, hno, hno'⟩ := ho.split hnd hm
  obtain ⟨d₀, h0, -, hstands⟩ := ho.stands p (List.mem_append_right _ List.mem_cons_self) hu
  have hallows : ({ p.1 with fate := .dropped } : Arrival).Allows r.accepts (p.2 ++ []) := by
    rw [List.append_nil]
    exact hstands.prefix
  exact ho.close .dropped hu ht hno hno' (by simp) hj
    ⟨rfl, rfl, fun h => h, fun h => h, rfl⟩ (List.append_nil _).symm rfl (.inl rfl) hallows hne

end Ordered

/-! ## Every history -/

theorem arrivals_append_of_line {j os : List Occurrence} {id : RequestId}
    (h : ∀ o ∈ os, o.line? ≠ some id) : arrivals (j ++ os) id = arrivals j id := by
  rw [arrivals_append]
  induction os with
  | nil => rfl
  | cons o os ih =>
    have hsame (as : List Arrival) : Arrival.meet id as o = as := by
      have ho := h o List.mem_cons_self
      cases o with
      | arrived t i c => exact if_neg fun e => ho (congrArg some e)
      | settled t i r => exact if_neg fun e => ho (congrArg some e)
      | interrupted t i => exact if_neg fun e => ho (congrArg some e)
      | _ => rfl
    rw [List.foldl_cons, hsame]
    exact ih fun o' ho' => h o' (List.mem_cons_of_mem _ ho')

theorem Reached.untold {j : List Occurrence} {s : Scene} (hr : Reached j s) {id : RequestId}
    (h : s.book.requests[id]? = none) : ∀ o ∈ j, o.line? ≠ some id := by
  induction hr with
  | new nonces => exact List.forall_mem_nil _
  | @step j os s s' hr hc ih =>
    have hbefore : s.book.requests[id]? = none := by
      cases hq : s.book.requests[id]? with
      | none => rfl
      | some r =>
        obtain ⟨r', hr', -⟩ := hr.later hc id r hq
        rw [h] at hr'
        cases hr'
    have hne {d : Delivery} (hq : s.book.requests[d.request]? ≠ none) :
        some d.request ≠ some id := by
      intro he
      cases he
      exact hq hbefore
    have listed {t : TaskId} {d : Delivery} (hd : s.delivery? t = some d) :
        s.book.requests[d.request]? ≠ none := by
      obtain ⟨r, hq, -⟩ := hr.lined.listed hd
      simp [hq]
    refine List.forall_mem_append.mpr ⟨ih hbefore, ?_⟩
    cases hr.passage hc with
    | calm ho hb hd => exact fun o hm => by simp [ho o hm]
    | make ho hb hf hd => exact fun o hm => by simp [ho o hm]
    | arrive hd hc hn hq => exact List.forall_mem_singleton.mpr (hne hq)
    | advance hd => exact List.forall_mem_nil _
    | settle hd => exact List.forall_mem_singleton.mpr (hne (listed hd))
    | interrupt hd => exact List.forall_mem_singleton.mpr (hne (listed hd))

theorem Reached.arrivals_of_size_le {j : List Occurrence} {s : Scene} (hr : Reached j s)
    {id : RequestId} (h : s.book.requests[id]? = none) : arrivals j id = [] := by
  rw [← List.nil_append j, arrivals_append_of_line (hr.untold h)]
  rfl

/-- A log accounts for the channel of every request. -/
theorem Reached.ordered {j : List Occurrence} {s : Scene} (hr : Reached j s) {id : RequestId}
    {r : Request} (hq : s.book.requests[id]? = some r) : ∃ ps, Ordered j s id r ps := by
  induction hr generalizing r with
  | new nonces => cases hq
  | @step j os s s' hr h ih =>
    -- A request whose line the change is not about keeps its log.
    have keep {q : Request} (hq' : s.book.requests[id]? = some q)
        (hos : ∀ o ∈ os, o.line? ≠ some id) (hl : q.Later r)
        (hplaced : r.channel.placed = q.channel.placed) (hline : r.line = q.line)
        (hd : ∀ t ∈ q.line, s'.delivery? t = s.delivery? t) : ∃ ps, Ordered (j ++ os) s' id r ps := by
      obtain ⟨ps, hps⟩ := ih hq'
      exact ⟨ps, hps.keep (arrivals_append_of_line hos) hl hplaced hline hd⟩
    have elsewhere {t : TaskId} {i : RequestId} (hi : id ≠ i)
        (hd : ∀ d, s.delivery? t = some d → d.request = i) (hq' : s.book.requests[id]? = some r)
        (hos : ∀ o ∈ os, o.line? = some i)
        (hne : ∀ t', t' ≠ t → s'.delivery? t' = s.delivery? t') :
        ∃ ps, Ordered (j ++ os) s' id r ps := by
      refine keep hq' (fun o ho => ?_) (.refl r) rfl rfl fun t' ht' => hne t' ?_
      · rw [hos o ho]
        exact fun e => hi (Option.some.inj e).symm
      · rintro rfl
        obtain ⟨d, h0, hid⟩ := hr.lined.holds hq' ht'
        exact hi (hid.symm.trans (hd d h0))
    have only {t : TaskId} {d : Delivery} (h0 : s.delivery? t = some d) (d' : Delivery)
        (h1 : s.delivery? t = some d') : d'.request = d.request := by
      rw [h0] at h1
      cases h1
      rfl
    have alone {o : Occurrence} {i : RequestId} (ho : o.line? = some i) (o' : Occurrence)
        (hm : o' ∈ [o]) : o'.line? = some i := by
      rw [List.mem_singleton.mp hm]
      exact ho
    cases hr.passage h with
    | calm ho hb hd =>
      obtain ⟨q, hq', hk⟩ := hb.earlier hq
      exact keep hq' (fun o hm => by simp [ho o hm]) hk.to_later hk.placed hk.line fun t _ => hd t
    | make ho hb hf hd =>
      rw [hb, Array.getElem?_push] at hq
      split at hq
      · rename_i hid
        subst hid
        cases hq
        obtain ⟨n, g, f, c, he⟩ := hf
        have hnone := hr.arrivals_of_size_le (Array.getElem?_eq_none (Nat.le_refl _))
        refine ⟨[], .fresh ?_ (by rw [he]; rfl) (by rw [he])⟩
        rw [arrivals_append_of_line fun o hm => by simp [ho o hm], hnone]
      · exact keep hq (fun o hm => by simp [ho o hm]) (.refl r) rfl rfl fun t _ => hd t
    | @arrive _ t d c n hd hc hn hq₀ hs hb hd' hne =>
      have none (d₀ : Delivery) (h0 : s.delivery? t = some d₀) : False := by
        rw [hd] at h0
        cases h0
      rw [hb] at hq
      by_cases hi : id = d.request
      · subst hi
        obtain ⟨q, hq'⟩ := Option.ne_none_iff_exists'.mp hq₀
        rw [(Book.replaces_modify hq' _).self] at hq
        cases hq
        obtain ⟨ps, hps⟩ := ih hq'
        have hnonce := hr.sound.nonce_of_get? hq' hn
        have hnonce : c.nonce = some q.nonce := hc.trans (congrArg some hnonce.symm)
        refine ⟨_, hps.join (c := c) ?_ hnonce hd' rfl hs (fun hm => ?_) hne⟩
        · rw [arrivals_append]
          exact if_pos rfl
        · obtain ⟨d₀, h0, -⟩ := hr.lined.holds hq' hm
          exact none d₀ h0
      · rw [Book.requests_modify, if_neg hi] at hq
        exact elsewhere hi (fun d₀ h0 => (none d₀ h0).elim) hq (alone rfl) hne
    | @advance _ t d d' hd hb hd' hne =>
      obtain ⟨q, q', hq', hrep, hreq, hturn, hhead, -⟩ := hr.lined.head_of_moved hd hb
      by_cases hi : id = d.request
      · subst hi
        rw [hrep.self] at hq
        cases hq
        obtain ⟨ps, hps⟩ := ih hq'
        exact hps.goOn (hr.lined.nodup hq') hhead hd hturn hd' hreq (by simp) hne
      · rw [hrep.ne hi] at hq
        exact elsewhere hi (only hd) hq (fun o ho => by cases ho) hne
    | @settle _ t d b out hd hb hs hd' hne =>
      obtain ⟨q, q', hq', hrep, hturn, hhead⟩ := hr.lined.head_of_done hd hb
      rw [hs] at hq
      by_cases hi : id = d.request
      · subst hi
        rw [hrep.self] at hq
        cases hq
        obtain ⟨ps, hps⟩ := ih hq'
        refine hps.settle (hr.lined.nodup hq') hhead hd hturn ?_ hne
        rw [arrivals_append]
        exact if_pos rfl
      · rw [hrep.ne hi] at hq
        exact elsewhere hi (only hd) hq (alone rfl) hne
    | @interrupt _ t d hd hb hd' hne =>
      obtain ⟨q, hq', hm⟩ := hr.lined.listed hd
      rw [hb] at hq
      by_cases hi : id = d.request
      · subst hi
        rw [Delivery.interrupt, (Book.replaces_modify hq' _).self] at hq
        cases hq
        obtain ⟨ps, hps⟩ := ih hq'
        refine hps.interrupt (hr.lined.nodup hq') hm ?_ hne
        rw [arrivals_append]
        exact if_pos rfl
      · rw [Delivery.interrupt, Book.requests_modify, if_neg hi] at hq
        exact elsewhere hi (only hd) hq (alone rfl) hne

/-- **Members are delivered exactly and in order.** After every history, the channel of a request
has been given, one part after the other in the order in which their chunks reached the line, the
members that the filter accepts: of a chunk that was dealt with to its end all of them, of any other
the first few. The chunks that are underway are those in line. What has been given out, followed by
what is left to read, is the same. -/
theorem placed_in_order {h : Hub} (hn : h.IsNew) (past : List Action) {id : RequestId}
    {r : Request} (hq : (h.after past).book.requests[id]? = some r) :
    ∃ ps : List Part, ps.map (·.1) = arrivals (h.journal past) id ∧
      (∀ p ∈ ps, p.1.chunk.nonce = some r.nonce ∧ p.1.Allows r.accepts p.2) ∧
      Part.line ps = r.line ∧ r.channel.placed = ps.flatMap (·.2) ∧
      yielded (h.journal past) id ++ r.channel.unread = ps.flatMap (·.2) := by
  have hr := Reached.after hn past
  obtain ⟨ps, ho⟩ := hr.ordered hq
  refine ⟨ps, ho.arrivals, fun p hp => ⟨ho.nonce p hp, ?_⟩, ho.line, ho.placed.symm, ?_⟩
  · cases hu : p.1.isUnderway with
    | false => exact ho.closed p hp hu
    | true =>
      obtain ⟨d, -, -, hstands⟩ := ho.stands p hp hu
      have hfate : p.1.fate = .underway := by simpa [Arrival.isUnderway] using hu
      rw [Arrival.Allows, hfate]
      exact hstands.prefix
  · have hplaced := ho.placed
    rw [Channel.placed, hr.read_eq hq, List.reverse_reverse] at hplaced
    exact hplaced.symm

/-- Of a chunk of four members the filter rejects the second. The first has been read, the third
stands in the channel, and the last has no place yet. -/
def halfPlaced : List Action :=
  [.segment 1, .recv 0, .segment 1, .segment 1,
    .dispatch (.chunk (.sample [.sample "a", .sample "b", .sample "c", .sample "d"])), .segment 0,
    .segment 0, .callStream (.filtered ⟨1⟩ fun m => m.user.username ≠ "b")]

theorem halfPlaced_order :
    ∃ r, ((Hub.sample .accept).after halfPlaced).book.requests[0]? = some r ∧
      r.accepts (.sample "b") = false ∧ ∃ ps : List Part,
        ps.map (·.1) = [{
          task := 1, chunk := .sample [.sample "a", .sample "b", .sample "c", .sample "d"] }] ∧
        Part.line ps = [1] ∧ ps.flatMap (·.2) = [.sample "a", .sample "c"] := by
  have hq : ((Hub.sample .accept).after halfPlaced).book.requests[0]? = some _ := rfl
  obtain ⟨ps, harrivals, -, hline, hplaced, -⟩ := placed_in_order (Hub.sample_isNew .accept) _ hq
  exact ⟨_, hq, rfl, ps, harrivals, hline, hplaced.symm⟩

end Rollcall
