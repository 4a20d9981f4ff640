import Rollcall.Proofs.History
import Mathlib.Data.List.Nodup

/-!
# Arrivals

The chunks that have reached the line of a request, in order, as a journal tells, each with what has
become of it. A log gives each arrival the members placed for it so far (`Part`); a chunk that has
been dealt with to its end has all its members placed that the filter accepts, any other the first
few of them (`Arrival.Allows`).
-/

namespace Rollcall

inductive Fate where
  | underway
  | ended (v : Verdict)
  | dropped
deriving DecidableEq

structure Arrival where
  task : TaskId
  chunk : Chunk
  fate : Fate := .underway

namespace Arrival

def isUnderway (a : Arrival) : Bool := a.fate = .underway

def close (t : TaskId) (fate : Fate) (a : Arrival) : Arrival :=
  if a.task = t ∧ a.isUnderway then { a with fate } else a

def meet (id : RequestId) (as : List Arrival) : Occurrence → List Arrival
  | .arrived t i c => if i = id then as ++ [{ task := t, chunk := c }] else as
  | .settled t i r => if i = id then as.map (close t (.ended r.verdict)) else as
  | .interrupted t i => if i = id then as.map (close t .dropped) else as
  | _ => as

def accepted (keep : Member → Bool) (a : Arrival) : List Member := a.chunk.stamped.filter keep

def Allows (keep : Member → Bool) (a : Arrival) (ms : List Member) : Prop :=
  match a.fate with
  | .ended .pending => ms = a.accepted keep
  | .ended .complete => ms = a.accepted keep
  | .ended .abandoned => ms <+: a.accepted keep
  | .underway => ms <+: a.accepted keep
  | .dropped => ms <+: a.accepted keep

end Arrival

def arrivals (j : List Occurrence) (id : RequestId) : List Arrival := j.foldl (Arrival.meet id) []

theorem arrivals_append (j os : List Occurrence) (id : RequestId) :
    arrivals (j ++ os) id = os.foldl (Arrival.meet id) (arrivals j id) := List.foldl_append

/-- An arrival, and the members placed for it. -/
abbrev Part := Arrival × List Member

namespace Part

def line (ps : List Part) : List TaskId := (ps.filter (·.1.isUnderway)).map (·.1.task)

def placed (ps : List Part) : List Member := ps.flatMap (·.2)

theorem line_append (ps qs : List Part) : line (ps ++ qs) = line ps ++ line qs := by
  simp only [line, List.filter_append, List.map_append]

theorem line_cons_underway {p : Part} (h : p.1.isUnderway = true) (ps : List Part) :
    line (p :: ps) = p.1.task :: line ps := by
  simp [line, h]

theorem line_cons_closed {p : Part} (h : p.1.isUnderway = false) (ps : List Part) :
    line (p :: ps) = line ps := by
  simp [line, h]

theorem mem_line {ps : List Part} {t : TaskId} :
    t ∈ line ps ↔ ∃ p ∈ ps, p.1.isUnderway = true ∧ p.1.task = t := by
  simp only [line, List.mem_map, List.mem_filter]
  constructor
  · rintro ⟨p, ⟨hp, hu⟩, rfl⟩
    exact ⟨p, hp, hu, rfl⟩
  · rintro ⟨p, hp, hu, rfl⟩
    exact ⟨p, ⟨hp, hu⟩, rfl⟩

theorem split_of_mem_line {ps : List Part} {t : TaskId} (ht : t ∈ line ps) :
    ∃ before p after, ps = before ++ p :: after ∧ p.1.isUnderway = true ∧ p.1.task = t ∧
      t ∉ line before := by
  induction ps with
  | nil => cases ht
  | cons q ps ih =>
    by_cases hq : q.1.isUnderway = true ∧ q.1.task = t
    · exact ⟨[], q, ps, rfl, hq.1, hq.2, List.not_mem_nil⟩
    · have hps : t ∈ line ps := by
        obtain ⟨p, hp, hu, he⟩ := mem_line.mp ht
        rcases List.mem_cons.mp hp with rfl | hp
        · exact absurd ⟨hu, he⟩ hq
        · exact mem_line.mpr ⟨p, hp, hu, he⟩
      obtain ⟨before, p, after, rfl, hu, he, hno⟩ := ih hps
      refine ⟨q :: before, p, after, rfl, hu, he, fun hm => ?_⟩
      obtain ⟨p', hp', hu', he'⟩ := mem_line.mp hm
      rcases List.mem_cons.mp hp' with rfl | hp'
      · exact hq ⟨hu', he'⟩
      · exact hno (mem_line.mpr ⟨p', hp', hu', he'⟩)

theorem map_close {ps : List Part} {t : TaskId} (ht : t ∉ line ps) (fate : Fate) :
    (ps.map (·.1)).map (Arrival.close t fate) = ps.map (·.1) := by
  rw [List.map_map]
  apply List.map_congr_left
  intro p hp
  have hno : ¬(p.1.task = t ∧ p.1.isUnderway = true) := by
    rintro ⟨he, hu⟩
    exact ht (mem_line.mpr ⟨p, hp, hu, he⟩)
  simp only [Function.comp, Arrival.close, if_neg hno]

theorem placed_append (ps qs : List Part) : placed (ps ++ qs) = placed ps ++ placed qs :=
  List.flatMap_append

theorem placed_cons (p : Part) (ps : List Part) : placed (p :: ps) = p.2 ++ placed ps :=
  List.flatMap_cons

theorem placed_eq_nil {ps : List Part} (h : ∀ p ∈ ps, p.2 = []) : placed ps = [] :=
  List.flatMap_eq_nil_iff.mpr h

end Part
end Rollcall
