import Rollcall.Proofs.Asking
import Rollcall.Proofs.Beginning
import Rollcall.Proofs.Finality
import Rollcall.Proofs.Sole

/-!
# Collecting a whole reply

Nothing comes between a call under a token and its request: it reads, it is not dropped, and neither
is any task with a chunk for the request; request and token are not cancelled (`Hub.Undisturbed`). If
chunks that declare how many they are begin to be handled one and all, in whatever order, then, as
soon as no task can move, the last one has completed the request and the call has ended with their
members (`Hub.Undisturbed.gathered`).
-/

namespace Rollcall

theorem dropped_of_arrival {j : List Occurrence} {id : RequestId} {x : Arrival}
    (hx : x ∈ arrivals j id) (hf : x.fate = .dropped) : ∃ t, .interrupted t id ∈ j := by
  induction j using List.reverseRecOn generalizing x with
  | nil => cases hx
  | append_singleton j o ih =>
    have before {y : Arrival} (hy : y ∈ arrivals j id) (hfy : y.fate = .dropped) :
        ∃ t, .interrupted t id ∈ j ++ [o] := by
      obtain ⟨t, ht⟩ := ih hy hfy
      exact ⟨t, List.mem_append_left _ ht⟩
    rw [arrivals_append, List.foldl_cons, List.foldl_nil] at hx
    cases o with
    | arrived t i c =>
      simp only [Arrival.meet] at hx
      split at hx
      · rcases List.mem_append.mp hx with hx | hx
        · exact before hx hf
        · rw [List.mem_singleton.mp hx] at hf
          cases hf
      · exact before hx hf
    | settled t i r =>
      simp only [Arrival.meet] at hx
      split at hx
      · obtain ⟨y, hy, rfl⟩ := List.mem_map.mp hx
        unfold Arrival.close at hf
        split at hf
        · cases hf
        · exact before hy hf
      · exact before hx hf
    | interrupted t i =>
      simp only [Arrival.meet] at hx
      split at hx
      · rename_i hi
        exact ⟨t, List.mem_append_right _ (by simp [hi])⟩
      · exact before hx hf
    | _ => exact before hx hf

namespace Hub

variable {h g : Hub} {t : TaskId} {id : RequestId} {token : Token} {past mid later : List Action}

/-! ## Reading on -/

def Collects (h : Hub) (t : TaskId) (id : RequestId) : Prop :=
  ∃ c got, h.task? t = some (.call c) ∧ c.stage = .reading id got

inductive Outlives (h : Hub) (past : List Action) (t : TaskId) (id : RequestId) (token : Token) : Prop
  | collects (hg : (h.after past).Collects t id)
  | ended {ms : List Member} (ho : (t, .members ms) ∈ (h.after past).finished)
  | dropped (ha : .dropTask t ∈ past)
  | cancelled (hc : (h.after past).isCancelled id = true)
  | stopped (htok : (h.after past).tokenCancelled (some token) = true)

theorem advanceReading_ended {c : Call} {got : List Member} {o : Outcome}
    (hm : h.advanceReading c id got = .done g o) : h.tokenCancelled (watched c.goal) = true ∨
      h.isCancelled id = true ∨ ∃ ms, o = .members ms := by
  unfold advanceReading at hm
  split at hm
  · exact .inl ‹_›
  split at hm
  · cases hm
  · cases hm
  · split at hm
    · exact .inr (.inl ‹_›)
    · cases hm
      exact .inr (.inr ⟨_, rfl⟩)

theorem outlives_segment (hn : h.IsNew) (hc : .called t (.members (some token)) ∈ h.journal past)
    (hg : (h.after past).Collects t id) : h.Outlives (.segment t :: past) t id token := by
  obtain ⟨c, got, ht, hs⟩ := hg
  have hreach := Reached.after hn past
  have hgoal : c.goal = .members (some token) := Option.some.inj (hreach.goal hc ht)
  have hexpire : (h.after past).expire c = .blocked := by
    rw [expire, hreach.deadline ht hgoal]
  have hcall := (h.after past).advanceCall_of_reading (t := t) hs
  have hadv : (h.after past).advanceCall t c = (h.after past).advanceReading c id got := by
    rcases hcall with ⟨hblocked, he⟩ | he
    · rw [he, hexpire, hblocked]
    · exact he
  cases (h.after past).segment_cases t with
  | waits hwait he =>
    have hself : (h.after (.segment t :: past)).task? t = some (.call c) := by
      rw [after, he]
      exact ht
    exact .collects ⟨c, got, hself, hs⟩
  | goesOn task task' g ht' hm hf he hself =>
    cases ht.symm.trans ht'
    obtain ⟨c', rfl, hmoved⟩ := advanceCall_of_moved hm
    rw [hadv] at hmoved
    obtain ⟨m, hs'⟩ := stage_of_advanceReading hmoved
    exact .collects ⟨c', m :: got, hself, hs'⟩
  | ends task g o ht' hm hf he hself =>
    cases ht.symm.trans ht'
    have hdone := advanceCall_of_done hm
    rw [hadv] at hdone
    rcases advanceReading_ended hdone with htok | hcancelled | ⟨ms, rfl⟩
    · rw [hgoal] at htok
      exact .stopped (tokenCancelled_perform htok _)
    · exact .cancelled (isCancelled_after hn hcancelled [.segment t])
    · have hfinished : (t, .members ms) ∈ (h.after (.segment t :: past)).finished := by
        rw [after, he]
        exact Array.mem_push_self
      exact .ended hfinished

theorem outlives (hn : h.IsNew) (hc : .called t (.members (some token)) ∈ h.journal mid)
    (hg : (h.after mid).Collects t id) : ∀ later, h.Outlives (later ++ mid) t id token
  | [] => .collects hg
  | a :: later => by
    have hc' : .called t (.members (some token)) ∈ h.journal (later ++ mid) := by
      rw [journal_append]
      exact List.mem_append_left _ hc
    cases outlives hn hc hg later with
    | collects hg =>
      by_cases ha : a = .segment t
      · rw [ha]
        exact outlives_segment hn hc' hg
      obtain ⟨c, got, ht, hs⟩ := hg
      cases (h.after (later ++ mid)).perform_task a t ha with
      | kept he => exact .collects ⟨c, got, he.trans ht, hs⟩
      | started task hsize => exact absurd (lt_of_task? ht) (by rw [hsize]; exact Nat.lt_irrefl _)
      | released c' i result ht' hs' =>
        cases ht.symm.trans ht'
        cases hs.symm.trans hs'
      | dropped ha => exact .dropped (by rw [ha]; exact List.mem_cons_self)
    | ended ho => exact .ended (mem_finished_after ho [a])
    | dropped ha => exact .dropped (List.mem_cons_of_mem _ ha)
    | cancelled hcancelled => exact .cancelled (isCancelled_after hn hcancelled [a])
    | stopped htok => exact .stopped (tokenCancelled_perform htok a)

/-! ## Calls that nothing comes between -/

/-- A call has begun to gather the members of a request, and since its start nothing has come
between. -/
structure Undisturbed (h : Hub) (past : List Action) (t : TaskId) (id : RequestId) (token : Token) :
    Prop where
  called : .called t (.members (some token)) ∈ h.journal past
  made : .made t id ∈ h.journal past
  collects : ∃ later earlier, past = later ++ earlier ∧ (h.after earlier).Collects t id
  kept : .dropTask t ∉ past
  handled : ∀ t', .interrupted t' id ∉ h.journal past
  live : (h.after past).isCancelled id = false
  token : (h.after past).tokenCancelled (some token) = false

namespace Undisturbed

variable (hu : h.Undisturbed past t id token) (hn : h.IsNew)
include hu hn

theorem called_before {earlier later : List Action} (he : past = later ++ earlier)
    (hg : (h.after earlier).Collects t id) :
    .called t (.members (some token)) ∈ h.journal earlier := by
  obtain ⟨c, got, ht, hs⟩ := hg
  have hcalled := called_of_call (Reached.after hn earlier) ht
  have hnow := hu.called
  rw [he] at hnow
  obtain ⟨c', hc', hgoal⟩ := call_of_called hn later hnow ht
  cases hc'
  rwa [hgoal] at hcalled

theorem collects_or_ended : (h.after past).Collects t id ∨
    ∃ ms, (t, .members ms) ∈ (h.after past).finished := by
  obtain ⟨later, earlier, he, hg⟩ := hu.collects
  have hout := outlives hn (hu.called_before hn he hg) hg later
  rw [← he] at hout
  cases hout with
  | collects hg => exact .inl hg
  | ended ho => exact .inr ⟨_, ho⟩
  | dropped ha => exact absurd ha hu.kept
  | cancelled hc => cases hc.symm.trans hu.live
  | stopped htok => cases htok.symm.trans hu.token

theorem request : ∃ r, (h.after past).book.requests[id]? = some r ∧ r.cancelled = false := by
  have hlt := ((Reached.after hn past).made_lt hu.made).2
  refine ⟨_, Array.getElem?_eq_getElem hlt, ?_⟩
  rw [← hu.live]
  exact (Book.isCancelled_eq (Array.getElem?_eq_getElem hlt)).symm

theorem completed {ms : List Member} (ho : (t, .members ms) ∈ (h.after past).finished) :
    (h.after past).scene.Completed id ms := by
  obtain ⟨i, hm, hc⟩ := completed_of_members hn ho
  obtain rfl := (Reached.after hn past).made_unique hu.made hm
  exact hc

variable (hq : (h.after past).Quiet)
include hq

theorem ended {x : Arrival} (hx : x ∈ arrivals (h.journal past) id) : ∃ v, x.fate = .ended v := by
  have hreach := Reached.after hn past
  cases hf : x.fate with
  | ended v => exact ⟨v, rfl⟩
  | dropped =>
    obtain ⟨t', ht'⟩ := dropped_of_arrival hx hf
    exact absurd ht' (hu.handled t')
  | underway =>
    obtain ⟨r, hr, -⟩ := hu.request hn
    obtain ⟨ps, hps⟩ := hreach.ordered hr
    rw [← hps.arrivals] at hx
    obtain ⟨p, hp, rfl⟩ := List.mem_map.mp hx
    obtain ⟨d, hd, rfl, -⟩ := hps.stands p hp (by simp [Arrival.isUnderway, hf])
    -- its task would be held up by a channel that is full, but the call reads it
    obtain ⟨r', hheld⟩ := heldUp_of_quiet hn hq hd
    rcases hu.collects_or_ended hn with ⟨c, got, ht, hs⟩ | ⟨ms, ho⟩
    · obtain ⟨r₀, hr₀, -, hempty⟩ := waiting_of_reads hn hq ht (.call hs)
      cases hr₀.symm.trans hheld.request
      have hfull := hheld.full
      rw [hempty, limits_after] at hfull
      exact absurd hn.capacity_pos (Nat.not_lt_of_le (Nat.le_of_eq hfull.symm))
    · obtain ⟨r₀, hr₀, hcomplete, -⟩ := hu.completed hn ho
      cases hr₀.symm.trans hheld.request
      cases hcomplete.symm.trans hheld.complete

/-- Chunks that declare how many they are have completed the request, the last one and no other. -/
theorem fates {cs : List Chunk} (hne : cs ≠ []) (hcs : arrivedAt (h.journal past) id = cs)
    (hcount : ∀ c ∈ cs, c.count.toNat = cs.length) :
    (arrivals (h.journal past) id).map (·.fate) =
        List.replicate (cs.length - 1) (.ended .pending) ++ [.ended .complete] ∧
      ∃ r, (h.after past).book.requests[id]? = some r ∧ r.complete = true := by
  obtain ⟨r, hr, hlive⟩ := hu.request hn
  have hchunks : (arrivals (h.journal past) id).map (·.chunk) = cs := (chunk_arrivals _ _).trans hcs
  have hlength : (arrivals (h.journal past) id).length = cs.length := by
    rw [← hchunks, List.length_map]
  have hsome : arrivals (h.journal past) id ≠ [] := by
    intro hnil
    rw [hnil] at hchunks
    exact hne hchunks.symm
  have hall (x : Arrival) (hx : x ∈ arrivals (h.journal past) id) :
      x.chunk.count.toNat = (arrivals (h.journal past) id).length := by
    rw [hlength]
    apply hcount
    rw [← hchunks]
    exact List.mem_map_of_mem hx
  have htally := (Reached.after hn past).tally hr hlive
  obtain ⟨hfates, hcomplete⟩ := htally.fates (fun x hx => hu.ended hn hq hx) hsome hall
  rw [hlength] at hfates
  exact ⟨hfates, r, hr, hcomplete⟩

/-- The call has ended with the members of the chunks that the filter accepts, in their order. -/
theorem gathered {cs : List Chunk} (hne : cs ≠ []) (hcs : arrivedAt (h.journal past) id = cs)
    (hcount : ∀ c ∈ cs, c.count.toNat = cs.length) {r : Request}
    (hr : (h.after past).book.requests[id]? = some r) :
    (t, .members ((cs.flatMap Chunk.stamped).filter r.accepts)) ∈ (h.after past).finished := by
  obtain ⟨hfates, r', hr', hcomplete⟩ := hu.fates hn hq hne hcs hcount
  cases hr'.symm.trans hr
  rcases hu.collects_or_ended hn with ⟨c, got, ht, hs⟩ | ⟨ms, ho⟩
  · obtain ⟨r₀, hr₀, hw, -⟩ := waiting_of_reads hn hq ht (.call hs)
    cases hr₀.symm.trans hr
    cases hw.1.symm.trans hcomplete
  obtain ⟨r₀, hr₀, -, hplaced⟩ := hu.completed hn ho
  cases hr₀.symm.trans hr
  obtain ⟨ps, hps⟩ := (Reached.after hn past).ordered hr
  have hwhole : ∀ p ∈ ps, p.2 = p.1.accepted r.accepts := by
    intro p hp
    have hx : p.1 ∈ arrivals (h.journal past) id := by
      rw [← hps.arrivals]
      exact List.mem_map_of_mem hp
    have hfate : p.1.fate = .ended .pending ∨ p.1.fate = .ended .complete := by
      have hmem := List.mem_map_of_mem (f := fun x : Arrival => x.fate) hx
      rw [hfates] at hmem
      rcases List.mem_append.mp hmem with hmem | hmem
      · exact .inl (List.eq_of_mem_replicate hmem)
      · exact .inr (List.mem_singleton.mp hmem)
    have hallows := hps.closed p hp (by rcases hfate with hf | hf <;> simp [Arrival.isUnderway, hf])
    unfold Arrival.Allows at hallows
    rcases hfate with hf | hf
    · rw [hf] at hallows
      exact hallows
    · rw [hf] at hallows
      exact hallows
  have hms : ms = (cs.flatMap Chunk.stamped).filter r.accepts := by
    calc ms = Part.placed ps := by rw [← hplaced, hps.placed]
      _ = ps.flatMap fun p => p.1.accepted r.accepts := List.flatMap_congr hwhole
      _ = ((arrivals (h.journal past) id).map (·.chunk)).flatMap
            fun c => c.stamped.filter r.accepts := by
          rw [← hps.arrivals, List.map_map, List.flatMap_map]
          rfl
      _ = (cs.flatMap Chunk.stamped).filter r.accepts := by
          rw [chunk_arrivals, hcs, List.filter_flatMap]
  rwa [hms] at ho

end Undisturbed

end Hub
end Rollcall
