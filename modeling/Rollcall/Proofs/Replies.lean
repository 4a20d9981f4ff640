import Mathlib.Data.List.Induction
import Rollcall.Peer.Responder
import Rollcall.Proofs.Encoding
import Rollcall.Proofs.Pieces

/-!
# What a peer replies

The chunks of a reply answer a command (`MemberCommand.Answers`): each carries its nonce and declares
how many they are, and together they hold what was selected and what was not found. A peer that has
a roster of the guild gives such a reply to the frame of the command, unless it would have too many
chunks. Main statement: `reply_loses_nothing`.
-/

namespace Rollcall

namespace MemberCommand

structure Answers (c : MemberCommand) (s : Selection) (cs : List Chunk) : Prop where
  nonempty : cs ≠ []
  guild : ∀ chunk ∈ cs, chunk.guild = c.guild
  nonce : ∀ chunk ∈ cs, chunk.nonce = some c.nonce
  count : ∀ chunk ∈ cs, chunk.count.toNat = cs.length
  members : cs.flatMap (·.members) = s.found
  notFound : cs.flatMap (·.notFound) = s.notFound

end MemberCommand

namespace MemberCommand

variable {c : MemberCommand} {s : Selection} {size : Nat}

theorem members_mapIdx (notFound : List UserId) (n : Nat) (parts : List (List Member)) :
    (parts.mapIdx fun i ms => c.chunk notFound n ms i).flatMap (·.members) = parts.flatten := by
  induction parts using List.reverseRecOn with
  | nil => rfl
  | append_singleton parts ms ih =>
    rw [List.mapIdx_concat, List.flatMap_append, ih, List.flatten_concat]
    simp [chunk]

/-- All but the last chunk of a reply list nothing as not found. -/
theorem notFound_mapIdx (notFound : List UserId) {n : Nat} (parts : List (List Member))
    (hlt : parts.length < n) :
    (parts.mapIdx fun i ms => c.chunk notFound n ms i).flatMap (·.notFound) = [] := by
  induction parts using List.reverseRecOn with
  | nil => rfl
  | append_singleton parts ms ih =>
    rw [List.length_append, List.length_singleton] at hlt
    rw [List.mapIdx_concat, List.flatMap_append, ih (by omega)]
    simp [chunk, Nat.ne_of_lt hlt]

theorem reply_answers (hfew : (pieces size s.found).length < 0x100000000) :
    c.Answers s (c.reply size s) := by
  have hreply : c.reply size s = (pieces size s.found).mapIdx fun i ms =>
      c.chunk s.notFound (pieces size s.found).length ms i := by rw [reply_eq, if_pos hfew]
  have hflat := flatten_pieces size s.found
  rw [hreply]
  rcases List.eq_nil_or_concat (pieces size s.found) with hnil | ⟨init, last, hparts⟩
  · exact absurd hnil (pieces_ne_nil size s.found)
  rw [List.concat_eq_append] at hparts
  have each {p : Chunk → Prop} (hp : ∀ ms i, p (c.chunk s.notFound (pieces size s.found).length ms i)) :
      ∀ chunk ∈ (pieces size s.found).mapIdx fun i ms =>
        c.chunk s.notFound (pieces size s.found).length ms i, p chunk := by
    intro chunk hm
    obtain ⟨i, hi, rfl⟩ := List.mem_mapIdx.mp hm
    exact hp _ _
  constructor
  · rw [hparts]
    simp
  · exact each fun _ _ => rfl
  · exact each fun _ _ => rfl
  · rw [List.length_mapIdx]
    exact each fun _ _ => UInt32.toNat_ofNat_of_lt' hfew
  · rw [members_mapIdx, hflat]
  · have hlength : (pieces size s.found).length = init.length + 1 := by
      rw [hparts, List.length_append, List.length_singleton]
    rw [hlength, hparts, List.mapIdx_concat, List.flatMap_append,
      notFound_mapIdx _ _ (Nat.lt_succ_self _)]
    simp [chunk]

theorem index_reply (hfew : (pieces size s.found).length < 0x100000000) :
    (c.reply size s).map (·.index.toNat) = List.range (pieces size s.found).length := by
  rw [reply_eq, if_pos hfew]
  apply List.ext_getElem
  · rw [List.length_map, List.length_mapIdx, List.length_range]
  · intro i hi _
    rw [List.length_map, List.length_mapIdx] at hi
    rw [List.getElem_map, List.getElem_mapIdx, List.getElem_range]
    exact UInt32.toNat_ofNat_of_lt' (Nat.lt_trans hi hfew)

theorem reply_full (hsize : 0 < size) (hfew : (pieces size s.found).length < 0x100000000) :
    ∃ full last, c.reply size s = full ++ [last] ∧
      (∀ chunk ∈ full, chunk.members.length = size ∧ chunk.notFound = []) ∧
      last.members.length ≤ size ∧ (last.members = [] → s.found = []) ∧
      last.notFound = s.notFound := by
  obtain ⟨full, last, hpieces, hfull, hlast, hempty⟩ := pieces_full hsize s.found
  have hcount : (full ++ [last]).length = full.length + 1 := by simp
  refine ⟨full.mapIdx fun i ms => c.chunk s.notFound (full.length + 1) ms i,
    c.chunk s.notFound (full.length + 1) last full.length, ?_, fun chunk hm => ?_, hlast, hempty, ?_⟩
  · rw [reply_eq, if_pos hfew, hpieces, hcount, List.mapIdx_concat]
  · obtain ⟨i, hi, rfl⟩ := List.mem_mapIdx.mp hm
    exact ⟨hfull _ (List.getElem_mem hi), if_neg (by omega)⟩
  · exact if_pos rfl

end MemberCommand

/-- **A reply loses nothing.** It takes so many chunks of the size for the members that were found,
one at least. If a chunk can declare their number, each dispatch of the reply is decoded to a chunk,
and there are so many. Together they answer the command: in their order they hold the members that
were found, and each declares how many they are and has the guild and the nonce of the command. They
are numbered from 0 on. All but the last are full; the last holds a member if there is any, and it
alone tells all that was not found. If no chunk can declare their number, there is no reply. -/
theorem reply_loses_nothing (c : MemberCommand) (s : Selection) {size count : Nat} (hsize : 0 < size)
    (hcount : count = max 1 (s.found.length ⌈/⌉ size)) :
    (count < UInt32.size → ∃ full last,
      (c.reply size s).map (fun chunk => Event.ofDispatch chunk.toDispatch) =
        (full ++ [last]).map (fun chunk => .ok (.chunk chunk)) ∧
      (full ++ [last]).length = count ∧ c.Answers s (full ++ [last]) ∧
      (full ++ [last]).map (·.index.toNat) = List.range count ∧
      (∀ chunk ∈ full, chunk.members.length = size ∧ chunk.notFound = []) ∧
      last.members.length ≤ size ∧ (s.found ≠ [] → 0 < last.members.length) ∧
      last.notFound = s.notFound) ∧
    (UInt32.size ≤ count → c.reply size s = []) := by
  rw [← length_pieces hsize] at hcount
  subst hcount
  constructor
  · intro hfew
    obtain ⟨full, last, hreply, hfull, hlast, hempty, hnotFound⟩ :=
      MemberCommand.reply_full (c := c) hsize hfew
    have hanswers := MemberCommand.reply_answers (c := c) hfew
    have hindex := MemberCommand.index_reply (c := c) hfew
    have hdecoded : (c.reply size s).map (fun chunk => Event.ofDispatch chunk.toDispatch) =
        (full ++ [last]).map (fun chunk => .ok (.chunk chunk)) := by
      rw [hreply]
      exact List.map_congr_left fun chunk _ => Event.ofDispatch_toDispatch chunk
    rw [hreply] at hanswers hindex
    have hlength : (full ++ [last]).length = (pieces size s.found).length := by
      rw [← List.length_range (n := (pieces size s.found).length), ← hindex, List.length_map]
    exact ⟨full, last, hdecoded, hlength, hanswers, hindex, hfull, hlast,
      fun hfound => List.length_pos_iff.mpr fun hnil => hfound (hempty hnil), hnotFound⟩
  · intro hmany
    rw [MemberCommand.reply_eq, if_neg (Nat.not_lt.mpr hmany)]

def oddSelection : Selection :=
  let m (id : UInt64) : Member := { user := { id := ⟨id⟩, username := "" } }
  ⟨[m 1, m 2, m 3], [⟨9⟩]⟩

theorem odd_in_pairs :
    0 < 2 ∧ 2 = max 1 (oddSelection.found.length ⌈/⌉ 2) ∧ ∃ first last : Chunk,
      (({ guild := ⟨7⟩, nonce := "x" } : MemberCommand).reply 2 oddSelection).map
          (fun chunk => Event.ofDispatch chunk.toDispatch) =
        [.ok (.chunk first), .ok (.chunk last)] ∧
      first.members ++ last.members = oddSelection.found ∧ first.members.length = 2 ∧
      first.notFound = [] ∧ last.notFound = [⟨9⟩] ∧ last.nonce = some "x" := by
  have hcount : 2 = max 1 (oddSelection.found.length ⌈/⌉ 2) := rfl
  obtain ⟨hreply, -⟩ :=
    reply_loses_nothing { guild := ⟨7⟩, nonce := "x" } oddSelection (by decide) hcount
  obtain ⟨full, last, hdecoded, hlength, hanswers, -, hfull, -, -, hnotFound⟩ := hreply (by decide)
  rw [List.length_append, List.length_singleton] at hlength
  obtain ⟨first, rfl⟩ := List.length_eq_one_iff.mp (Nat.succ.inj hlength)
  obtain ⟨hmembers, hnone⟩ := hfull first List.mem_cons_self
  have hflat := hanswers.members
  rw [List.singleton_append, List.flatMap_cons, List.flatMap_singleton] at hflat
  exact ⟨by decide, hcount, first, last, hdecoded, hflat, hmembers, hnone, hnotFound,
    hanswers.nonce last (List.mem_append_right _ List.mem_cons_self)⟩

theorem Peer.answer_toFrame (p : Peer) (c : MemberCommand) : p.answer c.toFrame =
    (p.roster? c.guild).elim [] fun r => c.reply p.chunkSize (r.select c) := by
  rw [answer, MemberCommand.ofFrame_toFrame]

end Rollcall
