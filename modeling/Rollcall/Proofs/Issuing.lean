import Rollcall.Proofs.Starting
import Rollcall.Workbench

/-!
# How nonces are issued

The nonce that is issued is the first of the next sixteen candidates under which nothing waits. A
request is registered under the very nonce that would be issued, beside all that is registered;
where there is none, no request is made. Main statement: `first_free_issued`.
-/

namespace Rollcall

theorem Registry.size_insert {r : Registry} {nonce : String} (hfree : r.get? nonce = none)
    (id : RequestId) : (r.insert nonce id).size = r.size + 1 := by
  have hno : ¬r.entries.contains nonce = true := by
    rw [← Std.ExtTreeMap.isSome_getElem?_eq_contains, show r.entries[nonce]? = none from hfree]
    exact Bool.false_ne_true
  rw [size, insert, Std.ExtTreeMap.size_insert, size, if_neg]
  exact hno

namespace Book

variable {b : Book} {k : Nat}

structure FirstFree (b : Book) (k : Nat) : Prop where
  free : b.registry.get? (b.nonces.candidate k) = none
  taken : ∀ l < k, b.registry.get? (b.nonces.candidate l) ≠ none

theorem contains_iff {n : String} : b.registry.contains n = true ↔ b.registry.get? n ≠ none := by
  rw [Registry.contains_eq_isSome, Option.isSome_iff_ne_none]

theorem FirstFree.unique {l : Nat} (hk : b.FirstFree k) (hl : b.FirstFree l) : k = l := by
  rcases Nat.lt_trichotomy k l with h | h | h
  · exact absurd hk.free (hl.taken k h)
  · exact h
  · exact absurd hl.free (hk.taken l h)

theorem exhausted_iff :
    b.Exhausted ↔ ∀ k < NonceSource.attempts, b.registry.get? (b.nonces.candidate k) ≠ none :=
  forall₂_congr fun _ _ => contains_iff

theorem firstFree_eq (b : Book) :
    (b.Exhausted ∧ b.nonces.firstFree b.registry.contains NonceSource.attempts =
      (none, b.nonces.skip NonceSource.attempts)) ∨
    ∃ k < NonceSource.attempts, b.FirstFree k ∧
      b.nonces.firstFree b.registry.contains NonceSource.attempts =
        (some (b.nonces.candidate k), b.nonces.skip (k + 1)) := by
  rcases b.nonces.firstFree_cases b.registry.contains NonceSource.attempts with
    ⟨hall, he⟩ | ⟨k, hk, hfree, hbefore, he⟩
  · exact .inl ⟨hall, he⟩
  · refine .inr ⟨k, hk, ⟨?_, fun l hl => contains_iff.mp (hbefore l hl)⟩, he⟩
    rw [Registry.contains_eq_isSome] at hfree
    simpa using hfree

theorem firstFree_of_exhausted (he : b.Exhausted) :
    b.nonces.firstFree b.registry.contains NonceSource.attempts =
      (none, b.nonces.skip NonceSource.attempts) := by
  rcases b.firstFree_eq with ⟨-, heq⟩ | ⟨k, hk, hf, -⟩
  · exact heq
  · exact absurd he (not_exhausted hk hf.free)

theorem firstFree_of_free (hk : k < NonceSource.attempts) (hf : b.FirstFree k) :
    b.nonces.firstFree b.registry.contains NonceSource.attempts =
      (some (b.nonces.candidate k), b.nonces.skip (k + 1)) := by
  rcases b.firstFree_eq with ⟨he, -⟩ | ⟨l, -, hl, heq⟩
  · exact absurd he (not_exhausted hk hf.free)
  · rw [hf.unique hl]
    exact heq

/-! ## Issuing and registering -/

theorem issue_of_exhausted (he : b.Exhausted) :
    b.issue = (none, { b with nonces := b.nonces.skip NonceSource.attempts }) := by
  rw [issue, firstFree_of_exhausted he]

theorem issue_of_free (hk : k < NonceSource.attempts) (hf : b.FirstFree k) :
    b.issue = (some (b.nonces.candidate k), { b with nonces := b.nonces.skip (k + 1) }) := by
  rw [issue, firstFree_of_free hk hf]

section
variable {m : Type → Type} [Monad m] (build : String → m Request)

theorem registerBy_of_exhausted (he : b.Exhausted) :
    registerBy build NonceSource.attempts b =
      pure (none, { b with nonces := b.nonces.skip NonceSource.attempts }) := by
  rw [registerBy_eq, firstFree_of_exhausted he]

theorem registerBy_of_free (hk : k < NonceSource.attempts) (hf : b.FirstFree k) :
    registerBy build NonceSource.attempts b = build (b.nonces.candidate k) >>= fun r =>
      pure (some b.requests.size, b.enter (k + 1) (b.nonces.candidate k) r) := by
  rw [registerBy_eq, firstFree_of_free hk hf]
  rfl

end

theorem isSome_registerWith (build : String → Request) :
    (b.registerWith build).1.isSome ↔
      ∃ k < NonceSource.attempts, b.registry.get? (b.nonces.candidate k) = none := by
  rcases b.registerWith_cases build with ⟨he, hr⟩ | ⟨k, hk, hfree, hr⟩
  · rw [hr]
    refine ⟨nofun, fun ⟨k, hk, hfree⟩ => absurd he (not_exhausted hk hfree)⟩
  · rw [hr]
    exact ⟨fun _ => ⟨k, hk, hfree⟩, fun _ => rfl⟩

theorem registry_enter {n : Nat} {nonce : String} (hfree : b.registry.get? nonce = none)
    (r : Request) :
    (b.enter n nonce r).registry.size = b.registry.size + 1 ∧
      ∀ other, (b.enter n nonce r).registry.get? other =
        if nonce = other then some b.requests.size else b.registry.get? other :=
  ⟨Registry.size_insert hfree _, fun other => b.registry.get?_insert nonce other _⟩

end Book

namespace Workbench

variable {w : Workbench}

/-- A request is registered under the nonce that would be issued, or refused as that would be. -/
theorem act_registerWith (w : Workbench) (id : String) (capacity : Nat) (guild : GuildId)
    (filter : Option MemberPredicate) :
    (w.act (.registerWith id capacity guild filter)).1 = (w.act .issue).1 := by
  rcases w.book.firstFree_eq with ⟨he, -⟩ | ⟨k, hk, hf, -⟩
  · obtain ⟨-, hr⟩ | ⟨k, hk, hfree, -⟩ :=
      w.book.registerWith_cases (freshRequest capacity guild filter)
    · simp only [act, hr, Book.issue_of_exhausted he]
    · exact absurd he (Book.not_exhausted hk hfree)
  · have hr : w.book.registerWith (freshRequest capacity guild filter) = (some w.book.requests.size,
        w.book.enter (k + 1) (w.book.nonces.candidate k)
          (freshRequest capacity guild filter (w.book.nonces.candidate k))) :=
      congrArg Id.run (Book.registerBy_of_free _ hk hf)
    simp only [act, hr, Book.issue_of_free hk hf, Book.nonceOf_enter]
    rfl

end Workbench

/-- **The first free candidate is issued.** A request can be registered just if nothing waits under
one of the next sixteen candidates. If number `k` is the first of these, then all up to it are used
up, to issue a nonce as well as to register a request; the request is built once, for that nonce,
and its entry is added to those that there are. If there is none, sixteen are used up, nothing is
built and all stays as it is. A workbench answers both alike. -/
theorem first_free_issued (b : Book) :
    NonceSource.attempts = 16 ∧
    (∀ build, (b.registerWith build).1.isSome ↔
      ∃ k < NonceSource.attempts, b.registry.get? (b.nonces.candidate k) = none) ∧
    (∀ k < NonceSource.attempts, b.FirstFree k →
      b.issue = (some (b.nonces.candidate k), { b with nonces := b.nonces.skip (k + 1) }) ∧
      (∀ (m : Type → Type) [Monad m] (build : String → m Request),
        Book.registerBy build NonceSource.attempts b = build (b.nonces.candidate k) >>= fun r =>
          pure (some b.requests.size, b.enter (k + 1) (b.nonces.candidate k) r)) ∧
      ∀ r, (b.enter (k + 1) (b.nonces.candidate k) r).registry.size = b.registry.size + 1 ∧
        ∀ other, (b.enter (k + 1) (b.nonces.candidate k) r).registry.get? other =
          if b.nonces.candidate k = other then some b.requests.size else b.registry.get? other) ∧
    ((∀ k < NonceSource.attempts, b.registry.get? (b.nonces.candidate k) ≠ none) →
      b.issue = (none, { b with nonces := b.nonces.skip NonceSource.attempts }) ∧
      ∀ (m : Type → Type) [Monad m] (build : String → m Request),
        Book.registerBy build NonceSource.attempts b =
          pure (none, { b with nonces := b.nonces.skip NonceSource.attempts })) ∧
    ∀ w : Workbench, w.book = b → ∀ id capacity guild filter,
      (w.act (.registerWith id capacity guild filter)).1 = (w.act .issue).1 := by
  refine ⟨rfl, fun build => Book.isSome_registerWith build, fun k hk hf => ?_, fun hall => ?_,
    fun w _ => w.act_registerWith⟩
  · exact ⟨Book.issue_of_free hk hf, fun m _ build => Book.registerBy_of_free build hk hf,
      Book.registry_enter hf.free⟩
  · have he := Book.exhausted_iff.mpr hall
    exact ⟨Book.issue_of_exhausted he, fun m _ build => Book.registerBy_of_exhausted build he⟩

def Book.twiceTaken : Book :=
  { registry := Registry.empty.insert "a" 0, nonces := .scripted ["a", "a", "b"] }

theorem third_candidate_issued :
    Book.twiceTaken.FirstFree 2 ∧ Book.twiceTaken.issue.1 = some "b" ∧
      (Book.twiceTaken.enter 3 "b" (Workbench.freshRequest 1 ⟨1⟩ none "b")).registry.get? "a" =
        some 0 := by
  have ha : Book.twiceTaken.registry.get? "a" = some 0 := by
    rw [Book.twiceTaken, Registry.get?_insert, if_pos rfl]
  have hb : Book.twiceTaken.registry.get? "b" = none := by
    rw [Book.twiceTaken, Registry.get?_insert, if_neg (by decide)]
    rfl
  have hf : Book.twiceTaken.FirstFree 2 := by
    refine ⟨hb, fun l hl => ?_⟩
    have hc : Book.twiceTaken.nonces.candidate l = "a" := by
      obtain rfl | rfl : l = 0 ∨ l = 1 := by omega
      · rfl
      · rfl
    rw [hc, ha]
    exact Option.some_ne_none 0
  obtain ⟨hissue, -, hentries⟩ := (first_free_issued Book.twiceTaken).2.2.1 2 (by decide) hf
  refine ⟨hf, congrArg Prod.fst hissue, ?_⟩
  have hother := (hentries (Workbench.freshRequest 1 ⟨1⟩ none "b")).2 "a"
  rw [ha, if_neg (by decide)] at hother
  exact hother

end Rollcall
