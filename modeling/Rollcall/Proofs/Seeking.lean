import Rollcall.Proofs.Handover

/-!
# What a delivery caches

A move of a delivery puts the members it comes past into the cache, and nothing else
(`Delivery.advance_seeks`). Those that it has come past are never put again.
-/

namespace Rollcall

namespace Delivery

variable {d d' : Delivery} {t : TaskId} {b b' : Book}

def sought (d : Delivery) : Move Book Delivery Delivered → List Member
  | .blocked => []
  | .moved _ d' => d.unsought.take (d.unsought.length - d'.unsought.length)
  | .done _ _ => d.unsought

/-- A move of the delivery caches what it comes past and leaves the rest to later moves. -/
def Seeks (d : Delivery) (b : Book) : Move Book Delivery Delivered → Prop
  | .blocked => True
  | .moved b' d' => d'.request = d.request ∧ d'.declared = d.declared ∧ d'.caching = d.caching ∧
      ∃ past, d.unsought = past ++ d'.unsought ∧ b'.cache = past.foldl (keep d.caching) b.cache
  | .done b' _ => b'.cache = d.unsought.foldl (keep d.caching) b.cache

theorem seek_past {caching : Bool} {filter : Option (Member → Bool)} (ms : List Member) :
    ∀ {cache cache' : MemberCache} {k k' : Nat} {m : Member} {rest : List Member},
      seek caching filter cache k ms = (cache', k', some (m, rest)) →
        ∃ past, ms = past ++ rest ∧ cache' = past.foldl (keep caching) cache := by
  induction ms with
  | nil =>
    intro cache cache' k k' m rest h
    cases h
  | cons m₀ ms ih =>
    intro cache cache' k k' m rest h
    simp only [seek] at h
    split at h
    · cases h
      exact ⟨[m₀], rfl, rfl⟩
    · obtain ⟨past, rfl, rfl⟩ := ih h
      exact ⟨m₀ :: past, rfl, rfl⟩

theorem proceed_seeks {b₀ : Book} {filter : Option (Member → Bool)} {last : Bool}
    {rest : List Member} {n k : Nat} (hd : d.unsought = rest) (hb : b.cache = b₀.cache) :
    d.Seeks b₀ (d.proceed t b filter last rest n k) := by
  unfold proceed
  split
  · rename_i cache k' m rest' hseek
    obtain ⟨past, hpast, hcache⟩ := seek_past rest hseek
    rw [hb] at hcache
    exact ⟨rfl, rfl, rfl, past, hd.trans hpast, hcache⟩
  · rename_i cache k' hseek
    have hcache := (seek_exhausted hseek).2.1
    rw [hb] at hcache
    rw [Seeks, hd]
    exact hcache

theorem abandon_seeks {b₀ : Book} {filter : Option (Member → Bool)} {rest : List Member}
    {n k : Nat} (hd : d.unsought = rest) (hb : b.cache = b₀.cache) :
    d.Seeks b₀ (d.abandon t b filter rest n k) := by
  rw [abandon, Seeks, hd, hb]

theorem begin_seeks {b₀ : Book} {r : Request} {ms : List Member} (hd : d.unsought = ms)
    (hb : b.cache = b₀.cache) : d.Seeks b₀ (d.begin t b r ms) := by
  unfold begin
  split
  · rw [Seeks, hd, hb]
  split
  · exact abandon_seeks hd hb
  · exact proceed_seeks hd hb

theorem advance_seeks (d : Delivery) (t : TaskId) (b : Book) : d.Seeks b (d.advance t b) := by
  unfold advance
  split
  · trivial
  cases hs : d.stage with
  | arriving ms =>
    have hd : d.unsought = ms := by simp only [unsought, hs]
    simp only
    split
    · exact begin_seeks hd rfl
    · exact ⟨rfl, rfl, rfl, [], hd, rfl⟩
  | inLine ms =>
    have hd : d.unsought = ms := by simp only [unsought, hs]
    simp only
    split
    · exact begin_seeks hd rfl
    · trivial
  | placing m rest n k =>
    have hd : d.unsought = rest := by simp only [unsought, hs]
    simp only
    split
    · exact abandon_seeks hd rfl
    split
    · exact proceed_seeks hd rfl
    · trivial

theorem sought_of_moved (h : d.advance t b = .moved b' d') :
    d'.request = d.request ∧ d'.declared = d.declared ∧ d'.caching = d.caching ∧
      d.unsought = d.sought (d.advance t b) ++ d'.unsought ∧
      b'.cache = (d.sought (d.advance t b)).foldl (keep d.caching) b.cache := by
  have hseeks := d.advance_seeks t b
  rw [h] at hseeks ⊢
  obtain ⟨hrequest, hdeclared, hcaching, past, hpast, hcache⟩ := hseeks
  have htake : d.sought (.moved b' d') = past := by
    simp [sought, hpast]
  rw [htake]
  exact ⟨hrequest, hdeclared, hcaching, hpast, hcache⟩

theorem sought_of_done {out : Delivered} (h : d.advance t b = .done b' out) :
    d.sought (d.advance t b) = d.unsought ∧
      b'.cache = (d.sought (d.advance t b)).foldl (keep d.caching) b.cache := by
  have hseeks := d.advance_seeks t b
  rw [h] at hseeks ⊢
  exact ⟨rfl, hseeks⟩

end Delivery
end Rollcall
