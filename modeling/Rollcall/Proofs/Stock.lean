import Rollcall.Proofs.Outlet

/-!
# What calls leave alone

The stock of a hub is what chunks leave behind beside the members that are given out: the cache and
the statistics. Calls and readers do not change it, however they move on, nor the queues of the loops
and the clock (`Hub.aside`); and the end of a task leaves the stock as it is.
-/

namespace Rollcall

theorem Move.All.imp {σ τ ρ : Type} {P Q : σ → Prop} {m : Move σ τ ρ} (hm : m.All P)
    (hpq : ∀ {s}, P s → Q s) : m.All Q := by
  cases m with
  | blocked => trivial
  | moved s x => exact hpq hm
  | done s x => exact hpq hm

theorem Book.cache_deregisterRequest (b : Book) (id : RequestId) :
    (b.deregisterRequest id).2.cache = b.cache := by
  unfold deregisterRequest
  split
  · rfl
  · split <;> rfl

theorem Book.cache_cancel (b : Book) (id : RequestId) : (b.cancel id).2.cache = b.cache := by
  have hderegister := b.cache_deregisterRequest id
  unfold cancel
  split
  · rfl
  split
  · rfl
  split
  · rename_i heq
    rw [heq] at hderegister
    exact hderegister
  · rename_i heq
    rw [heq] at hderegister
    exact hderegister

theorem Book.cache_recv (b : Book) (id : RequestId) : (b.recv id).2.cache = b.cache := by
  unfold recv
  split <;> rfl

theorem Book.cache_dropStream (b : Book) (id : RequestId) : (b.dropStream id).cache = b.cache :=
  b.cache_cancel id

theorem Book.cache_shutdown (b : Book) : b.shutdown.2.cache = b.cache := by
  have swept (ids : List RequestId) (acc : Nat × Book) :
      (ids.foldl sweep acc).2.cache = acc.2.cache := by
    induction ids generalizing acc with
    | nil => rfl
    | cons id ids ih =>
      rw [List.foldl_cons, ih, sweep]
      split
      · rfl
      · split <;> rfl
  exact swept _ _

namespace Hub

variable {h h' : Hub} {t : TaskId}

structure Stock where
  cache : MemberCache
  stats : Stats
  caching : Bool

def stock (h : Hub) : Stock := ⟨h.book.cache, h.stats, h.caching⟩

structure Aside where
  cache : MemberCache
  stats : Stats
  caching : Bool
  loops : Array EventLoop
  now : Duration

def aside (h : Hub) : Aside := ⟨h.book.cache, h.stats, h.caching, h.loops, h.now⟩

theorem stock_of_aside (he : h'.aside = h.aside) : h'.stock = h.stock :=
  congrArg (fun a : Aside => Stock.mk a.cache a.stats a.caching) he

theorem aside_dropStream (h : Hub) (id : RequestId) : (h.dropStream id).aside = h.aside := by
  simp only [aside, dropStream, Book.cache_dropStream]

theorem aside_withBook {b : Book} (hb : b.cache = h.book.cache) :
    aside { h with book := b } = h.aside := by
  simp only [aside, hb]

theorem aside_recv {id : RequestId} {x : Reading} {b : Book} (hb : h.book.recv id = (x, b)) :
    aside { h with book := b } = h.aside := by
  have hcache := h.book.cache_recv id
  rw [hb] at hcache
  exact aside_withBook hcache

theorem afterSend_aside {c : Call} {id : RequestId} {result : SendResult} :
    (h.afterSend c id result).All fun g => g.aside = h.aside := by
  unfold afterSend
  split
  · exact h.aside_dropStream id
  · split <;> rfl

theorem start_aside (h : Hub) (t : TaskId) (i : Inquiry) : (h.start t i).2.aside = h.aside := by
  have issued (b : Book) : b.issue.2.cache = b.cache := rfl
  have registered (build : String → Request) :
      (h.book.registerWith build).2.cache = h.book.cache := by
    rw [Book.registerWith_eq]
    split
    · rename_i b heq
      rw [← issued h.book, heq]
    · rename_i nonce b heq
      rw [← issued h.book, heq]
  unfold start
  split
  · rfl
  split
  · rfl
  split
  · rfl
  split
  · rfl
  split
  · rfl
  simp only
  split
  · rename_i b heq
    refine aside_withBook ?_
    rw [← registered, heq]
  · rename_i id b heq
    have hcache : b.cache = h.book.cache := by rw [← registered, heq]
    unfold handOver
    simp only
    split
    · exact aside_withBook hcache
    · exact aside_withBook hcache

theorem advanceStart_aside {c : Call} :
    (h.advanceStart t c).All fun g => g.aside = h.aside := by
  unfold advanceStart
  split
  · rfl
  have hstart := h.start_aside t c.inquiry
  generalize h.start t c.inquiry = x at hstart
  obtain ⟨started, g⟩ := x
  have hstart : g.aside = h.aside := hstart
  cases started with
  | failed f => exact hstart
  | oversized => exact hstart
  | sent id result =>
    cases result with
    | none => exact hstart
    | some result =>
      have hsent : (g.afterSend (c.timed h.now) id result).All fun g' => g'.aside = g.aside :=
        afterSend_aside
      rw [hstart] at hsent
      exact hsent

theorem advanceReading_aside {c : Call} {id : RequestId} {got : List Member} :
    (h.advanceReading c id got).All fun g => g.aside = h.aside := by
  unfold advanceReading
  split
  · exact h.aside_dropStream id
  split
  · rename_i hb
    exact aside_recv hb
  · trivial
  · exact h.aside_dropStream id

theorem expire_aside {c : Call} : (h.expire c).All fun g => g.aside = h.aside := by
  unfold expire
  split
  · trivial
  split
  · trivial
  cases c.stage with
  | starting => rfl
  | sending id result => exact h.aside_dropStream id
  | reading id got => exact h.aside_dropStream id

theorem advanceCall_aside {c : Call} : (h.advanceCall t c).All fun g => g.aside = h.aside := by
  unfold advanceCall
  extract_lets inner
  have hinner : inner.All fun g => g.aside = h.aside := by
    simp only [inner]
    split
    · exact advanceStart_aside
    · trivial
    · exact afterSend_aside
    · exact advanceReading_aside
  clear_value inner
  cases inner with
  | blocked => exact expire_aside
  | moved g c' => exact hinner
  | done g o => exact hinner

theorem advanceReader_aside {id : RequestId} {goal : ReadGoal} {got : List Member} :
    (h.advanceReader id goal got).All fun g => g.aside = h.aside := by
  unfold advanceReader
  split
  · exact h.aside_dropStream id
  split
  · rename_i hb
    split
    · exact (aside_dropStream _ id).trans (aside_recv hb)
    · exact aside_recv hb
  · trivial
  · exact h.aside_dropStream id

theorem stock_abandon (h : Hub) (t : TaskId) (task : Task) :
    (h.abandon t task).stock = h.stock := by
  unfold abandon
  cases task with
  | call c =>
    simp only
    split
    · rfl
    · exact stock_of_aside (h.aside_dropStream _)
    · exact stock_of_aside (h.aside_dropStream _)
  | reader id goal got => exact stock_of_aside (h.aside_dropStream id)
  | handler e => rfl
  | delivering d => rfl
  | loop index current => cases current <;> rfl

end Hub
end Rollcall
