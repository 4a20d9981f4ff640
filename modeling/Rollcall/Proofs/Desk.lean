import Rollcall.Proofs.Verdicts

/-!
# Chunks for one request

A desk is a book with the chunks that are being handed over to one of its requests, and those that
have been. Chunks are brought, move on by segments, end or are dropped, members are read, and the
rest of the book changes as it likes; the request is not cancelled, and its receiver stays. Whatever
happens then, the line is that of the chunks at hand (`Desk.Lined`), and the channel has been given
the accepted members of one chunk after the other (`Desk.Paid`).
-/

namespace Rollcall

structure Handed where
  members : List Member
  delivery : Delivery

/-- A chunk that is no longer at hand, with its result unless it was dropped. -/
structure Spent where
  members : List Member
  declared : UInt32
  result : Option Delivered

structure Desk where
  book : Book
  hands : TaskId → Option Handed
  -- the earliest first
  spent : List Spent

theorem Delivery.Turn.cancelled_moved {t : TaskId} {declared : UInt32} {r r' : Request}
    {stage stage' : Stage} (h : Turn t declared r stage r' (.inl stage')) :
    r'.cancelled = r.cancelled := by
  cases h <;> rfl

namespace Desk

def set (s : Desk) (t : TaskId) (b : Book) (x : Option Handed) : Desk :=
  { s with book := b, hands := Function.update s.hands t x }

def spend (s : Desk) (x : Handed) (result : Option Delivered) : Desk :=
  { s with spent := s.spent ++ [⟨x.members, x.delivery.declared, result⟩] }

def join (s : Desk) (id : RequestId) (t : TaskId) (x : Handed) (ms : List Member) : Desk :=
  s.set t (s.book.modify id (·.join t))
    (some { x with delivery := { x.delivery with stage := .inLine ms } })

inductive Step (id : RequestId) (s : Desk) : Desk → Prop
  | bring {t : TaskId} {ms : List Member} {declared : UInt32} {caching : Bool}
      (ht : s.hands t = none) :
      Step id s (s.set t s.book (some ⟨ms, id, declared, caching, .arriving ms⟩))
  -- a chunk is brought and joins the line, but does not go on yet
  | enter {t : TaskId} {ms : List Member} {declared : UInt32} {caching : Bool}
      (ht : s.hands t = none) :
      Step id s (s.join id t ⟨ms, id, declared, caching, .arriving ms⟩ ms)
  | goOn {t : TaskId} {x : Handed} {b : Book} {d : Delivery} (ht : s.hands t = some x)
      (hb : x.delivery.advance t s.book = .moved b d) :
      Step id s (s.set t b (some { x with delivery := d }))
  | finish {t : TaskId} {x : Handed} {b : Book} {out : Delivered} (ht : s.hands t = some x)
      (hb : x.delivery.advance t s.book = .done b out) :
      Step id s ((s.set t b none).spend x (some out))
  | drop {t : TaskId} {x : Handed} (ht : s.hands t = some x) :
      Step id s ((s.set t (x.delivery.interrupt t s.book) none).spend x none)
  -- a member is read, or something happens that is no concern of the request
  | aside {b : Book} {r r' : Request} (hq : s.book.requests[id]? = some r)
      (hq' : b.requests[id]? = some r') (hk : r.Kept r') (hlive : r'.cancelled = false)
      (hlistening : r'.channel.receiver = .listening) : Step id s { s with book := b }

inductive Steps (id : RequestId) (s : Desk) : Desk → Prop
  | none : Steps id s s
  | more {s' s'' : Desk} (hs : Steps id s s') (h : Step id s' s'') : Steps id s s''

structure Opens (id : RequestId) (s : Desk) : Prop where
  request : ∃ r, s.book.requests[id]? = some r ∧ r.Fresh
  hands : ∀ t, s.hands t = none
  spent : s.spent = []

/-! ## The line -/

/-- How a chunk at hand fits with the request: only the head of the line places members. -/
def Fits (x : Handed) (t : TaskId) (r : Request) : Prop :=
  match x.delivery.stage with
  | .arriving ms => ms = x.members ∧ t ∉ r.line
  | .inLine ms => ms = x.members ∧ t ∈ r.line
  | .placing _ _ _ _ => r.line.head? = some t ∧ r.complete = false

structure Lined (id : RequestId) (s : Desk) (r : Request) : Prop where
  request : s.book.requests[id]? = some r
  live : r.cancelled = false
  listening : r.channel.receiver = .listening
  sender : r.senderOpen = !r.complete
  own : ∀ {t x}, s.hands t = some x → x.delivery.request = id
  fits : ∀ {t x}, s.hands t = some x → Fits x t r
  held : ∀ {t}, t ∈ r.line → ∃ x, s.hands t = some x
  nodup : r.line.Nodup

section

variable {id : RequestId} {s s' : Desk} {r r' : Request} {t : TaskId} {x : Handed} {b : Book}

theorem hands_set (s : Desk) (t : TaskId) (b : Book) (x : Option Handed) (t' : TaskId) :
    (s.set t b x).hands t' = if t' = t then x else s.hands t' := by
  simp only [set, Function.update_apply]

theorem hands_join (s : Desk) (id : RequestId) (t : TaskId) (x : Handed) (ms : List Member)
    (t' : TaskId) : (s.join id t x ms).hands t' =
      if t' = t then some { x with delivery := { x.delivery with stage := .inLine ms } }
      else s.hands t' :=
  hands_set ..

theorem set_join (s : Desk) (id : RequestId) (t : TaskId) (x : Handed) (ms : List Member) (b : Book)
    (y : Option Handed) : (s.join id t x ms).set t b y = s.set t b y := by
  unfold join set
  rw [Function.update_idem]

theorem join_set (s : Desk) (id : RequestId) (t : TaskId) (x : Handed) (ms : List Member)
    (y : Option Handed) : (s.set t s.book y).join id t x ms = s.join id t x ms := by
  unfold join set
  rw [Function.update_idem]

theorem Fits.keep (hx : Fits x t r) (hmem : t ∈ r'.line ↔ t ∈ r.line)
    (hhead : r.line.head? = some t → r'.line.head? = some t)
    (hcomplete : r.line.head? = some t → r.complete = false → r'.complete = false) :
    Fits x t r' := by
  unfold Fits at hx ⊢
  split at hx
  · exact ⟨hx.1, fun hm => hx.2 (hmem.mp hm)⟩
  · exact ⟨hx.1, hmem.mpr hx.2⟩
  · exact ⟨hhead hx.1, hcomplete hx.1 hx.2⟩

theorem lined_of_opens (ho : Opens id s) : ∃ r, r.Fresh ∧ Lined id s r := by
  obtain ⟨r, hq, hf⟩ := ho.request
  obtain ⟨nonce, guild, filter, capacity, rfl⟩ := hf
  refine ⟨_, ⟨nonce, guild, filter, capacity, rfl⟩, hq, rfl, rfl, rfl, fun ht => ?_, fun ht => ?_,
    nofun, List.nodup_nil⟩
  · cases (ho.hands _).symm.trans ht
  · cases (ho.hands _).symm.trans ht

theorem Lined.bring (hl : Lined id s r) (ht : s.hands t = none) (ms : List Member)
    (declared : UInt32) (caching : Bool) :
    Lined id (s.set t s.book (some ⟨ms, id, declared, caching, .arriving ms⟩)) r := by
  have hnew : t ∉ r.line := by
    intro hm
    obtain ⟨x, hx⟩ := hl.held hm
    cases ht.symm.trans hx
  refine ⟨hl.request, hl.live, hl.listening, hl.sender, fun {t' x} h => ?_, fun {t' x} h => ?_,
    fun {t'} hm => ?_, hl.nodup⟩
  · rw [hands_set] at h
    split at h
    · cases h
      rfl
    · exact hl.own h
  · rw [hands_set] at h
    split at h
    · rename_i e
      subst e
      cases h
      exact ⟨rfl, hnew⟩
    · exact hl.fits h
  · obtain ⟨x, hx⟩ := hl.held hm
    have hne : t' ≠ t := by
      rintro rfl
      exact hnew hm
    exact ⟨x, by rw [hands_set, if_neg hne, hx]⟩

theorem Lined.join {ms : List Member} (hl : Lined id s r) (ht : s.hands t = some x)
    (hs : x.delivery.stage = .arriving ms) : Lined id (s.join id t x ms) (r.join t) := by
  have hfits := hl.fits ht
  rw [Fits, hs] at hfits
  obtain ⟨hms, hnew⟩ := hfits
  refine ⟨(Book.replaces_modify hl.request _).self, hl.live, hl.listening, hl.sender,
    fun {t' y} h => ?_, fun {t' y} h => ?_, fun {t'} hm => ?_, ?_⟩
  · rw [hands_join] at h
    split at h
    · cases h
      have hown : x.delivery.request = id := hl.own ht
      exact hown
    · exact hl.own h
  · rw [hands_join] at h
    split at h
    · rename_i e
      subst e
      cases h
      exact ⟨hms, List.mem_append_right _ (List.mem_singleton_self _)⟩
    · rename_i e
      refine (hl.fits h).keep (by simp [Request.join, e]) (fun hhead => ?_) fun _ hc => hc
      simp [Request.join, hhead]
  · rw [hands_join]
    split
    · exact ⟨_, rfl⟩
    · rename_i e
      exact hl.held (by simpa [Request.join, e] using hm)
  · refine List.nodup_append.mpr ⟨hl.nodup, List.pairwise_singleton _ t, fun a ha b hb => ?_⟩
    rw [List.mem_singleton.mp hb]
    rintro rfl
    exact hnew ha

theorem Lined.turn {d : Delivery} (hl : Lined id s r) (ht : s.hands t = some x)
    (hrep : s.book.Replaces id r' b) (hreq : d.request = id)
    (hturn : Delivery.Turn t x.delivery.declared r x.delivery.stage r' (.inl d.stage)) :
    Lined id (s.set t b (some { x with delivery := d })) r' ∧ r.line.head? = some t ∧
      r'.complete = r.complete ∧ r.complete = false := by
  obtain ⟨hline, hopen, hhead, m, rest, n, k, hstage⟩ := hturn.moved
  have hcomplete := hturn.chunks_moved.1
  have hcancelled := hturn.cancelled_moved
  obtain ⟨hhead, hnot⟩ : r.line.head? = some t ∧ r.complete = false := by
    rcases hhead with ⟨hhead, hsender⟩ | ⟨m, rest, n, k, hs⟩
    · refine ⟨hhead, ?_⟩
      rw [hl.sender] at hsender
      simpa using hsender
    · have hfits := hl.fits ht
      rw [Fits, hs] at hfits
      exact hfits
  refine ⟨⟨hrep.self, hcancelled.trans hl.live, hturn.reader.2.trans hl.listening, ?_,
    fun {t' y} h => ?_, fun {t' y} h => ?_, fun {t'} hm => ?_, hline ▸ hl.nodup⟩, hhead, hcomplete,
    hnot⟩
  · rw [hopen, hcomplete, hl.sender]
  · rw [hands_set] at h
    split at h
    · cases h
      exact hreq
    · exact hl.own h
  · rw [hands_set] at h
    split at h
    · rename_i e
      subst e
      cases h
      simp only [Fits, hstage]
      exact ⟨hline ▸ hhead, hcomplete.trans hnot⟩
    · exact (hl.fits h).keep (by rw [hline]) (fun hh => hline ▸ hh) fun _ hc => hcomplete.trans hc
  · rw [hands_set]
    split
    · exact ⟨_, rfl⟩
    · exact hl.held (hline ▸ hm)

theorem Lined.leave (hl : Lined id s r) (ht : s.hands t = some x) (result : Option Delivered)
    (hrep : s.book.Replaces id r' b) (hlive : r'.cancelled = false)
    (hlistening : r'.channel.receiver = .listening) (hsender : r'.senderOpen = !r'.complete)
    (hline : r'.line = r.line.erase t)
    (hcomplete : r.line.head? ≠ some t → r'.complete = r.complete) :
    Lined id ((s.set t b none).spend x result) r' := by
  have hmem {t' : TaskId} (hne : t' ≠ t) : t' ∈ r'.line ↔ t' ∈ r.line := by
    rw [hline]
    exact List.mem_erase_of_ne hne
  refine ⟨hrep.self, hlive, hlistening, hsender, fun {t' y} h => ?_, fun {t' y} h => ?_,
    fun {t'} hm => ?_, ?_⟩
  · rw [spend, hands_set] at h
    split at h
    · cases h
    · exact hl.own h
  · rw [spend, hands_set] at h
    split at h
    · cases h
    · rename_i e
      refine (hl.fits h).keep (hmem e) (fun hhead => ?_) fun hhead hc => ?_
      · rw [hline]
        exact head?_erase_of_ne hhead e
      · rw [hcomplete, hc]
        intro hhead'
        exact e (Option.some.inj (hhead.symm.trans hhead'))
  · have hne : t' ≠ t := by
      rintro rfl
      rw [hline] at hm
      exact hl.nodup.not_mem_erase hm
    rw [spend, hands_set, if_neg hne]
    exact hl.held ((hmem hne).mp hm)
  · rw [hline]
    exact hl.nodup.erase t

end

/-! ## The channel -/

/-- What has been placed of a chunk that is no longer at hand: all that the request accepts, unless
the chunk was dropped or came too late. -/
def Allows (keep : Member → Bool) (e : Spent) (ms : List Member) : Prop :=
  match e.result with
  | none => ms <+: e.members.filter keep
  | some out => ms = if out.verdict = .abandoned then [] else e.members.filter keep

/-- An account of the channel: what has been placed of each chunk, and of the one that is being
placed. -/
structure Paid (s : Desk) (r : Request) (ps : List (Spent × List Member)) (now : List Member) :
    Prop where
  spent : ps.map (·.1) = s.spent
  allows : ∀ p ∈ ps, Allows r.accepts p.1 p.2
  placed : r.channel.placed = ps.flatMap (·.2) ++ now
  placing : ∀ {t x m rest n k}, s.hands t = some x → x.delivery.stage = .placing m rest n k →
    x.members.filter r.accepts = now ++ m :: rest.filter r.accepts
  idle : (∀ t x m rest n k, s.hands t = some x → x.delivery.stage ≠ .placing m rest n k) → now = []

section

variable {id : RequestId} {s s' : Desk} {r r' : Request} {t : TaskId} {x : Handed} {b : Book}
  {ps : List (Spent × List Member)} {now : List Member}

theorem Paid.keep (hp : Paid s r ps now) (hspent : s'.spent = s.spent)
    (haccepts : r'.accepts = r.accepts) (hplaced : r'.channel.placed = r.channel.placed)
    (hhands : ∀ {t x m rest n k}, x.delivery.stage = .placing m rest n k →
      (s'.hands t = some x ↔ s.hands t = some x)) : Paid s' r' ps now where
  spent := hp.spent.trans hspent.symm
  allows := by
    rw [haccepts]
    exact hp.allows
  placed := hplaced.trans hp.placed
  placing hx hs := by
    rw [haccepts]
    exact hp.placing ((hhands hs).mp hx) hs
  idle hno := hp.idle fun t x m rest n k hx hs => hno t x m rest n k ((hhands hs).mpr hx) hs

/-- Who is not placing yet joins or leaves the hands, and the account stays. -/
theorem hands_set_iff
    (hx : ∀ x m rest n k, s.hands t = some x → x.delivery.stage ≠ .placing m rest n k)
    {y : Option Handed} (hy : ∀ x m rest n k, y = some x → x.delivery.stage ≠ .placing m rest n k)
    {t' : TaskId} {x : Handed} {m : Member} {rest : List Member} {n k : Nat}
    (hs : x.delivery.stage = .placing m rest n k) :
    (s.set t b y).hands t' = some x ↔ s.hands t' = some x := by
  rw [hands_set]
  split
  · rename_i e
    subst e
    exact iff_of_false (fun h => hy x m rest n k h hs) fun h => hx x m rest n k h hs
  · exact .rfl

theorem Lined.placing_head (hl : Lined id s r) {m : Member} {rest : List Member} {n k : Nat}
    (ht : s.hands t = some x) (hs : x.delivery.stage = .placing m rest n k) :
    r.line.head? = some t ∧ r.complete = false := by
  have hfits := hl.fits ht
  rw [Fits, hs] at hfits
  exact hfits

/-- While the head of the line has not begun, nothing is being placed. -/
theorem Lined.now_eq_nil {ms : List Member} (hl : Lined id s r) (hp : Paid s r ps now)
    (ht : s.hands t = some x) (hhead : r.line.head? = some t)
    (hs : x.delivery.stage = .inLine ms) : now = [] := by
  apply hp.idle
  intro t' y m rest n k hy hstage
  have hhead' := (hl.placing_head hy hstage).1
  cases hhead.symm.trans hhead'
  cases ht.symm.trans hy
  cases hs.symm.trans hstage

theorem Lined.alone (hl : Lined id s r) (hhead : r.line.head? = some t) (t' : TaskId) (y : Handed)
    (m : Member) (rest : List Member) (n k : Nat) (hne : t' ≠ t) (hy : s.hands t' = some y) :
    y.delivery.stage ≠ .placing m rest n k := by
  intro hs
  exact hne (Option.some.inj ((hl.placing_head hy hs).1.symm.trans hhead))

theorem Lined.turn_pays {d : Delivery} (hl : Lined id s r) (hp : Paid s r ps now)
    (ht : s.hands t = some x)
    (hturn : Delivery.Turn t x.delivery.declared r x.delivery.stage r' (.inl d.stage)) :
    ∃ now, Paid (s.set t b (some { x with delivery := d })) r' ps now := by
  obtain ⟨-, -, -, m', rest', n', k', hstage'⟩ := hturn.moved
  -- Only this task places members afterwards.
  have paid {q : Request} {now' : List Member} (haccepts : q.accepts = r.accepts)
      (hplaced : q.channel.placed = ps.flatMap (·.2) ++ now')
      (hsplit : x.members.filter r.accepts = now' ++ m' :: rest'.filter r.accepts)
      (hhead : r.line.head? = some t) :
      Paid (s.set t b (some { x with delivery := d })) q ps now' := by
    refine ⟨hp.spent, by rw [haccepts]; exact hp.allows, hplaced, fun hy hs => ?_, fun hno => ?_⟩
    · rw [hands_set] at hy
      split at hy
      · cases hy
        cases hstage'.symm.trans hs
        rw [haccepts]
        exact hsplit
      · rename_i hne
        exact absurd hs (hl.alone hhead _ _ _ _ _ _ hne hy)
    · refine absurd hstage' (hno t { x with delivery := d } m' rest' n' k' ?_)
      rw [hands_set, if_pos rfl]
  have hfits := hl.fits ht
  generalize hst : x.delivery.stage = stage at hturn
  rw [hstage'] at hturn
  cases hturn with
  | first head sender live found =>
    rw [Fits, hst] at hfits
    obtain ⟨rfl, -⟩ := hfits
    have hnow := hl.now_eq_nil hp ht head hst
    subst hnow
    exact ⟨[], paid rfl hp.placed found head⟩
  | next live listening room found =>
    rename_i m rest n k
    have hsplit := hp.placing ht hst
    refine ⟨now ++ [m], paid rfl ?_ ?_ (hl.placing_head ht hst).1⟩
    · rw [← List.append_assoc, ← hp.placed]
      exact Channel.placed_place _ _
    · rw [hsplit, found, List.append_assoc]
      rfl

/-- A chunk leaves the hands of its task with `ms` placed: the task was the one that places members,
or it was not. -/
theorem Paid.leave {result : Option Delivered} {ms now' : List Member} (hp : Paid s r ps now)
    (ht : s.hands t = some x) (haccepts : r'.accepts = r.accepts)
    (hplaced : r'.channel.placed = ps.flatMap (·.2) ++ ms ++ now')
    (hallows : Allows r.accepts ⟨x.members, x.delivery.declared, result⟩ ms)
    (hnow : (now' = [] ∧ ∀ t' y m rest n k, t' ≠ t → s.hands t' = some y →
        y.delivery.stage ≠ .placing m rest n k) ∨
      (now' = now ∧ ∀ m rest n k, x.delivery.stage ≠ .placing m rest n k)) :
    Paid ((s.set t b none).spend x result) r'
      (ps ++ [(⟨x.members, x.delivery.declared, result⟩, ms)]) now' := by
  have other {t' : TaskId} (hne : t' ≠ t) :
      ((s.set t b none).spend x result).hands t' = s.hands t' := by
    rw [spend, hands_set, if_neg hne]
  have hself : ((s.set t b none).spend x result).hands t = none := by
    rw [spend, hands_set, if_pos rfl]
  refine ⟨?_, fun p hm => ?_, ?_, fun {t' y m rest n k} hy hs => ?_, fun hno => ?_⟩
  · rw [List.map_append, hp.spent]
    rfl
  · rw [haccepts]
    rcases List.mem_append.mp hm with hm | hm
    · exact hp.allows p hm
    · rw [List.mem_singleton.mp hm]
      exact hallows
  · rw [hplaced]
    simp
  · have hne : t' ≠ t := by
      rintro rfl
      cases hself.symm.trans hy
    rw [other hne] at hy
    rcases hnow with ⟨-, halone⟩ | ⟨rfl, -⟩
    · exact absurd hs (halone t' y m rest n k hne hy)
    · rw [haccepts]
      exact hp.placing hy hs
  · rcases hnow with ⟨rfl, -⟩ | ⟨rfl, hx⟩
    · rfl
    · apply hp.idle
      intro t' y m rest n k hy
      by_cases e : t' = t
      · subst e
        cases ht.symm.trans hy
        exact hx m rest n k
      · exact hno t' y m rest n k ((other e).trans hy)

inductive Ends (r : Request) (declared : UInt32) (r' : Request) (out : Delivered) : Prop
  | late (hcomplete : r.complete = true) (hout : out = { verdict := .abandoned })
      (hcomplete' : r'.complete = true) (hchunks : r'.chunks = r.chunks)
      (hplaced : r'.channel.placed = r.channel.placed)
  | counted (hcomplete : r.complete = false) (hout : out.verdict = Delivery.lastVerdict r declared)
      (hcomplete' : r'.complete = r.completesAt declared) (hchunks : r'.chunks = nextWord r.chunks)

theorem sender_countChunk {q : Request} (hq : q.complete = false) (hsender : q.senderOpen = true)
    (declared : UInt32) : (q.countChunk declared).senderOpen = !(q.countChunk declared).complete ∧
      (q.countChunk declared).complete = q.completesAt declared := by
  rcases q.countChunk_cases declared with ⟨hlast, hcomplete, hopen⟩ | ⟨hlast, hcomplete, hopen⟩
  · rw [hcomplete, hopen, hlast]
    exact ⟨rfl, rfl⟩
  · rw [hcomplete, hopen, hlast, hq, hsender]
    exact ⟨rfl, rfl⟩

/-- A chunk comes to its end because it came too late, or with its last member placed: `q` is the
request before the chunk is counted. -/
theorem Lined.end_cases {out : Delivered} (hl : Lined id s r) (hp : Paid s r ps now)
    (ht : s.hands t = some x)
    (hturn : Delivery.Turn t x.delivery.declared r x.delivery.stage r' (.inr out)) :
    (r.complete = true ∧ r' = r.leave t ∧ out = { verdict := .abandoned } ∧ now = []) ∨
      r.complete = false ∧ out.verdict = Delivery.lastVerdict r x.delivery.declared ∧
        ∃ q : Request, r' = (q.countChunk x.delivery.declared).leave t ∧ q.cancelled = false ∧
          q.senderOpen = true ∧ q.complete = false ∧ q.chunks = r.chunks ∧
          q.channel.placed = ps.flatMap (·.2) ++ x.members.filter r.accepts := by
  have hfits := hl.fits ht
  generalize hst : x.delivery.stage = stage at hturn
  cases hturn with
  | late head closed =>
    have hcomplete : r.complete = true := by
      rw [hl.sender] at closed
      simpa using closed
    exact .inl ⟨hcomplete, rfl, rfl, hl.now_eq_nil hp ht head hst⟩
  | refused head sender dead => cases hl.live.symm.trans dead
  | cut dead =>
    have hdead : r.cancelled = false ∧ r.channel.isListening = true :=
      ⟨hl.live, by simp [Channel.isListening, hl.listening]⟩
    simp [hdead.1, hdead.2] at dead
  | nothing head sender live found hv =>
    have hcomplete : r.complete = false := by
      rw [hl.sender] at sender
      simpa using sender
    rw [Fits, hst] at hfits
    obtain ⟨rfl, -⟩ := hfits
    have hplaced := hp.placed
    rw [hl.now_eq_nil hp ht head hst] at hplaced
    refine .inr ⟨hcomplete, hv, r, rfl, live, sender, hcomplete, rfl, ?_⟩
    rw [hplaced, found]
  | last live listening room found hv =>
    rename_i m rest n k
    have hcomplete := (hl.placing_head ht hst).2
    have hsender : r.senderOpen = true := by
      rw [hl.sender, hcomplete]
      rfl
    have hsplit := hp.placing ht hst
    rw [found] at hsplit
    refine .inr ⟨hcomplete, hv, r.place m, rfl, live, hsender, hcomplete, rfl, ?_⟩
    rw [hsplit, ← List.append_assoc, ← hp.placed]
    exact Channel.placed_place _ _

theorem allows_counted {out : Delivered} (keep : Member → Bool)
    (hv : out.verdict = Delivery.lastVerdict r x.delivery.declared) :
    Allows keep ⟨x.members, x.delivery.declared, some out⟩ (x.members.filter keep) := by
  have hne : out.verdict ≠ .abandoned := by
    rw [hv, Delivery.lastVerdict]
    split <;> decide
  rw [Allows]
  simp only [if_neg hne]

theorem Lined.ended {out : Delivered} (hl : Lined id s r) (hp : Paid s r ps now)
    (ht : s.hands t = some x) (hrep : s.book.Replaces id r' b)
    (hturn : Delivery.Turn t x.delivery.declared r x.delivery.stage r' (.inr out)) :
    Lined id ((s.set t b none).spend x (some out)) r' ∧
      (∃ ps now, Paid ((s.set t b none).spend x (some out)) r' ps now) ∧
      Ends r x.delivery.declared r' out := by
  obtain ⟨hline, hhead⟩ := hturn.ended
  have hlistening := hturn.reader.2.trans hl.listening
  have haccepts : r'.accepts = r.accepts := Ordered.accepts_eq hturn.later.filter
  have hhead : r.line.head? = some t := by
    rcases hhead with hhead | ⟨m, rest, n, k, hs⟩
    · exact hhead
    · exact (hl.placing_head ht hs).1
  have hother := hl.alone hhead
  have left (hlive : r'.cancelled = false) (hsender : r'.senderOpen = !r'.complete) :
      Lined id ((s.set t b none).spend x (some out)) r' :=
    hl.leave ht (some out) hrep hlive hlistening hsender hline (absurd hhead)
  have paid {ms : List Member} (hplaced : r'.channel.placed = ps.flatMap (·.2) ++ ms)
      (hallows : Allows r.accepts ⟨x.members, x.delivery.declared, some out⟩ ms) :
      ∃ ps now, Paid ((s.set t b none).spend x (some out)) r' ps now := by
    refine ⟨_, [], hp.leave ht haccepts ?_ hallows (.inl ⟨rfl, hother⟩)⟩
    rw [hplaced, List.append_nil]
  rcases hl.end_cases hp ht hturn with ⟨hcomplete, rfl, rfl, rfl⟩ |
    ⟨hcomplete, hv, q, rfl, hlive, hsender, hopen, hchunks, hplaced⟩
  · exact ⟨left hl.live hl.sender, paid hp.placed rfl, .late hcomplete rfl hcomplete rfl rfl⟩
  · obtain ⟨hsender', hcomplete'⟩ := sender_countChunk hopen hsender x.delivery.declared
    have hcount : (q.countChunk x.delivery.declared).chunks = nextWord r.chunks := by
      rw [Request.chunks_countChunk, hchunks]
    have hcloses : q.completesAt x.delivery.declared = r.completesAt x.delivery.declared := by
      rw [Request.completesAt, Request.completesAt, hchunks]
    refine ⟨left ((q.cancelled_countChunk _).trans hlive) hsender',
      paid ?_ (allows_counted r.accepts hv), .counted hcomplete hv (hcomplete'.trans hcloses) hcount⟩
    rw [Request.leave, Request.channel_countChunk, hplaced]

end

end Desk
end Rollcall
