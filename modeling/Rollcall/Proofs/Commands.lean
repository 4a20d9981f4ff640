import Rollcall.Proofs.Asking
import Rollcall.Proofs.Outlet
import Rollcall.Session

/-!
# Commands

What a shard is handed comes from one call, goes to the shard of the call's guild and says what the
call asks. Its nonce is registered before the shard has it, and no other request has that nonce, so
an answer finds its request however early it comes. Main statement: `command_faithful`.
-/

namespace Rollcall

namespace Hub

variable {h g : Hub} {t : TaskId} {c : Call} {shard : Shard} {k : Nat} {id : RequestId}

/-! ## The nonce of a request -/

theorem HandsOver.book (hover : h.HandsOver t c shard k) :
    (h.perform (.segment t)).book = (h.opened t c.inquiry shard k).2.book ∨
      (h.perform (.segment t)).book =
        (h.opened t c.inquiry shard k).2.book.dropStream h.book.requests.size := by
  have hopens := opens hover.call hover.starting
  generalize h.perform (.segment t) = h' at hopens
  have hstart := hover.start
  have hcall := hover.made
  simp only [occurrences, hover.call, Option.elim_some, segmentOccurrences, callOccurrences,
    hover.starting] at hcall
  cases hopens with
  | cancelled htok => simp [htok] at hcall
  | failed htok hst =>
    rw [hst] at hstart
    cases hstart
  | oversized htok hst =>
    rw [hst] at hstart
    cases hstart
  | held htok hst =>
    rw [hst] at hstart
    simp only [Prod.mk.injEq] at hstart
    exact .inl (by rw [← hstart.2]; rfl)
  | refused htok hst =>
    rw [hst] at hstart
    simp only [Prod.mk.injEq, Started.sent.injEq] at hstart
    right
    rw [← hstart.1.1, ← hstart.2]
    rfl
  | stream htok hst =>
    rw [hst] at hstart
    simp only [Prod.mk.injEq] at hstart
    exact .inl (by rw [← hstart.2]; rfl)
  | reading htok hst =>
    rw [hst] at hstart
    simp only [Prod.mk.injEq] at hstart
    exact .inl (by rw [← hstart.2]; rfl)

theorem HandsOver.request (hover : h.HandsOver t c shard k) :
    ∃ r, (h.perform (.segment t)).book.requests[h.book.requests.size]? = some r ∧
      r.nonce = h.book.nonces.candidate k ∧ r.filter = c.inquiry.filter := by
  have hview : (h.perform (.segment t)).book.view (fun r => (r.nonce, r.filter))
      h.book.requests.size = some (h.book.nonces.candidate k, c.inquiry.filter) := by
    have hentered : (h.opened t c.inquiry shard k).2.book.view (fun r => (r.nonce, r.filter))
        h.book.requests.size = some (h.book.nonces.candidate k, c.inquiry.filter) := by
      rw [book_opened]
      simp [Book.view, Book.enter, Inquiry.request]
    rcases hover.book with he | he
    · rw [he, hentered]
    · rw [he, Book.view_dropStream (fun _ => rfl) (fun _ => rfl), hentered]
  simp only [Book.view, Option.map_eq_some_iff, Prod.mk.injEq] at hview
  exact hview

theorem HandsOver.nonceOf (hover : h.HandsOver t c shard k) :
    (h.perform (.segment t)).book.nonceOf h.book.requests.size = h.book.nonces.candidate k := by
  obtain ⟨r, hr, hnonce, -⟩ := hover.request
  simp [Book.nonceOf, hr, hnonce]

theorem nonceOf_kept (hn : h.IsNew) {past : List Action} (hm : .made t id ∈ h.journal past)
    (later : List Action) :
    (h.after (later ++ past)).book.nonceOf id = (h.after past).book.nonceOf id := by
  have hreach := Reached.after hn past
  obtain ⟨r, hr⟩ : ∃ r, (h.after past).book.requests[id]? = some r :=
    ⟨_, Array.getElem?_eq_getElem (hreach.made_lt hm).2⟩
  obtain ⟨os, -, hch⟩ := h.changes_append past later
  obtain ⟨r', hr', hlater⟩ := hreach.later_changes hch id r hr
  have hr' : (h.after (later ++ past)).book.requests[id]? = some r' := hr'
  simp [Book.nonceOf, hr, hr', hlater.nonce]

/-! ## The stream that a call ends with -/

theorem ended_at (hn : h.IsNew) {past : List Action} {o : Outcome}
    (ho : (t, o) ∈ (h.after past).finished) : ∃ later earlier task g,
      past = later ++ .segment t :: earlier ∧ (h.after earlier).task? t = some task ∧
        (h.after earlier).advanceTask t task = .done g o ∧
        (h.after (.segment t :: earlier)).book = g.book := by
  induction past with
  | nil =>
    obtain ⟨limits, selection, shards, caching, nonces, rfl⟩ := hn.eq
    simp [after] at ho
  | cons a past ih =>
    have before (ho : (t, o) ∈ (h.after past).finished) : ∃ later earlier task g,
        a :: past = later ++ .segment t :: earlier ∧ (h.after earlier).task? t = some task ∧
          (h.after earlier).advanceTask t task = .done g o ∧
          (h.after (.segment t :: earlier)).book = g.book := by
      obtain ⟨later, earlier, task, g, rfl, hrest⟩ := ih ho
      exact ⟨a :: later, earlier, task, g, rfl, hrest⟩
    rcases (h.after past).finished_perform a with he | ⟨t', task, g, o', rfl, ht, hm, -, he, -⟩
    · rw [after, he] at ho
      exact before ho
    · have hafter : h.after (.segment t' :: past) = _ := he
      rw [hafter] at ho
      rcases Array.mem_push.mp ho with ho | ho
      · exact before ho
      · cases ho
        exact ⟨[], past, task, g, rfl, ht, hm, by rw [hafter]; rfl⟩

theorem advanceCall_stream {n : String} (hm : h.advanceCall t c = .done g (.stream id n)) :
    n = g.book.nonceOf id ∧ ((Task.call c).stream? = some id ∨
      c.stage = .starting ∧ .made t id ∈ h.callOccurrences t c) := by
  cases ending hm with
  | opened i hg hh ho =>
    cases ho
    refine ⟨rfl, ?_⟩
    cases hh with
    | told hs => exact .inl (by simp [Task.stream?, hs])
    | atOnce hs htoken hst => exact .inr ⟨hs, by simp [callOccurrences, hs, htoken, hst]⟩
  | expired d hd hdue ho => cases ho
  | cancelled ho => cases ho
  | refused f hs hst ho => cases ho
  | oversized hs hst ho => cases ho
  | unsent i cause hh ho => cases ho
  | gathered i got hs htoken hend hlive ho => cases ho

/-- The stream that a call ends with is that of its request, and the nonce it tells is the one that
the request has. -/
theorem stream_ended (hn : h.IsNew) {past : List Action} {i : RequestId} {n : String}
    (hm : .made t id ∈ h.journal past) (ho : (t, .stream i n) ∈ (h.after past).finished) :
    i = id ∧ n = (h.after past).book.nonceOf id := by
  obtain ⟨later, earlier, task, g, rfl, ht, hdone, hbook⟩ := ended_at hn ho
  obtain ⟨goal, hc⟩ := called_of_made (Reached.after hn _) hm
  have hsplit : later ++ .segment t :: earlier = (later ++ [.segment t]) ++ earlier := by simp
  rw [hsplit] at hc
  obtain ⟨c, rfl, -⟩ := call_of_called hn _ hc ht
  obtain ⟨hnonce, hown⟩ := advanceCall_stream (advanceCall_of_done hdone)
  have hmade : .made t i ∈ h.journal (.segment t :: earlier) := by
    rw [journal]
    rcases hown with hstream | ⟨-, hocc⟩
    · exact List.mem_append_left _ (((Reached.after hn earlier).made_iff ht i).mpr hstream)
    · apply List.mem_append_right
      simpa [occurrences, ht, segmentOccurrences] using hocc
  have hgrown : .made t i ∈ h.journal (later ++ .segment t :: earlier) := by
    obtain ⟨os, hj, -⟩ := h.changes_append (.segment t :: earlier) later
    rw [hj]
    exact List.mem_append_left _ hmade
  obtain rfl := (Reached.after hn _).made_unique hgrown hm
  rw [nonceOf_kept hn hmade later, hbook]
  exact ⟨rfl, hnonce⟩

/-! ## Finding the request -/

/-- Chunks with this nonce find this request, and it has no other nonce. -/
structure Answerable (h : Hub) (id : RequestId) (nonce : String) : Prop where
  registered : h.book.registry.get? nonce = some id
  only : ∀ n, h.book.registry.get? n = some id → n = nonce
  matched : ∀ chunk : Chunk, chunk.nonce = some nonce → h.match? chunk = some id
  arrives : ∀ chunk t, chunk.nonce = some nonce → h.task? t = some (.handler (.chunk chunk)) →
    .arrived t id chunk ∈ h.occurrences (.segment t)

theorem match?_eq {chunk : Chunk} {n : String} (hc : chunk.nonce = some n) :
    h.match? chunk = h.book.registry.get? n := by
  rw [match?, hc]
  rfl

/-- A chunk that is matched reaches the line of its request when it begins to be handled. -/
theorem arrived_of_match {chunk : Chunk} (ht : h.task? t = some (.handler (.chunk chunk)))
    (hm : h.match? chunk = some id) (hr : h.book.requests[id]? ≠ none) :
    .arrived t id chunk ∈ h.occurrences (.segment t) := by
  obtain ⟨r, hr⟩ := Option.ne_none_iff_exists'.mp hr
  simp only [occurrences, ht, Option.elim_some, segmentOccurrences, receipts, hm]
  have hmoves : (h.arrival id chunk).advance t h.book ≠ .blocked := by
    have hr : h.book.requests[(h.arrival id chunk).request]? = some r := hr
    unfold Delivery.advance
    rw [hr]
    simp only [arrival]
    split
    · exact Delivery.begin_ne_blocked
    · simp
  cases hadv : (h.arrival id chunk).advance t h.book with
  | blocked => exact absurd hadv hmoves
  | moved b d => simp
  | done b r => simp

theorem answerable_of_get? {nonce : String} (hget : h.book.registry.get? nonce = some id)
    (honly : ∀ n, h.book.registry.get? n = some id → n = nonce)
    (hr : h.book.requests[id]? ≠ none) : h.Answerable id nonce where
  registered := hget
  only := honly
  matched _ hc := (match?_eq hc).trans hget
  arrives _ _ hc ht := arrived_of_match ht ((match?_eq hc).trans hget) hr

theorem answerable_of_waiting (hn : h.IsNew) {past : List Action} {r : Request}
    (hr : (h.after past).book.requests[id]? = some r) (hw : r.Waiting) :
    (h.after past).Answerable id r.nonce := by
  have hsound := (Reached.after hn past).sound
  have hget := (hsound.get?_nonce hr).mpr hw
  refine answerable_of_get? hget (fun n hn' => (hsound.nonce_of_get? hr hn').symm) ?_
  rw [hr]
  simp

theorem answerable_opened (hb : h.book.Sound) (t : TaskId) (i : Inquiry) (shard : Shard) (k : Nat) :
    (h.opened t i shard k).2.Answerable h.book.requests.size (h.book.nonces.candidate k) := by
  have hbook := h.book_opened t i shard k
  have hnone : h.book.requests[h.book.requests.size]? = none := Array.getElem?_eq_none (Nat.le_refl _)
  apply answerable_of_get?
  · simp [hbook, Book.enter, Registry.get?_insert]
  · intro n hn
    simp only [hbook, Book.enter, Registry.get?_insert] at hn
    split at hn
    · rename_i e
      exact e.symm
    · obtain ⟨r, hr, -⟩ := (hb.registered n _).mp hn
      cases hnone.symm.trans hr
  · simp [hbook, Book.enter]

theorem HandsOver.other_shards (hover : h.HandsOver t c shard k) {j : Nat}
    (hj : j ≠ h.shardPlace c.inquiry.guild) : (h.perform (.segment t)).shards[j]? = h.shards[j]? := by
  have hshards : (h.perform (.segment t)).shards = (h.opened t c.inquiry shard k).2.shards :=
    congrArg Outlet.shards hover.outlet
  rw [hshards, (h.outlet_opened t c.inquiry shard k).2]
  split
  · rw [Array.getElem?_modify, if_neg (Ne.symm hj)]
  · rfl

end Hub

namespace Inquiry

variable (i : Inquiry) (nonce : String) (presences : Bool)

theorem nonce_command : (i.command nonce presences).nonce = nonce := by
  unfold command
  split <;> rfl

theorem presences_command : (i.command nonce presences).presences = presences := by
  unfold command
  split <;> rfl

theorem command_with (other : String) :
    { i.command nonce presences with nonce := other } = i.command other presences := by
  unfold command
  split <;> rfl

end Inquiry

/-- The inquiry of a call and the shard of its guild decide what is handed over, but for the nonce. -/
theorem Hub.handed_says {h : Hub} (hn : h.IsNew) (hsize : h.shards.size < UInt64.size)
    {past : List Action} {t : TaskId} {i : Inquiry} {number : UInt32} {cmd : MemberCommand}
    (hm : (t, number, cmd) ∈ h.handed past) (hask : h.Asked past t i) : ∃ shard : Shard,
      (h.shards[h.shardPlace i.guild]?).map Shard.identity = some shard.identity ∧
        shard.number = number ∧
        i.command cmd.nonce (shard.intents.contains .guildPresences) = cmd := by
  obtain ⟨k, hk⟩ := List.getElem?_of_mem hm
  obtain ⟨later, earlier, c, shard, n, rfl, -, hover, he⟩ := handed_split hsize hk
  obtain ⟨rfl, rfl⟩ := Prod.mk.inj he
  obtain rfl : c.inquiry = i := by
    obtain ⟨mid, a, first, rfl, ha, hfirst⟩ := asked hn hover.call
    exact asked_unique ⟨later ++ .segment t :: mid, a, first, by simp, ha, hfirst⟩ hask
  refine ⟨shard, identity_of_serves hsize hover.admits.serves, rfl, ?_⟩
  rw [Inquiry.nonce_command]

def MemberCommand.Says (cmd : MemberCommand) (i : Inquiry) (limits : Limits) : Prop :=
  cmd.guild = i.guild ∧
    ((∃ ids, i.scope = .users ids ∧ cmd.users = some ids ∧
        ids.length ≤ limits.idsPerRequest.toNat ∧ cmd.query = none ∧ cmd.limit = none) ∨
      ∃ text limit, i.scope = .query text limit ∧ cmd.query = some text ∧ cmd.limit = some limit ∧
        cmd.users = none)

theorem Hub.Admits.says {h : Hub} {i : Inquiry} {shard : Shard} (ha : h.Admits i shard)
    (nonce : String) (presences : Bool) : (i.command nonce presences).Says i h.limits := by
  cases hs : i.scope with
  | users ids =>
    simp only [Inquiry.command, hs]
    exact ⟨rfl, .inl ⟨ids, hs, rfl, ha.few ids hs, rfl, rfl⟩⟩
  | query text limit =>
    simp only [Inquiry.command, hs]
    exact ⟨rfl, .inr ⟨text, limit, hs, rfl, rfl, rfl⟩⟩

theorem Session.startCall_asks (h : Hub) {form : Form}
    (hform : form ∈ [Form.plain, .underToken, .stream]) (ask : Ask) (token : Token) :
    ∃ a : Action, a.Asks ask.plain ∧ h.perform a = (Session.startCall h form ask token).2 ∧
      (Session.startCall h form ask token).1 = h.tasks.size := by
  cases form with
  | plain => exact ⟨_, .plain, rfl, rfl⟩
  | underToken => exact ⟨_, .underToken token, rfl, rfl⟩
  | stream => exact ⟨_, .stream, rfl, rfl⟩
  | inquiryStream => simp at hform
  | inquiryMembers => simp at hform

theorem Ask.scope_plain (ask : Ask) : ask.plain.guild = ask.guild ∧ ask.plain.scope =
    match ask.shape with
    | .users => .users ask.ids
    | .query => .query ask.query ask.limit
    | .all | .filter => .query "" 0 := by
  unfold Ask.plain
  cases ask.shape <;> exact ⟨rfl, rfl⟩

open Hub

/-- **Commands are faithful and answerable.** A command that was handed over comes from the first
segment of one call, which hands over nothing else. It goes to the shard at the place of the call's
guild, as it was there from the start, and to no other; it says what was asked, and so does every
command that is handed over for the same inquiry, but for the nonce. Its nonce is that of the call's
request, and of the stream if the call ends with one. In the moment in which the shard is handed the
command, and at all times after it at which the request still waits, chunks with the nonce find the
request. Calls of a shape ask the same in all their forms. -/
theorem command_faithful {h : Hub} (hn : h.IsNew) (hsize : h.shards.size < UInt64.size) :
    (∀ (past : List Action) (k : Nat) (number : UInt32) (cmd : MemberCommand),
      (h.after past).sent[k]? = some (number, cmd) →
      ∃ (t : TaskId) (c : Call) (shard : Shard) (id : RequestId) (later earlier : List Action),
        -- the one call that it comes from
        past = later ++ .segment t :: earlier ∧
        (h.handed past).map (·.2) = (h.after past).sent.toList ∧
        (h.handed past)[k]? = some (t, number, cmd) ∧ ((h.handed past).map (·.1)).count t = 1 ∧
        (h.after earlier).task? t = some (.call c) ∧ h.Asked earlier t c.inquiry ∧
        -- the shard that it goes to
        (h.after earlier).Serves c.inquiry.guild shard ∧ shard.number = number ∧
        (h.shards[h.shardPlace c.inquiry.guild]?).map Shard.identity = some shard.identity ∧
        (∀ j, j ≠ h.shardPlace c.inquiry.guild →
          (h.after (.segment t :: earlier)).shards[j]? = (h.after earlier).shards[j]?) ∧
        -- what it says
        cmd.Says c.inquiry h.limits ∧
        cmd.presences = shard.intents.contains .guildPresences ∧
        (∀ past' t' number' cmd', (t', number', cmd') ∈ h.handed past' →
          h.Asked past' t' c.inquiry → number' = number ∧ { cmd' with nonce := cmd.nonce } = cmd) ∧
        -- its nonce
        .made t id ∈ h.journal past ∧ (h.after past).book.nonceOf id = cmd.nonce ∧
        (∀ i n, (t, .stream i n) ∈ (h.after past).finished → i = id ∧ n = cmd.nonce) ∧
        ((h.after earlier).start t c.inquiry).2.sent =
          (h.after earlier).sent.push (number, cmd) ∧
        ((h.after earlier).start t c.inquiry).2.Answerable id cmd.nonce ∧
        ∀ between r, (h.after (between ++ .segment t :: earlier)).book.requests[id]? = some r →
          r.complete = false → r.cancelled = false →
          (h.after (between ++ .segment t :: earlier)).Answerable id cmd.nonce) ∧
    ∀ (s : Hub) (form : Form) (ask : Ask) (token : Token),
      form ∈ [Form.plain, .underToken, .stream] →
      (∃ a : Action, a.Asks ask.plain ∧ s.perform a = (Session.startCall s form ask token).2 ∧
        (Session.startCall s form ask token).1 = s.tasks.size) ∧
      ask.plain.guild = ask.guild ∧ ask.plain.scope =
        match ask.shape with
        | .users => .users ask.ids
        | .query => .query ask.query ask.limit
        | .all | .filter => .query "" 0 := by
  refine ⟨fun past k number cmd hk => ?_, fun s form ask token hform =>
    ⟨Session.startCall_asks s hform ask token, ask.scope_plain⟩⟩
  have hlist : (h.handed past).map (·.2) = (h.after past).sent.toList := handed_sent hsize hn past
  obtain ⟨t, hkey⟩ : ∃ t, (h.handed past)[k]? = some (t, number, cmd) := by
    have hget : ((h.handed past).map (·.2))[k]? = some (number, cmd) := by
      rw [hlist, Array.getElem?_toList, hk]
    rw [List.getElem?_map, Option.map_eq_some_iff] at hget
    obtain ⟨⟨t, e⟩, he, rfl⟩ := hget
    exact ⟨t, he⟩
  obtain ⟨later, earlier, c, shard, n, rfl, -, hover, he⟩ := handed_split hsize hkey
  obtain ⟨rfl, rfl⟩ := Prod.mk.inj he
  have hserves := hover.admits.serves
  have hmade : .made t (h.after earlier).book.requests.size ∈ h.journal (.segment t :: earlier) := by
    rw [journal, hover.made]
    exact List.mem_append_right _ List.mem_cons_self
  have hnonce (between : List Action) : (h.after (between ++ .segment t :: earlier)).book.nonceOf
      (h.after earlier).book.requests.size = (h.after earlier).book.nonces.candidate n := by
    rw [nonceOf_kept hn hmade between]
    exact hover.nonceOf
  have hgrown : .made t (h.after earlier).book.requests.size ∈
      h.journal (later ++ .segment t :: earlier) := by
    obtain ⟨os, hj, -⟩ := h.changes_append (.segment t :: earlier) later
    rw [hj]
    exact List.mem_append_left _ hmade
  refine ⟨t, c, shard, (h.after earlier).book.requests.size, later, earlier, rfl, hlist, hkey, ?_,
    hover.call, asked hn hover.call, hserves, rfl, identity_of_serves hsize hserves, ?_, ?_,
    Inquiry.presences_command _ _ _, ?_, hgrown, ?_, ?_, ?_, ?_, ?_⟩
  · have hmem := List.mem_map_of_mem (f := Prod.fst) (List.mem_of_getElem? hkey)
    exact List.count_eq_one_of_mem (nodup_handed hsize hn _) hmem
  · intro j hj
    exact hover.other_shards (by rwa [shardPlace_after hsize])
  · rw [← h.limits_after earlier]
    exact hover.admits.says _ _
  · intro past' t' number' cmd' hmem hask
    obtain ⟨shard', hone, hnumber, hcmd⟩ := handed_says hn hsize hmem hask
    have hsame := Option.some.inj (hone.symm.trans (identity_of_serves hsize hserves))
    obtain ⟨hnumber', hintents⟩ := Prod.mk.inj hsame
    refine ⟨hnumber.symm.trans hnumber', ?_⟩
    rw [← hcmd, Inquiry.command_with, hintents, Inquiry.nonce_command]
  · rw [hnonce later, Inquiry.nonce_command]
  · intro i m ho
    obtain ⟨rfl, rfl⟩ := stream_ended hn hgrown ho
    rw [hnonce later, Inquiry.nonce_command]
    exact ⟨rfl, rfl⟩
  · rw [hover.start]
    exact (outlet_opened _ t c.inquiry shard n).1
  · rw [hover.start, Inquiry.nonce_command]
    exact answerable_opened (Reached.after hn earlier).sound t c.inquiry shard n
  · intro between r hr hc hd
    have hrn := hnonce between
    simp only [Book.nonceOf, hr, Option.elim_some] at hrn
    rw [Inquiry.nonce_command, ← hrn]
    exact answerable_of_waiting hn hr ⟨hc, hd⟩

theorem held_command_answerable :
    (Hub.sample .hold).IsNew ∧
      ((Hub.sample .hold).after [.segment 0, .callStream (.all ⟨1⟩)]).sent[0]? =
        some (0, { guild := ⟨1⟩, query := some "", limit := some 0, nonce := "x" }) ∧
      ∃ id : RequestId, ∀ between r, ((Hub.sample .hold).after
          (between ++ [.segment 0, .callStream (.all ⟨1⟩)])).book.requests[id]? = some r →
        r.complete = false → r.cancelled = false → ((Hub.sample .hold).after
          (between ++ [.segment 0, .callStream (.all ⟨1⟩)])).Answerable id "x" := by
  have hn := Hub.sample_isNew .hold
  have hsent : ((Hub.sample .hold).after [.segment 0, .callStream (.all ⟨1⟩)]).sent[0]? =
      some (0, { guild := ⟨1⟩, query := some "", limit := some 0, nonce := "x" }) := rfl
  refine ⟨hn, hsent, ?_⟩
  obtain ⟨t, c, shard, id, later, earlier, hpast, -, -, -, hcall, -, -, -, -, -, -, -, -, -, -, -,
    -, -, hlater⟩ := (command_faithful hn (by decide)).1 [.segment 0, .callStream (.all ⟨1⟩)] 0 _ _
      hsent
  refine ⟨id, ?_⟩
  -- the command comes from the segment, so nothing is later than it
  cases later with
  | nil =>
    obtain ⟨-, rfl⟩ := List.cons.inj hpast
    rw [List.nil_append] at hpast
    rw [hpast]
    exact hlater
  | cons a later =>
    have hrest : [.callStream (.all ⟨1⟩)] = later ++ .segment t :: earlier :=
      (List.cons.inj hpast).2
    cases later <;> simp at hrest

end Rollcall
