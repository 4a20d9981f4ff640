import Rollcall.Proofs.Collecting
import Rollcall.Proofs.Commands
import Rollcall.Proofs.Replies
import Rollcall.Proofs.Rosters

/-!
# Peer and hub agree

A call under a token hands its command to a shard, a peer answers the frame of the command from
generated rosters, and the hub takes the chunks in while nothing comes between the call and its
request. Main statement: `peer_and_hub_agree`, the call then ends with what the peer selected.
-/

namespace Rollcall

/-! ## The reply of a peer -/

namespace MemberCommand.Answers

variable {c : MemberCommand} {s : Selection} {cs : List Chunk}

theorem stamped (ha : c.Answers s cs) (hs : ∀ m ∈ s.found, m.guild = c.guild) :
    cs.flatMap Chunk.stamped = s.found := by
  rw [← ha.members]
  apply List.flatMap_congr
  intro chunk hc
  rw [Chunk.stamped, ha.guild chunk hc]
  have hsame : ∀ m ∈ chunk.members, Member.inGuild c.guild m = m := by
    intro m hm
    have hfound : m ∈ s.found := by
      rw [← ha.members]
      exact List.mem_flatMap.mpr ⟨chunk, hc, hm⟩
    rw [Member.inGuild, ← hs m hfound]
  exact (List.map_congr_left hsame).trans (List.map_id _)

end MemberCommand.Answers

def Inquiry.named (i : Inquiry) : List UserId :=
  match i.scope with
  | .users ids => ids
  | .query _ _ => []

def Inquiry.strangers (i : Inquiry) (r : Roster) : Nat :=
  i.named.countP fun id => r.members.all fun m => m.user.id ≠ id

theorem Roster.length_notFound (r : Roster) (i : Inquiry) (nonce : String) (presences : Bool) :
    (r.select (i.command nonce presences)).notFound.length = i.strangers r := by
  unfold Roster.select Inquiry.command Inquiry.strangers Inquiry.named
  cases i.scope with
  | users ids =>
    simp only [← List.countP_eq_length_filter]
    congr 1
    funext id
    rw [Bool.eq_iff_iff]
    simp [Roster.contains_places, Roster.has]
  | query text limit => rfl

theorem Inquiry.guild_command (i : Inquiry) (nonce : String) (presences : Bool) :
    (i.command nonce presences).guild = i.guild := by
  unfold command
  split <;> rfl

theorem Peer.answers {p : Peer} {c : MemberCommand} {r : Roster}
    (hr : p.roster? c.guild = some r)
    (hfew : (pieces p.chunkSize (r.select c).found).length < 0x100000000) :
    c.Answers (r.select c) (p.answer c.toFrame) := by
  rw [Peer.answer_toFrame, hr, Option.elim_some]
  exact MemberCommand.reply_answers hfew

/-! ## The request of a call -/

namespace Hub

variable {h : Hub} {t : TaskId} {id : RequestId} {i : Inquiry} {earlier later : List Action}
  {number : UInt32} {cmd : MemberCommand}

/-- A request waits for the reply to a command, of which no chunk has arrived. -/
structure Awaits (h : Hub) (mid : List Action) (id : RequestId) (i : Inquiry) (cmd : MemberCommand)
    (r : Request) : Prop where
  request : (h.after mid).book.requests[id]? = some r
  nonce : r.nonce = cmd.nonce
  filter : r.filter = i.filter
  command : ∃ presences, cmd = i.command cmd.nonce presences
  fresh : arrivedAt (h.journal mid) id = []

theorem awaits (hn : h.IsNew) (hsize : h.shards.size < UInt64.size) (hask : h.Asked earlier t i)
    (hsent : (h.after (.segment t :: earlier)).sent = (h.after earlier).sent.push (number, cmd)) :
    ∃ id r, .made t id ∈ h.journal (.segment t :: earlier) ∧
      h.Awaits (.segment t :: earlier) id i cmd r := by
  have hpush : ((h.after earlier).perform (.segment t)).sent =
      (h.after earlier).sent.push (number, cmd) := hsent
  rcases sent_perform (shards_after hsize earlier) (.segment t) with
    ⟨t', c, shard, k, ha, hover⟩ | ⟨hsame, -⟩
  · cases ha
    have hinquiry : c.inquiry = i := asked_unique (asked hn hover.call) hask
    obtain ⟨r, hr, hnonce, hfilter⟩ := hover.request
    have hcmd : (shard.number, c.inquiry.command ((h.after earlier).book.nonces.candidate k)
        (shard.intents.contains .guildPresences)) = (number, cmd) :=
      (Array.push_eq_push.mp (hover.sent.symm.trans hpush)).1
    obtain ⟨-, rfl⟩ := Prod.mk.inj hcmd
    have hnone : arrivals (h.journal earlier) (h.after earlier).book.requests.size = [] :=
      (Reached.after hn earlier).arrivals_of_size_le (Array.getElem?_eq_none (Nat.le_refl _))
    refine ⟨_, r, ?_, hr, ?_, by rw [hfilter, hinquiry], ?_, ?_⟩
    · rw [journal, hover.made]
      exact List.mem_append_right _ List.mem_cons_self
    · rw [hnonce, Inquiry.nonce_command]
    · rw [Inquiry.nonce_command, hinquiry]
      exact ⟨_, rfl⟩
    · rw [journal, hover.made, arrivedAt_append, ← chunk_arrivals, hnone]
      rfl
  · have hlength := congrArg Array.size (hsame.symm.trans hpush)
    rw [Array.size_push] at hlength
    omega

/-- All members of chunks that have been dealt with to their end have been put into the cache since
before the first of them arrived. -/
theorem mem_stored (hn : h.IsNew) (hk : h.caching = true) {mid : List Action}
    (hfresh : arrivedAt (h.journal mid) id = [])
    (hended : ∀ x ∈ arrivals (h.journal (later ++ mid)) id, ∃ v, x.fate = .ended v)
    {chunk : Chunk} (hc : chunk ∈ arrivedAt (h.journal (later ++ mid)) id) {m : Member}
    (hm : m ∈ chunk.stamped) : (id, m) ∈ (h.after mid).stored later := by
  obtain ⟨x, hx, rfl⟩ := mem_arrivedAt.mp hc
  obtain ⟨v, hv⟩ := hended x hx
  have hstows := stowed hn hk id (later ++ mid) x hx
  unfold Stows at hstows
  rw [hv] at hstows
  have hlog := hstows m hm
  rw [stored_append] at hlog
  rcases List.mem_append.mp hlog with hlog | hlog
  · obtain ⟨chunk, hc, -⟩ := arrived_of_stored hn hlog
    rw [hfresh] at hc
    cases hc
  · exact hlog

theorem cached (hn : h.IsNew) (hk : h.caching = true) {mid : List Action}
    (hfresh : arrivedAt (h.journal mid) id = [])
    (hended : ∀ x ∈ arrivals (h.journal (later ++ mid)) id, ∃ v, x.fate = .ended v) {m : Member}
    (hm : m ∈ (arrivedAt (h.journal (later ++ mid)) id).flatMap Chunk.stamped) :
    ∃ id' m', (h.after (later ++ mid)).book.cache.get? m.guild m.user.id = some m' ∧
      (id', m') ∈ (h.after mid).stored later ∧ m'.user.id = m.user.id ∧
      (id' = id → m' ∈ (arrivedAt (h.journal (later ++ mid)) id).flatMap Chunk.stamped) := by
  obtain ⟨chunk, hc, hmc⟩ := List.mem_flatMap.mp hm
  have hlog := mem_stored hn hk hfresh hended hc hmc
  obtain ⟨⟨id', m'⟩, he, -, huser, hget⟩ := get?_replay hlog (h.after mid).book.cache
  rw [← cache_after hn] at hget
  refine ⟨id', m', hget, he, huser, ?_⟩
  rintro rfl
  have hall : (id', m') ∈ h.stored (later ++ mid) := by
    rw [stored_append]
    exact List.mem_append_right _ he
  exact List.mem_flatMap.mpr (arrived_of_stored hn hall)

theorem notFound_since (hn : h.IsNew) {mid : List Action}
    (hfresh : arrivedAt (h.journal mid) id = []) :
    (h.after (later ++ mid)).stats.notFound = (h.after mid).stats.notFound +
      UInt64.ofNat ((arrivedAt (h.journal (later ++ mid)) id).flatMap (·.notFound)).length +
        UInt64.ofNat (missing (elsewhere id ((h.after mid).journal later))) := by
  have hnew :
      arrivedAt ((h.after mid).journal later) id = arrivedAt (h.journal (later ++ mid)) id := by
    rw [journal_append, arrivedAt_append, hfresh, List.nil_append]
  rw [notFound_after hn, missing_eq id, hnew, UInt64.ofNat_add, ← UInt64.add_assoc]

end Hub

open Hub

/-- **Peer and hub agree.** A call under a token has handed its command to a shard, and nothing has
come between the call and its request. The peer has generated rosters, one of them for the guild, and
its answer to the frame of the command has fewer than `2 ^ 32` chunks. Their dispatches have been
decoded and have begun to be handled one after the other, among whatever other events, and no task
can move. Then the call has ended with the members that the peer selected and the filter accepts, in
that order. Of the chunks of the answer, which are all that arrived at the request, the last one has
completed it and none before. Every selected member is in the cache, unless a chunk for another
request has overwritten it since. The count of users not found has grown by as many as the inquiry
names who are not in the guild, and by those of chunks for other requests. -/
theorem peer_and_hub_agree {h : Hub} (hn : h.IsNew) (hsize : h.shards.size < UInt64.size)
    (hk : h.caching = true) {p : Peer} {guilds size : Nat} {draws : Draws}
    (hp : p.rosters = Roster.generateAll guilds size draws) {i : Inquiry} {r : Roster}
    (hr : p.roster? i.guild = some r) {t : TaskId} {id : RequestId} {token : Token}
    {earlier later : List Action} (hask : h.Asked earlier t i) {number : UInt32}
    {cmd : MemberCommand}
    (hsent : (h.after (.segment t :: earlier)).sent = (h.after earlier).sent.push (number, cmd))
    (hfew : (pieces p.chunkSize (r.select cmd).found).length < UInt32.size)
    (hbegun : ((h.after (.segment t :: earlier)).begun later).filter (Event.Carries cmd.nonce) =
      Event.ofDispatches ((p.answer cmd.toFrame).map Chunk.toDispatch))
    (hu : h.Undisturbed (later ++ .segment t :: earlier) t id token)
    (hq : (h.after (later ++ .segment t :: earlier)).Quiet) :
    (t, .members ((r.select cmd).found.filter (passes i.filter))) ∈
        (h.after (later ++ .segment t :: earlier)).finished ∧
      arrivedAt (h.journal (later ++ .segment t :: earlier)) id = p.answer cmd.toFrame ∧
      (arrivals (h.journal (later ++ .segment t :: earlier)) id).map (·.fate) =
        List.replicate ((p.answer cmd.toFrame).length - 1) (.ended .pending) ++
          [.ended .complete] ∧
      (∀ m ∈ (r.select cmd).found, ∃ id' m',
        (h.after (later ++ .segment t :: earlier)).book.cache.get? m.guild m.user.id = some m' ∧
        (id', m') ∈ (h.after (.segment t :: earlier)).stored later ∧
        (id' = id → m' ∈ (r.select cmd).found ∧ (Roster.Fits size → m' = m))) ∧
      (h.after (later ++ .segment t :: earlier)).stats.notFound =
        (h.after (.segment t :: earlier)).stats.notFound + UInt64.ofNat (i.strangers r) +
          UInt64.ofNat (missing (elsewhere id ((h.after (.segment t :: earlier)).journal later))) := by
  obtain ⟨id', req, hmade, haw⟩ := awaits hn hsize hask hsent
  have hreach := Reached.after hn (later ++ .segment t :: earlier)
  obtain rfl : id' = id := by
    refine hreach.made_unique ?_ hu.made
    rw [journal_append]
    exact List.mem_append_left _ hmade
  -- the answer
  obtain ⟨presences, hcmd⟩ := haw.command
  have hguild : cmd.guild = i.guild := by rw [hcmd, Inquiry.guild_command]
  have hans := Peer.answers (hguild ▸ hr) hfew
  have hroster : r ∈ Roster.generateAll guilds size draws := hp ▸ (Peer.roster_of_guild hr).1
  have hmember {m : Member} (hm : m ∈ (r.select cmd).found) : m.guild = cmd.guild := by
    rw [Roster.guild_of_mem hroster (Roster.mem_of_found hm), (Peer.roster_of_guild hr).2, hguild]
  have hstamped := hans.stamped fun m hm => hmember hm
  generalize p.answer cmd.toFrame = cs at hans hstamped hbegun ⊢
  -- its chunks arrive
  have hcs : arrivedAt (h.journal (later ++ .segment t :: earlier)) id' = cs := by
    rw [Event.ofDispatches_toDispatch, ← haw.nonce] at hbegun
    have hevents := arrived_of_begun hn haw.request haw.fresh hans.count later hu.live
      (hbegun ▸ List.prefix_rfl)
    rw [hbegun] at hevents
    exact List.map_injective_iff.mpr (fun c c' he => Event.chunk.inj he) hevents
  obtain ⟨hfates, -⟩ := hu.fates hn hq hans.nonempty hcs hans.count
  refine ⟨?_, hcs, hfates, fun m hm => ?_, ?_⟩
  · obtain ⟨os, -, hch⟩ := h.changes_append (.segment t :: earlier) later
    obtain ⟨req', hreq', hlater⟩ := (Reached.after hn _).later_changes hch id' req haw.request
    have hms := hu.gathered hn hq hans.nonempty hcs hans.count hreq'
    have haccepts : req'.accepts = passes i.filter := by
      rw [← haw.filter, ← hlater.filter]
      rfl
    rwa [hstamped, haccepts] at hms
  · have hended (x : Arrival) (hx : x ∈ arrivals (h.journal (later ++ .segment t :: earlier)) id') :=
      hu.ended hn hq hx
    rw [← hstamped, ← hcs] at hm
    obtain ⟨id, m', hget, he, huser, hown⟩ := cached hn hk haw.fresh hended hm
    rw [hcs, hstamped] at hm hown
    refine ⟨id, m', hget, he, fun hid => ⟨hown hid, fun hfits => ?_⟩⟩
    exact Roster.eq_of_id hroster hfits (Roster.mem_of_found hm) (Roster.mem_of_found (hown hid))
      huser
  · have hstrangers : (r.select cmd).notFound.length = i.strangers r := by
      rw [hcmd]
      exact r.length_notFound i cmd.nonce presences
    rw [notFound_since hn haw.fresh, hcs, hans.notFound, hstrangers]

/-- Two members of a guild are asked for, of whom the filter rejects one, and a user who is not in the
guild; one member fits a chunk. -/
def pairAsked : Inquiry :=
  { Inquiry.users (Roster.guildId 0) [Roster.userId 1, ⟨5⟩, Roster.userId 0] with
    filter := some fun m => m.user.id = Roster.userId 0 }

def pairPeer : Peer := ⟨Roster.generateAll 1 2 (.regular 0), 1, ⟨0⟩⟩

def pairRoster : Roster := .generate (Roster.guildId 0) 2 (.regular 0)

def pairMember (place : Nat) : Member :=
  Roster.member (Roster.guildId 0) place (Draws.regular 0 place)

def pairCommand : MemberCommand := pairAsked.command "x" false

def pairReply : List Chunk :=
  [pairCommand.chunk [⟨5⟩] 2 [pairMember 1] 0, pairCommand.chunk [⟨5⟩] 2 [pairMember 0] 1]

def pairHandled : List Action :=
  [.segment 0, .segment 0, .segment 2, .segment 2,
    .dispatch (.chunk (pairCommand.chunk [⟨5⟩] 2 [pairMember 0] 1)), .segment 0, .segment 1,
    .segment 1, .dispatch (.chunk (pairCommand.chunk [⟨5⟩] 2 [pairMember 1] 0))]

theorem pair_found :
    pieces 1 (pairRoster.select pairCommand).found = [[pairMember 1], [pairMember 0]] := by
  have hfound : (pairRoster.select pairCommand).found = [pairMember 1, pairMember 0] := rfl
  simp [hfound, pieces]

theorem pair_answer : pairPeer.answer pairCommand.toFrame = pairReply := by
  have hnotFound : (pairRoster.select pairCommand).notFound = [⟨5⟩] := rfl
  have hsize : pairPeer.chunkSize = 1 := rfl
  have hroster : pairPeer.roster? pairCommand.guild = some pairRoster := rfl
  rw [Peer.answer_toFrame, hroster, Option.elim_some, MemberCommand.reply_eq, hsize, pair_found,
    hnotFound]
  rfl

theorem pair_agrees :
    (Hub.sample .accept).IsNew ∧
      (pairRoster.select pairCommand).found = [pairMember 1, pairMember 0] ∧
      (0, .members [pairMember 0]) ∈ ((Hub.sample .accept).after
        (pairHandled ++ [.segment 0, .collect pairAsked "t"])).finished ∧
      ((Hub.sample .accept).after
        (pairHandled ++ [.segment 0, .collect pairAsked "t"])).stats.notFound = 1 := by
  have hn := Hub.sample_isNew .accept
  have hfew :
      (pieces pairPeer.chunkSize (pairRoster.select pairCommand).found).length < UInt32.size := by
    have hsize : pairPeer.chunkSize = 1 := rfl
    rw [hsize, pair_found]
    decide
  have hbegun : (((Hub.sample .accept).after [.segment 0, .collect pairAsked "t"]).begun
      pairHandled).filter (Event.Carries "x") =
        Event.ofDispatches ((pairPeer.answer pairCommand.toFrame).map Chunk.toDispatch) := by
    rw [pair_answer, Event.ofDispatches_toDispatch]
    rfl
  have hhandled : ((Hub.sample .accept).journal
      (pairHandled ++ [.segment 0, .collect pairAsked "t"])).all (fun
        | .interrupted _ _ => false
        | _ => true) = true := rfl
  have hu : (Hub.sample .accept).Undisturbed
      (pairHandled ++ [.segment 0, .collect pairAsked "t"]) 0 0 "t" := {
    called := List.mem_of_mem_head? rfl
    made := List.mem_of_mem_tail (List.mem_of_mem_head? rfl)
    collects := ⟨pairHandled, _, rfl, _, [], rfl, rfl⟩
    kept := by simp [pairHandled]
    handled := fun t' hm => Bool.noConfusion (List.all_eq_true.mp hhandled _ hm)
    live := rfl
    token := rfl }
  have hq : ((Hub.sample .accept).after
      (pairHandled ++ [.segment 0, .collect pairAsked "t"])).Quiet := by
    apply Hub.quiet_of_lt
    intro t ht
    have ht : t < 3 := ht
    match t, ht with
    | 0, _ => rfl
    | 1, _ => rfl
    | 2, _ => rfl
  have hasked : (Hub.sample .accept).Asked [.collect pairAsked "t"] 0 pairAsked :=
    ⟨[], _, [], rfl, .underToken "t", rfl⟩
  have hsent : ((Hub.sample .accept).after [.segment 0, .collect pairAsked "t"]).sent =
      ((Hub.sample .accept).after [.collect pairAsked "t"]).sent.push (0, pairCommand) := rfl
  have hrosters : pairPeer.rosters = Roster.generateAll 1 2 (.regular 0) := rfl
  have hroster : pairPeer.roster? pairAsked.guild = some pairRoster := rfl
  obtain ⟨hmembers, -, -, -, hcount⟩ :=
    peer_and_hub_agree hn (by decide) rfl hrosters hroster hasked hsent hfew hbegun hu hq
  exact ⟨hn, rfl, hmembers, hcount⟩

end Rollcall
