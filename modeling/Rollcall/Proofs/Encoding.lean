import Rollcall.Payload.Command
import Rollcall.Payload.Event
import Rollcall.Proofs.Digits

/-!
# What is written is read back

A decoder reads back an encoding (`Payload.ReadsBack`) if it gives every value that is written.
Lists and optional fields inherit this from what they hold. So a chunk comes through a dispatch as
it is, and a command through a frame. Main statement: `payloads_read_back`.
-/

namespace Rollcall

namespace Json

theorem lookup_cons (key k : String) (v : Json) (rest : List (String × Json)) :
    List.lookup k ((key, v) :: rest) = if k = key then some v else List.lookup k rest := by
  rw [List.lookup_cons]
  by_cases hk : k = key
  · rw [beq_iff_eq.mpr hk, if_pos hk]
  · rw [beq_false_of_ne hk, if_neg hk]

theorem field?_foldl (key : String) (entries : List (String × Json)) :
    ∀ fields : List (String × Json),
      field? key (entries.foldl (fun fields e => insertField e.1 e.2 fields) fields) =
        (entries.reverse.lookup key).or (field? key fields) := by
  induction entries with
  | nil =>
    intro fields
    rfl
  | cons e entries ih =>
    intro fields
    rw [List.foldl_cons, ih, field?_insertField, List.reverse_cons, List.lookup_append,
      Option.or_assoc]
    congr 1
    rw [lookup_cons, List.lookup_nil]
    by_cases he : e.1 = key
    · rw [if_pos he, if_pos he.symm, Option.some_or]
    · rw [if_neg he, if_neg (Ne.symm he), Option.none_or]

def fieldsOf (entries : List (String × Json)) : List (String × Json) :=
  entries.foldl (fun fields e => insertField e.1 e.2 fields) []

@[simp] theorem field?_fieldsOf (key : String) (entries : List (String × Json)) :
    field? key (fieldsOf entries) = entries.reverse.lookup key := by
  rw [fieldsOf, field?_foldl, field?, Option.or_none]

end Json

namespace Payload

variable {α : Type} {decode : Decoder α} {encode : α → Json}

/-- What is written is read back, and it is not written as `null`, which stands for no value. -/
def ReadsBack (decode : Decoder α) (encode : α → Json) : Prop :=
  ∀ a, decode (encode a) = .ok a ∧ encode a ≠ .null

theorem readsBack_bool : ReadsBack decodeBool .bool := fun _ => ⟨rfl, nofun⟩

theorem readsBack_string : ReadsBack decodeString .string := fun _ => ⟨rfl, nofun⟩

theorem readsBack_word64 : ReadsBack decodeWord64 ofWord64 := fun _ => ⟨rfl, nofun⟩

theorem readsBack_word32 : ReadsBack decodeWord32 ofWord32 := by
  intro n
  have hlt : n.toUInt64.toNat < 0x100000000 := n.toNat_lt
  refine ⟨?_, nofun⟩
  simp only [ofWord32, decodeWord32, if_pos hlt]
  simp

theorem readsBack_id (kind : IdKind) : ReadsBack (decodeId kind) ofId := by
  intro id
  refine ⟨?_, nofun⟩
  simp only [ofId, decodeId, Snowflake.read_digits]

theorem ReadsBack.items (h : ReadsBack decode encode) (as : List α) :
    decodeItems decode (as.map encode) = .ok as := by
  induction as with
  | nil => rfl
  | cons a as ih => simp only [List.map_cons, decodeItems, (h a).1, ih]

theorem ReadsBack.list (h : ReadsBack decode encode) :
    ReadsBack (decodeList decode) fun as => .array (as.map encode) :=
  fun as => ⟨h.items as, nofun⟩

theorem ReadsBack.option (h : ReadsBack decode encode) (a : α) :
    decodeOption decode (encode a) = .ok (some a) := by
  unfold decodeOption
  split
  · rename_i he
    exact absurd he (h a).2
  · rw [(h a).1]
    rfl

/-! ## Fields -/

@[simp] theorem lookup_entryOf (key k : String) (encode : α → Json) (o : Option α) :
    (entryOf key encode o).reverse.lookup k = if k = key then o.map encode else none := by
  cases o with
  | none => simp [entryOf]
  | some a =>
    rw [entryOf, List.reverse_singleton, Json.lookup_cons, List.lookup_nil, Option.map_some]

variable {fields : List (String × Json)} {key : String}

theorem ReadsBack.ofKey (h : ReadsBack decode encode) {o : Option α}
    (hf : Json.field? key fields = o.map encode) : Payload.ofKey fields key decode = .ok o := by
  rw [Payload.ofKey, hf]
  cases o with
  | none => rfl
  | some a =>
    simp only [Option.map_some, decodeIfPresent, (h a).1]
    rfl

theorem ReadsBack.ofKey_option (h : ReadsBack decode encode) {o : Option α}
    (hf : Json.field? key fields = o.map encode) :
    Payload.ofKey fields key (decodeOption decode) = .ok (o.map some) := by
  rw [Payload.ofKey, hf]
  cases o with
  | none => rfl
  | some a =>
    simp only [Option.map_some, decodeIfPresent, h.option a]
    rfl

end Payload

theorem join_map_some {α : Type} (o : Option α) : (o.map some).join = o := by
  cases o <;> rfl

open Payload

/-! ## Records -/

theorem User.readsBack : ReadsBack User.ofJson User.toJson := by
  intro u
  refine ⟨?_, nofun⟩
  let fields := Json.fieldsOf ([("id", ofId u.id), ("username", .string u.username)] ++
    entryOf "global_name" .string u.globalName ++ [("bot", .bool u.bot)])
  have hbot : ofKey fields "bot" decodeBool = .ok (some u.bot) :=
    readsBack_bool.ofKey (by simp [fields])
  have hglobal : ofKey fields "global_name" (decodeOption decodeString) =
      .ok (u.globalName.map some) :=
    readsBack_string.ofKey_option (by simp [fields, List.lookup_append, Json.lookup_cons])
  have hid : ofKey fields "id" (decodeId .user) = .ok (some u.id) :=
    (readsBack_id .user).ofKey (by simp [fields, List.lookup_append, Json.lookup_cons])
  have husername : ofKey fields "username" decodeString = .ok (some u.username) :=
    readsBack_string.ofKey (by simp [fields, List.lookup_append, Json.lookup_cons])
  change User.ofObject fields = .ok u
  simp only [User.ofObject, hbot, hglobal, hid, husername, orElse, join_map_some, bind, Except.bind,
    pure, Except.pure, Option.getD_some]

theorem Member.readsBack : ReadsBack Member.ofJson Member.toJson := by
  intro m
  refine ⟨?_, nofun⟩
  let fields := Json.fieldsOf ([("guild_id", ofId m.guild), ("user", m.user.toJson)] ++
    entryOf "nick" .string m.nick ++
    [("roles", .array (m.roles.map ofWord64)), ("joined_at", .string m.joinedAt)])
  have hguild : ofKey fields "guild_id" (decodeId .guild) = .ok (some m.guild) :=
    (readsBack_id .guild).ofKey (by simp [fields, List.lookup_append, Json.lookup_cons])
  have hjoined : ofKey fields "joined_at" decodeString = .ok (some m.joinedAt) :=
    readsBack_string.ofKey (by simp [fields])
  have hnick : ofKey fields "nick" (decodeOption decodeString) = .ok (m.nick.map some) :=
    readsBack_string.ofKey_option (by simp [fields, List.lookup_append, Json.lookup_cons])
  have hroles : ofKey fields "roles" (decodeList decodeWord64) = .ok (some m.roles) :=
    readsBack_word64.list.ofKey (by simp [fields, Json.lookup_cons])
  have huser : ofKey fields "user" User.ofJson = .ok (some m.user) :=
    User.readsBack.ofKey (by simp [fields, List.lookup_append, Json.lookup_cons])
  change Member.ofObject fields = .ok m
  simp only [Member.ofObject, hguild, hjoined, hnick, hroles, huser, orElse, join_map_some, bind,
    Except.bind, pure, Except.pure, Option.getD_some]

theorem skip_empty {α : Type} (key : String) (encode : List α → Json) (as : List α) :
    ∃ o : Option (List α), (if as.isEmpty then [] else [(key, encode as)]) =
      entryOf key encode o ∧ o.getD [] = as := by
  cases as with
  | nil => exact ⟨none, rfl, rfl⟩
  | cons a as => exact ⟨some (a :: as), rfl, rfl⟩

theorem Chunk.readsBack : ReadsBack Chunk.ofJson Chunk.toJson := by
  intro c
  refine ⟨?_, nofun⟩
  obtain ⟨listed, hentry, hlisted⟩ :=
    skip_empty "not_found" (fun ids => .array (ids.map ofId)) c.notFound
  let fields := Json.fieldsOf (
    [("guild_id", ofId c.guild), ("members", .array (c.members.map Member.toJson)),
      ("chunk_index", ofWord32 c.index), ("chunk_count", ofWord32 c.count)] ++
    entryOf "not_found" (fun ids => .array (ids.map ofId)) listed ++
    entryOf "nonce" .string c.nonce)
  have hcount : ofKey fields "chunk_count" decodeWord32 = .ok (some c.count) :=
    readsBack_word32.ofKey (by simp [fields, List.lookup_append])
  have hindex : ofKey fields "chunk_index" decodeWord32 = .ok (some c.index) :=
    readsBack_word32.ofKey (by simp [fields, List.lookup_append, Json.lookup_cons])
  have hguild : ofKey fields "guild_id" (decodeId .guild) = .ok (some c.guild) :=
    (readsBack_id .guild).ofKey (by simp [fields, List.lookup_append, Json.lookup_cons])
  have hmembers : ofKey fields "members" (decodeList Member.ofJson) = .ok (some c.members) :=
    Member.readsBack.list.ofKey (by simp [fields, List.lookup_append, Json.lookup_cons])
  have hnonce : ofKey fields "nonce" (decodeOption decodeString) = .ok (c.nonce.map some) :=
    readsBack_string.ofKey_option (by simp [fields, List.lookup_append, Json.lookup_cons])
  have hmissing : ofKey fields "not_found" (decodeList (decodeId .user)) = .ok listed :=
    (readsBack_id .user).list.ofKey (by simp [fields, List.lookup_append, Json.lookup_cons])
  have hjson : c.toJson = .object fields := by
    rw [Chunk.toJson, hentry]
    rfl
  rw [hjson]
  change Chunk.ofObject fields = .ok c
  simp only [Chunk.ofObject, hcount, hindex, hguild, hmembers, hnonce, hmissing, hlisted, orElse,
    join_map_some, bind, Except.bind, pure, Except.pure, Option.getD_some]

theorem MemberCommand.readsBack : ReadsBack MemberCommand.ofJson MemberCommand.toJson := by
  intro c
  refine ⟨?_, nofun⟩
  let fields := Json.fieldsOf (
    [("guild_id", ofId c.guild)] ++ entryOf "query" .string c.query ++
    entryOf "limit" ofWord32 c.limit ++ [("presences", .bool c.presences)] ++
    entryOf "user_ids" (fun ids => .array (ids.map ofId)) c.users ++ [("nonce", .string c.nonce)])
  have hguild : ofKey fields "guild_id" (decodeId .guild) = .ok (some c.guild) :=
    (readsBack_id .guild).ofKey (by simp [fields, List.lookup_append, Json.lookup_cons])
  have hlimit : ofKey fields "limit" (decodeOption decodeWord32) = .ok (c.limit.map some) :=
    readsBack_word32.ofKey_option (by simp [fields, List.lookup_append, Json.lookup_cons])
  have hnonce : ofKey fields "nonce" decodeString = .ok (some c.nonce) :=
    readsBack_string.ofKey (by simp [fields])
  have hpresences : ofKey fields "presences" decodeBool = .ok (some c.presences) :=
    readsBack_bool.ofKey (by simp [fields, List.lookup_append, Json.lookup_cons])
  have hquery : ofKey fields "query" (decodeOption decodeString) = .ok (c.query.map some) :=
    readsBack_string.ofKey_option (by simp [fields, List.lookup_append, Json.lookup_cons])
  have husers : ofKey fields "user_ids" (decodeOption (decodeList (decodeId .user))) =
      .ok (c.users.map some) :=
    (readsBack_id .user).list.ofKey_option
      (by simp [fields, List.lookup_append, Json.lookup_cons])
  change MemberCommand.ofObject fields = .ok c
  simp only [MemberCommand.ofObject, hguild, hlimit, hnonce, hpresences, hquery, husers, orElse,
    join_map_some, bind, Except.bind, pure, Except.pure, Option.getD_some]

/-! ## On the wire -/

theorem MemberCommand.ofFrame_toFrame (c : MemberCommand) : ofFrame c.toFrame = .ok (some c) := by
  have hop : c.toFrame.get? "op" = some (.number (.unsigned opcode)) := by
    change Json.field? "op" (Json.fieldsOf [("op", .number (.unsigned opcode)), ("d", c.toJson)]) = _
    simp [Json.lookup_cons]
  have hd : c.toFrame.get? "d" = some c.toJson := by
    change Json.field? "d" (Json.fieldsOf [("op", .number (.unsigned opcode)), ("d", c.toJson)]) = _
    simp
  simp only [ofFrame, hop, hd, if_true, Option.getD_some, (readsBack c).1]
  rfl

theorem Event.ofDispatch_toDispatch (c : Chunk) : ofDispatch c.toDispatch = .ok (.chunk c) := by
  simp only [ofDispatch, Chunk.toDispatch, if_true, (Chunk.readsBack c).1]
  rfl

theorem Event.ofDispatches_toDispatch (cs : List Chunk) :
    ofDispatches (cs.map Chunk.toDispatch) = cs.map .chunk := by
  induction cs with
  | nil => rfl
  | cons c cs ih =>
    rw [ofDispatches] at ih ⊢
    rw [List.map_cons, List.filterMap_cons, ih, ofDispatch_toDispatch]
    rfl

/-- **Payloads are read back.** Every user, member, chunk and command is what its JSON is decoded to:
a chunk also as the event of its dispatch, a command also as what the peer finds in its frame. -/
theorem payloads_read_back :
    (∀ u : User, User.ofJson u.toJson = .ok u) ∧
    (∀ m : Member, Member.ofJson m.toJson = .ok m) ∧
    (∀ c : Chunk, Chunk.ofJson c.toJson = .ok c ∧
      Event.ofDispatch ⟨Event.chunkKind, c.toJson⟩ = .ok (.chunk c)) ∧
    ∀ c : MemberCommand, MemberCommand.ofJson c.toJson = .ok c ∧
      MemberCommand.ofFrame c.toFrame = .ok (some c) :=
  ⟨fun u => (User.readsBack u).1, fun m => (Member.readsBack m).1,
    fun c => ⟨(Chunk.readsBack c).1, Event.ofDispatch_toDispatch c⟩,
    fun c => ⟨(MemberCommand.readsBack c).1, c.ofFrame_toFrame⟩⟩

end Rollcall
