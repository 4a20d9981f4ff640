import Mathlib.Data.List.Sort
import Rollcall.Proofs.Encoding

/-!
# How an object is read as a record

An object is read entry by entry, in the order of its keys. What stands under the key of a field is
decoded and put into a draft of the record; what stands under any other key is passed over. The first
fault ends the reading, and only then does a field count as missing. For an object whose keys ascend,
as those of every object that is written do (`Json.ascending_fieldsOf`), that is what the decoders of
records do: `User.ofObject_eq_visit`, `Member.ofObject_eq_visit`, `Chunk.ofObject_eq_visit`.
-/

namespace Rollcall

theorem lookup_eq_some_iff_mem {α : Type} {l : List (String × α)}
    (hl : l.Pairwise fun a b => a.1 < b.1) {k : String} {a : α} :
    l.lookup k = some a ↔ (k, a) ∈ l := by
  induction l with
  | nil => simp
  | cons e l ih =>
    obtain ⟨k', a'⟩ := e
    obtain ⟨hlt, hl⟩ := List.pairwise_cons.mp hl
    rw [List.lookup_cons, List.mem_cons, Prod.mk.injEq]
    by_cases hk : k = k'
    · subst hk
      have hno : (k, a) ∉ l := fun hm => String.lt_irrefl k (hlt _ hm)
      simp [hno, eq_comm]
    · rw [beq_false_of_ne hk]
      simp [ih hl, hk]

namespace Json

def Ascending (fields : List (String × Json)) : Prop := fields.Pairwise fun a b => a.1 < b.1

theorem field?_eq_lookup (key : String) (fields : List (String × Json)) :
    field? key fields = fields.lookup key := by
  induction fields with
  | nil => rfl
  | cons e fields ih =>
    obtain ⟨k, v⟩ := e
    rw [field?, List.lookup_cons, ih]
    by_cases hk : k = key
    · rw [if_pos hk, beq_iff_eq.mpr hk.symm]
    · rw [if_neg hk, beq_false_of_ne (Ne.symm hk)]

theorem field?_filter {key : String} {p : String × Json → Bool} (hp : ∀ v, p (key, v) = true)
    (fields : List (String × Json)) : field? key (fields.filter p) = field? key fields := by
  induction fields with
  | nil => rfl
  | cons e fields ih =>
    obtain ⟨k, v⟩ := e
    by_cases hk : k = key
    · subst hk
      rw [List.filter_cons_of_pos (hp v), field?, field?, if_pos rfl, if_pos rfl]
    · rw [List.filter_cons, field?, if_neg hk, ← ih]
      split
      · rw [field?, if_neg hk]
      · rfl

theorem mem_insertField {key : String} {value : Json} {fields : List (String × Json)}
    {e : String × Json} (h : e ∈ insertField key value fields) : e = (key, value) ∨ e ∈ fields := by
  induction fields with
  | nil => exact .inl (List.mem_singleton.mp h)
  | cons f fields ih =>
    obtain ⟨k, v⟩ := f
    unfold insertField at h
    split at h
    · exact List.mem_cons.mp h
    · split at h
      · exact (List.mem_cons.mp h).imp_right (List.mem_cons_of_mem _)
      · rcases List.mem_cons.mp h with rfl | h
        · exact .inr List.mem_cons_self
        · exact (ih h).imp_right (List.mem_cons_of_mem _)

theorem Ascending.insertField {fields : List (String × Json)} (h : Ascending fields) (key : String)
    (value : Json) : Ascending (insertField key value fields) := by
  induction fields with
  | nil => exact List.pairwise_singleton _ _
  | cons f fields ih =>
    obtain ⟨k, v⟩ := f
    obtain ⟨hlt, hf⟩ := List.pairwise_cons.mp h
    unfold Json.insertField
    split
    · rename_i hkey
      refine List.pairwise_cons.mpr ⟨fun e he => ?_, h⟩
      rcases List.mem_cons.mp he with rfl | he
      · exact hkey
      · exact String.lt_trans hkey (hlt e he)
    · split
      · rename_i hkey
        subst hkey
        exact List.pairwise_cons.mpr ⟨hlt, hf⟩
      · rename_i hge hne
        refine List.pairwise_cons.mpr ⟨fun e he => ?_, ih hf⟩
        rcases mem_insertField he with rfl | he
        · exact String.not_le.mp fun hle => hne (String.le_antisymm hle (String.not_lt.mp hge))
        · exact hlt e he

theorem ascending_fieldsOf (entries : List (String × Json)) : Ascending (fieldsOf entries) := by
  unfold fieldsOf
  refine List.foldlRecOn (motive := Ascending) entries _ List.Pairwise.nil fun fields h e _ => ?_
  exact h.insertField e.1 e.2

end Json

namespace Payload

variable {σ α : Type}

abbrev Reader (σ : Type) := Json → σ → Except Fault σ

def reads (decode : Decoder α) (set : Option α → σ → σ) : Reader σ :=
  fun v s => (decode v).map fun a => set (some a) s

def visitEntry (readers : List (String × Reader σ)) (s : σ) (e : String × Json) : Except Fault σ :=
  match readers.lookup e.1 with
  | some read => read e.2 s
  | none => pure s

def visit (readers : List (String × Reader σ)) (s : σ) (fields : List (String × Json)) :
    Except Fault σ :=
  fields.foldlM (visitEntry readers) s

def visitField (fields : List (String × Json)) (s : σ) (r : String × Reader σ) : Except Fault σ :=
  match Json.field? r.1 fields with
  | some v => r.2 v s
  | none => pure s

variable {readers : List (String × Reader σ)} {fields : List (String × Json)} {s : σ}

def known (readers : List (String × Reader σ)) (fields : List (String × Json)) :
    List (String × Reader σ × Json) :=
  fields.filterMap fun e => (readers.lookup e.1).map fun read => (e.1, read, e.2)

def met (readers : List (String × Reader σ)) (fields : List (String × Json)) :
    List (String × Reader σ × Json) :=
  readers.filterMap fun r => (Json.field? r.1 fields).map fun v => (r.1, r.2, v)

theorem visit_eq_known (readers : List (String × Reader σ)) (s : σ) (fields : List (String × Json)) :
    visit readers s fields = (known readers fields).foldlM (fun s p => p.2.1 p.2.2 s) s := by
  rw [known, List.foldlM_filterMap, visit]
  congr 1
  funext s e
  unfold visitEntry
  cases readers.lookup e.1 <;> rfl

theorem foldlM_met (readers : List (String × Reader σ)) (s : σ) (fields : List (String × Json)) :
    (met readers fields).foldlM (fun s p => p.2.1 p.2.2 s) s =
      readers.foldlM (visitField fields) s := by
  rw [met, List.foldlM_filterMap]
  congr 1
  funext s r
  unfold visitField
  cases Json.field? r.1 fields <;> rfl

theorem pairwise_filterMap_key {β γ : Type} {l : List (String × β)}
    {f : String × β → Option (String × γ)} (hl : l.Pairwise fun a b => a.1 < b.1)
    (hf : ∀ e p, f e = some p → p.1 = e.1) : (l.filterMap f).Pairwise fun a b => a.1 < b.1 := by
  refine List.pairwise_filterMap.mpr (hl.imp fun {a b} hlt p hp q hq => ?_)
  rw [hf a p hp, hf b q hq]
  exact hlt

theorem eq_of_mem_iff_of_keys {β : Type} {l l' : List (String × β)}
    (hl : l.Pairwise fun a b => a.1 < b.1) (hl' : l'.Pairwise fun a b => a.1 < b.1)
    (h : ∀ e, e ∈ l ↔ e ∈ l') : l = l' := by
  have hirrefl : Std.Irrefl fun a b : String × β => a.1 < b.1 := ⟨fun a => String.lt_irrefl a.1⟩
  have hantisymm : Std.Antisymm fun a b : String × β => a.1 < b.1 :=
    ⟨fun a b hlt hgt => absurd hgt (String.lt_asymm hlt)⟩
  exact hl.eq_of_mem_iff hl' h

theorem mem_known (hf : Json.Ascending fields) {k : String} {read : Reader σ} {v : Json} :
    (k, read, v) ∈ known readers fields ↔
      readers.lookup k = some read ∧ Json.field? k fields = some v := by
  rw [Json.field?_eq_lookup, lookup_eq_some_iff_mem hf, known, List.mem_filterMap]
  constructor
  · rintro ⟨⟨k', v'⟩, hm, hp⟩
    obtain ⟨read', hread, he⟩ := Option.map_eq_some_iff.mp hp
    cases he
    exact ⟨hread, hm⟩
  · rintro ⟨hread, hm⟩
    exact ⟨(k, v), hm, by rw [hread, Option.map_some]⟩

theorem mem_met (hr : readers.Pairwise fun a b => a.1 < b.1) {k : String} {read : Reader σ}
    {v : Json} : (k, read, v) ∈ met readers fields ↔
      readers.lookup k = some read ∧ Json.field? k fields = some v := by
  rw [lookup_eq_some_iff_mem hr, met, List.mem_filterMap]
  constructor
  · rintro ⟨⟨k', read'⟩, hm, hp⟩
    obtain ⟨v', hv, he⟩ := Option.map_eq_some_iff.mp hp
    cases he
    exact ⟨hm, hv⟩
  · rintro ⟨hm, hv⟩
    exact ⟨(k, read), hm, by rw [hv, Option.map_some]⟩

/-- Entries and readers meet in the same order, from whichever side one goes. -/
theorem known_eq_met (hf : Json.Ascending fields) (hr : readers.Pairwise fun a b => a.1 < b.1) :
    known readers fields = met readers fields := by
  refine eq_of_mem_iff_of_keys (pairwise_filterMap_key hf fun e p hp => ?_)
    (pairwise_filterMap_key hr fun e p hp => ?_) fun ⟨k, read, v⟩ => ?_
  · obtain ⟨-, -, rfl⟩ := Option.map_eq_some_iff.mp hp
    rfl
  · obtain ⟨-, -, rfl⟩ := Option.map_eq_some_iff.mp hp
    rfl
  · rw [mem_known hf, mem_met hr]

theorem visit_eq (hf : Json.Ascending fields) (hr : readers.Pairwise fun a b => a.1 < b.1) (s : σ) :
    visit readers s fields = readers.foldlM (visitField fields) s := by
  rw [visit_eq_known, known_eq_met hf hr, foldlM_met]

theorem visitField_reads {key : String} {decode : Decoder α} {set : Option α → σ → σ}
    (hs : set none s = s) :
    visitField fields s (key, reads decode set) = (ofKey fields key decode).map (set · s) := by
  unfold visitField reads ofKey
  cases Json.field? key fields with
  | none => exact congrArg Except.ok hs.symm
  | some v =>
    simp only [decodeIfPresent]
    cases decode v <;> rfl

theorem visitField_bind {β : Type} {key : String} {decode : Decoder α} {set : Option α → σ → σ}
    (hs : set none s = s) (f : σ → Except Fault β) :
    (visitField fields s (key, reads decode set) >>= f) =
      ofKey fields key decode >>= fun o => f (set o s) := by
  rw [visitField_reads hs]
  cases ofKey fields key decode <;> rfl

end Payload

open Payload

namespace User

structure Draft where
  id : Option UserId := none
  username : Option String := none
  globalName : Option (Option String) := none
  bot : Option Bool := none

namespace Draft

def readers : List (String × Reader Draft) :=
  [("bot", reads decodeBool fun o d => { d with bot := o }),
    ("global_name", reads (decodeOption decodeString) fun o d => { d with globalName := o }),
    ("id", reads (decodeId .user) fun o d => { d with id := o }),
    ("username", reads decodeString fun o d => { d with username := o })]

def finish (d : Draft) : Except Fault User := do
  return {
    id := ← orElse (.missingField "id") d.id
    username := ← orElse (.missingField "username") d.username
    globalName := d.globalName.join
    bot := d.bot.getD false }

end Draft

theorem ofObject_eq_visit {fields : List (String × Json)} (hf : Json.Ascending fields) :
    ofObject fields = visit Draft.readers {} fields >>= Draft.finish := by
  have hkeys : (Draft.readers.map (·.1)).Pairwise (· < ·) := by decide
  have hr : Draft.readers.Pairwise fun a b => a.1 < b.1 := List.pairwise_map.mp hkeys
  rw [visit_eq hf hr]
  simp only [Draft.readers, List.foldlM_cons, List.foldlM_nil, bind_assoc, pure_bind]
  symm
  refine (visitField_bind rfl _).trans (bind_congr fun bot => ?_)
  refine (visitField_bind rfl _).trans (bind_congr fun globalName => ?_)
  refine (visitField_bind rfl _).trans (bind_congr fun id => ?_)
  exact visitField_bind rfl _

end User

namespace Member

structure Draft where
  guild : Option GuildId := none
  user : Option User := none
  nick : Option (Option String) := none
  roles : Option (List UInt64) := none
  joinedAt : Option String := none

namespace Draft

def readers : List (String × Reader Draft) :=
  [("guild_id", reads (decodeId .guild) fun o d => { d with guild := o }),
    ("joined_at", reads decodeString fun o d => { d with joinedAt := o }),
    ("nick", reads (decodeOption decodeString) fun o d => { d with nick := o }),
    ("roles", reads (decodeList decodeWord64) fun o d => { d with roles := o }),
    ("user", reads User.ofJson fun o d => { d with user := o })]

def finish (d : Draft) : Except Fault Member := do
  return {
    guild := d.guild.getD ⟨0⟩
    user := ← orElse (.missingField "user") d.user
    nick := d.nick.join
    roles := d.roles.getD []
    joinedAt := d.joinedAt.getD "" }

end Draft

theorem ofObject_eq_visit {fields : List (String × Json)} (hf : Json.Ascending fields) :
    ofObject fields = visit Draft.readers {} fields >>= Draft.finish := by
  have hkeys : (Draft.readers.map (·.1)).Pairwise (· < ·) := by decide
  have hr : Draft.readers.Pairwise fun a b => a.1 < b.1 := List.pairwise_map.mp hkeys
  rw [visit_eq hf hr]
  simp only [Draft.readers, List.foldlM_cons, List.foldlM_nil, bind_assoc, pure_bind]
  symm
  refine (visitField_bind rfl _).trans (bind_congr fun guild => ?_)
  refine (visitField_bind rfl _).trans (bind_congr fun joinedAt => ?_)
  refine (visitField_bind rfl _).trans (bind_congr fun nick => ?_)
  refine (visitField_bind rfl _).trans (bind_congr fun roles => ?_)
  exact visitField_bind rfl _

end Member

namespace Chunk

structure Draft where
  guild : Option GuildId := none
  members : Option (List Member) := none
  index : Option UInt32 := none
  count : Option UInt32 := none
  notFound : Option (List UserId) := none
  nonce : Option (Option String) := none

namespace Draft

def readers : List (String × Reader Draft) :=
  [("chunk_count", reads decodeWord32 fun o d => { d with count := o }),
    ("chunk_index", reads decodeWord32 fun o d => { d with index := o }),
    ("guild_id", reads (decodeId .guild) fun o d => { d with guild := o }),
    ("members", reads (decodeList Member.ofJson) fun o d => { d with members := o }),
    ("nonce", reads (decodeOption decodeString) fun o d => { d with nonce := o }),
    ("not_found", reads (decodeList (decodeId .user)) fun o d => { d with notFound := o })]

def finish (d : Draft) : Except Fault Chunk := do
  return {
    guild := ← orElse (.missingField "guild_id") d.guild
    members := d.members.getD []
    index := ← orElse (.missingField "chunk_index") d.index
    count := ← orElse (.missingField "chunk_count") d.count
    notFound := d.notFound.getD []
    nonce := d.nonce.join }

end Draft

theorem ofObject_eq_visit {fields : List (String × Json)} (hf : Json.Ascending fields) :
    ofObject fields = visit Draft.readers {} fields >>= Draft.finish := by
  have hkeys : (Draft.readers.map (·.1)).Pairwise (· < ·) := by decide
  have hr : Draft.readers.Pairwise fun a b => a.1 < b.1 := List.pairwise_map.mp hkeys
  rw [visit_eq hf hr]
  simp only [Draft.readers, List.foldlM_cons, List.foldlM_nil, bind_assoc, pure_bind]
  symm
  refine (visitField_bind rfl _).trans (bind_congr fun count => ?_)
  refine (visitField_bind rfl _).trans (bind_congr fun index => ?_)
  refine (visitField_bind rfl _).trans (bind_congr fun guild => ?_)
  refine (visitField_bind rfl _).trans (bind_congr fun members => ?_)
  refine (visitField_bind rfl _).trans (bind_congr fun nonce => ?_)
  exact visitField_bind rfl _

end Chunk
end Rollcall
