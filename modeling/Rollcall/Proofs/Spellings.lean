import Mathlib.Data.List.Forall2
import Mathlib.Data.Option.Defs
import Rollcall.Proofs.Visits

/-!
# Ways of writing a payload

Two payloads are alike if every record holds the same in its fields; whatever else an object holds
does not count. They decode to the same chunk, or with the same fault. A record may also be written
as the array of all its fields instead of an object. That leaves the chunk as it is, but not the
fault: an array is read in the order of the fields, an object in the order of their keys. Main
statement: `alike_decoded_alike`.
-/

namespace Rollcall

open Payload

/-! ## Outcomes -/

/-- The same outcome. Where records are `reshaped`, this is asked only of what can be decoded. -/
def Agrees {α : Type} (reshaped : Bool) (x y : Except Fault α) : Prop :=
  x = y ∨ reshaped = true ∧ ∃ f, x = .error f

variable {α β : Type} {reshaped : Bool}

namespace Agrees

variable {x y : Except Fault α}

@[refl] theorem refl (x : Except Fault α) : Agrees reshaped x x := .inl rfl

theorem eq (h : Agrees false x y) : x = y := h.resolve_right fun hf => Bool.false_ne_true hf.1

theorem eq_ok (h : Agrees reshaped x y) {a : α} (hx : x = .ok a) : y = .ok a := by
  rcases h with rfl | ⟨-, f, rfl⟩
  · exact hx
  · cases hx

theorem bind (h : Agrees reshaped x y) {f g : α → Except Fault β}
    (hf : ∀ a, Agrees reshaped (f a) (g a)) : Agrees reshaped (x >>= f) (y >>= g) := by
  rcases h with rfl | ⟨hr, e, rfl⟩
  · cases x with
    | error e => exact .refl _
    | ok a => exact hf a
  · exact .inr ⟨hr, e, rfl⟩

theorem map (h : Agrees reshaped x y) (f : α → β) : Agrees reshaped (x.map f) (y.map f) := by
  rcases h with rfl | ⟨hr, e, rfl⟩
  · exact .refl _
  · exact .inr ⟨hr, e, rfl⟩

end Agrees

theorem bind_eq_ok {x : Except Fault α} {f : α → Except Fault β} {b : β} :
    (x >>= f) = .ok b ↔ ∃ a, x = .ok a ∧ f a = .ok b := by
  cases x with
  | error e => exact ⟨nofun, nofun⟩
  | ok a => exact ⟨fun h => ⟨a, rfl, h⟩, fun ⟨_, ha, h⟩ => by cases ha; exact h⟩

theorem orElse_eq_ok {fault : Fault} {o : Option α} {a : α} :
    orElse fault o = .ok a ↔ o = some a := by
  cases o <;> simp [orElse]

theorem map_eq_ok {x : Except Fault α} {f : α → β} {b : β} :
    x.map f = .ok b ↔ ∃ a, x = .ok a ∧ f a = b := by
  cases x <;> simp [Except.map]

theorem pure_eq_ok {a b : α} : (pure a : Except Fault α) = .ok b ↔ a = b := by
  simp [pure, Except.pure]

theorem decodeItems_cons (decode : Decoder α) (v : Json) (vs : List Json) :
    decodeItems decode (v :: vs) = decode v >>= fun a => (decodeItems decode vs).map (a :: ·) := by
  rw [decodeItems]
  cases decode v with
  | error f => rfl
  | ok a => cases decodeItems decode vs <;> rfl

/-! ## Records -/

/-- A field of a record: its key, the ways of writing its default if it has one, and which of its
values count as the same. -/
structure Field where
  key : String
  defaults : List Json := []
  alike : Json → Json → Prop := Eq

def Field.Shown (f : Field) (v : Json) : Option Json → Prop
  | some w => f.alike w v
  | none => v ∈ f.defaults

def SameFields (fields : List Field) (o o' : List (String × Json)) : Prop :=
  ∀ f ∈ fields, Option.Rel f.alike (Json.field? f.key o) (Json.field? f.key o')

def knows (fields : List Field) (e : String × Json) : Bool := fields.any (·.key = e.1)

/-- Entries that are not those of fields may come and go. -/
theorem SameFields.of_filter_eq {fields : List Field} {o o' : List (String × Json)}
    (hself : ∀ f ∈ fields, ∀ v, f.alike v v)
    (h : o.filter (knows fields) = o'.filter (knows fields)) : SameFields fields o o' := by
  intro f hf
  have hknows (v : Json) : knows fields (f.key, v) = true :=
    List.any_eq_true.mpr ⟨f, hf, decide_eq_true rfl⟩
  rw [← Json.field?_filter hknows o, h, Json.field?_filter hknows o']
  cases Json.field? f.key o' with
  | none => exact .none
  | some v => exact .some (hself f hf v)

def SamePlaces (fields : List Field) (vs vs' : List Json) : Prop :=
  ∀ i : Nat, Option.Rel ((fields[i]?).elim Eq Field.alike) vs[i]? vs'[i]?

def Spreads (fields : List Field) (o : List (String × Json)) (vs : List Json) : Prop :=
  List.Forall₂ (fun f v => f.Shown v (Json.field? f.key o)) fields vs

/-- The same record in other words. Whether an object has entries under the key of no field, and
which, does not count; in an array every place does. -/
inductive Alike (reshaped : Bool) (fields : List Field) : Json → Json → Prop
  | same (v : Json) : Alike reshaped fields v v
  | object {o o' : List (String × Json)} (h : SameFields fields o o') :
      Alike reshaped fields (.object o) (.object o')
  | array {vs vs' : List Json} (h : SamePlaces fields vs vs') :
      Alike reshaped fields (.array vs) (.array vs')
  | reshape {o : List (String × Json)} {vs : List Json} (hr : reshaped = true)
      (h : Spreads fields o vs) : Alike reshaped fields (.object o) (.array vs)

def Respects (reshaped : Bool) (alike : Json → Json → Prop) (decode : Decoder α) : Prop :=
  ∀ v w, alike v w → Agrees reshaped (decode v) (decode w)

theorem Respects.eq {decode : Decoder α} : Respects reshaped Eq decode := by
  rintro v _ rfl
  rfl

section
variable {alike : Json → Json → Prop} {decode : Decoder α} {o o' : List (String × Json)}
  {vs vs' : List Json} {key : String} {i : Nat}

theorem Respects.ifPresent (h : Respects reshaped alike decode) {v w : Option Json}
    (hvw : Option.Rel alike v w) :
    Agrees reshaped (decodeIfPresent decode v) (decodeIfPresent decode w) := by
  cases hvw with
  | some hvw => exact (h _ _ hvw).map some
  | none => rfl

theorem Respects.ofKey (h : Respects reshaped alike decode)
    (hk : Option.Rel alike (Json.field? key o) (Json.field? key o')) :
    Agrees reshaped (ofKey o key decode) (ofKey o' key decode) := h.ifPresent hk

theorem Respects.ofPlace (h : Respects reshaped alike decode)
    (hi : Option.Rel alike vs[i]? vs'[i]?) :
    Agrees reshaped (ofPlace vs i decode) (ofPlace vs' i decode) := h.ifPresent hi

theorem ofPlace_eq_ok {v : Json} {a : α} (hi : vs[i]? = some v) (hv : decode v = .ok a) :
    ofPlace vs i decode = .ok (some a) := by
  rw [ofPlace, hi, decodeIfPresent, hv]
  rfl

theorem ofKey_eq_some {a : α} (h : Payload.ofKey o key decode = .ok (some a)) :
    ∃ v, Json.field? key o = some v ∧ decode v = .ok a := by
  rw [Payload.ofKey] at h
  cases hkey : Json.field? key o with
  | none =>
    rw [hkey] at h
    cases h
  | some v =>
    rw [hkey] at h
    obtain ⟨_, hv, he⟩ := map_eq_ok.mp h
    cases he
    exact ⟨v, rfl, hv⟩

theorem ofKey_eq_none (h : Payload.ofKey o key decode = .ok none) : Json.field? key o = none := by
  rw [Payload.ofKey] at h
  cases hkey : Json.field? key o with
  | none => rfl
  | some v =>
    rw [hkey] at h
    obtain ⟨_, _, he⟩ := map_eq_ok.mp h
    cases he

namespace Field.Shown
variable {f : Field} {v : Json} (h : f.Shown v (Json.field? f.key o))
  (hf : Respects true f.alike decode)

include h hf

theorem decoded {a : α} (ha : Payload.ofKey o f.key decode = .ok (some a)) : decode v = .ok a := by
  obtain ⟨w, hkey, hw⟩ := ofKey_eq_some ha
  rw [hkey] at h
  exact (hf w v h).eq_ok hw

theorem decoded_getD {default : α} (hdefault : ∀ w ∈ f.defaults, decode w = .ok default)
    {x : Option α} (hx : Payload.ofKey o f.key decode = .ok x) : decode v = .ok (x.getD default) := by
  cases x with
  | some a => exact h.decoded hf hx
  | none =>
    rw [ofKey_eq_none hx] at h
    exact hdefault v h

end Field.Shown

theorem SamePlaces.atMost_eq {fields : List Field} (h : SamePlaces fields vs vs') (n : Nat) :
    atMost n vs = atMost n vs' := by
  have hend (i : Nat) : vs.length ≤ i ↔ vs'.length ≤ i := by
    rw [← List.getElem?_eq_none_iff, ← List.getElem?_eq_none_iff]
    have hi := h i
    generalize vs[i]? = v at hi ⊢
    generalize vs'[i]? = v' at hi ⊢
    cases hi <;> simp
  have hle := (hend vs'.length).mpr le_rfl
  have hge := (hend vs.length).mp le_rfl
  rw [atMost, atMost, Nat.le_antisymm hle hge]

theorem Respects.items (h : Respects reshaped alike decode) (hvs : List.Forall₂ alike vs vs') :
    Agrees reshaped (decodeItems decode vs) (decodeItems decode vs') := by
  induction hvs with
  | nil => rfl
  | cons hv _ ih =>
    rw [decodeItems_cons, decodeItems_cons]
    exact (h _ _ hv).bind fun a => ih.map (a :: ·)

end

inductive Listed (alike : Json → Json → Prop) : Json → Json → Prop
  | same (v : Json) : Listed alike v v
  | items {vs vs' : List Json} (h : List.Forall₂ alike vs vs') :
      Listed alike (.array vs) (.array vs')

theorem Respects.list {alike : Json → Json → Prop} {decode : Decoder α}
    (h : Respects reshaped alike decode) :
    Respects reshaped (Listed alike) (decodeList decode) := by
  rintro _ _ (v | hvs)
  · rfl
  · exact h.items hvs

/-- A record is decoded in the same way from whatever is alike, if objects are, arrays are, and the
fields of an object can be spread out. -/
theorem Alike.respects {fields : List Field} {decode : Decoder α}
    (hobject : ∀ o o', SameFields fields o o' →
      Agrees reshaped (decode (.object o)) (decode (.object o')))
    (harray : ∀ vs vs', SamePlaces fields vs vs' →
      Agrees reshaped (decode (.array vs)) (decode (.array vs')))
    (hspread : reshaped = true → ∀ o vs a, Spreads fields o vs →
      decode (.object o) = .ok a → decode (.array vs) = .ok a) :
    Respects reshaped (Alike reshaped fields) decode := by
  rintro _ _ (v | hfields | hplaces | ⟨hr, hspreads⟩)
  · rfl
  · exact hobject _ _ hfields
  · exact harray _ _ hplaces
  · rename_i o vs
    cases hdecode : decode (.object o) with
    | error f => exact .inr ⟨hr, f, rfl⟩
    | ok a => exact .inl (hspread hr o vs a hspreads hdecode).symm

/-! ## Users -/

namespace User

def fields : List Field :=
  [{ key := "id" }, { key := "username" }, { key := "global_name", defaults := [.null] },
    { key := "bot", defaults := [.bool false] }]

protected abbrev Alike (reshaped : Bool) : Json → Json → Prop := Rollcall.Alike reshaped fields

theorem ofObject_eq_ok {o : List (String × Json)} {u : User} (h : ofObject o = .ok u) :
    ∃ bot globalName, ofKey o "bot" decodeBool = .ok bot ∧
      ofKey o "global_name" (decodeOption decodeString) = .ok globalName ∧
      ofKey o "id" (decodeId .user) = .ok (some u.id) ∧
      ofKey o "username" decodeString = .ok (some u.username) ∧
      u.globalName = globalName.getD none ∧ u.bot = bot.getD false := by
  simp only [ofObject, bind_eq_ok, orElse_eq_ok, pure_eq_ok] at h
  obtain ⟨bot, hbot, globalName, hname, _, hid, _, husername, id, rfl, username, rfl, rfl⟩ := h
  refine ⟨bot, globalName, hbot, hname, hid, husername, ?_, rfl⟩
  cases globalName <;> rfl

theorem ofObject_agrees {o o' : List (String × Json)} (h : SameFields fields o o') :
    Agrees reshaped (ofObject o) (ofObject o') := by
  simp only [SameFields, fields, List.forall_mem_cons] at h
  obtain ⟨hid, husername, hname, hbot, -⟩ := h
  refine (Respects.eq.ofKey hbot).bind fun bot => ?_
  refine (Respects.eq.ofKey hname).bind fun globalName => ?_
  refine (Respects.eq.ofKey hid).bind fun id => ?_
  refine (Respects.eq.ofKey husername).bind fun username => ?_
  rfl

theorem ofArray_agrees {vs vs' : List Json} (h : SamePlaces fields vs vs') :
    Agrees reshaped (ofArray vs) (ofArray vs') := by
  refine (Respects.eq.ofPlace (h 0)).bind fun id => (Agrees.refl _).bind fun id => ?_
  refine (Respects.eq.ofPlace (h 1)).bind fun username => (Agrees.refl _).bind fun username => ?_
  refine (Respects.eq.ofPlace (h 2)).bind fun globalName => ?_
  refine (Respects.eq.ofPlace (h 3)).bind fun bot => ?_
  rw [h.atMost_eq]

theorem ofArray_of_spreads {o : List (String × Json)} {vs : List Json} {u : User}
    (h : Spreads fields o vs) (hu : ofObject o = .ok u) : ofArray vs = .ok u := by
  obtain ⟨bot, globalName, hbot, hname, hid, husername, hname', hbot'⟩ := ofObject_eq_ok hu
  simp only [Spreads, fields, List.forall₂_cons_left_iff, List.forall₂_nil_left_iff] at h
  obtain ⟨v₀, _, h₀, ⟨v₁, _, h₁, ⟨v₂, _, h₂, ⟨v₃, _, h₃, rfl, rfl⟩, rfl⟩, rfl⟩, rfl⟩ := h
  have hid : decodeId .user v₀ = .ok u.id := h₀.decoded .eq hid
  have husername : decodeString v₁ = .ok u.username := h₁.decoded .eq husername
  have hname : decodeOption decodeString v₂ = .ok u.globalName := by
    rw [hname']
    exact h₂.decoded_getD .eq (by simp [decodeOption]) hname
  have hbot : decodeBool v₃ = .ok u.bot := by
    rw [hbot']
    exact h₃.decoded_getD .eq (by simp [decodeBool]) hbot
  rw [ofArray, ofPlace_eq_ok rfl hid, ofPlace_eq_ok rfl husername, ofPlace_eq_ok rfl hname,
    ofPlace_eq_ok rfl hbot]
  rfl

theorem respects : Respects reshaped (User.Alike reshaped) ofJson :=
  Alike.respects (fun _ _ => ofObject_agrees) (fun _ _ => ofArray_agrees)
    fun _ _ _ _ => ofArray_of_spreads

end User

/-! ## Members -/

namespace Member

def fields (reshaped : Bool) : List Field :=
  [{ key := "guild_id", defaults := [ofId (⟨0⟩ : GuildId), .ofNat 0] },
    { key := "user", alike := User.Alike reshaped }, { key := "nick", defaults := [.null] },
    { key := "roles", defaults := [.array []] }, { key := "joined_at", defaults := [.string ""] }]

protected abbrev Alike (reshaped : Bool) : Json → Json → Prop :=
  Rollcall.Alike reshaped (fields reshaped)

theorem ofObject_eq_ok {o : List (String × Json)} {m : Member} (h : ofObject o = .ok m) :
    ∃ guild joinedAt nick roles, ofKey o "guild_id" (decodeId .guild) = .ok guild ∧
      ofKey o "joined_at" decodeString = .ok joinedAt ∧
      ofKey o "nick" (decodeOption decodeString) = .ok nick ∧
      ofKey o "roles" (decodeList decodeWord64) = .ok roles ∧
      ofKey o "user" User.ofJson = .ok (some m.user) ∧
      m.guild = guild.getD ⟨0⟩ ∧ m.joinedAt = joinedAt.getD "" ∧ m.nick = nick.getD none ∧
      m.roles = roles.getD [] := by
  simp only [ofObject, bind_eq_ok, orElse_eq_ok, pure_eq_ok] at h
  obtain ⟨guild, hguild, joinedAt, hjoined, nick, hnick, roles, hroles, _, huser, user, rfl, rfl⟩ := h
  refine ⟨guild, joinedAt, nick, roles, hguild, hjoined, hnick, hroles, huser, rfl, rfl, ?_, rfl⟩
  cases nick <;> rfl

theorem decode_default_guild :
    ∀ v ∈ [ofId (⟨0⟩ : GuildId), .ofNat 0], decodeId .guild v = .ok ⟨0⟩ := by
  simp only [List.forall_mem_cons]
  exact ⟨(readsBack_id .guild ⟨0⟩).1, rfl, nofun⟩

theorem ofObject_agrees {o o' : List (String × Json)} (h : SameFields (fields reshaped) o o') :
    Agrees reshaped (ofObject o) (ofObject o') := by
  simp only [SameFields, fields, List.forall_mem_cons] at h
  obtain ⟨hguild, huser, hnick, hroles, hjoined, -⟩ := h
  refine (Respects.eq.ofKey hguild).bind fun guild => ?_
  refine (Respects.eq.ofKey hjoined).bind fun joinedAt => ?_
  refine (Respects.eq.ofKey hnick).bind fun nick => ?_
  refine (Respects.eq.ofKey hroles).bind fun roles => ?_
  refine (User.respects.ofKey huser).bind fun user => ?_
  rfl

theorem ofArray_agrees {vs vs' : List Json} (h : SamePlaces (fields reshaped) vs vs') :
    Agrees reshaped (ofArray vs) (ofArray vs') := by
  refine (Respects.eq.ofPlace (h 0)).bind fun guild => ?_
  refine (User.respects.ofPlace (h 1)).bind fun user => (Agrees.refl _).bind fun user => ?_
  refine (Respects.eq.ofPlace (h 2)).bind fun nick => ?_
  refine (Respects.eq.ofPlace (h 3)).bind fun roles => ?_
  refine (Respects.eq.ofPlace (h 4)).bind fun joinedAt => ?_
  rw [h.atMost_eq]

theorem ofArray_of_spreads {o : List (String × Json)} {vs : List Json} {m : Member}
    (h : Spreads (fields true) o vs) (hm : ofObject o = .ok m) : ofArray vs = .ok m := by
  obtain ⟨guild, joinedAt, nick, roles, hguild, hjoined, hnick, hroles, huser, hguild', hjoined',
    hnick', hroles'⟩ := ofObject_eq_ok hm
  simp only [Spreads, fields, List.forall₂_cons_left_iff, List.forall₂_nil_left_iff] at h
  obtain ⟨v₀, _, h₀, ⟨v₁, _, h₁, ⟨v₂, _, h₂, ⟨v₃, _, h₃, ⟨v₄, _, h₄, rfl, rfl⟩, rfl⟩, rfl⟩, rfl⟩,
    rfl⟩ := h
  have hguild : decodeId .guild v₀ = .ok m.guild := by
    rw [hguild']
    exact h₀.decoded_getD .eq decode_default_guild hguild
  have huser : User.ofJson v₁ = .ok m.user := h₁.decoded User.respects huser
  have hnick : decodeOption decodeString v₂ = .ok m.nick := by
    rw [hnick']
    exact h₂.decoded_getD .eq (by simp [decodeOption]) hnick
  have hroles : decodeList decodeWord64 v₃ = .ok m.roles := by
    rw [hroles']
    exact h₃.decoded_getD .eq (by simp [decodeList, decodeItems]) hroles
  have hjoined : decodeString v₄ = .ok m.joinedAt := by
    rw [hjoined']
    exact h₄.decoded_getD .eq (by simp [decodeString]) hjoined
  rw [ofArray, ofPlace_eq_ok rfl hguild, ofPlace_eq_ok rfl huser, ofPlace_eq_ok rfl hnick,
    ofPlace_eq_ok rfl hroles, ofPlace_eq_ok rfl hjoined]
  rfl

theorem respects : Respects reshaped (Member.Alike reshaped) ofJson := by
  refine Alike.respects (fun _ _ => ofObject_agrees) (fun _ _ => ofArray_agrees) fun hr o vs m => ?_
  subst hr
  exact ofArray_of_spreads

end Member

/-! ## Chunks -/

namespace Chunk

def fields (reshaped : Bool) : List Field :=
  [{ key := "guild_id" },
    { key := "members", defaults := [.array []], alike := Listed (Member.Alike reshaped) },
    { key := "chunk_index" }, { key := "chunk_count" },
    { key := "not_found", defaults := [.array []] }, { key := "nonce", defaults := [.null] }]

protected abbrev Alike (reshaped : Bool) : Json → Json → Prop :=
  Rollcall.Alike reshaped (fields reshaped)

theorem ofObject_eq_ok {o : List (String × Json)} {c : Chunk} (h : ofObject o = .ok c) :
    ∃ members nonce notFound, ofKey o "chunk_count" decodeWord32 = .ok (some c.count) ∧
      ofKey o "chunk_index" decodeWord32 = .ok (some c.index) ∧
      ofKey o "guild_id" (decodeId .guild) = .ok (some c.guild) ∧
      ofKey o "members" (decodeList Member.ofJson) = .ok members ∧
      ofKey o "nonce" (decodeOption decodeString) = .ok nonce ∧
      ofKey o "not_found" (decodeList (decodeId .user)) = .ok notFound ∧
      c.members = members.getD [] ∧ c.nonce = nonce.getD none ∧ c.notFound = notFound.getD [] := by
  simp only [ofObject, bind_eq_ok, orElse_eq_ok, pure_eq_ok] at h
  obtain ⟨_, hcount, _, hindex, _, hguild, members, hmembers, nonce, hnonce, notFound, hmissing,
    guild, rfl, index, rfl, count, rfl, rfl⟩ := h
  refine ⟨members, nonce, notFound, hcount, hindex, hguild, hmembers, hnonce, hmissing, rfl, ?_, rfl⟩
  cases nonce <;> rfl

theorem members_respect :
    Respects reshaped (Listed (Member.Alike reshaped)) (decodeList Member.ofJson) :=
  Member.respects.list

theorem ofObject_agrees {o o' : List (String × Json)} (h : SameFields (fields reshaped) o o') :
    Agrees reshaped (ofObject o) (ofObject o') := by
  simp only [SameFields, fields, List.forall_mem_cons] at h
  obtain ⟨hguild, hmembers, hindex, hcount, hmissing, hnonce, -⟩ := h
  refine (Respects.eq.ofKey hcount).bind fun count => ?_
  refine (Respects.eq.ofKey hindex).bind fun index => ?_
  refine (Respects.eq.ofKey hguild).bind fun guild => ?_
  refine (members_respect.ofKey hmembers).bind fun members => ?_
  refine (Respects.eq.ofKey hnonce).bind fun nonce => ?_
  refine (Respects.eq.ofKey hmissing).bind fun notFound => ?_
  rfl

theorem ofArray_agrees {vs vs' : List Json} (h : SamePlaces (fields reshaped) vs vs') :
    Agrees reshaped (ofArray vs) (ofArray vs') := by
  refine (Respects.eq.ofPlace (h 0)).bind fun guild => (Agrees.refl _).bind fun guild => ?_
  refine (members_respect.ofPlace (h 1)).bind fun members => ?_
  refine (Respects.eq.ofPlace (h 2)).bind fun index => (Agrees.refl _).bind fun index => ?_
  refine (Respects.eq.ofPlace (h 3)).bind fun count => (Agrees.refl _).bind fun count => ?_
  refine (Respects.eq.ofPlace (h 4)).bind fun notFound => ?_
  refine (Respects.eq.ofPlace (h 5)).bind fun nonce => ?_
  rw [h.atMost_eq]

theorem ofArray_of_spreads {o : List (String × Json)} {vs : List Json} {c : Chunk}
    (h : Spreads (fields true) o vs) (hc : ofObject o = .ok c) : ofArray vs = .ok c := by
  obtain ⟨members, nonce, notFound, hcount, hindex, hguild, hmembers, hnonce, hmissing, hmembers',
    hnonce', hmissing'⟩ := ofObject_eq_ok hc
  simp only [Spreads, fields, List.forall₂_cons_left_iff, List.forall₂_nil_left_iff] at h
  obtain ⟨v₀, _, h₀, ⟨v₁, _, h₁, ⟨v₂, _, h₂, ⟨v₃, _, h₃, ⟨v₄, _, h₄, ⟨v₅, _, h₅, rfl, rfl⟩, rfl⟩,
    rfl⟩, rfl⟩, rfl⟩, rfl⟩ := h
  have hguild : decodeId .guild v₀ = .ok c.guild := h₀.decoded .eq hguild
  have hmembers : decodeList Member.ofJson v₁ = .ok c.members := by
    rw [hmembers']
    exact h₁.decoded_getD members_respect (by simp [decodeList, decodeItems]) hmembers
  have hindex : decodeWord32 v₂ = .ok c.index := h₂.decoded .eq hindex
  have hcount : decodeWord32 v₃ = .ok c.count := h₃.decoded .eq hcount
  have hmissing : decodeList (decodeId .user) v₄ = .ok c.notFound := by
    rw [hmissing']
    exact h₄.decoded_getD .eq (by simp [decodeList, decodeItems]) hmissing
  have hnonce : decodeOption decodeString v₅ = .ok c.nonce := by
    rw [hnonce']
    exact h₅.decoded_getD .eq (by simp [decodeOption]) hnonce
  rw [ofArray, ofPlace_eq_ok rfl hguild, ofPlace_eq_ok rfl hmembers, ofPlace_eq_ok rfl hindex,
    ofPlace_eq_ok rfl hcount, ofPlace_eq_ok rfl hmissing, ofPlace_eq_ok rfl hnonce]
  rfl

theorem respects : Respects reshaped (Chunk.Alike reshaped) ofJson := by
  refine Alike.respects (fun _ _ => ofObject_agrees) (fun _ _ => ofArray_agrees) fun hr o vs c => ?_
  subst hr
  exact ofArray_of_spreads

end Chunk

theorem Event.respects (kind : String) :
    Respects reshaped (Chunk.Alike reshaped) fun v => ofDispatch ⟨kind, v⟩ := by
  intro v w h
  simp only [ofDispatch]
  by_cases hk : kind = chunkKind
  · rw [if_pos hk, if_pos hk]
    exact (Chunk.respects v w h).map chunk
  · rw [if_neg hk, if_neg hk]

/-- **What is not modelled is passed over.** A payload that says the same in the fields of all its
records is decoded to the same event, or with the same fault. Where records are reshaped too,
whatever could be decoded still gives the same event. An object is read entry by entry, and those
under the key of no field change nothing. -/
theorem alike_decoded_alike :
    (∀ kind v w, Chunk.Alike false v w → Event.ofDispatch ⟨kind, v⟩ = Event.ofDispatch ⟨kind, w⟩) ∧
    (∀ kind v w e, Chunk.Alike true v w → Event.ofDispatch ⟨kind, v⟩ = .ok e →
      Event.ofDispatch ⟨kind, w⟩ = .ok e) ∧
    ∀ o, Json.Ascending o →
      User.ofObject o = visit User.Draft.readers {} o >>= User.Draft.finish ∧
      Member.ofObject o = visit Member.Draft.readers {} o >>= Member.Draft.finish ∧
      Chunk.ofObject o = visit Chunk.Draft.readers {} o >>= Chunk.Draft.finish := by
  refine ⟨fun kind v w h => (Event.respects kind v w h).eq,
    fun kind v w e h hv => (Event.respects kind v w h).eq_ok hv, fun o ho => ?_⟩
  exact ⟨User.ofObject_eq_visit ho, Member.ofObject_eq_visit ho, Chunk.ofObject_eq_visit ho⟩

/-- A chunk with one member: what is required and nothing else, the same among keys that no record
at their place knows, and with an array for each record. -/
inductive Spelling where
  | bare
  | cluttered
  | flat

namespace Spelling

def user : Spelling → Json
  | bare => .object [("id", .ofNat 9), ("username", .string "ada")]
  | cluttered => .object
    [("ID", .null), ("id", .ofNat 9), ("roles", .array [.null]), ("username", .string "ada")]
  | flat => .array [.ofNat 9, .string "ada", .null, .bool false]

def member (s : Spelling) : Json :=
  match s with
  | bare => .object [("user", s.user)]
  | cluttered => .object [("bot", .string "yes"), ("id", .array []), ("user", s.user)]
  | flat => .array [.string "0", s.user, .null, .array [], .string ""]

def chunk (s : Spelling) : Json :=
  match s with
  | bare => .object [("chunk_count", .ofNat 1), ("chunk_index", .ofNat 0), ("guild_id", .ofNat 7),
      ("members", .array [s.member])]
  | cluttered => .object [("chunk_count", .ofNat 1), ("chunk_inde", .bool true),
      ("chunk_index", .ofNat 0), ("guild_id", .ofNat 7), ("members", .array [s.member]),
      ("user", .object [("id", .array [])])]
  | flat => .array [.ofNat 7, .array [s.member], .ofNat 0, .ofNat 1, .array [], .null]

def misspelt : List (String × Json) :=
  [("username", .null), ("name", .ofNat 3), ("id", .null)]

def decoded : Chunk :=
  { guild := ⟨7⟩, members := [{ guild := ⟨0⟩, user := { id := ⟨9⟩, username := "ada" } }], index := 0,
    count := 1 }

theorem cluttered_alike : Chunk.Alike false bare.chunk cluttered.chunk := by
  have huser : User.Alike false bare.user cluttered.user :=
    .object (.of_filter_eq (by simp [User.fields]) rfl)
  have hmember : Member.Alike false bare.member cluttered.member :=
    .object (by simp [SameFields, Member.fields, Json.field?, huser])
  have hmembers := Listed.items (.cons hmember .nil)
  exact .object (by simp [SameFields, Chunk.fields, Json.field?, hmembers])

theorem flat_alike : Chunk.Alike true cluttered.chunk flat.chunk := by
  have huser : User.Alike true cluttered.user flat.user :=
    .reshape rfl (by simp [Spreads, User.fields, Field.Shown, Json.field?])
  have hguild : Json.string "0" = ofId (⟨0⟩ : GuildId) := rfl
  have hmember : Member.Alike true cluttered.member flat.member :=
    .reshape rfl (by simp [Spreads, Member.fields, Field.Shown, Json.field?, huser, hguild])
  have hmembers := Listed.items (.cons hmember .nil)
  exact .reshape rfl (by simp [Spreads, Chunk.fields, Field.Shown, Json.field?, hmembers])

end Spelling

theorem clutter_passed_over :
    Event.ofDispatch ⟨Event.chunkKind, Spelling.bare.chunk⟩ = .ok (.chunk Spelling.decoded) ∧
    Chunk.Alike false Spelling.bare.chunk Spelling.cluttered.chunk ∧
    Event.ofDispatch ⟨Event.chunkKind, Spelling.cluttered.chunk⟩ = .ok (.chunk Spelling.decoded) ∧
    Chunk.Alike true Spelling.cluttered.chunk Spelling.flat.chunk ∧
    Event.ofDispatch ⟨Event.chunkKind, Spelling.flat.chunk⟩ = .ok (.chunk Spelling.decoded) ∧
    Json.Ascending (Json.fieldsOf Spelling.misspelt) ∧
    User.ofObject (Json.fieldsOf Spelling.misspelt) = .error (.wrongType .null .id) := by
  obtain ⟨hsame, hreshaped, hvisit⟩ := alike_decoded_alike
  have hbare : Event.ofDispatch ⟨Event.chunkKind, Spelling.bare.chunk⟩ =
      .ok (.chunk Spelling.decoded) := rfl
  have hcluttered := hsame Event.chunkKind _ _ Spelling.cluttered_alike
  rw [hbare] at hcluttered
  have hascending := Json.ascending_fieldsOf Spelling.misspelt
  exact ⟨hbare, Spelling.cluttered_alike, hcluttered.symm, Spelling.flat_alike,
    hreshaped _ _ _ _ Spelling.flat_alike hcluttered.symm, hascending, (hvisit _ hascending).1⟩

end Rollcall
