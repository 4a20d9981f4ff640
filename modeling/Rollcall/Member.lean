import Rollcall.Snowflake
import Rollcall.Text.Outline
import Rollcall.Text.Quoted

/-!
# Users and members

A member is a user as seen in one guild. Members of a chunk come without a guild; they get the one
of their chunk.
-/

namespace Rollcall

structure User where
  id : UserId
  username : String
  globalName : Option String := none
  bot : Bool := false
deriving DecidableEq, Repr

structure Member where
  guild : GuildId := ⟨0⟩
  user : User
  nick : Option String := none
  roles : List UInt64 := []
  joinedAt : String := ""
deriving DecidableEq, Repr

/-- The nickname, else the user's global name, else the username. -/
def Member.displayName (m : Member) : String :=
  (m.nick.or m.user.globalName).getD m.user.username

def Member.inGuild (guild : GuildId) (m : Member) : Member := { m with guild }

/-! ## Outlines -/

open Text

def boolText (b : Bool) : String := if b then "true" else "false"

def stringOutline (s : String) : Outline := .atom (quoted s)

def User.outline (u : User) : Outline :=
  .record "User"
    [("id", .atom u.id.label), ("username", stringOutline u.username),
      ("global_name", .ofOption stringOutline u.globalName), ("bot", .atom (boolText u.bot))] true

def Member.outline (m : Member) : Outline :=
  .record "Member"
    [("guild_id", .atom m.guild.label), ("user", m.user.outline),
      ("nick", .ofOption stringOutline m.nick),
      ("roles", .sequence (m.roles.map fun r => .atom (toString r.toNat))),
      ("joined_at", stringOutline m.joinedAt)] true

end Rollcall
