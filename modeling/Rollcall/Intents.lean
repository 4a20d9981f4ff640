import Rollcall.Text.Outline
import Rollcall.Text.Quoted

/-!
# Intents

The kinds of event a shard may be sent, as bits. Four bits have a name here; the others are kept and
shown as a number.
-/

namespace Rollcall

structure Intents where
  bits : UInt32
deriving DecidableEq, Repr

namespace Intents

def guilds : Intents := ⟨0x1⟩
def guildMembers : Intents := ⟨0x2⟩
def guildPresences : Intents := ⟨0x100⟩
def guildMessages : Intents := ⟨0x200⟩

/-- The intents that have a name, in the order they are shown in. -/
def named : List (String × Intents) :=
  [("GUILDS", guilds), ("GUILD_MEMBERS", guildMembers), ("GUILD_PRESENCES", guildPresences),
    ("GUILD_MESSAGES", guildMessages)]

def none : Intents := ⟨0⟩
def all : Intents := ⟨0xffffffff⟩

def union (a b : Intents) : Intents := ⟨a.bits ||| b.bits⟩
def inter (a b : Intents) : Intents := ⟨a.bits &&& b.bits⟩
def diff (a b : Intents) : Intents := ⟨a.bits &&& ~~~b.bits⟩
def symmDiff (a b : Intents) : Intents := ⟨a.bits ^^^ b.bits⟩
def compl (a : Intents) : Intents := ⟨~~~a.bits⟩

def contains (a b : Intents) : Bool := a.bits &&& b.bits = b.bits
def intersects (a b : Intents) : Bool := a.bits &&& b.bits ≠ 0

def missing (a b : Intents) : Bool := !a.contains b

def isEmpty (a : Intents) : Bool := a.bits = 0
def isAll (a : Intents) : Bool := a = all

def ofName? (name : String) : Option Intents :=
  (named.find? fun e => e.1 = name).map (·.2)

def names (a : Intents) : List String := (named.filter fun e => a.contains e.2).map (·.1)

def unnamed (a : Intents) : Intents := named.foldl (fun rest e => rest.diff e.2) a

def hex (n : UInt32) : String := "0x" ++ String.ofList (Text.hexDigits n.toNat)

def text (a : Intents) : String :=
  String.intercalate " | " (a.names ++ if a.unnamed.isEmpty then [] else [hex a.unnamed.bits])

def outline (a : Intents) : Text.Outline :=
  .variant "Intents" [.atom (if a.isEmpty then hex 0 else a.text)]

end Intents
end Rollcall
