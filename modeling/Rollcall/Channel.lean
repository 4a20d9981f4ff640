import Rollcall.Member

/-!
# Channels of members

A channel holds the members that have been placed in it and not yet been read, in order, up to its
capacity. What has been read is kept too, so that a channel tells all that was ever placed in it.
-/

namespace Rollcall

/-- The reading end of a channel. A closed end gives out what is left and takes nothing more; a
dropped one gives out nothing. -/
inductive Receiver where
  | listening
  | closed
  | dropped
deriving DecidableEq, Repr

structure Channel where
  capacity : Nat
  -- what has been read, the latest first
  read : List Member := []
  -- what is left to read, the earliest first
  unread : List Member := []
  receiver : Receiver := .listening
deriving Repr

namespace Channel

def placed (c : Channel) : List Member := c.read.reverse ++ c.unread

def hasRoom (c : Channel) : Bool := c.unread.length < c.capacity

def isListening (c : Channel) : Bool := c.receiver = .listening

def place (c : Channel) (m : Member) : Channel := { c with unread := c.unread ++ [m] }

def take (c : Channel) : Channel :=
  match c.unread with
  | [] => c
  | m :: rest => { c with read := m :: c.read, unread := rest }

/-- Refuses further members; those that are left can still be read. -/
def close (c : Channel) : Channel :=
  if c.receiver = .dropped then c else { c with receiver := .closed }

def drop (c : Channel) : Channel := { c with receiver := .dropped }

theorem placed_place (c : Channel) (m : Member) : (c.place m).placed = c.placed ++ [m] := by
  simp [place, placed]

theorem placed_take (c : Channel) : c.take.placed = c.placed := by
  unfold take
  split
  · rfl
  · simp [placed, *]

end Channel
end Rollcall
