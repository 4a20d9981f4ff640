/-!
# Names for things

A list of names, each for one thing at a time.
-/

namespace Rollcall

structure Names (α : Type) where
  entries : List (String × α) := []

namespace Names

variable {α : Type}

def get? (n : Names α) (name : String) : Option α := n.entries.lookup name

def erase (n : Names α) (name : String) : Names α := ⟨n.entries.filter fun e => e.1 ≠ name⟩

/-- Gives a name to a thing; what had the name before loses it. -/
def set (n : Names α) (name : String) (a : α) : Names α := ⟨(name, a) :: (n.erase name).entries⟩

end Names
end Rollcall
