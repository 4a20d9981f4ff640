import Rollcall.Text.Outline
import Std.Data.ExtTreeMap

/-!
# The registry

Which request waits under which nonce. Requests are told apart by their ids: a nonce may be given
to a new request once the old one is gone.
-/

namespace Rollcall

/-- Requests are numbered as they are made. -/
abbrev RequestId := Nat

structure Registry where
  entries : Std.ExtTreeMap String RequestId compare := ∅

namespace Registry

def empty : Registry := {}

def get? (r : Registry) (nonce : String) : Option RequestId := r.entries[nonce]?

def contains (r : Registry) (nonce : String) : Bool := r.entries.contains nonce

def size (r : Registry) : Nat := r.entries.size

def insert (r : Registry) (nonce : String) (id : RequestId) : Registry :=
  ⟨r.entries.insert nonce id⟩

def erase (r : Registry) (nonce : String) : Registry := ⟨r.entries.erase nonce⟩

def toList (r : Registry) : List (String × RequestId) := r.entries.toList

def outline (r : Registry) : Text.Outline :=
  .record "Registry" [("pending", .atom (toString r.size))] false

def holds (r : Registry) (nonce : String) (id : RequestId) : Bool := r.get? nonce = some id

theorem get?_insert (r : Registry) (nonce other : String) (id : RequestId) :
    (r.insert nonce id).get? other = if nonce = other then some id else r.get? other := by
  simp [insert, get?, Std.ExtTreeMap.getElem?_insert]

theorem get?_erase (r : Registry) (nonce other : String) :
    (r.erase nonce).get? other = if nonce = other then none else r.get? other := by
  simp [erase, get?, Std.ExtTreeMap.getElem?_erase]

theorem contains_eq_isSome (r : Registry) (nonce : String) :
    r.contains nonce = (r.get? nonce).isSome := by
  simp [contains, get?, Std.ExtTreeMap.isSome_getElem?_eq_contains]

end Registry
end Rollcall
