import Rollcall.Request

/-!
# Cooperating tasks

A task runs in segments, from one place where it may have to wait to the next; nothing else runs
meanwhile. A round lets each task run as far as it can, in the order in which they were started;
rounds go on until nothing moves. A budget bounds all of this; the weight of a state is enough for
it, since every segment makes the state lighter.
-/

namespace Rollcall

/-- What comes of one segment of a task in a state `σ`: the task may have to wait, go on as `τ`, or
end with a result. -/
inductive Move (σ τ ρ : Type) where
  | blocked
  | moved (state : σ) (task : τ)
  | done (state : σ) (result : ρ)

namespace Cooperation

def total (weights : List Nat) : Nat := weights.foldr (· + ·) 0

variable {σ : Type} (advance : σ → TaskId → Option σ)

/-- Lets one task run as far as it can; says whether it moved. -/
def runTask (t : TaskId) : Nat → σ → Bool × σ
  | 0, s => (false, s)
  | budget + 1, s =>
    match advance s t with
    | none => (false, s)
    | some s => (true, (runTask t budget s).2)

def round (budget : Nat) : List TaskId → σ → Bool × σ
  | [], s => (false, s)
  | t :: ts, s =>
    let (moved, s) := runTask advance t budget s
    let (more, s) := round budget ts s
    (moved || more, s)

/-- Rounds until nothing moves. -/
def settle (tasks : σ → List TaskId) (budget : Nat) : Nat → σ → σ
  | 0, s => s
  | rounds + 1, s =>
    match round advance budget (tasks s) s with
    | (true, s) => settle tasks budget rounds s
    | (false, s) => s

end Cooperation
end Rollcall
