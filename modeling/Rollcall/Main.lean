import Rollcall.Survey

/-!
# The program

Makes a survey of random rosters and prints a line for each report.
-/

namespace Rollcall

/-- Draws that follow from a seed: any name, and one bot in twenty. -/
def Draws.random (seed : UInt64) : Draws := fun k =>
  let word := NonceSource.scramble (seed + UInt64.ofNat k)
  ⟨word.toNat / 20, word.toNat % 20 = 0⟩

def Report.line (r : Report) : String :=
  let result := match r.outcome, r.count with
    | _, some n => toString n
    | some (.failed f), none => f.message
    | _, none => "unfinished"
  r.guild.digits ++ " " ++ r.question.name ++ " " ++ result

def usageLines : List String :=
  OptionKey.all.map fun k => "--" ++ k.word ++ " (" ++ k.variableName ++ ")"

def Ending.lines : Ending → List String
  | .usage .help => usageLines
  | .usage .version => ["rollcall"]
  | .surveyed s =>
    s.reports.map Report.line ++ [(Hub.statsOutline s.stats).flat, "cached " ++ toString s.cached]
  | _ => []

def Ending.complaints (e : Ending) : List String :=
  match e with
  | .usage .help => []
  | .usage .version => []
  | .usage _ => "These arguments cannot be used." :: usageLines
  | e => e.complaint.toList

end Rollcall

open Rollcall in
def main (args : List String) : IO UInt32 := do
  let settings ← OptionKey.all.mapM fun k => do return (k.variableName, ← IO.getEnv k.variableName)
  let seed := UInt64.ofNat (← IO.rand 0 0xffffffffffffffff)
  let ending := Ending.ofProgram args (fun name => (settings.lookup name).join) (.random seed) seed
  for line in ending.lines do IO.println line
  for line in ending.complaints do IO.eprintln line
  return ending.status
