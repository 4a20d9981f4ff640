import Rollcall.Arguments
import Rollcall.Exchange

/-!
# Surveys

A survey asks five questions about every guild that is selected, all at once, and reports what
became of each. A program run with arguments in an environment makes one survey, or says why not.
-/

namespace Rollcall

/-- What is asked about a guild: for all members, for two members and a stranger, for those that a
query finds, for those that are no bots, and for the first few. -/
inductive Question where
  | all
  | users
  | query
  | humans
  | preview
deriving DecidableEq, Repr

namespace Question

def every : List Question := [all, users, query, humans, preview]

def name : Question → String
  | all => "all"
  | users => "by_ids"
  | query => "by_query"
  | humans => "humans"
  | preview => "stream_preview"

def previewLength : Nat := 10

/-- An id that no member of a guild has. -/
def stranger (guild : GuildId) : UserId := ⟨guild.bits ^^^ 1⟩

def errand (s : Settings) (r : Roster) : Question → Errand
  | all => { inquiry := .all r.guild }
  | users =>
    { inquiry := .users r.guild ((r.members.take 2).map (·.user.id) ++ [stranger r.guild]) }
  | query =>
    { inquiry := .query r.guild s.query s.queryLimit, manner := .underToken "interrupt" }
  | humans => { inquiry := .filtered r.guild fun m => !m.user.bot }
  | preview => { inquiry := .all r.guild, manner := .preview previewLength }

end Question

structure Report where
  guild : GuildId
  question : Question
  outcome : Option Outcome
deriving DecidableEq, Repr

def Report.count (r : Report) : Option Nat :=
  match r.outcome with
  | some (.members ms) => some ms.length
  | some (.gathered ms) => some ms.length
  | _ => none

structure Survey where
  reports : List Report
  stats : Stats
  cached : Nat
deriving DecidableEq, Repr

inductive Ending where
  | usage (f : UsageFault)
  | refused (f : SettingsFault)
  | aborted
  | surveyed (s : Survey)
deriving DecidableEq, Repr

namespace Survey

def asked (s : Settings) (rosters : List Roster) : List Roster :=
  rosters.filter fun r => (GuildSelection.except s.exclude).selects r.guild

def make (s : Settings) (rosters : List Roster) (nonces : NonceSource) : Ending :=
  let questions := (asked s rosters).flatMap fun r => Question.every.map fun q => (r, q)
  match Exchange.run s rosters nonces (questions.map fun e => e.2.errand s e.1) with
  | .error f => .refused (.limits f)
  | .ok x =>
    if x.isOversized then .aborted
    else .surveyed {
      reports := questions.zipWith (fun e o => ⟨e.1.guild, e.2, o⟩) x.outcomes
      stats := x.hub.stats
      cached := x.hub.book.cache.size }

end Survey

namespace Ending

def ofProgram (args : List String) (environment : String → Option String) (draws : Draws)
    (seed : UInt64) : Ending :=
  match Options.ofArguments args environment with
  | .error f => .usage f
  | .ok o =>
    match Settings.ofOptions o with
    | .error f => .refused f
    | .ok s =>
      Survey.make s (Roster.generateAll s.guilds s.members draws)
        (.random seed s.limits.nonceLength.toNat)

def status : Ending → UInt32
  | usage .help => 0
  | usage .version => 0
  | usage _ => 2
  | refused _ => 1
  | aborted => 101
  | surveyed _ => 0

def complaint : Ending → Option String
  | refused f => some ("Error: " ++ f.message)
  | _ => none

end Ending
end Rollcall
