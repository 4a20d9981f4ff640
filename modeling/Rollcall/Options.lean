import Rollcall.Decimal

/-!
# Options

What can be set on the command line or through the environment. A value given on the command line
hides the environment's, which is then not even read.
-/

namespace Rollcall

/-- The options, in the order in which the environment is looked at. -/
inductive OptionKey where
  | shards
  | guilds
  | members
  | chunkSize
  | chunkDelay
  | capacity
  | timeout
  | query
  | queryLimit
  | presences
  | exclude
deriving DecidableEq, Repr

namespace OptionKey

def all : List OptionKey :=
  [shards, guilds, members, chunkSize, chunkDelay, capacity, timeout, query, queryLimit, presences,
    exclude]

/-- The word that sets the option on the command line, without its dashes. -/
def word : OptionKey → String
  | shards => "shards"
  | guilds => "guilds"
  | members => "members"
  | chunkSize => "chunk-size"
  | chunkDelay => "chunk-delay-ms"
  | capacity => "sink-capacity"
  | timeout => "request-timeout-ms"
  | query => "query"
  | queryLimit => "query-limit"
  | presences => "presences"
  | exclude => "exclude"

def variableName : OptionKey → String
  | shards => "CHUNKWISE_SHARDS"
  | guilds => "CHUNKWISE_GUILDS"
  | members => "CHUNKWISE_MEMBERS"
  | chunkSize => "CHUNKWISE_CHUNK_SIZE"
  | chunkDelay => "CHUNKWISE_CHUNK_DELAY_MS"
  | capacity => "CHUNKWISE_SINK_CAPACITY"
  | timeout => "CHUNKWISE_REQUEST_TIMEOUT_MS"
  | query => "CHUNKWISE_QUERY"
  | queryLimit => "CHUNKWISE_QUERY_LIMIT"
  | presences => "CHUNKWISE_PRESENCES"
  | exclude => "CHUNKWISE_EXCLUDE"

def ofWord? (word : String) : Option OptionKey := all.find? fun k => k.word = word

def isFlag (k : OptionKey) : Bool := k = presences

def isRepeatable (k : OptionKey) : Bool := k = exclude

end OptionKey

/-- Why the options are not taken as they are written: for a fault, or since help or the version is
asked for instead. -/
inductive UsageFault where
  | unknownArgument
  -- a value that is not one of those possible, or none where one is due
  | invalidValue
  | unreadableValue
  | valueForFlag
  | repeatedOption
  | help
  | version
deriving DecidableEq, Repr

/-- The options as they are given; spans of time are counts of milliseconds. -/
structure Options where
  shards : UInt32 := 2
  guilds : UInt64 := 4
  members : UInt64 := 2500
  chunkSize : UInt64 := 1000
  chunkDelay : UInt64 := 5
  capacity : UInt64 := 256
  timeout : UInt64 := 10000
  query : String := "al"
  queryLimit : UInt32 := 50
  presences : Bool := false
  exclude : List UInt64 := []
deriving DecidableEq, Repr

namespace Options

/-! ## Values -/

def readWord (text : String) : Except UsageFault UInt64 :=
  (Decimal.readWord text).mapError fun _ => .unreadableValue

/-- Reads a number below `2 ^ 32`. Zero may have a minus sign. -/
def readHalfWord (text : String) : Except UsageFault UInt32 :=
  match text.toList with
  | '-' :: d :: ds =>
    if (d :: ds).all (· = '0') then .ok 0 else .error .unreadableValue
  | _ => ((Decimal.read 0x100000000 text).map UInt32.ofNat).mapError fun _ => .unreadableValue

def readBool (text : String) : Except UsageFault Bool :=
  if text = "true" then .ok true
  else if text = "false" then .ok false
  else .error .invalidValue

/-- Cuts a text at each comma. There is always at least one piece. -/
def splitCommas : List Char → List (List Char)
  | [] => [[]]
  | c :: cs =>
    match splitCommas cs with
    | [] => [[]]
    | piece :: rest => if c = ',' then [] :: piece :: rest else (c :: piece) :: rest

def readWords (text : String) : Except UsageFault (List UInt64) :=
  (splitCommas text.toList).mapM fun piece => readWord (String.ofList piece)

def set (o : Options) (key : OptionKey) (text : String) : Except UsageFault Options :=
  match key with
  | .shards => (readHalfWord text).map fun shards => { o with shards }
  | .guilds => (readWord text).map fun guilds => { o with guilds }
  | .members => (readWord text).map fun members => { o with members }
  | .chunkSize => (readWord text).map fun chunkSize => { o with chunkSize }
  | .chunkDelay => (readWord text).map fun chunkDelay => { o with chunkDelay }
  | .capacity => (readWord text).map fun capacity => { o with capacity }
  | .timeout => (readWord text).map fun timeout => { o with timeout }
  | .query => .ok { o with query := text }
  | .queryLimit => (readHalfWord text).map fun queryLimit => { o with queryLimit }
  | .presences => (readBool text).map fun presences => { o with presences }
  | .exclude => (readWords text).map fun ids => { o with exclude := o.exclude ++ ids }

end Options
end Rollcall
