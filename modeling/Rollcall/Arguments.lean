import Rollcall.Options

/-!
# Reading the command line

Arguments are read from left to right. A value that follows its option as an argument of its own is
checked only when the next option begins, or at the end; so an argument that is not known at all is
the fault that is reported first.
-/

namespace Rollcall

inductive Argument where
  | terminator
  | long (word : String) (value : Option String)
  | short (letter : Char)
  | plain (text : String)
deriving DecidableEq, Repr

/-- A long argument may hold a value after its first equals sign; a dash alone is plain. -/
def Argument.ofText (text : String) : Argument :=
  match text.toList with
  | ['-', '-'] => .terminator
  | '-' :: '-' :: cs =>
    let word := String.ofList (cs.takeWhile (· ≠ '='))
    match cs.dropWhile (· ≠ '=') with
    | [] => .long word none
    | _ :: value => .long word (some (String.ofList value))
  | '-' :: c :: _ => .short c
  | _ => .plain text

/-- The options that have been read so far. -/
structure Arguments where
  options : Options := {}
  given : List OptionKey := []
  -- an option whose value is not checked yet, and the value once there is one
  open? : Option (OptionKey × Option String) := none

namespace Arguments

def give (a : Arguments) (key : OptionKey) (value : String) : Except UsageFault Arguments :=
  if key ∈ a.given ∧ ¬ key.isRepeatable then .error .repeatedOption
  else (a.options.set key value).map fun options => { a with options, given := key :: a.given }

def close (a : Arguments) : Except UsageFault Arguments :=
  match a.open? with
  | none => .ok a
  | some (_, none) => .error .invalidValue
  | some (key, some value) => { a with open? := none }.give key value

/-- Help and the version come once the option before them is right. -/
def stop (a : Arguments) (f : UsageFault) : Except UsageFault Arguments := do
  let _ ← a.close
  .error f

def takeOption (a : Arguments) (key : OptionKey) (value : Option String) :
    Except UsageFault Arguments :=
  if key.isFlag then
    match value with
    | none => do (← a.close).give key "true"
    | some _ => .error .valueForFlag
  else
    match value with
    | none => do return { ← a.close with open? := some (key, none) }
    | some value => do (← a.close).give key value

def takeLong (a : Arguments) (word : String) (value : Option String) :
    Except UsageFault Arguments :=
  match OptionKey.ofWord? word with
  | some key => a.takeOption key value
  | none =>
    let request? : Option UsageFault :=
      if word = "help" then some .help else if word = "version" then some .version else none
    match request?, value with
    | none, _ => .error .unknownArgument
    | some _, some _ => .error .valueForFlag
    | some f, none => a.stop f

def take (a : Arguments) : Argument → Except UsageFault Arguments
  | .long word value => a.takeLong word value
  | .short 'h' => a.stop .help
  | .short 'V' => a.stop .version
  | .plain text =>
    match a.open? with
    | some (key, none) => .ok { a with open? := some (key, some text) }
    | _ => .error .unknownArgument
  | _ => .error .unknownArgument

def read (a : Arguments) : List String → Except UsageFault Arguments
  | [] => a.close
  | text :: rest =>
    match Argument.ofText text with
    | .terminator => if rest.isEmpty then a.close else .error .unknownArgument
    | arg => do (← a.take arg).read rest

def fill (environment : String → Option String) (a : Arguments) (key : OptionKey) :
    Except UsageFault Arguments :=
  if key ∈ a.given then .ok a
  else
    match environment key.variableName with
    | none => .ok a
    | some value => a.give key value

end Arguments

def Options.ofArguments (args : List String) (environment : String → Option String) :
    Except UsageFault Options := do
  let a ← ({} : Arguments).read args
  return (← OptionKey.all.foldlM (Arguments.fill environment) a).options

end Rollcall
