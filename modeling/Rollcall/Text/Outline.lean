/-!
# Outlines

An outline is the text form of a value: its name, its named or unnamed parts, and whether parts are
left out (`..`). It has a form on one line and a form with one part per line, in which each level is
indented by four spaces and each part ends with a comma.
-/

namespace Rollcall.Text

inductive Outline where
  | atom (text : String)
  -- named fields; `whole = false` when fields are left out
  | record (name : String) (fields : List (String × Outline)) (whole : Bool)
  -- unnamed parts in parentheses, after a name
  | variant (name : String) (parts : List Outline)
  | sequence (items : List Outline)
  | set (items : List Outline)

namespace Outline

def ofOption (f : α → Outline) : Option α → Outline
  | none => .atom "None"
  | some a => .variant "Some" [f a]

/-- A nonempty name is set off from the brace by a space. -/
private def heading (name : String) : String := if name.isEmpty then name else name ++ " "

private def fieldsFlat (shown : List String) (whole : Bool) : String :=
  match shown, whole with
  | [], true => ""
  | [], false => "\x7b .. \x7d"
  | shown, true => "\x7b " ++ String.intercalate ", " shown ++ " \x7d"
  | shown, false => "\x7b " ++ String.intercalate ", " shown ++ ", .. \x7d"

mutual

def flat : Outline → String
  | .atom s => s
  | .record name fields whole => heading name ++ fieldsFlat (flatFields fields) whole
  | .variant name parts => name ++ "(" ++ String.intercalate ", " (flatItems parts) ++ ")"
  | .sequence items => "[" ++ String.intercalate ", " (flatItems items) ++ "]"
  | .set items => "\x7b" ++ String.intercalate ", " (flatItems items) ++ "\x7d"

def flatItems : List Outline → List String
  | [] => []
  | o :: os => o.flat :: flatItems os

def flatFields : List (String × Outline) → List String
  | [] => []
  | (name, o) :: rest => (name ++ ": " ++ o.flat) :: flatFields rest

end

private def indent (depth : Nat) : String := String.ofList (List.replicate (4 * depth) ' ')

/-- Parts one per line, between an opening and a closing text; nothing between them if there are
no parts. -/
private def block (depth : Nat) (opening closing : String) (parts : List String) : String :=
  if parts.isEmpty then opening ++ closing
  else opening ++ "\n" ++ String.join (parts.map fun p => indent (depth + 1) ++ p ++ "\n") ++
    indent depth ++ closing

mutual

/-- The form with one part per line, for an outline that starts at the given depth. -/
def tall (depth : Nat) : Outline → String
  | .atom s => s
  | .record name fields whole =>
    let parts := tallFields (depth + 1) fields ++ if whole then [] else [".."]
    if parts.isEmpty then name else block depth (heading name ++ "\x7b") "\x7d" parts
  | .variant name parts => block depth (name ++ "(") ")" (tallItems (depth + 1) parts)
  | .sequence items => block depth "[" "]" (tallItems (depth + 1) items)
  | .set items => block depth "\x7b" "\x7d" (tallItems (depth + 1) items)

def tallItems (depth : Nat) : List Outline → List String
  | [] => []
  | o :: os => (o.tall depth ++ ",") :: tallItems depth os

def tallFields (depth : Nat) : List (String × Outline) → List String
  | [] => []
  | (name, o) :: rest => (name ++ ": " ++ o.tall depth ++ ",") :: tallFields depth rest

end

def pretty (o : Outline) : String := o.tall 0

end Outline
end Rollcall.Text
