import Rollcall.Json

/-!
# Writing JSON text

Values are written without blanks. In a string a quote, a backslash and the controls are escaped;
every other character stands for itself.
-/

namespace Rollcall

namespace Json

def hexPlaces (n : Nat) : List Char :=
  let ds := Nat.toDigits 16 n
  List.replicate (4 - ds.length) '0' ++ ds

def writeChar (c : Char) : List Char :=
  match c with
  | '"' => ['\\', '"']
  | '\\' => ['\\', '\\']
  | '\n' => ['\\', 'n']
  | '\r' => ['\\', 'r']
  | '\t' => ['\\', 't']
  | c => if c.toNat < 0x20 then '\\' :: 'u' :: hexPlaces c.toNat else [c]

def writeString (s : String) : String := String.ofList ('"' :: s.toList.flatMap writeChar ++ ['"'])

end Json

def Number.write : Number → String
  | .unsigned n => toString n.toNat
  | .negative n => "-" ++ toString n.toNat
  | .float x => x.text

namespace Json

mutual

def write : Json → String
  | .null => "null"
  | .bool b => if b then "true" else "false"
  | .number n => n.write
  | .string s => writeString s
  | .array items => "[" ++ String.intercalate "," (writeItems items) ++ "]"
  | .object fields => "\x7b" ++ String.intercalate "," (writeFields fields) ++ "\x7d"

def writeItems : List Json → List String
  | [] => []
  | v :: vs => v.write :: writeItems vs

def writeFields : List (String × Json) → List String
  | [] => []
  | (key, v) :: rest => (writeString key ++ ":" ++ v.write) :: writeFields rest

end

end Json
end Rollcall
