import Rollcall.Text.Unprintable

/-!
# Quoted text

A text in double quotes. A quote, a backslash, tab, line feed, carriage return and NUL have a short
escape; any other character that is not printed as itself is written `\u` with its code point in
lower-case hexadecimal between braces.
-/

namespace Rollcall.Text

def hexDigits (n : Nat) : List Char := Nat.toDigits 16 n

def escapeChar (c : Char) : List Char :=
  match c with
  | '\t' => ['\\', 't']
  | '\r' => ['\\', 'r']
  | '\n' => ['\\', 'n']
  | '"' => ['\\', '"']
  | '\\' => ['\\', '\\']
  | c =>
    if c.toNat = 0 then ['\\', '0']
    else if isUnprintable c then ['\\', 'u', '\x7b'] ++ hexDigits c.toNat ++ ['\x7d']
    else [c]

def quoted (s : String) : String :=
  String.ofList ('"' :: s.toList.flatMap escapeChar ++ ['"'])

end Rollcall.Text
