-- SUMMARY: Texts between quotes, with control characters escaped.

/-!
# Quoted text

A quoted text is readable on one line: quotes and backslashes are preceded by a
backslash, the usual control characters have a letter, and the others their
number in braces. The rule is for ASCII; every other character stands for
itself.
-/

namespace ObjectHost.Text

def escapeChar (c : Char) : List Char :=
  match c with
  | '"' => ['\\', '"']
  | '\\' => ['\\', '\\']
  | '\n' => ['\\', 'n']
  | '\r' => ['\\', 'r']
  | '\t' => ['\\', 't']
  | '\x00' => ['\\', '0']
  | c =>
    if c.toNat < 0x20 ∨ c.toNat = 0x7F then
      ['\\', 'u', '\x7b'] ++ Nat.toDigits 16 c.toNat ++ ['\x7d']
    else [c]

def quote (text : String) : String :=
  "\"" ++ String.ofList (text.toList.flatMap escapeChar) ++ "\""

end ObjectHost.Text
