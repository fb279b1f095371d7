import CoopScript.Text.Invisible

/-!
Quoted text: double quotes around it, a backslash before a quote or a backslash, short names for
four controls, and the code point in place of any other invisible character.
-/

namespace CoopScript.Quoted

def hexadecimal (number : Nat) : List Char := Nat.toDigits 16 number

def escape (character : Char) : List Char :=
  match character with
  | '\x00' => ['\\', '0']
  | '\t' => ['\\', 't']
  | '\r' => ['\\', 'r']
  | '\n' => ['\\', 'n']
  | '"' => ['\\', '"']
  | '\\' => ['\\', '\\']
  | _ =>
    if Invisible.contains character then
      ['\\', 'u', '\x7b'] ++ hexadecimal character.toNat ++ ['\x7d']
    else [character]

def quote (text : String) : String :=
  String.ofList (['"'] ++ text.toList.flatMap escape ++ ['"'])

end CoopScript.Quoted
