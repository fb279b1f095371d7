import CoopScript.Limits

/-!
Limits as written in a configuration text. Each line is blank or sets one limit to a whole number,
and may end in a comment:

    max_call_depth = 128
    instruction_limit = 1_000_000  # for each entry
    "max_threads" = 0x40

A limit that is set twice, an unknown key and a value of another kind make the text invalid.
-/

namespace CoopScript

inductive ConfigError where
  | unreadable (path : String)
  | malformed
  deriving DecidableEq, Inhabited

/-- The wording around a cause that the reader of the file or of the text reports. -/
def ConfigError.message (cause : String) : ConfigError → String
  | .unreadable path => "cannot read config file '" ++ path ++ "': " ++ cause
  | .malformed => "invalid machine config: " ++ cause

inductive LimitKey where
  | maxCallDepth
  | instructionLimit
  | maxThreads
  deriving DecidableEq, Inhabited

namespace LimitKey

def name : LimitKey → String
  | maxCallDepth => "max_call_depth"
  | instructionLimit => "instruction_limit"
  | maxThreads => "max_threads"

def ofName? (name : List Char) : Option LimitKey :=
  [maxCallDepth, instructionLimit, maxThreads].find? fun key => key.name.toList = name

end LimitKey

def Limits.set (limits : Limits) (number : Nat) : LimitKey → Limits
  | .maxCallDepth => { limits with maxCallDepth := number }
  | .instructionLimit => { limits with instructionLimit := some number }
  | .maxThreads => { limits with maxThreads := some number }

namespace Limits.Reader

def isBlank (character : Char) : Bool := character = ' ' || character = '\t'

def skipBlanks (text : List Char) : List Char := text.dropWhile isBlank

def isBareKeyCharacter (character : Char) : Bool :=
  character.isAlphanum || character = '_' || character = '-'

def digit? (base : Nat) (character : Char) : Option Nat :=
  let value :=
    if character.isDigit then character.toNat - '0'.toNat
    else if 'a' ≤ character ∧ character ≤ 'f' then character.toNat - 'a'.toNat + 10
    else if 'A' ≤ character ∧ character ≤ 'F' then character.toNat - 'A'.toNat + 10
    else base
  if value < base then some value else none

/-- Further digits of a number; a single underscore may stand between two digits. -/
def moreDigits (base : Nat) : Nat → List Char → Nat × List Char
  | number, [] => (number, [])
  | number, '_' :: character :: rest =>
    match digit? base character with
    | some digit => moreDigits base (number * base + digit) rest
    | none => (number, '_' :: character :: rest)
  | number, character :: rest =>
    match digit? base character with
    | some digit => moreDigits base (number * base + digit) rest
    | none => (number, character :: rest)

def digits (base : Nat) : List Char → Option (Nat × List Char)
  | [] => none
  | character :: rest => (digit? base character).map fun digit => moreDigits base digit rest

/-- A decimal number of several digits does not start with zero. -/
def decimal : List Char → Option (Nat × List Char)
  | '0' :: rest => some (0, rest)
  | text => digits 10 text

/-- A number with a sign or a base. Of the numbers with a minus only zero is a limit. -/
def number : List Char → Option (Nat × List Char)
  | '0' :: 'x' :: rest => digits 16 rest
  | '0' :: 'o' :: rest => digits 8 rest
  | '0' :: 'b' :: rest => digits 2 rest
  | '+' :: rest => decimal rest
  | '-' :: rest =>
    match decimal rest with
    | some (0, rest) => some (0, rest)
    | _ => none
  | text => decimal text

/-- The character with the given number of hexadecimal digits, and the text after it. -/
def codePoint (count : Nat) (text : List Char) : Option (Char × List Char) := do
  let values ← (text.take count).mapM (digit? 16)
  let code := values.foldl (fun code digit => code * 16 + digit) 0
  if values.length = count && code.isValidChar then
    return (Char.ofNat code, text.drop count)
  else none

/-- A key in double quotes, after the opening one. No key holds a character that needs any other
escape than its code point. -/
def quotedKey : Nat → List Char → Option (List Char × List Char)
  | 0, _ => none
  | _ + 1, [] => none
  | _ + 1, '"' :: rest => some ([], rest)
  | fuel + 1, '\\' :: 'u' :: rest => do
    let (character, rest) ← codePoint 4 rest
    let (key, rest) ← quotedKey fuel rest
    return (character :: key, rest)
  | fuel + 1, '\\' :: 'U' :: rest => do
    let (character, rest) ← codePoint 8 rest
    let (key, rest) ← quotedKey fuel rest
    return (character :: key, rest)
  | fuel + 1, character :: rest => do
    if character = '\\' then none
    let (key, rest) ← quotedKey fuel rest
    return (character :: key, rest)

/-- A key is bare or stands in quotes of either kind. -/
def key : List Char → Option (List Char × List Char)
  | '"' :: rest => quotedKey (rest.length + 1) rest
  | '\x27' :: rest =>
    match rest.dropWhile (· ≠ '\x27') with
    | _ :: after => some (rest.takeWhile (· ≠ '\x27'), after)
    | [] => none
  | text => some (text.takeWhile isBareKeyCharacter, text.dropWhile isBareKeyCharacter)

/-- Comments hold no control character other than the tabulator. -/
def isCommentCharacter (character : Char) : Bool :=
  character = '\t' || (' ' ≤ character && character ≠ '\x7f')

/-- What may stand after a setting. -/
def isLineEnd (text : List Char) : Bool :=
  match skipBlanks text with
  | [] => true
  | '#' :: comment => comment.all isCommentCharacter
  | _ => false

/-- The number of a setting fits a signed word of 64 bits. -/
def setting (text : List Char) : Option (LimitKey × Nat) := do
  let (name, rest) ← key (skipBlanks text)
  let key ← LimitKey.ofName? name
  match skipBlanks rest with
  | '=' :: rest =>
    let (number, rest) ← number (skipBlanks rest)
    if number < Nat.pow 2 63 && isLineEnd rest then return (key, number) else none
  | _ => none

/-- A line ends in a line feed, before which a carriage return may stand. -/
def lines : List Char → List (List Char)
  | [] => [[]]
  | '\n' :: rest => [] :: lines rest
  | '\r' :: '\n' :: rest => [] :: lines rest
  | character :: rest =>
    match lines rest with
    | [] => [[character]]
    | line :: others => (character :: line) :: others

/-- The settings of the lines, each key at most once. -/
def settings : List (List Char) → Option (List (LimitKey × Nat))
  | [] => some []
  | line :: others => do
    let rest ← settings others
    if isLineEnd line then return rest
    else
      let (key, number) ← setting line
      if rest.any (·.1 = key) then none else return (key, number) :: rest

/-- A byte order mark may stand before the text. -/
def skipMark : List Char → List Char
  | '\ufeff' :: rest => rest
  | text => text

end Limits.Reader

open Limits.Reader in
/-- The limits that a text sets, over the defaults. -/
def Limits.ofText (text : String) : Except ConfigError Limits :=
  match settings (lines (skipMark text.toList)) with
  | some settings => .ok (settings.foldl (fun limits entry => limits.set entry.2 entry.1) {})
  | none => .error .malformed

/-- The limits that a file sets, with the reading of the file left to the caller. -/
def Limits.load (read : String → Option String) (path : String) : Except ConfigError Limits :=
  match read path with
  | some text => Limits.ofText text
  | none => .error (.unreadable path)

end CoopScript
