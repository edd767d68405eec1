import DataReach.Toml.Text
/-!
Writing TOML. A text is written in the plainest style that can hold it: basic, literal, basic on
several lines, literal on several lines; what no style holds as it is, is escaped.
-/

namespace DataReach.Toml

def longestRun (c : Char) : (run : Nat) → List Char → Nat
  | run, [] => run
  | run, d :: rest => if d = c then longestRun c (run + 1) rest else max run (longestRun c 0 rest)

/-- Which characters a text has that not every style can hold. -/
structure Traits where
  needsEscape : Bool
  backslash : Bool
  newline : Bool
  singles : Nat
  doubles : Nat

def Traits.of (cs : List Char) : Traits where
  needsEscape := cs.any fun c => isControl c && c != '\n'
  backslash := cs.contains '\\'
  newline := cs.contains '\n'
  singles := longestRun '\'' 0 cs
  doubles := longestRun '"' 0 cs

inductive Style where
  | basic
  | literal
  | basicLines
  | literalLines
  deriving DecidableEq, Repr

/-- The first style that holds the text without escapes, or a basic one. -/
def Traits.style (t : Traits) : Style :=
  if !t.needsEscape && !t.backslash && t.doubles == 0 && !t.newline then .basic
  else if !t.needsEscape && t.singles == 0 && !t.newline then .literal
  else if !t.needsEscape && !t.backslash && t.doubles ≤ 2 then .basicLines
  else if !t.needsEscape && t.singles ≤ 2 then .literalLines
  else if t.newline then .basicLines
  else .basic

def hexChar (n : Nat) : Char := (Nat.digitChar n).toUpper

def codeEscape (c : Char) : List Char :=
  ['\\', 'u', '0', '0', hexChar (c.toNat / 16), hexChar (c.toNat % 16)]

def escaped (c : Char) : List Char :=
  match c with
  | '\x08' => ['\\', 'b']
  | '\t' => ['\\', 't']
  | '\n' => ['\\', 'n']
  | '\x0c' => ['\\', 'f']
  | '\r' => ['\\', 'r']
  | '"' => ['\\', '"']
  | '\\' => ['\\', '\\']
  | c => if isControl c then codeEscape c else [c]

def basicText (cs : List Char) : List Char :=
  '"' :: cs.flatMap escaped ++ ['"']

def literalText (cs : List Char) : List Char := '\'' :: cs ++ ['\'']

def linesBody : (quotes : Nat) → List Char → List Char
  | _, [] => []
  | quotes, '"' :: rest =>
    if quotes < 2 then '"' :: linesBody (quotes + 1) rest else '\\' :: '"' :: linesBody 0 rest
  | _, '\n' :: rest => '\n' :: linesBody 0 rest
  | _, c :: rest => escaped c ++ linesBody 0 rest

def opening (cs : List Char) : List Char := if cs.contains '\n' then ['\n'] else []

def basicLinesText (cs : List Char) : List Char :=
  ['"', '"', '"'] ++ opening cs ++ linesBody 0 cs ++ ['"', '"', '"']

def literalLinesText (cs : List Char) : List Char :=
  ['\'', '\'', '\''] ++ opening cs ++ cs ++ ['\'', '\'', '\'']

def renderText (s : String) : List Char :=
  let cs := s.toList
  match (Traits.of cs).style with
  | .basic => basicText cs
  | .literal => literalText cs
  | .basicLines => basicLinesText cs
  | .literalLines => literalLinesText cs

def renderKey (s : String) : List Char :=
  let cs := s.toList
  let t := Traits.of cs
  if !cs.isEmpty && cs.all fun c => c.isAlphanum || c == '_' || c == '-' then cs
  else if t.needsEscape || t.newline then basicText cs
  else if !t.backslash && t.doubles == 0 then basicText cs
  else if t.singles == 0 then literalText cs
  else basicText cs

def renderNat (n : Nat) : List Char := (Nat.repr n).toList

def renderArray (items : List String) : List Char :=
  match items with
  | [] => ['[', ']']
  | [s] => '[' :: renderText s ++ [']']
  | items =>
    ['[', '\n'] ++ items.flatMap (fun s => "    ".toList ++ renderText s ++ [',', '\n']) ++ [']']

def renderPair (name : String) (value : List Char) : List Char :=
  renderKey name ++ " = ".toList ++ value ++ ['\n']

def renderSection (header : String) (pairs : List (List Char)) : List Char :=
  '[' :: header.toList ++ [']', '\n'] ++ pairs.flatten

end DataReach.Toml
