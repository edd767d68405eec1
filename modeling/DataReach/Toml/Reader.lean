import DataReach.Toml.Basic
import DataReach.Toml.Number
import DataReach.Toml.Time
/-! Reading TOML documents. -/

namespace DataReach.Toml

def skipBlanks (cs : List Char) : List Char := cs.dropWhile isBlank

/-! ### Keys -/

def isBareKeyChar (c : Char) : Bool := c.isAlphanum || c == '_' || c == '-'

def keyPart (cs : List Char) : Option (List Char × Rest) :=
  match lineString cs with
  | some r => some r
  | none =>
    match cs.takeWhile isBareKeyChar with
    | [] => none
    | name => some (name, cs.dropWhile isBareKeyChar)

def keyParts : Nat → List Char → Option (List String × Rest)
  | 0, _ => none
  | fuel + 1, cs => do
    let (part, rest) ← keyPart (skipBlanks cs)
    match skipBlanks rest with
    | '.' :: rest =>
      let (parts, rest) ← keyParts fuel rest
      return (String.ofList part :: parts, rest)
    | rest => return ([String.ofList part], rest)

def depthLimit : Nat := 80

def key (cs : List Char) : Option ((List String × String) × Rest) := do
  let (parts, rest) ← keyParts (cs.length + 1) cs
  if depthLimit ≤ parts.length then none
  else return ((parts.dropLast, ← parts.getLast?), rest)

/-! ### Values -/

def isWordChar (c : Char) : Bool :=
  c.isAlphanum || c == '_' || c == '+' || c == '-' || c == '.' || c == ':'

def word (cs : List Char) : List Char × Rest := (cs.takeWhile isWordChar, cs.dropWhile isWordChar)

def wordValue (w : List Char) : Option Toml :=
  if w == "true".toList then some (.boolean true)
  else if w == "false".toList then some (.boolean false)
  else
    match datetime? w with
    | some t => some (.datetime (String.ofList t))
    | none =>
      match integer? w with
      | some n => some (.integer n)
      | none => if isFloat w then some (.float (String.ofList w)) else none

def spacedTime (w : List Char) (rest : List Char) : Option (List Char × Rest) :=
  match date? w, rest with
  | some (date, []), ' ' :: rest =>
    match word rest with
    | ([], _) => none
    | (time, rest) => some (date ++ 'T' :: time, rest)
  | _, _ => none

def wordOf (cs : List Char) : Option (Toml × Rest) := do
  let (w, rest) := word cs
  let (w, rest) := (spacedTime w rest).getD (w, rest)
  return (← wordValue w, rest)

def isCommentChar (c : Char) : Bool := !isControl c

def skipLines : Nat → List Char → Option (List Char)
  | 0, _ => none
  | fuel + 1, cs =>
    match cs with
    | '\n' :: rest => skipLines fuel rest
    | '\r' :: '\n' :: rest => skipLines fuel rest
    | '#' :: rest => skipLines fuel (rest.dropWhile isCommentChar)
    | c :: rest => if isBlank c then skipLines fuel rest else some (c :: rest)
    | [] => some []

def skipAll (cs : List Char) : Option (List Char) := skipLines (cs.length + 1) cs

mutual

/-- A value in which at most `depth` arrays and tables are nested. -/
def value : (fuel depth : Nat) → List Char → Option (Toml × Rest)
  | 0, _, _ => none
  | fuel + 1, depth, cs =>
    match cs with
    | '"' :: _ | '\'' :: _ => do
      let (text, rest) ← string? cs
      return (.string (String.ofList text), rest)
    | '[' :: rest =>
      if depth = 0 then none
      else do
        let (items, rest) ← elements fuel (depth - 1) rest
        return (.array items, rest)
    | '{' :: rest =>
      if depth = 0 then none
      else
        match skipBlanks rest with
        | '}' :: rest => some (.table .inline [], rest)
        | rest => do
          let (ms, rest) ← pairs fuel (depth - 1) [] rest
          return (.table .inline ms, rest)
    | _ => wordOf cs

/-- The elements of an array up to its closing bracket; a comma may stand behind the last one. -/
def elements : (fuel depth : Nat) → List Char → Option (List Toml × Rest)
  | 0, _, _ => none
  | fuel + 1, depth, cs => do
    match ← skipAll cs with
    | ']' :: rest => return ([], rest)
    | cs =>
      let (item, rest) ← value fuel depth cs
      match ← skipAll rest with
      | ']' :: rest => return ([item], rest)
      | ',' :: rest =>
        let (items, rest) ← elements fuel depth rest
        return (item :: items, rest)
      | _ => none

/-- The pairs of a table in one piece, up to its closing brace. -/
def pairs : (fuel depth : Nat) → Members → List Char → Option (Members × Rest)
  | 0, _, _, _ => none
  | fuel + 1, depth, ms, cs => do
    let ((path, name), rest) ← key cs
    match rest with
    | '=' :: rest =>
      let (v, rest) ← value fuel depth (skipBlanks rest)
      let ms ← assign ms path name v
      match skipBlanks rest with
      | '}' :: rest => return (ms, rest)
      | ',' :: rest => pairs fuel depth ms rest
      | _ => none
    | _ => none

end

/-! ### Documents -/

/-- What follows the end of a line, on which only blanks and a comment may still stand. -/
def lineEnd (cs : List Char) : Option (List Char) :=
  let cs := skipBlanks cs
  let cs := match cs with
    | '#' :: rest => rest.dropWhile isCommentChar
    | _ => cs
  match cs with
  | [] => some []
  | '\n' :: rest => some rest
  | '\r' :: '\n' :: rest => some rest
  | _ => none

/-- The tables read so far, and the names that lead to the one that is open. -/
structure Draft where
  members : Members
  current : List String

def Draft.start : Draft := ⟨[], []⟩

def headerKey (close : List Char) (cs : List Char) : Option ((List String × String) × Rest) := do
  let (k, rest) ← key cs
  if close.isPrefixOf rest then return (k, ← lineEnd (rest.drop close.length)) else none

def line (d : Draft) (cs : List Char) : Option (Draft × Rest) :=
  match cs with
  | '#' :: _ | '\n' :: _ | '\r' :: _ => do return (d, ← lineEnd cs)
  | '[' :: '[' :: rest => do
    let ((path, name), rest) ← headerKey [']', ']'] rest
    return (⟨← within d.members path (openNext name), path ++ [name]⟩, rest)
  | '[' :: rest => do
    let ((path, name), rest) ← headerKey [']'] rest
    return (⟨← within d.members path (openTable name), path ++ [name]⟩, rest)
  | _ => do
    let ((path, name), rest) ← key cs
    match rest with
    | '=' :: rest =>
      let cs := skipBlanks rest
      let (v, rest) ← value (2 * cs.length + 2) (depthLimit - 1) cs
      let ms ← within d.members d.current fun ms => assign ms path name v
      return (⟨ms, d.current⟩, ← lineEnd rest)
    | _ => none

def lines : Nat → Draft → List Char → Option Members
  | 0, _, _ => none
  | fuel + 1, d, cs =>
    match skipBlanks cs with
    | [] => some d.members
    | cs => do
      let (d, rest) ← line d cs
      lines fuel d rest

def parse (text : String) : Option Toml :=
  let cs := match text.toList with
    | '\uFEFF' :: rest => rest
    | cs => cs
  (lines (cs.length + 1) .start cs).map (.table .header)

end DataReach.Toml
