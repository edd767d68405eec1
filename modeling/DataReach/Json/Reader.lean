import DataReach.Json.Numeral
/-!
Reading JSON text. The grammar is the strict one: no comments, no trailing commas, no text after
the value. Text that is well formed but has no value is read as `broken`.
-/

namespace DataReach.Json

def isSpace (c : Char) : Bool :=
  c == ' ' || c == '\t' || c == '\n' || c == '\r'

def skipSpace (cs : List Char) : List Char := cs.dropWhile isSpace

def hexValue (c : Char) : Option Nat :=
  if c.isDigit then some (c.toNat - '0'.toNat)
  else if 'a' ≤ c ∧ c ≤ 'f' then some (c.toNat - 'a'.toNat + 10)
  else if 'A' ≤ c ∧ c ≤ 'F' then some (c.toNat - 'A'.toNat + 10)
  else none

def hex4 (a b c d : Char) : Option Nat := do
  return ((← hexValue a) * 16 + (← hexValue b)) * 256 + ((← hexValue c) * 16 + (← hexValue d))

def plainEscape : Char → Option Char
  | '"' => some '"'
  | '\\' => some '\\'
  | '/' => some '/'
  | 'b' => some '\x08'
  | 'f' => some '\x0c'
  | 'n' => some '\n'
  | 'r' => some '\r'
  | 't' => some '\t'
  | _ => none

def isHighHalf (n : Nat) : Bool := 0xD800 ≤ n && n ≤ 0xDBFF
def isLowHalf (n : Nat) : Bool := 0xDC00 ≤ n && n ≤ 0xDFFF

def joinHalves (high low : Nat) : Char :=
  Char.ofNat (0x10000 + (high - 0xD800) * 0x400 + (low - 0xDC00))

/-- The text of a string after its opening quote, and what follows the closing one. The text is
`none` when half of a surrogate pair stands alone. -/
def stringBody : List Char → Option (Option (List Char) × List Char)
  | [] => none
  | '"' :: rest => some (some [], rest)
  | '\\' :: 'u' :: a :: b :: c :: d :: '\\' :: 'u' :: e :: f :: g :: h :: rest => do
    let n ← hex4 a b c d
    let low := (hex4 e f g h).getD 0
    if isHighHalf n && isLowHalf low then
      let (text, rest) ← stringBody rest
      return (text.map (joinHalves n low :: ·), rest)
    else
      let (text, rest) ← stringBody ('\\' :: 'u' :: e :: f :: g :: h :: rest)
      if isHighHalf n || isLowHalf n then return (none, rest)
      else return (text.map (Char.ofNat n :: ·), rest)
  | '\\' :: 'u' :: a :: b :: c :: d :: rest => do
    let n ← hex4 a b c d
    let (text, rest) ← stringBody rest
    if isHighHalf n || isLowHalf n then return (none, rest)
    else return (text.map (Char.ofNat n :: ·), rest)
  | '\\' :: e :: rest => do
    let c ← plainEscape e
    let (text, rest) ← stringBody rest
    return (text.map (c :: ·), rest)
  | c :: rest => do
    if c.toNat < 0x20 || c == '\\' then none
    else
      let (text, rest) ← stringBody rest
      return (text.map (c :: ·), rest)

def digits (cs : List Char) : List Char × List Char :=
  (cs.takeWhile Char.isDigit, cs.dropWhile Char.isDigit)

def fractionPart : List Char → Option (Option (List Char) × List Char)
  | '.' :: rest =>
    match digits rest with
    | ([], _) => none
    | (ds, rest) => some (some ds, rest)
  | rest => some (none, rest)

def exponentSign : List Char → Bool × List Char
  | '+' :: rest => (false, rest)
  | '-' :: rest => (true, rest)
  | rest => (false, rest)

def exponentPart : List Char → Option (Option (Bool × List Char) × List Char)
  | 'e' :: rest | 'E' :: rest =>
    let (down, rest) := exponentSign rest
    match digits rest with
    | ([], _) => none
    | (ds, rest) => some (some (down, ds), rest)
  | rest => some (none, rest)

def wholePart (cs : List Char) : Option (List Char × List Char) :=
  match digits cs with
  | ([], _) => none
  | ('0' :: _ :: _, _) => none
  | (ds, rest) => some (ds, rest)

def unsignedNumeral (negative : Bool) (cs : List Char) : Option (Json × List Char) := do
  let (whole, rest) ← wholePart cs
  let (fraction, rest) ← fractionPart rest
  let (exponent, rest) ← exponentPart rest
  match Numeral.Shape.value ⟨negative, whole, fraction, exponent⟩ with
  | some n => return (.num n, rest)
  | none => return (.broken, rest)

def numeral : List Char → Option (Json × List Char)
  | '-' :: rest => unsignedNumeral true rest
  | cs => unsignedNumeral false cs

def joinMember (name : Option (List Char)) (value : Json) : Option (List (String × Json)) →
    Option (List (String × Json))
  | none => none
  | some rest => name.map fun n => (String.ofList n, value) :: rest

def ofMembers : Option (List (String × Json)) → Json
  | some members => .obj members
  | none => .broken

mutual

/-- A value at the front of the text, and what follows it. -/
def value : Nat → List Char → Option (Json × List Char)
  | 0, _ => none
  | fuel + 1, cs =>
    match skipSpace cs with
    | 'n' :: 'u' :: 'l' :: 'l' :: rest => some (.null, rest)
    | 't' :: 'r' :: 'u' :: 'e' :: rest => some (.bool true, rest)
    | 'f' :: 'a' :: 'l' :: 's' :: 'e' :: rest => some (.bool false, rest)
    | '"' :: rest => do
      let (text, rest) ← stringBody rest
      return (match text with | some t => .str (String.ofList t) | none => .broken, rest)
    | '[' :: rest =>
      match skipSpace rest with
      | ']' :: rest => some (.arr [], rest)
      | rest => do
        let (items, rest) ← elements fuel rest
        return (.arr items, rest)
    | '{' :: rest =>
      match skipSpace rest with
      | '}' :: rest => some (.obj [], rest)
      | rest => do
        let (found, rest) ← members fuel rest
        return (ofMembers found, rest)
    | rest => numeral rest

def elements : Nat → List Char → Option (List Json × List Char)
  | 0, _ => none
  | fuel + 1, cs => do
    let (item, rest) ← value fuel cs
    match skipSpace rest with
    | ']' :: rest => return ([item], rest)
    | ',' :: rest =>
      let (items, rest) ← elements fuel rest
      return (item :: items, rest)
    | _ => none

def members : Nat → List Char → Option (Option (List (String × Json)) × List Char)
  | 0, _ => none
  | fuel + 1, cs =>
    match skipSpace cs with
    | '"' :: rest => do
      let (name, rest) ← stringBody rest
      match skipSpace rest with
      | ':' :: rest =>
        let (item, rest) ← value fuel rest
        match skipSpace rest with
        | '}' :: rest => return (joinMember name item (some []), rest)
        | ',' :: rest =>
          let (items, rest) ← members fuel rest
          return (joinMember name item items, rest)
        | _ => none
      | _ => none
    | _ => none

end

def parse (text : String) : Option Json := do
  let cs := text.toList
  let (j, rest) ← value (2 * cs.length + 2) cs
  if (skipSpace rest).isEmpty then return j else none

def parseSound (text : String) : Option Json := do
  let j ← parse text
  if j.sound maxNesting then return j else none

end DataReach.Json
