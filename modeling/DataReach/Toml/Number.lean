import DataReach.Toml.Text
/-! Numbers of TOML, as whole words. An underscore may stand between two digits. -/

namespace DataReach.Toml

def digitRun (isDigit : Char → Bool) : List Char → Option (List Char)
  | [] => none
  | [c] => if isDigit c then some [c] else none
  | c :: '_' :: d :: rest =>
    if isDigit c then (digitRun isDigit (d :: rest)).map (c :: ·) else none
  | c :: d :: rest => if isDigit c then (digitRun isDigit (d :: rest)).map (c :: ·) else none

def ofDigits (base : Nat) (digits : List Char) : Nat :=
  digits.foldl (fun n c => base * n + (hexDigit? c).getD 0) 0

def sign : List Char → Bool × List Char
  | '-' :: rest => (true, rest)
  | '+' :: rest => (false, rest)
  | cs => (false, cs)

def decimalRun (cs : List Char) : Option (List Char) := do
  let digits ← digitRun Char.isDigit cs
  match digits with
  | '0' :: _ :: _ => none
  | _ => some digits

def signed (minus : Bool) (n : Nat) : Option Int :=
  if minus then if n ≤ 1 <<< 63 then some (-n) else none
  else if n < 1 <<< 63 then some n else none

def inBase (base : Nat) (isDigit : Char → Bool) (cs : List Char) : Option Int := do
  signed false (ofDigits base (← digitRun isDigit cs))

def isHexDigit (c : Char) : Bool := (hexDigit? c).isSome
def isOctalDigit (c : Char) : Bool := '0' ≤ c && c ≤ '7'
def isBinaryDigit (c : Char) : Bool := c == '0' || c == '1'

def integer? : List Char → Option Int
  | '0' :: 'x' :: rest => inBase 16 isHexDigit rest
  | '0' :: 'o' :: rest => inBase 8 isOctalDigit rest
  | '0' :: 'b' :: rest => inBase 2 isBinaryDigit rest
  | cs => do
    let (minus, rest) := sign cs
    signed minus (ofDigits 10 (← decimalRun rest))

/-- Digits, a fraction and an exponent; one of the last two has to be there. -/
structure FloatShape where
  minus : Bool
  whole : List Char
  fraction : List Char
  exponentMinus : Bool
  exponent : List Char

def isExponentMark (c : Char) : Bool := c == 'e' || c == 'E'

def exponentOf (cs : List Char) : Option (Bool × List Char) :=
  match cs with
  | [] => some (false, ['0'])
  | _ :: rest => do
    let (minus, rest) := sign rest
    return (minus, ← digitRun Char.isDigit rest)

def floatShape? (cs : List Char) : Option FloatShape := do
  let (minus, rest) := sign cs
  let mantissa := rest.takeWhile (!isExponentMark ·)
  let tail := rest.dropWhile (!isExponentMark ·)
  let (exponentMinus, exponent) ← exponentOf tail
  let whole ← decimalRun (mantissa.takeWhile (· != '.'))
  match mantissa.dropWhile (· != '.') with
  | [] => if tail.isEmpty then none else return ⟨minus, whole, [], exponentMinus, exponent⟩
  | _ :: fraction =>
    return ⟨minus, whole, ← digitRun Char.isDigit fraction, exponentMinus, exponent⟩

/-- From here on a number is rounded to infinity: half a step above the greatest double. -/
def overflow : Nat := (1 <<< 1024) - (1 <<< 970)

def FloatShape.overflows (f : FloatShape) : Bool :=
  let n := ofDigits 10 (f.whole ++ f.fraction)
  let down := f.fraction.length + if f.exponentMinus then ofDigits 10 f.exponent else 0
  let up := if f.exponentMinus then 0 else ofDigits 10 f.exponent
  if n = 0 then false
  else if down < up then
    let e := up - down
    if 400 < e then true else overflow ≤ n * Nat.pow 10 e
  else
    let e := down - up
    if f.whole.length + f.fraction.length < e then false else overflow * Nat.pow 10 e ≤ n

def isSpecialFloat (cs : List Char) : Bool :=
  let word := (sign cs).2
  word == ['i', 'n', 'f'] || word == ['n', 'a', 'n']

/-- A number with a fraction or an exponent; one that is too great is refused, unless negative. -/
def isFloat (cs : List Char) : Bool :=
  isSpecialFloat cs ||
    match floatShape? cs with
    | some f => f.minus || !f.overflows
    | none => false

end DataReach.Toml
