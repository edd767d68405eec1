/-! Dates and times of TOML, as whole words, and their canonical text. -/

namespace DataReach.Toml

def twoDigits (bound : Nat) (a b : Char) : Option Nat :=
  if a.isDigit && b.isDigit then
    let n := 10 * (a.toNat - '0'.toNat) + (b.toNat - '0'.toNat)
    if n ≤ bound then some n else none
  else none

def isLeapYear (y : Nat) : Bool := (y % 4 == 0 && y % 100 != 0) || y % 400 == 0

def daysIn (year month : Nat) : Nat :=
  if month = 2 then if isLeapYear year then 29 else 28
  else if [4, 6, 9, 11].contains month then 30
  else 31

def date? : List Char → Option (List Char × List Char)
  | a :: b :: c :: d :: '-' :: e :: f :: '-' :: g :: h :: rest => do
    let year := 100 * (← twoDigits 99 a b) + (← twoDigits 99 c d)
    let month ← twoDigits 12 e f
    let day ← twoDigits 31 g h
    if month = 0 || day = 0 || daysIn year month < day then none
    else return ([a, b, c, d, '-', e, f, '-', g, h], rest)
  | _ => none

def secondFraction : List Char → List Char × List Char
  | '.' :: c :: rest =>
    if c.isDigit then
      let digits := ((c :: rest).takeWhile Char.isDigit).take 9
      let kept := (digits.reverse.dropWhile (· == '0')).reverse
      (if kept.isEmpty then [] else '.' :: kept, rest.dropWhile Char.isDigit)
    else ([], '.' :: c :: rest)
  | cs => ([], cs)

def time? : List Char → Option (List Char × List Char)
  | a :: b :: ':' :: c :: d :: ':' :: e :: f :: rest => do
    let _ ← twoDigits 23 a b
    let _ ← twoDigits 59 c d
    let _ ← twoDigits 60 e f
    let (fraction, rest) := secondFraction rest
    return ([a, b, ':', c, d, ':', e, f] ++ fraction, rest)
  | _ => none

def isSign (c : Char) : Bool := c == '+' || c == '-'

def offset? : List Char → Option (List Char)
  | [] => some []
  | ['Z'] | ['z'] => some ['Z']
  | [s, a, b, ':', c, d] => do
    let _ ← twoDigits 23 a b
    let _ ← twoDigits 59 c d
    if isSign s then
      if [a, b, c, d].all (· == '0') then return ['+', '0', '0', ':', '0', '0']
      else return [s, a, b, ':', c, d]
    else none
  | _ => none

def clock? (cs : List Char) : Option (List Char) := do
  let (time, rest) ← time? cs
  return time ++ (← offset? rest)

def datetime? (cs : List Char) : Option (List Char) :=
  match date? cs with
  | some (date, []) => some date
  | some (date, 'T' :: rest) | some (date, 't' :: rest) => do return date ++ 'T' :: (← clock? rest)
  | some _ => none
  | none =>
    match time? cs with
    | some (time, []) => some time
    | _ => none

end DataReach.Toml
