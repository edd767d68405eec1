import DataReach.Json.Basic
/-!
Reading JSON numerals. Digits are gathered while they fit 64 bits; the value of a fraction or an
exponent is the gathered number multiplied or divided by a power of ten, in doubles.
-/

namespace DataReach.Json.Numeral

def digitValue (c : Char) : Nat := c.toNat - '0'.toNat

/-- The gathered digits and how many further ones were left out. -/
structure Gathered where
  value : Nat
  skipped : Nat

def fits64 (n : Nat) : Bool := n < UInt64.size

def gatherWhole : Gathered → List Char → Gathered
  | g, [] => g
  | g, c :: rest =>
    let next := 10 * g.value + digitValue c
    if g.skipped = 0 && fits64 next then gatherWhole { g with value := next } rest
    else gatherWhole { g with skipped := g.skipped + 1 } rest

def gatherFraction (value : Nat) : List Char → Nat × Nat
  | [] => (value, 0)
  | c :: rest =>
    let next := 10 * value + digitValue c
    if fits64 next then
      let (v, taken) := gatherFraction next rest
      (v, taken + 1)
    else (value, 0)

def powerOfTen (e : Nat) : Float := Float.ofScientific 1 false e

def maxPower : Nat := 308

def scaleUp (x : Float) (e : Nat) : Option Float :=
  if e ≤ maxPower then
    let y := x * powerOfTen e
    if y.isInf then none else some y
  else if x == 0 then some x else none

def scaleDown (x : Float) (e : Nat) : Float :=
  if e ≤ maxPower then x / powerOfTen e
  else if x == 0 then x
  else scaleDown (x / powerOfTen maxPower) (e - maxPower)
termination_by e
decreasing_by simp only [maxPower] at *; omega

def scale (x : Float) (e : Int) : Option Float :=
  if 0 ≤ e then scaleUp x e.toNat else some (scaleDown x (-e).toNat)

def maxExponent : Nat := (1 <<< 31) - 1

/-- A numeral in its parts; a fraction or exponent that is written has at least one digit. -/
structure Shape where
  negative : Bool
  whole : List Char
  fraction : Option (List Char)
  exponent : Option (Bool × List Char)

def signed (negative : Bool) (x : Float) : Float := if negative then -x else x

def Shape.value (s : Shape) : Option Number :=
  let whole := gatherWhole ⟨0, 0⟩ s.whole
  match s.fraction, s.exponent with
  | none, none =>
    if whole.skipped = 0 then
      if !s.negative then some (.nat whole.value)
      else if whole.value = 0 || 1 <<< 63 < whole.value then
        some (.float (signed true whole.value.toUInt64.toFloat))
      else some (.neg whole.value)
    else
      (scale whole.value.toUInt64.toFloat whole.skipped).map fun x => .float (signed s.negative x)
  | fraction, exponent =>
    let (value, taken) := gatherFraction whole.value (fraction.getD [])
    let start : Int := whole.skipped - taken
    let result : Option Float :=
      match exponent with
      | none => scale value.toUInt64.toFloat start
      | some (down, digits) =>
        let e := digits.foldl (fun acc c => 10 * acc + digitValue c) 0
        if maxExponent < e then
          if value = 0 || down then some 0 else none
        else scale value.toUInt64.toFloat (if down then start - e else start + e)
    result.map fun x => .float (signed s.negative x)

end DataReach.Json.Numeral
