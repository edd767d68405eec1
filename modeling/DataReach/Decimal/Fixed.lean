/-!
A double written with a fixed number of decimal places. The exact binary value is rounded, a tie
going to the even neighbour.
-/

namespace DataReach.Decimal

/-- The whole number nearest to `num / den`; of two equally near, the even one. -/
def divHalfEven (num den : Nat) : Nat :=
  let q := num / den
  let r := num % den
  if 2 * r < den then q
  else if den < 2 * r then q + 1
  else if q % 2 = 0 then q
  else q + 1

/-- A finite double as `± mantissa · 2 ^ up / 2 ^ down`. -/
structure Dyadic where
  negative : Bool
  mantissa : Nat
  up : Nat
  down : Nat

inductive Parts where
  | finite (value : Dyadic)
  | infinite (negative : Bool)
  | notANumber

def Parts.ofFloat (x : Float) : Parts :=
  let bits := x.toBits.toNat
  let negative := bits >>> 63 == 1
  let exponent := (bits >>> 52) % 2048
  let fraction := bits % (1 <<< 52)
  if exponent = 2047 then
    if fraction = 0 then .infinite negative else .notANumber
  else if exponent = 0 then .finite ⟨negative, fraction, 0, 1074⟩
  else .finite ⟨negative, fraction + (1 <<< 52), exponent - 1075, 1075 - exponent⟩

def placed (places n : Nat) : String :=
  let whole := Nat.repr (n / Nat.pow 10 places)
  let part := (Nat.toDigits 10 (n % Nat.pow 10 places))
  if places = 0 then whole
  else whole ++ "." ++ String.ofList (List.replicate (places - part.length) '0' ++ part)

def fixed (places : Nat) (x : Float) : String :=
  match Parts.ofFloat x with
  | .notANumber => "NaN"
  | .infinite negative => if negative then "-inf" else "inf"
  | .finite v =>
    let n := divHalfEven ((v.mantissa <<< v.up) * Nat.pow 10 places) (1 <<< v.down)
    (if v.negative then "-" else "") ++ placed places n

end DataReach.Decimal
