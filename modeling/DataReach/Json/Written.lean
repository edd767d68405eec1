import DataReach.Decimal.Shortest
import DataReach.Json.Numeral
/-!
What a value reads as once it has been written. A double is written with the shortest digits that
stand for it; reading scales them by a power of ten in doubles, and may arrive at a neighbour. All
else is read as it was.
-/

namespace DataReach.Json

namespace Numeral

def maxWholePlaces : Int := 16

/-- The greatest number of zeros between the point and the first digit. -/
def maxLeadingZeros : Int := 4

def zeros (n : Nat) : List Char := List.replicate n '0'

/-- The numeral of a decimal has a point, or an exponent if the point would stand far from the
digits. -/
def Shape.ofDecimal (negative : Bool) (d : Decimal.Scientific) : Shape :=
  let digits := Nat.toDigits 10 d.digits
  let point := digits.length + d.exponent
  if 0 ≤ d.exponent && point ≤ maxWholePlaces then
    ⟨negative, digits ++ zeros d.exponent.toNat, some ['0'], none⟩
  else if 0 < point && point ≤ maxWholePlaces then
    ⟨negative, digits.take point.toNat, some (digits.drop point.toNat), none⟩
  else if -maxLeadingZeros ≤ point && point ≤ 0 then
    ⟨negative, ['0'], some (zeros (-point).toNat ++ digits), none⟩
  else
    let fraction := if digits.length = 1 then none else some (digits.drop 1)
    let exponent := point - 1
    ⟨negative, digits.take 1, fraction, some (exponent < 0, Nat.toDigits 10 exponent.natAbs)⟩

/-- The numeral of a double; what is no number, or infinite, has none. -/
def Shape.ofFloat? (x : Float) : Option Shape :=
  match Decimal.Parts.ofFloat x with
  | .finite v => some (.ofDecimal v.negative v.shortest)
  | _ => none

end Numeral

def rereadFloat (x : Float) : Json :=
  match Numeral.Shape.ofFloat? x with
  | none => .null
  | some s =>
    match s.value with
    | some n => .num n
    | none => .broken

mutual

def reread : Json → Json
  | .num (.float x) => rereadFloat x
  | .arr items => .arr (rereadItems items)
  | .obj members => .obj (rereadMembers members)
  | j => j

def rereadItems : List Json → List Json
  | [] => []
  | j :: rest => reread j :: rereadItems rest

def rereadMembers : List (String × Json) → List (String × Json)
  | [] => []
  | (name, j) :: rest => (name, reread j) :: rereadMembers rest

end

end DataReach.Json
