import DataReach.Decimal.Fixed
/-!
The shortest decimal that stands for a double: of all decimals that are nearer to it than to any
other double, one with the fewest digits, and of those the nearest. Everything is compared exactly,
in whole numbers.
-/

namespace DataReach.Decimal

structure Scientific where
  digits : Nat
  exponent : Int
  deriving DecidableEq, Repr, Inhabited

/-- The numbers that are read as one double: from `low` to `high` around `mid`, all over
`2 ^ down`. The ends are among them when the span is closed. -/
structure Span where
  low : Nat
  mid : Nat
  high : Nat
  down : Nat
  closed : Bool
  deriving DecidableEq, Repr, Inhabited

/-- The ends lie half way to the neighbours, in quarters of the last place. Below a power of two
the neighbour is half as far away. -/
def Dyadic.span (v : Dyadic) : Span :=
  let narrow := v.mantissa == 1 <<< 52 && v.down != 1074
  { low := (4 * v.mantissa - if narrow then 1 else 2) <<< v.up
    mid := (4 * v.mantissa) <<< v.up
    high := (4 * v.mantissa + 2) <<< v.up
    down := v.down + 2
    closed := v.mantissa % 2 == 0 }

namespace Span

def den (s : Span) : Nat := 1 <<< s.down

def middle (s : Span) : Scientific := ⟨s.mid * Nat.pow 5 s.down, -s.down⟩

def contains (s : Span) (d : Scientific) : Bool :=
  let x := d.digits * Nat.pow 10 d.exponent.toNat * s.den
  let low := s.low * Nat.pow 10 (-d.exponent).toNat
  let high := s.high * Nat.pow 10 (-d.exponent).toNat
  if s.closed then low ≤ x && x ≤ high else low < x && x < high

/-- The two neighbours of the middle among the multiples of `10 ^ k`, the nearer one first and of
two equally near the even one. -/
def neighbours (s : Span) (k : Int) : List Scientific :=
  let num := s.mid * Nat.pow 10 (-k).toNat
  let den := s.den * Nat.pow 10 k.toNat
  let below := num / den
  if divHalfEven num den = below then [⟨below, k⟩, ⟨below + 1, k⟩]
  else [⟨below + 1, k⟩, ⟨below, k⟩]

def onGrid? (s : Span) (k : Int) : Option Scientific := (s.neighbours k).find? s.contains

def digitCount (n : Nat) : Nat := (Nat.toDigits 10 n).length

def leading (s : Span) : Int :=
  if s.den ≤ s.mid then digitCount (s.mid / s.den) - 1
  else -digitCount ((s.den - 1) / s.mid)

def maxDigits : Nat := 17

def shortest (s : Span) : Scientific :=
  let grid (i : Nat) : Int := s.leading + 1 - i
  ((List.range (maxDigits + 1)).findSome? fun i => s.onGrid? (grid i)).getD s.middle

end Span

def Dyadic.shortest (v : Dyadic) : Scientific :=
  if v.mantissa = 0 then ⟨0, 0⟩ else v.span.shortest

end DataReach.Decimal
