/-! JSON values, as documents and requests hold them. -/

namespace DataReach

/-- A number is a natural number below 2^64, a negative integer from -2^63 on, or a double. -/
inductive Number where
  | nat (n : Nat)
  | neg (n : Nat)
  | float (x : Float)
  deriving Inhabited

/-- `broken` is well-formed text without a value: half of a surrogate pair, or a number beyond the
doubles. It may stand where nobody looks. -/
inductive Json where
  | null
  | bool (b : Bool)
  | num (n : Number)
  | str (s : String)
  | arr (items : List Json)
  | obj (members : List (String × Json))
  | broken
  deriving Inhabited

namespace Json

def nat (n : Nat) : Json := .num (.nat n)

def word (n : UInt32) : Json := .nat n.toNat

/-- A double that is no number, or infinite, is written as `null`. -/
def float (x : Float) : Json :=
  if x.isFinite then .num (.float x) else .null

def ofOption (f : α → Json) : Option α → Json
  | none => .null
  | some a => f a

def ofList (f : α → Json) (xs : List α) : Json := .arr (xs.map f)

def strings (xs : List String) : Json := .ofList .str xs

def member? (name : String) (f : α → Json) : Option α → List (String × Json)
  | none => []
  | some a => [(name, f a)]

def extend (more : List (String × Json)) : Json → Json
  | .obj members => .obj (members ++ more)
  | j => j

mutual

/-- Whether every part has a value and at most `budget` arrays and objects enclose one another. -/
def sound (budget : Nat) : Json → Bool
  | .broken => false
  | .arr items => budget != 0 && soundItems (budget - 1) items
  | .obj members => budget != 0 && soundMembers (budget - 1) members
  | _ => true

def soundItems (budget : Nat) : List Json → Bool
  | [] => true
  | j :: rest => sound budget j && soundItems budget rest

def soundMembers (budget : Nat) : List (String × Json) → Bool
  | [] => true
  | (_, j) :: rest => sound budget j && soundMembers budget rest

end

def maxNesting : Nat := 127

mutual

/-- Keeps the last of several members of one name, everywhere. -/
def lastWins : Json → Json
  | .arr items => .arr (lastWinsItems items)
  | .obj members => .obj (lastWinsMembers members)
  | j => j

def lastWinsItems : List Json → List Json
  | [] => []
  | j :: rest => lastWins j :: lastWinsItems rest

def lastWinsMembers : List (String × Json) → List (String × Json)
  | [] => []
  | (k, j) :: rest =>
    let rest := lastWinsMembers rest
    if rest.any (·.1 == k) then rest else (k, lastWins j) :: rest

end

end Json

end DataReach
