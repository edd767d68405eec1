/-! Letter case within ASCII; every other character stands for itself. -/

namespace DataReach.Text

def lower (s : String) : String :=
  String.ofList (s.toList.map Char.toLower)

def sameIgnoringCase (a b : String) : Bool :=
  lower a == lower b

end DataReach.Text
