/-!
Pieces of dotted and joined names. A name is cut at `.`, `::` and `->`; words joined by `_` are
searched as whole segments.
-/

namespace DataReach.Text

def afterSeparator : List Char → Option (List Char)
  | '.' :: rest => some rest
  | ':' :: ':' :: rest => some rest
  | '-' :: '>' :: rest => some rest
  | _ => none

/-- The text after the last separator, or `best` when there is none. -/
def lastSegmentFrom (best : List Char) : List Char → List Char
  | [] => best
  | c :: rest =>
    match afterSeparator (c :: rest) with
    | some tail => lastSegmentFrom tail rest
    | none => lastSegmentFrom best rest

def lastSegment (s : String) : String :=
  String.ofList (lastSegmentFrom s.toList s.toList)

/-- Writes `joint` for each pair `a`, `b` of neighbours, from the left and without overlap. -/
def replacePair (a b joint : Char) : List Char → List Char
  | x :: y :: rest =>
    if x = a ∧ y = b then joint :: replacePair a b joint rest
    else x :: replacePair a b joint (y :: rest)
  | rest => rest

def dotted (s : String) : String :=
  String.ofList (replacePair '-' '>' '.' (replacePair ':' ':' '.' s.toList))

def occursIn (needle : List Char) : List Char → Bool
  | [] => needle.isEmpty
  | c :: rest => needle.isPrefixOf (c :: rest) || occursIn needle rest

/-- Whether `word` is a run of whole segments of `text`, both joined by underscores. -/
def hasSegments (word text : String) : Bool :=
  occursIn ('_' :: word.toList ++ ['_']) ('_' :: text.toList ++ ['_'])

end DataReach.Text
