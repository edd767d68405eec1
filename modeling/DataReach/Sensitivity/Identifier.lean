/-!
The canonical form of an identifier: runs of lower-case ASCII letters and digits, joined by single
underscores. A new run starts at a capital after a small letter or digit, and after any other
character.
-/

namespace DataReach.Identifier

/-- What has been written so far, last character first, and whether a small letter or digit was
read last. -/
structure Progress where
  written : List Char
  afterSmall : Bool

def Progress.start : Progress := ⟨[], false⟩

def Progress.gap (p : Progress) : List Char :=
  match p.written with
  | [] => []
  | '_' :: _ => p.written
  | _ => '_' :: p.written

def Progress.step (p : Progress) (c : Char) : Progress :=
  if c.isAlphanum then
    let written := if c.isUpper && p.afterSmall then '_' :: p.written else p.written
    ⟨c.toLower :: written, c.isLower || c.isDigit⟩
  else ⟨p.gap, false⟩

def normalizeList (cs : List Char) : List Char :=
  ((cs.foldl Progress.step .start).written.dropWhile (· == '_')).reverse

def normalize (s : String) : String :=
  String.ofList (normalizeList s.toList)

end DataReach.Identifier
