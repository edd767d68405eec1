/-!
Paths as they are written, with slashes between names. Empty names and single dots stand for where
they are.
-/

namespace DataReach

/-- A name in a directory. Slashes only ever stand between names. -/
structure FileName where
  text : String
  plain : '/' ∉ text.toList
  deriving DecidableEq

namespace Path

def pieces : List Char → List (List Char)
  | [] => [[]]
  | c :: rest =>
    if c = '/' then [] :: pieces rest
    else
      match pieces rest with
      | [] => [[c]]
      | p :: ps => (c :: p) :: ps

def isName (piece : List Char) : Bool := piece != [] && piece != ['.']

def names (path : String) : List String :=
  ((pieces path.toList).filter isName).map String.ofList

theorem plain_of_mem_pieces {cs piece : List Char} (member : piece ∈ pieces cs) : '/' ∉ piece := by
  induction cs generalizing piece with
  | nil =>
    simp only [pieces, List.mem_singleton] at member
    simp [member]
  | cons c rest ih =>
    rw [pieces] at member
    split at member
    · rcases List.mem_cons.mp member with rfl | later
      · simp
      · exact ih later
    · next other =>
      have differs : '/' ≠ c := Ne.symm other
      split at member
      · rw [List.mem_singleton.mp member]
        simpa using differs
      · next p ps found =>
        rcases List.mem_cons.mp member with rfl | later
        · have tail := ih (found ▸ List.mem_cons_self ..)
          simp [differs, tail]
        · exact ih (found ▸ List.mem_cons_of_mem p later)

theorem plain_of_mem_names {path name : String} (member : name ∈ names path) :
    '/' ∉ name.toList := by
  rcases List.mem_map.mp member with ⟨piece, kept, rfl⟩
  have plain := plain_of_mem_pieces (List.mem_filter.mp kept).1
  simpa using plain

def steps (path : String) : List FileName :=
  (names path).pmap FileName.mk fun _ member => plain_of_mem_names member

def isAbsolute (path : String) : Bool := path.toList.head? == some '/'

/-- Whether the last piece is a single dot, slashes after it aside. -/
def endsInDot (path : String) : Bool :=
  ((pieces path.toList).filter (· != [])).getLast? == some ['.']

/-- Whether only a directory can be meant: the path ends with a slash or a single dot. -/
def meansDirectory (path : String) : Bool :=
  ((pieces path.toList).getLast?.map isName) == some false

def join (base path : String) : String :=
  if isAbsolute path then path
  else if base.isEmpty || base.toList.getLast? == some '/' then base ++ path
  else base ++ "/" ++ path

def parent (path : String) : String :=
  let above := ((pieces path.toList).reverse.dropWhile (!isName ·)).drop 1
  String.ofList (['/'].intercalate (above.dropWhile (!isName ·)).reverse)

def maxBytes : Nat := 4095

def maxNameBytes : Nat := 255

end Path

end DataReach
