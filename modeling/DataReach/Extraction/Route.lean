import DataReach.Text.Blank
import DataReach.Text.Word
/-!
Decorators that mark a function as a request handler, such as `@app.get("/users")`,
`[HttpPost]` or `@RequestMapping`. Letter case does not count.
-/

namespace DataReach.Route

/-- The small letter that a character folds to; besides the capitals, the long s folds to s. -/
def fold (c : Char) : Char :=
  if c = 'ſ' then 's' else c.toLower

def afterWord : List Char → List Char → Option (List Char)
  | [], rest => some rest
  | w :: ws, c :: rest => if fold c = w then afterWord ws rest else none
  | _ :: _, [] => none

def verbs : List String := ["get", "post", "put", "patch", "delete"]

def handlerWords : List String :=
  ["route"] ++ verbs ++ ["api_view"] ++
    ((verbs ++ ["request"]).flatMap fun v => [v ++ "_mapping", v ++ "mapping"]) ++
    verbs.map ("http" ++ ·)

def atWordEnd : List Char → Bool
  | [] => true
  | c :: _ => !Text.isWord c

def startsWithHandler (cs : List Char) : Bool :=
  handlerWords.any fun w =>
    match afterWord w.toList cs with
    | some rest => atWordEnd rest
    | none => false

def afterReceiver (cs : List Char) : Option (List Char) :=
  match cs.takeWhile Text.isWord, cs.dropWhile Text.isWord with
  | _ :: _, '.' :: rest => some rest
  | _, _ => none

def afterMark : List Char → List Char
  | '@' :: rest | '[' :: rest => rest
  | cs => cs

/-- A mark, blanks, a receiver with a dot and then a handler word; all but the last may be
absent. -/
def isHandler (decorator : String) : Bool :=
  let cs := (afterMark (Text.trimList decorator.toList)).dropWhile Text.isBlank
  startsWithHandler cs || (afterReceiver cs).any startsWithHandler

end DataReach.Route
