import DataReach.Function
import DataReach.Sensitivity.Identifier
import DataReach.Sensitivity.Keyword
import DataReach.Text.Segment
/-!
Classification of tables and fields by the words in their names. Overrides come before the built-in
words, the longest one first.
-/

namespace DataReach

/-- Overrides by canonical keyword: each keyword once, longer ones first, equally long ones in
ascending order. -/
structure Classifier where
  overrides : List (String × Sensitivity)
  deriving Inhabited

namespace Classifier

def standard : Classifier := ⟨[]⟩

def before (a b : String × Sensitivity) : Bool :=
  b.1.utf8ByteSize < a.1.utf8ByteSize ||
    (a.1.utf8ByteSize == b.1.utf8ByteSize && decide (a.1 ≤ b.1))

/-- The class given last for a keyword counts; a keyword without letters and digits is ignored. -/
def withOverride (c : Classifier) (keyword : String) (s : Sensitivity) : Classifier :=
  let keyword := Identifier.normalize keyword
  if keyword.isEmpty then c
  else ⟨((c.overrides.filter (·.1 != keyword)) ++ [(keyword, s)]).mergeSort before⟩

def ofOverrides (overrides : List (String × String)) : Classifier :=
  overrides.foldl
    (fun c o =>
      match Sensitivity.ofName? o.2 with
      | some s => c.withOverride o.1 s
      | none => c) standard

def hasKeyword (name : String) (s : Sensitivity) : Bool :=
  s.keywords.any fun w => Text.hasSegments w name || Text.hasSegments (w ++ "s") name

def builtIn (name : String) : Sensitivity :=
  (Sensitivity.all.find? (hasKeyword name)).getD .unknown

def classify (c : Classifier) (text : String) : Sensitivity :=
  let name := Identifier.normalize text
  if name.isEmpty then .unknown
  else
    match c.overrides.find? fun o => Text.hasSegments o.1 name with
    | some o => o.2
    | none => builtIn name

def classifyField (c : Classifier) (table field : String) : Sensitivity :=
  match c.classify field with
  | .unknown => c.classify table
  | s => s

def classifyAccess (c : Classifier) (a : DataAccess) : Sensitivity :=
  if a.fields.isEmpty then c.classify a.table
  else Sensitivity.worst (a.fields.map (c.classifyField a.table))

end Classifier

end DataReach
