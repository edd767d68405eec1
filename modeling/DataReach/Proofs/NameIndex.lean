import DataReach.Proofs.Resolution
import DataReach.Proofs.Text.Segment
import Mathlib.Data.List.Nodup
import Mathlib.Data.List.Perm.Basic
import Mathlib.Data.List.Sort
import Mathlib.Data.String.Basic
/-!
What the index of names finds. The candidates for a target are those of the functions whose
qualified name is the dotted target, if it has a separator and there are any, else those of the
functions whose name is its last segment; each stands once, in order, whatever order the functions
came in.
-/

namespace DataReach

namespace Candidate

def Precedes (a b : Candidate) : Prop :=
  a.file < b.file ∨ a.file = b.file ∧
    (a.startLine < b.startLine ∨ a.startLine = b.startLine ∧ a.id < b.id)

theorem before_iff {a b : Candidate} : a.before b = true ↔ a.Precedes b := by
  simp [before, Precedes]

theorem precedes_irrefl (a : Candidate) : ¬ a.Precedes a := by
  simp [Precedes, UInt32.lt_irrefl]

theorem precedes_trans {a b c : Candidate} (first : a.Precedes b) (second : b.Precedes c) :
    a.Precedes c := by
  rcases first with file | ⟨file, line | ⟨line, id⟩⟩
  all_goals grind [Precedes]

theorem precedes_total (a b : Candidate) : a.Precedes b ∨ a = b ∨ b.Precedes a := by
  rcases lt_trichotomy a.file b.file with file | file | file
  · exact .inl (.inl file)
  · by_cases line : a.startLine = b.startLine
    · rcases lt_trichotomy a.id b.id with id | id | id
      · exact .inl (.inr ⟨file, .inr ⟨line, id⟩⟩)
      · grind [Candidate]
      · exact .inr (.inr (.inr ⟨file.symm, .inr ⟨line.symm, id⟩⟩))
    · rcases UInt32.lt_or_lt_of_ne line with less | less
      · exact .inl (.inr ⟨file, .inl less⟩)
      · exact .inr (.inr (.inr ⟨file.symm, .inl less⟩))
  · exact .inr (.inr (.inl file))

instance : Std.Asymm Precedes :=
  ⟨fun a _ first second => precedes_irrefl a (precedes_trans first second)⟩

theorem mem_insert_iff {c d : Candidate} {found : List Candidate} :
    d ∈ c.insert found ↔ d = c ∨ d ∈ found := by
  refine ⟨mem_insert, ?_⟩
  induction found with
  | nil => simp [insert]
  | cons first rest ih =>
    intro given
    rw [insert]
    split
    · exact List.mem_cons.mpr given
    · split
      · rcases given with same | inside
        · exact List.mem_cons_of_mem first (ih (.inl same))
        · rcases List.mem_cons.mp inside with here | later
          · exact here ▸ List.mem_cons_self ..
          · exact List.mem_cons_of_mem first (ih (.inr later))
      · next after before =>
        rw [before_iff] at after before
        have same : c = first := ((precedes_total c first).resolve_left after).resolve_right before
        rcases given with own | inside
        · exact own ▸ same ▸ List.mem_cons_self ..
        · exact inside

theorem insert_ascending {c : Candidate} {found : List Candidate}
    (ascending : found.Pairwise Precedes) : (c.insert found).Pairwise Precedes := by
  induction found with
  | nil => exact List.pairwise_singleton _ _
  | cons first rest ih =>
    obtain ⟨least, tail⟩ := List.pairwise_cons.mp ascending
    rw [insert]
    split
    · next here =>
      rw [before_iff] at here
      refine List.pairwise_cons.mpr ⟨fun d member => ?_, ascending⟩
      rcases List.mem_cons.mp member with rfl | later
      · exact here
      · exact precedes_trans here (least d later)
    · split
      · next here =>
        rw [before_iff] at here
        refine List.pairwise_cons.mpr ⟨fun d member => ?_, ih tail⟩
        rcases mem_insert member with rfl | later
        · exact here
        · exact least d later
      · exact ascending

end Candidate

namespace NameIndex

/-- The candidates for the functions of a kind, each once and in order. -/
structure Lists (functions : List FunctionNode) (kind : FunctionNode → Prop)
    (found : List Candidate) : Prop where
  mem : ∀ c, c ∈ found ↔ ∃ f ∈ functions, kind f ∧ .ofFunction f = c
  ascending : found.Pairwise Candidate.Precedes

section Lists

variable {functions others : List FunctionNode} {kind other : FunctionNode → Prop}
  {found found' : List Candidate}

theorem Lists.unique (first : Lists functions kind found) (second : Lists functions kind found') :
    found = found' := by
  exact first.ascending.eq_of_mem_iff second.ascending fun c =>
    (first.mem c).trans (second.mem c).symm

theorem Lists.congr (lists : Lists functions kind found)
    (same : ∀ f ∈ functions, kind f ↔ other f) : Lists functions other found := by
  refine ⟨fun c => ?_, lists.ascending⟩
  rw [lists.mem c]
  constructor
  all_goals
    rintro ⟨f, inside, own, stands⟩
    exact ⟨f, inside, by simpa [same f inside] using own, stands⟩

theorem Lists.perm (lists : Lists functions kind found) (same : functions.Perm others) :
    Lists others kind found := by
  refine ⟨fun c => ?_, lists.ascending⟩
  simp only [lists.mem c, same.mem_iff]

end Lists

/-- Under each name stand the candidates for the functions that have it; names without functions are
not in the dictionary. -/
structure Filed (d : Dict String (List Candidate)) (functions : List FunctionNode)
    (name : FunctionNode → String) : Prop where
  lists : ∀ key, Lists functions (name · = key) ((d.get? key).getD [])
  absent : ∀ key, d.get? key = none ↔ ∀ f ∈ functions, name f ≠ key

theorem filed_file {d : Dict String (List Candidate)} {front : List FunctionNode}
    {name : FunctionNode → String} (filed : Filed d front name) (f : FunctionNode) :
    Filed (file d (name f) (.ofFunction f)) (front ++ [f]) name := by
  constructor
  · intro key
    have before := filed.lists key
    rw [file, Dict.get?_alter]
    by_cases own : key = name f
    · subst own
      rw [if_pos rfl, Option.getD_some]
      refine ⟨fun c => ?_, Candidate.insert_ascending before.ascending⟩
      rw [Candidate.mem_insert_iff, before.mem c]
      simp [or_and_right, exists_or, or_comm, eq_comm]
    · rw [if_neg own]
      refine ⟨fun c => ?_, before.ascending⟩
      rw [before.mem c]
      simp [or_and_right, exists_or, Ne.symm own]
  · intro key
    rw [file, Dict.get?_alter]
    by_cases own : key = name f
    · simp [own]
    · simp [own, filed.absent key, or_imp, forall_and, Ne.symm own]

theorem filed_foldl (functions : List FunctionNode) :
    Filed (functions.foldl addFunction empty).byName functions (·.name) ∧
      Filed (functions.foldl addFunction empty).byQualified functions (·.qualifiedName) := by
  induction functions using List.reverseRecOn with
  | nil =>
    constructor
    all_goals
      refine ⟨fun key => ⟨fun c => ?_, .nil⟩, fun key => ?_⟩
      · simp [empty]
      · simp [empty]
  | append_singleton front f ih =>
    rw [List.foldl_append]
    exact ⟨filed_file ih.1 f, filed_file ih.2 f⟩

/-- The target has a separator, and some function has it, written with dots, as its qualified
name. -/
def IsQualified (functions : List FunctionNode) (target : String) : Prop :=
  Text.lastSegment target ≠ target ∧ ∃ f ∈ functions, f.qualifiedName = Text.dotted target

theorem candidates_qualified {shards : List Shard} {target : String}
    (qualified : IsQualified (shards.flatMap (·.functions)) target) :
    Lists (shards.flatMap (·.functions)) (·.qualifiedName = Text.dotted target)
      ((ofShards shards).candidates target) := by
  have filed := (filed_foldl (shards.flatMap (·.functions))).2
  rw [← ofShards_eq] at filed
  obtain ⟨separated, f, inside, named⟩ := qualified
  have lists := filed.lists (Text.dotted target)
  rw [candidates, if_neg (by simpa using separated)]
  cases found : (ofShards shards).byQualified.get? (Text.dotted target) with
  | none => exact absurd named ((filed.absent _).mp found f inside)
  | some cs => rwa [found] at lists

theorem candidates_simple {shards : List Shard} {target : String}
    (simple : ¬ IsQualified (shards.flatMap (·.functions)) target) :
    Lists (shards.flatMap (·.functions)) (·.name = Text.lastSegment target)
      ((ofShards shards).candidates target) := by
  obtain ⟨byName, byQualified⟩ := filed_foldl (shards.flatMap (·.functions))
  rw [← ofShards_eq] at byName byQualified
  have lists := byName.lists (Text.lastSegment target)
  rw [candidates]
  split
  · exact lists
  · next separated =>
    have none : (ofShards shards).byQualified.get? (Text.dotted target) = none := by
      refine (byQualified.absent _).mpr fun f inside named => ?_
      exact simple ⟨by simpa using separated, f, inside, named⟩
    rwa [none]

/-- The candidates for a target, whatever was indexed. They do not depend on the order of shards. -/
theorem candidates_exact (shards : List Shard) (target : String) :
    Text.IsLastSegment target.toList (Text.lastSegment target).toList ∧
      (IsQualified (shards.flatMap (·.functions)) target →
        Lists (shards.flatMap (·.functions)) (·.qualifiedName = Text.dotted target)
          ((ofShards shards).candidates target)) ∧
      (¬ IsQualified (shards.flatMap (·.functions)) target →
        Lists (shards.flatMap (·.functions)) (·.name = Text.lastSegment target)
          ((ofShards shards).candidates target)) ∧
      ∀ others : List Shard, others.Perm shards →
        (ofShards others).candidates target = (ofShards shards).candidates target := by
  refine ⟨Text.isLastSegment_lastSegment target, candidates_qualified, candidates_simple, ?_⟩
  intro others same
  have functions := same.flatMap_right fun s : Shard => s.functions
  by_cases qualified : IsQualified (shards.flatMap (·.functions)) target
  · have own : IsQualified (others.flatMap (·.functions)) target := by
      simpa only [IsQualified, functions.mem_iff] using qualified
    exact ((candidates_qualified own).perm functions).unique (candidates_qualified qualified)
  · have own : ¬ IsQualified (others.flatMap (·.functions)) target := by
      simpa only [IsQualified, functions.mem_iff] using qualified
    exact ((candidates_simple own).perm functions).unique (candidates_simple qualified)

/-! ### A function's own qualified name -/

section OwnName

variable {shards : List Shard} {g : FunctionNode}

abbrev ListsNamesake (shards : List Shard) (g : FunctionNode) (found : List Candidate) : Prop :=
  Lists (shards.flatMap (·.functions)) (·.qualifiedName = g.qualifiedName) found

theorem candidates_dotted (member : g ∈ shards.flatMap (·.functions))
    (separated : Text.lastSegment g.qualifiedName ≠ g.qualifiedName)
    (plain : Text.IsDotted g.qualifiedName) :
    ListsNamesake shards g ((ofShards shards).candidates g.qualifiedName) := by
  have own := Text.dotted_eq_iff.mpr plain
  have lists := candidates_qualified ⟨separated, g, member, own.symm⟩
  rwa [own] at lists

theorem kind_of_lists {functions : List FunctionNode} {kind other : FunctionNode → Prop}
    {found : List Candidate} (once : (functions.map (·.id)).Nodup)
    (lists : Lists functions kind found) (lists' : Lists functions other found)
    {f : FunctionNode} (member : f ∈ functions) (own : kind f) : other f := by
  obtain ⟨f', inside, own', stands⟩ := (lists'.mem _).mp ((lists.mem _).mpr ⟨f, member, own, rfl⟩)
  have same := List.inj_on_of_nodup_map once inside member (congrArg Candidate.id stands)
  exact same ▸ own'

/-- The qualified name of a function finds the functions with that name if its only separators are
dots. Else they are found only by their simple name: when no other function has the name in dotted
form, and the functions with the last segment as their name are just the ones meant. -/
theorem own_name_candidates (member : g ∈ shards.flatMap (·.functions)) {rest : List Char}
    (separated : Text.Cuts g.qualifiedName.toList rest) :
    (Text.IsDotted g.qualifiedName →
      ListsNamesake shards g ((ofShards shards).candidates g.qualifiedName)) ∧
    (((shards.flatMap (·.functions)).map (·.id)).Nodup →
      (ListsNamesake shards g ((ofShards shards).candidates g.qualifiedName) ↔
        Text.IsDotted g.qualifiedName ∨
          ∀ f ∈ shards.flatMap (·.functions), f.qualifiedName ≠ Text.dotted g.qualifiedName ∧
            (f.name = Text.lastSegment g.qualifiedName ↔ f.qualifiedName = g.qualifiedName))) := by
  have parts : Text.lastSegment g.qualifiedName ≠ g.qualifiedName :=
    fun whole => Text.lastSegment_eq_iff.mp whole rest separated
  refine ⟨candidates_dotted member parts, fun once => ⟨fun exact => ?_, ?_⟩⟩
  · refine or_iff_not_imp_left.mpr fun spelt => ?_
    have other : Text.dotted g.qualifiedName ≠ g.qualifiedName :=
      fun same => spelt (Text.dotted_eq_iff.mp same)
    have simple : ¬ IsQualified (shards.flatMap (·.functions)) g.qualifiedName := by
      intro qualified
      exact other (kind_of_lists once exact (candidates_qualified qualified) member rfl).symm
    have lists := candidates_simple simple
    intro f inside
    refine ⟨fun named => simple ⟨parts, f, inside, named⟩, ?_, ?_⟩
    · exact kind_of_lists once lists exact inside
    · exact kind_of_lists once exact lists inside
  · rintro (plain | same)
    · exact candidates_dotted member parts plain
    · have simple : ¬ IsQualified (shards.flatMap (·.functions)) g.qualifiedName := by
        rintro ⟨-, f, inside, named⟩
        exact (same f inside).1 named
      exact (candidates_simple simple).congr fun f inside => (same f inside).2

end OwnName

/-- A function of a file, with the qualified name that the file gives it. -/
def drawing (file qualifiedName : String) : FunctionNode where
  id := FunctionNode.makeId file "draw" 1
  name := "draw"
  qualifiedName := qualifiedName
  file := file
  startLine := 1
  endLine := 9
  isEntryPoint := false
  isDataAccessor := false
  calls := []
  calledBy := []
  dataAccess := []

def drawings : List Shard :=
  [⟨"a.cc", [drawing "a.cc" "Icon.draw"]⟩, ⟨"b.cc", [drawing "b.cc" "ui::Widget.draw"]⟩]

theorem own_name_candidates_icon :
    drawing "a.cc" "Icon.draw" ∈ drawings.flatMap (·.functions) ∧
      Text.Cuts "Icon.draw".toList "draw".toList ∧
      ((drawings.flatMap (·.functions)).map (·.id)).Nodup ∧
      ListsNamesake drawings (drawing "a.cc" "Icon.draw")
        ((ofShards drawings).candidates "Icon.draw") := by
  have member : drawing "a.cc" "Icon.draw" ∈ drawings.flatMap (·.functions) :=
    List.mem_cons_self ..
  have separated : Text.Cuts "Icon.draw".toList "draw".toList :=
    ⟨"Icon".toList, ['.'], by decide, by decide⟩
  have once : ((drawings.flatMap (·.functions)).map (·.id)).Nodup := by decide
  have dotted : Text.IsDotted "Icon.draw" := by unfold Text.IsDotted; decide
  exact ⟨member, separated, once, ((own_name_candidates member separated).2 once).mpr (.inl dotted)⟩

/-- The name of the second function is looked up as another one, and then any `draw` will do. -/
theorem own_name_overlooked :
    drawing "b.cc" "ui::Widget.draw" ∈ drawings.flatMap (·.functions) ∧
      Text.Cuts "ui::Widget.draw".toList "draw".toList ∧
      ¬ ListsNamesake drawings (drawing "b.cc" "ui::Widget.draw")
        ((ofShards drawings).candidates "ui::Widget.draw") := by
  refine ⟨List.mem_cons_of_mem _ (List.mem_cons_self ..),
    ⟨"ui::Widget".toList, ['.'], by decide, by decide⟩, fun exact => ?_⟩
  have found : Candidate.ofFunction (drawing "a.cc" "Icon.draw") ∈
      (ofShards drawings).candidates "ui::Widget.draw" := by decide
  obtain ⟨f, inside, named, stands⟩ := (exact.mem _).mp found
  simp only [drawings, List.flatMap_cons, List.flatMap_nil, List.append_nil, List.cons_append,
    List.nil_append, List.mem_cons, List.not_mem_nil, or_false] at inside
  rcases inside with rfl | rfl
  · exact absurd named (by decide)
  · exact absurd stands (by decide)

end NameIndex

end DataReach
