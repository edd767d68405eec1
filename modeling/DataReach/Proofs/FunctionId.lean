import DataReach.Callers
import DataReach.Extraction.Shard
import DataReach.Resolution
import Mathlib.Data.Set.Function
/-!
Ids of functions. An id leads back to its file unless the name in it has a colon; then it leads to a
longer path. Functions whose names have no colons share no id. The functions of a shard that was
extracted have the ids of their places.
-/

namespace DataReach

namespace FunctionNode

theorem beforeColon_append {front : List Char} (plain : ':' ∉ front) (rest : List Char) :
    beforeColon (front ++ ':' :: rest) = some rest := by
  have skipped : (front ++ ':' :: rest).dropWhile (· != ':') = ':' :: rest := by
    rw [List.dropWhile_append_of_pos]
    · rfl
    · intro c member
      have other : c ≠ ':' := fun same => plain (same ▸ member)
      simpa using other
  rw [beforeColon, skipped]

theorem plain_repr (n : Nat) : ':' ∉ (Nat.repr n).toList := by
  intro member
  rw [Nat.toList_repr] at member
  have digit := Nat.isDigit_of_mem_toDigits (by decide) (by decide) member
  exact absurd digit (by decide)

theorem repr_inj {m n : Nat} (same : Nat.repr m = Nat.repr n) : m = n := by
  have digits := congrArg String.toList same
  rw [Nat.toList_repr, Nat.toList_repr] at digits
  rw [← Nat.ofDigitChars_ten_toDigits (n := m), digits, Nat.ofDigitChars_ten_toDigits]

/-- The last colon of an id stands before the line, so equal ids have equal lines, and what stands
before these is equal as a whole. -/
theorem makeId_cut {file name file' name' : String} {line line' : UInt32}
    (same : makeId file name line = makeId file' name' line') :
    file ++ ":" ++ name = file' ++ ":" ++ name' ∧ line = line' := by
  have reversed : ∀ (front : String) (l : UInt32),
      beforeColon (front ++ ":" ++ Nat.repr l.toNat).toList.reverse =
        some front.toList.reverse := by
    intro front l
    have digits : ':' ∉ (Nat.repr l.toNat).toList.reverse := by simpa using plain_repr l.toNat
    have whole : (front ++ ":" ++ Nat.repr l.toNat).toList.reverse =
        (Nat.repr l.toNat).toList.reverse ++ ':' :: front.toList.reverse := by simp
    rw [whole, beforeColon_append digits]
  have fronts := reversed (file ++ ":" ++ name) line
  rw [← makeId, same, makeId, reversed, Option.some.injEq] at fronts
  have front : file ++ ":" ++ name = file' ++ ":" ++ name' := by
    rw [← String.toList_inj, ← List.reverse_inj, fronts]
  refine ⟨front, ?_⟩
  rw [makeId, makeId, front] at same
  have lines := (String.append_right_inj _).mp same
  exact UInt32.toNat_inj.mp (repr_inj lines)

theorem makeId_inj {file name name' : String} {line line' : UInt32} :
    makeId file name line = makeId file name' line' ↔ name = name' ∧ line = line' := by
  constructor
  · intro same
    obtain ⟨front, lines⟩ := makeId_cut same
    exact ⟨(String.append_right_inj _).mp front, lines⟩
  · rintro ⟨rfl, rfl⟩
    rfl

theorem fileOfId_append (front : String) {last : String} (plain : ':' ∉ last.toList)
    (line : UInt32) :
    fileOfId (makeId front last line) = if front = "" then none else some front := by
  have reversed : (makeId front last line).toList.reverse =
      (Nat.repr line.toNat).toList.reverse ++
        ':' :: (last.toList.reverse ++ ':' :: front.toList.reverse) := by
    simp [makeId]
  have digits : ':' ∉ (Nat.repr line.toNat).toList.reverse := by
    simpa using plain_repr line.toNat
  have name : ':' ∉ last.toList.reverse := by simpa using plain
  rw [fileOfId, reversed, beforeColon_append digits, Option.bind_eq_bind, Option.bind_some,
    beforeColon_append name, Option.bind_some]
  by_cases none : front = ""
  · simp [none]
  · simp [none]

theorem fileOfId_makeId {file name : String} (some : file ≠ "") (plain : ':' ∉ name.toList)
    (line : UInt32) : fileOfId (makeId file name line) = Option.some file := by
  rw [fileOfId_append file plain, if_neg some]

theorem fileOfId_colon {name : String} (colon : ':' ∈ name.toList) (file : String)
    (line : UInt32) : ∃ front, fileOfId (makeId file name line) = some (file ++ ":" ++ front) := by
  -- The last colon of the name is the first one from its end.
  have split : ∃ front last : List Char, name.toList = front ++ ':' :: last ∧ ':' ∉ last := by
    rcases List.eq_append_cons_of_mem (List.mem_reverse.mpr colon) with ⟨last, front, whole, plain⟩
    refine ⟨front.reverse, last.reverse, ?_, by simpa using plain⟩
    rw [← List.reverse_reverse name.toList, whole]
    simp
  rcases split with ⟨front, last, whole, plain⟩
  have parts : makeId file name line =
      makeId (file ++ ":" ++ String.ofList front) (String.ofList last) line := by
    apply String.toList_inj.mp
    simp [makeId, whole]
  have longer : file ++ ":" ++ String.ofList front ≠ "" := by
    intro none
    have chars := congrArg String.toList none
    simp at chars
  refine ⟨String.ofList front, ?_⟩
  rw [parts, fileOfId_makeId longer]
  simpa using plain

theorem fileOfId_makeId_iff {file name : String} {line : UInt32} :
    fileOfId (makeId file name line) = some file ↔ file ≠ "" ∧ ':' ∉ name.toList := by
  by_cases colon : ':' ∈ name.toList
  · obtain ⟨front, found⟩ := fileOfId_colon colon file line
    have longer : file ++ ":" ++ front ≠ file := by
      intro same
      have lengths := congrArg String.length same
      have one : ":".length = 1 := rfl
      simp only [String.length_append] at lengths
      omega
    simp [found, longer, colon]
  · rw [fileOfId_append file colon]
    by_cases none : file = "" <;> simp [none, colon]

/-- Among names without colons an id says which place it is of, however many the files have. -/
theorem place_of_makeId {file file' name name' : String} {line line' : UInt32}
    (plain : ':' ∉ name.toList) (plain' : ':' ∉ name'.toList)
    (same : makeId file name line = makeId file' name' line') :
    file = file' ∧ name = name' ∧ line = line' := by
  have files : file = file' := by
    have found := congrArg fileOfId same
    rw [fileOfId_append file plain, fileOfId_append file' plain'] at found
    by_cases none : file = "" <;> by_cases none' : file' = "" <;> simp_all
  subst files
  exact ⟨rfl, makeId_inj.mp same⟩

/-- Which ids lead back to their files, and among which places no id stands for two. -/
theorem id_round_trip :
    (∀ (file name : String) (line : UInt32),
      fileOfId (makeId file name line) = some file ↔ file ≠ "" ∧ ':' ∉ name.toList) ∧
    Set.InjOn (fun place : String × String × UInt32 => makeId place.1 place.2.1 place.2.2)
      {place | ':' ∉ place.2.1.toList} := by
  refine ⟨fun file name line => fileOfId_makeId_iff, ?_⟩
  intro place plain place' plain' same
  obtain ⟨files, names, lines⟩ := place_of_makeId plain plain' same
  exact Prod.ext files (Prod.ext names lines)

/-- A colon can stand on either side. -/
example : makeId "a" "b:c" 1 = makeId "a:b" "c" 1 := by decide

end FunctionNode

/-! ### Functions in their places -/

/-- The functions of a shard belong to its file and have the ids of their places, each once. -/
structure Shard.Placed (s : Shard) : Prop where
  file : ∀ f ∈ s.functions, f.file = s.file
  id : ∀ f ∈ s.functions, f.id = FunctionNode.makeId s.file f.name f.startLine
  once : (s.functions.map (·.id)).Nodup

namespace Shard

variable {s : Shard}

theorem function?_of_placed (placed : s.Placed) {f : FunctionNode} (member : f ∈ s.functions) :
    s.function? f.id = some f :=
  find?_of_nodup_keys placed.once member

theorem placed_map (placed : s.Placed) {change : FunctionNode → FunctionNode}
    (same : ∀ f, (change f).id = f.id ∧ (change f).file = f.file ∧ (change f).name = f.name ∧
      (change f).startLine = f.startLine) :
    Placed { s with functions := s.functions.map change } := by
  refine ⟨fun f' member => ?_, fun f' member => ?_, ?_⟩
  · rcases List.mem_map.mp member with ⟨f, own, rfl⟩
    rw [(same f).2.1, placed.file f own]
  · rcases List.mem_map.mp member with ⟨f, own, rfl⟩
    rw [(same f).1, (same f).2.2.1, (same f).2.2.2, placed.id f own]
  · have ids : (s.functions.map change).map (·.id) = s.functions.map (·.id) := by
      rw [List.map_map]
      exact List.map_congr_left fun f _ => (same f).1
    rw [ids]
    exact placed.once

theorem placed_resolve (placed : s.Placed) (index : NameIndex) : (s.resolve index).Placed :=
  placed_map placed fun _ => ⟨rfl, rfl, rfl, rfl⟩

theorem placed_withCallers (placed : s.Placed) (m : CallerMap) : (s.withCallers m).Placed :=
  placed_map placed fun _ => ⟨rfl, rfl, rfl, rfl⟩

end Shard

theorem Extraction.placed_shard (file : String) (e : Extraction)
    (accesses : List ExtractedAccess) : (e.shard file accesses).Placed := by
  have node : ∀ f ∈ nodes file e,
      f.file = file ∧ f.id = FunctionNode.makeId file f.name f.startLine := by
    intro f member
    have extracted := (distinctBy_sublist _ _).subset (List.mem_mergeSort.mp member)
    rcases List.mem_map.mp extracted with ⟨x, -, rfl⟩
    exact ⟨rfl, rfl⟩
  have attached : ∀ f' ∈ (e.shard file accesses).functions, ∃ f ∈ nodes file e,
      f'.id = f.id ∧ f'.file = f.file ∧ f'.name = f.name ∧ f'.startLine = f.startLine := by
    intro f' member
    rcases List.mem_map.mp member with ⟨⟨f, i⟩, own, rfl⟩
    exact ⟨f, List.fst_mem_of_mem_zipIdx own, rfl, rfl, rfl, rfl⟩
  refine ⟨fun f' member => ?_, fun f' member => ?_, ?_⟩
  · rcases attached f' member with ⟨f, own, -, same, -⟩
    exact same.trans (node f own).1
  · rcases attached f' member with ⟨f, own, id, -, name, line⟩
    rw [id, name, line]
    exact (node f own).2
  · have ids : (e.shard file accesses).functions.map (·.id) = (nodes file e).map (·.id) := by
      rw [shard, List.map_map]
      have all : ∀ (fs : List FunctionNode) i, (fs.zipIdx i).map ((·.id) ∘ fun entry =>
          attach (nodes file e) e.calls accesses entry.1 entry.2) = fs.map (·.id) := by
        intro fs
        induction fs with
        | nil => exact fun _ => rfl
        | cons f rest ih => exact fun i => congrArg (f.id :: ·) (ih (i + 1))
      exact all _ 0
    rw [ids]
    have once := nodup_keys_distinctBy FunctionNode.id (e.functions.map (·.toNode file e.classes))
    exact ((List.mergeSort_perm _ byPosition).map FunctionNode.id).nodup_iff.mpr once

end DataReach
