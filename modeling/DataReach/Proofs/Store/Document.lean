import DataReach.Store
import Mathlib.Data.List.Forall2
/-!
What a shard reads as once it has been written. The confidences of its edges go through a numeral;
all else comes back as it was.
-/

namespace DataReach

/-- What an edge reads as; one whose confidence has no numeral cannot be read. -/
def CallEdge.reread? (e : CallEdge) : Option CallEdge :=
  (Json.float e.confidence).reread.float?.map fun c => { e with confidence := c }

def FunctionNode.reread? (f : FunctionNode) : Option FunctionNode :=
  (f.calls.mapM CallEdge.reread?).map fun calls => { f with calls }

def Shard.reread? (s : Shard) : Option Shard :=
  (s.functions.mapM FunctionNode.reread?).map fun functions => { s with functions }

namespace Json

theorem rereadItems_eq (items : List Json) : rereadItems items = items.map reread := by
  induction items with
  | nil => rfl
  | cons j rest ih => rw [rereadItems, ih, List.map_cons]

theorem soundItems_iff (budget : Nat) (items : List Json) :
    soundItems budget items = true ↔ ∀ j ∈ items, sound budget j = true := by
  induction items with
  | nil => simp [soundItems]
  | cons j rest ih => simp [soundItems, ih]

@[simp] theorem text?_str (s : String) : (str s).text? = some s := rfl

@[simp] theorem bool?_bool (b : Bool) : (bool b).bool? = some b := rfl

@[simp] theorem reread_str (s : String) : (str s).reread = str s := rfl

@[simp] theorem reread_bool (b : Bool) : (bool b).reread = bool b := rfl

@[simp] theorem reread_word (n : UInt32) : (word n).reread = word n := rfl

@[simp] theorem word?_word (n : UInt32) : (word n).word? = some n := by
  have bound : n.toNat < UInt32.size := n.toNat_lt_size
  simp [word, nat, word?, natBelow?, bound]

@[simp] theorem sound_str (budget : Nat) (s : String) : (str s).sound budget = true := rfl

@[simp] theorem sound_bool (budget : Nat) (b : Bool) : (bool b).sound budget = true := rfl

@[simp] theorem sound_word (budget : Nat) (n : UInt32) : (word n).sound budget = true := rfl

theorem list?_reread {α β : Type} (write : α → Json) (read : Json → Option β) (xs : List α) :
    (ofList write xs).reread.list? read = xs.mapM fun x => read (write x).reread := by
  rw [ofList, reread, rereadItems_eq, list?, List.map_map, List.mapM_map]
  rfl

theorem list?_reread_same {α : Type} {write : α → Json} {read : Json → Option α}
    (same : ∀ x, read (write x).reread = some x) (xs : List α) :
    (ofList write xs).reread.list? read = some xs := by
  rw [list?_reread]
  simp only [same]
  exact List.mapM_pure.trans (by simp)

theorem sound_ofList_reread {α : Type} {budget : Nat} {write : α → Json} {xs : List α}
    (items : ∀ x ∈ xs, (write x).reread.sound budget = true) :
    (ofList write xs).reread.sound (budget + 1) = true := by
  simp only [ofList, reread, sound, rereadItems_eq, Nat.add_sub_cancel, soundItems_iff,
    List.map_map, List.mem_map, Bool.and_eq_true]
  refine ⟨by simp, ?_⟩
  rintro j ⟨x, member, rfl⟩
  exact items x member

theorem keys_rereadMembers (members : List (String × Json)) :
    (rereadMembers members).map (·.1) = members.map (·.1) := by
  induction members with
  | nil => rfl
  | cons m rest ih => simp [rereadMembers, ih]

theorem record_reread {names : List String} {members : List (String × Json)}
    (same : members.map (·.1) = names) (once : names.Nodup) :
    (obj members).reread.record names = some (rereadMembers members) := by
  rw [← keys_rereadMembers] at same
  have all : (rereadMembers members).filter (fun m => names.contains m.1) =
      rereadMembers members := by
    apply List.filter_eq_self.mpr
    intro m inside
    rw [List.contains_iff_mem, ← same]
    exact List.mem_map_of_mem inside
  rw [reread, record]
  simp only [all]
  rw [same, if_pos once]

theorem sound_of_float? {budget : Nat} {j : Json} {x : Float} (found : j.float? = some x) :
    j.sound budget = true := by
  cases j <;> simp [float?] at found ⊢
  rfl

end Json

theorem Operation.ofDocument?_reread (o : Operation) :
    Operation.ofDocument? o.toJson.reread = some o := by
  cases o <;> rfl

theorem CallEdge.ofJson?_reread (e : CallEdge) : CallEdge.ofJson? e.toJson.reread = e.reread? := by
  cases numeral : (Json.float e.confidence).reread.float? <;> cases id : e.resolvedId <;>
    simp [toJson, ofJson?, Json.reread, Json.rereadMembers, Json.record, Json.member?, Record.need,
      Record.option, Json.nullable?, id, numeral, List.lookup_cons, reread?]

theorem CallerRef.ofJson?_reread (r : CallerRef) : CallerRef.ofJson? r.toJson.reread = some r := by
  simp [toJson, ofJson?, Json.reread, Json.rereadMembers, Json.record, Record.need, List.lookup_cons]

theorem DataAccess.readWith_reread (a : DataAccess) :
    DataAccess.readWith Operation.ofDocument? a.toJson.reread = some a := by
  have fields : (Json.strings a.fields).reread.strings? = some a.fields :=
    Json.list?_reread_same (fun _ => rfl) a.fields
  simp [toJson, readWith, Json.reread, Json.rereadMembers, Json.record, Record.need,
    Record.default, List.lookup_cons, Operation.ofDocument?_reread, fields]

theorem FunctionNode.readWith_reread (f : FunctionNode) :
    FunctionNode.readWith Operation.ofDocument? f.toJson.reread = f.reread? := by
  have record : f.toJson.reread.record ["id", "name", "qualified_name", "file", "start_line",
      "end_line", "is_entry_point", "is_data_accessor", "calls", "called_by", "data_access"] =
        some (Json.rereadMembers _) :=
    Json.record_reread rfl (by decide)
  rw [readWith, record]
  -- Member by member: unfolding the record in all its eleven places at once is slow.
  generalize made : Json.rereadMembers _ = r
  have id : Record.need r "id" Json.text? = some f.id := by
    rw [← made]
    rfl
  have name : Record.need r "name" Json.text? = some f.name := by
    rw [← made]
    rfl
  have qualified : Record.need r "qualified_name" Json.text? = some f.qualifiedName := by
    rw [← made]
    rfl
  have file : Record.need r "file" Json.text? = some f.file := by
    rw [← made]
    rfl
  have startLine : Record.need r "start_line" Json.word? = some f.startLine := by
    rw [← made]
    exact Json.word?_word f.startLine
  have endLine : Record.need r "end_line" Json.word? = some f.endLine := by
    rw [← made]
    exact Json.word?_word f.endLine
  have entryPoint : Record.need r "is_entry_point" Json.bool? = some f.isEntryPoint := by
    rw [← made]
    rfl
  have accessor : Record.need r "is_data_accessor" Json.bool? = some f.isDataAccessor := by
    rw [← made]
    rfl
  have calls : Record.need r "calls" (Json.list? CallEdge.ofJson?) =
      f.calls.mapM CallEdge.reread? := by
    have edges := Json.list?_reread CallEdge.toJson CallEdge.ofJson? f.calls
    simp only [CallEdge.ofJson?_reread] at edges
    rw [← made]
    exact edges
  have callers : Record.default r "called_by" (Json.list? CallerRef.ofJson?) [] =
      some f.calledBy := by
    rw [← made]
    exact Json.list?_reread_same CallerRef.ofJson?_reread f.calledBy
  have accesses : Record.default r "data_access"
      (Json.list? (DataAccess.readWith Operation.ofDocument?)) [] = some f.dataAccess := by
    rw [← made]
    exact Json.list?_reread_same DataAccess.readWith_reread f.dataAccess
  rw [Option.bind_eq_bind, Option.bind_some, id, name, qualified, file, startLine, endLine,
    entryPoint, accessor, calls, callers, accesses, reread?]
  cases f.calls.mapM CallEdge.reread? <;> rfl

theorem forall₂_of_mapM {α β : Type} {f : α → Option β} {xs : List α} {ys : List β}
    (made : xs.mapM f = some ys) : List.Forall₂ (fun x y => f x = some y) xs ys := by
  induction xs generalizing ys with
  | nil =>
    cases made
    exact .nil
  | cons x rest ih =>
    rw [List.mapM_cons] at made
    rcases Option.bind_eq_some_iff.mp made with ⟨y, first, others⟩
    rcases Option.bind_eq_some_iff.mp others with ⟨zs, later, last⟩
    cases last
    exact .cons first (ih later)

theorem exists_of_mapM {α β : Type} {f : α → Option β} {xs : List α} {ys : List β}
    (made : xs.mapM f = some ys) {x : α} (member : x ∈ xs) : ∃ y, f x = some y := by
  have related := forall₂_of_mapM made
  clear made
  induction related with
  | nil => cases member
  | cons own _ ih =>
    rcases List.mem_cons.mp member with rfl | later
    · exact ⟨_, own⟩
    · exact ih later

theorem mapM_some {α β : Type} {f : α → Option β} {xs : List α} (each : ∀ x ∈ xs, ∃ y, f x = some y) :
    ∃ ys, xs.mapM f = some ys := by
  induction xs with
  | nil => exact ⟨[], rfl⟩
  | cons x rest ih =>
    rcases each x (List.mem_cons_self ..) with ⟨y, here⟩
    rcases ih fun z later => each z (List.mem_cons_of_mem x later) with ⟨ys, others⟩
    exact ⟨y :: ys, by simp [List.mapM_cons, here, others]⟩

theorem CallEdge.sound_reread {e read : CallEdge} (found : e.reread? = some read) (budget : Nat) :
    e.toJson.reread.sound (budget + 1) = true := by
  rcases Option.map_eq_some_iff.mp found with ⟨x, numeral, -⟩
  have confidence := @Json.sound_of_float? budget _ _ numeral
  cases id : e.resolvedId <;>
    simp [toJson, Json.member?, id, Json.reread, Json.rereadMembers, Json.sound,
      Json.soundMembers, confidence]

theorem CallerRef.sound_reread (r : CallerRef) (budget : Nat) :
    r.toJson.reread.sound (budget + 1) = true := by
  simp [toJson, Json.reread, Json.rereadMembers, Json.sound, Json.soundMembers]

theorem DataAccess.sound_reread (a : DataAccess) (budget : Nat) :
    a.toJson.reread.sound (budget + 2) = true := by
  have fields : (Json.strings a.fields).reread.sound (budget + 1) = true :=
    Json.sound_ofList_reread fun _ _ => rfl
  simp [toJson, Operation.toJson, Json.reread, Json.rereadMembers, Json.sound, Json.soundMembers,
    fields]

theorem FunctionNode.sound_reread {f read : FunctionNode} (found : f.reread? = some read)
    (budget : Nat) : f.toJson.reread.sound (budget + 4) = true := by
  rcases Option.map_eq_some_iff.mp found with ⟨edges, made, -⟩
  have calls : (Json.ofList CallEdge.toJson f.calls).reread.sound (budget + 3) = true := by
    refine Json.sound_ofList_reread fun e member => ?_
    rcases exists_of_mapM made member with ⟨e', one⟩
    exact CallEdge.sound_reread one (budget + 1)
  have callers : (Json.ofList CallerRef.toJson f.calledBy).reread.sound (budget + 3) = true :=
    Json.sound_ofList_reread fun r _ => r.sound_reread (budget + 1)
  have accesses : (Json.ofList DataAccess.toJson f.dataAccess).reread.sound (budget + 3) = true :=
    Json.sound_ofList_reread fun a _ => a.sound_reread budget
  simp [toJson, Json.reread, Json.rereadMembers, Json.sound, Json.soundMembers, calls, callers,
    accesses]

namespace Store

theorem sound_shardDocument {shard read : Shard} (found : shard.reread? = some read) :
    (shardDocument shard).reread.sound Json.maxNesting = true := by
  rcases Option.map_eq_some_iff.mp found with ⟨functions, made, -⟩
  have parts : (Json.ofList FunctionNode.toJson shard.functions).reread.sound 126 = true := by
    refine Json.sound_ofList_reread fun f member => ?_
    rcases exists_of_mapM made member with ⟨f', one⟩
    exact FunctionNode.sound_reread one 121
  simp [shardDocument, Shard.toJson, Json.maxNesting, Json.reread, Json.rereadMembers, Json.sound,
    Json.soundMembers, parts]

theorem readWith_reread {shard : Shard} {r : Record}
    (made : Json.rereadMembers [("version", .str formatVersion), ("file", .str shard.file),
      ("functions", .ofList FunctionNode.toJson shard.functions)] = r) :
    Shard.readWith Operation.ofDocument? r = shard.reread? := by
  have file : Record.need r "file" Json.text? = some shard.file := by
    rw [← made]
    rfl
  have functions : Record.need r "functions"
      (Json.list? (FunctionNode.readWith Operation.ofDocument?)) =
        shard.functions.mapM FunctionNode.reread? := by
    have nodes := Json.list?_reread FunctionNode.toJson
      (FunctionNode.readWith Operation.ofDocument?) shard.functions
    simp only [FunctionNode.readWith_reread] at nodes
    rw [← made]
    exact nodes
  rw [Shard.readWith, file, functions, Shard.reread?]
  cases shard.functions.mapM FunctionNode.reread? <;> rfl

theorem shardOfDocument?_reread (shard : Shard) :
    shardOfDocument? (shardDocument shard).reread = shard.reread? := by
  have record : (shardDocument shard).reread.record ["version", "file", "functions"] =
      some (Json.rereadMembers _) :=
    Json.record_reread rfl (by decide)
  have inner : ((shardDocument shard).reread.record ["version", "file", "functions"] >>= fun r =>
      r.need "version" Json.text? >>= fun version => guard (version == formatVersion) >>= fun _ =>
        Shard.readWith Operation.ofDocument? r) = shard.reread? := by
    rw [record]
    exact readWith_reread rfl
  calc
    shardOfDocument? (shardDocument shard).reread =
        (guard ((shardDocument shard).reread.sound Json.maxNesting) >>= fun _ => shard.reread?) := by
      rw [← inner]
      rfl
    _ = shard.reread? := by
      cases found : shard.reread? with
      | none => exact Option.bind_fun_none _
      | some read =>
        rw [sound_shardDocument found]
        rfl

end Store

end DataReach
