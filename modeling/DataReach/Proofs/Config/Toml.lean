import DataReach.Config.Toml
import DataReach.Proofs.SortedMap
import DataReach.Proofs.Toml.Document
/-!
Settings written and read again. Between the text and the settings stand the tables of the text: the
text is read as the tables, whatever its strings are, and the tables as the settings.
-/

namespace DataReach

namespace Toml

/-! ### Members for settings -/

section Member

variable {α : Type} {name : String} {toml : α → Toml} {value : Option α}

def member? (name : String) (toml : α → Toml) (value : Option α) : Members :=
  (value.map fun v => (name, toml v)).toList

theorem keys_member? : (Dict.keys (member? name toml value)).Sublist [name] := by
  cases value with
  | none => exact List.nil_sublist _
  | some v => exact List.Sublist.refl _

theorem lookup_member? (k : String) :
    (member? name toml value).lookup k = if k = name then value.map toml else none := by
  cases value with
  | none => simp [member?]
  | some v => exact Dict.get?_cons name (toml v) [] k

theorem written_pair? {render : α → List Char} (reads : ∀ v ∈ value, Reads (render v) (toml v)) :
    List.Forall₂ Written (Config.pair? name render value) (member? name toml value) := by
  cases value with
  | none => exact .nil
  | some v => exact .cons ⟨_, rfl, reads v rfl⟩ .nil

theorem option_member {ms : Members} {f : Toml → Option α} (held : ms.lookup name = value.map toml)
    (read : ∀ v ∈ value, f (toml v) = some v) : ms.option name f = some value := by
  rw [Members.option, held]
  cases value with
  | none => rfl
  | some v =>
    change (f (toml v)).map some = some (some v)
    rw [read v rfl, Option.map_some]

end Member

section Default

variable {α : Type} (name : String) (t : Toml) (ms : Members) (f : Toml → Option α) (value : α)

theorem default_here : Members.default ((name, t) :: ms) name f value = f t := by
  rw [Members.default, List.lookup_cons_self]

theorem default_later {other : String} (differs : name ≠ other) :
    Members.default ((other, t) :: ms) name f value = ms.default name f value := by
  rw [Members.default, List.lookup_cons, beq_false_of_ne differs, Members.default]

end Default

def natural (n : Nat) : Toml := .integer n

theorem natBelow?_natural {n bound : Nat} (below : n < bound) :
    natBelow? bound (natural n) = some n := by
  rw [natural, natBelow?, if_pos ⟨Int.natCast_nonneg n, Int.ofNat_lt.mpr below⟩]
  rfl

theorem written_number {name : String} {value : Option Nat} (small : ∀ n ∈ value, n < 1 <<< 63) :
    List.Forall₂ Written (Config.pair? name renderNat value) (member? name natural value) :=
  written_pair? fun n set => reads_renderNat (small n set)

/-! ### Members for the entries of a map -/

section Entries

variable {α : Type} {toml : α → Toml}

theorem written_entries {render : α → List Char} (reads : ∀ v, Reads (render v) (toml v))
    (es : List (String × α)) :
    List.Forall₂ Written (es.map fun e => renderPair e.1 (render e.2))
      (es.map fun e => (e.1, toml e.2)) := by
  induction es with
  | nil => exact .nil
  | cons e es ih => exact .cons ⟨_, rfl, reads e.2⟩ ih

theorem mapM_inverse {β : Type} {f : β → Option α} {g : α → β} (read : ∀ x, f (g x) = some x)
    (xs : List α) : (xs.map g).mapM f = some xs := by
  induction xs with
  | nil => rfl
  | cons x xs ih => simp [List.mapM_cons, read, ih]

theorem map?_entries {f : Toml → Option α} (read : ∀ v, f (toml v) = some v) (kind : TableKind)
    (m : SortedMap α) :
    map? f (.table kind (m.entries.map fun e => (e.1, toml e.2))) = some m := by
  have all : (m.entries.map fun e => (e.1, toml e.2)).mapM (fun m => (f m.2).map (m.1, ·)) =
      some m.entries :=
    mapM_inverse (fun e => by rw [read, Option.map_some]) m.entries
  rw [map?, entries?]
  simp only [Option.bind_eq_bind, Option.bind_some, all]
  rw [SortedMap.ofList, SortedMap.insertAll_empty]
  rfl

theorem texts?_array (items : List String) : texts? (.array (items.map .string)) = some items :=
  mapM_inverse (f := text?) (g := .string) (fun _ => rfl) items

end Entries

end Toml

open Toml (Members TableKind Reads Written Advances member? natural option_member lookup_member?
  keys_member? written_pair? written_number)

/-! ### The tables of settings -/

namespace BuildConfig

variable {c : BuildConfig}

def members (c : BuildConfig) : Members :=
  member? "resolution_batch_size" natural c.batchSize ++ member? "threads" natural c.threads ++
    member? "cache_capacity" natural c.cacheCapacity ++ member? "storage_dir" .string c.storageDir

def integers (c : BuildConfig) : List Nat :=
  c.batchSize.toList ++ c.threads.toList ++ c.cacheCapacity.toList

theorem members_once (c : BuildConfig) : (Dict.keys c.members).Nodup := by
  have names : (Dict.keys c.members).Sublist
      ["resolution_batch_size", "threads", "cache_capacity", "storage_dir"] := by
    simp only [members, Dict.keys, List.map_append]
    exact ((keys_member?.append keys_member?).append keys_member?).append keys_member?
  exact names.nodup (by decide)

theorem written (small : ∀ n ∈ c.integers, n < 1 <<< 63) :
    List.Forall₂ Written
      (Config.pair? "resolution_batch_size" Toml.renderNat c.batchSize ++
        Config.pair? "threads" Toml.renderNat c.threads ++
        Config.pair? "cache_capacity" Toml.renderNat c.cacheCapacity ++
        Config.pair? "storage_dir" Toml.renderText c.storageDir) c.members := by
  simp only [integers, List.forall_mem_append, Option.mem_toList] at small
  obtain ⟨⟨batchSize, threads⟩, capacity⟩ := small
  have storageDir : List.Forall₂ Written
      (Config.pair? "storage_dir" Toml.renderText c.storageDir)
      (member? "storage_dir" .string c.storageDir) :=
    written_pair? fun s _ => Toml.reads_renderText s
  exact List.rel_append (List.rel_append (List.rel_append (written_number batchSize)
    (written_number threads)) (written_number capacity)) storageDir

theorem lookup_members (c : BuildConfig) :
    c.members.lookup "resolution_batch_size" = c.batchSize.map natural ∧
      c.members.lookup "threads" = c.threads.map natural ∧
      c.members.lookup "cache_capacity" = c.cacheCapacity.map natural ∧
      c.members.lookup "storage_dir" = c.storageDir.map .string := by
  simp [members, List.lookup_append, lookup_member?]

theorem ofToml?_members (kind : TableKind) (below : ∀ n ∈ c.integers, n < UInt64.size) :
    ofToml? (.table kind c.members) = some c := by
  simp only [integers, List.forall_mem_append, Option.mem_toList] at below
  obtain ⟨⟨batchSize, threads⟩, capacity⟩ := below
  obtain ⟨batchSize', threads', capacity', storageDir'⟩ := c.lookup_members
  have readBatchSize := option_member batchSize' fun n set =>
    Toml.natBelow?_natural (batchSize n set)
  have readThreads := option_member threads' fun n set => Toml.natBelow?_natural (threads n set)
  have readCapacity := option_member capacity' fun n set => Toml.natBelow?_natural (capacity n set)
  have readStorageDir := option_member (f := Toml.text?) storageDir' fun _ _ => rfl
  simp [ofToml?, Toml.record, Toml.entries?, readBatchSize, readThreads, readCapacity,
    readStorageDir]

end BuildConfig

namespace AnalysisConfig

variable {c : AnalysisConfig}

def members (c : AnalysisConfig) : Members :=
  member? "max_depth" natural c.maxDepth ++ member? "top_n" natural c.topN

def integers (c : AnalysisConfig) : List Nat := c.maxDepth.toList ++ c.topN.toList

theorem members_once (c : AnalysisConfig) : (Dict.keys c.members).Nodup := by
  have names : (Dict.keys c.members).Sublist ["max_depth", "top_n"] := by
    simp only [members, Dict.keys, List.map_append]
    exact keys_member?.append keys_member?
  exact names.nodup (by decide)

theorem written (small : ∀ n ∈ c.integers, n < 1 <<< 63) :
    List.Forall₂ Written (Config.pair? "max_depth" Toml.renderNat c.maxDepth ++
      Config.pair? "top_n" Toml.renderNat c.topN) c.members := by
  simp only [integers, List.forall_mem_append, Option.mem_toList] at small
  exact List.rel_append (written_number small.1) (written_number small.2)

theorem ofToml?_members (kind : TableKind) (depth : ∀ n ∈ c.maxDepth, n < UInt32.size)
    (below : ∀ n ∈ c.integers, n < UInt64.size) : ofToml? (.table kind c.members) = some c := by
  simp only [integers, List.forall_mem_append, Option.mem_toList] at below
  have lookups : c.members.lookup "max_depth" = c.maxDepth.map natural ∧
      c.members.lookup "top_n" = c.topN.map natural := by
    simp [members, List.lookup_append, lookup_member?]
  have readMaxDepth := option_member lookups.1 fun n set => Toml.natBelow?_natural (depth n set)
  have readTopN := option_member lookups.2 fun n set => Toml.natBelow?_natural (below.2 n set)
  simp [ofToml?, Toml.record, Toml.entries?, readMaxDepth, readTopN]

end AnalysisConfig

namespace ScoringConfig

def classMembers (c : ScoringConfig) : Members :=
  c.sensitivity.entries.map fun e => (e.1, .string e.2)

def regulationMembers (c : ScoringConfig) : Members :=
  c.regulation.entries.map fun e => (e.1, .array (e.2.map .string))

theorem classMembers_once (c : ScoringConfig) : (Dict.keys c.classMembers).Nodup := by
  rw [Dict.keys, classMembers, List.map_map]
  exact c.sensitivity.keys_once

theorem regulationMembers_once (c : ScoringConfig) : (Dict.keys c.regulationMembers).Nodup := by
  rw [Dict.keys, regulationMembers, List.map_map]
  exact c.regulation.keys_once

theorem ofToml?_members (c : ScoringConfig) (kind inner inner' : TableKind) :
    ofToml? (.table kind [("sensitivity_overrides", .table inner c.classMembers),
      ("regulation_overrides", .table inner' c.regulationMembers)]) = some c := by
  have text : ∀ s, Toml.text? (.string s) = some s := fun _ => rfl
  have sensitivity := Toml.map?_entries text inner c.sensitivity
  have regulation := Toml.map?_entries Toml.texts?_array inner' c.regulation
  simp [ofToml?, Toml.record, Toml.entries?, Toml.default_here, Toml.default_later, classMembers,
    regulationMembers, sensitivity, regulation]

end ScoringConfig

namespace Config

variable {c : Config}

def members (c : Config) : Members := [
  ("build", .table .header c.build.members),
  ("analysis", .table .header c.analysis.members),
  ("scoring", .table .implied [
    ("sensitivity_overrides", .table .header c.scoring.classMembers),
    ("regulation_overrides", .table .header c.scoring.regulationMembers)])]

def integers (c : Config) : List Nat := c.build.integers ++ c.analysis.integers

theorem ofToml?_members (kind : TableKind) (depth : ∀ n ∈ c.analysis.maxDepth, n < UInt32.size)
    (below : ∀ n ∈ c.integers, n < UInt64.size) : ofToml? (.table kind c.members) = some c := by
  obtain ⟨buildBelow, analysisBelow⟩ := List.forall_mem_append.mp below
  have build := c.build.ofToml?_members .header buildBelow
  have analysis := c.analysis.ofToml?_members .header depth analysisBelow
  have scoring := c.scoring.ofToml?_members .implied .header .header
  simp [ofToml?, Toml.record, Toml.entries?, Toml.default_here, Toml.default_later, members, build,
    analysis, scoring]

/-! ### The text of settings -/

theorem advances_sections (small : ∀ n ∈ c.integers, n < 1 <<< 63) :
    Advances .start (['\n'].intercalate c.sections)
      ⟨c.members, ["scoring", "regulation_overrides"]⟩ := by
  obtain ⟨buildSmall, analysisSmall⟩ := List.forall_mem_append.mp small
  let build := ("build", Toml.table .header c.build.members)
  let analysis := ("analysis", Toml.table .header c.analysis.members)
  let classes := ("sensitivity_overrides", Toml.table .header c.scoring.classMembers)
  have first : Advances .start _ ⟨[build], ["build"]⟩ :=
    Toml.advances_table ⟨by decide, by decide⟩ (c.build.written buildSmall) c.build.members_once
      List.not_mem_nil
  have second : Advances ⟨[build], ["build"]⟩ _ ⟨[build, analysis], ["analysis"]⟩ :=
    Toml.advances_table ⟨by decide, by decide⟩ (c.analysis.written analysisSmall)
      c.analysis.members_once (by simp [Dict.keys, build])
  have third : Advances ⟨[build, analysis], ["analysis"]⟩ _
      ⟨[build, analysis, ("scoring", .table .implied [classes])],
        ["scoring", "sensitivity_overrides"]⟩ :=
    Toml.advances_first ⟨by decide, by decide⟩
      (Toml.written_entries Toml.reads_renderText c.scoring.sensitivity.entries)
      c.scoring.classMembers_once ⟨by decide, by decide⟩ (by simp [Dict.keys, build, analysis])
  have fourth : Advances ⟨[build, analysis] ++ [("scoring", .table .implied [classes])],
      ["scoring", "sensitivity_overrides"]⟩ _ ⟨c.members, ["scoring", "regulation_overrides"]⟩ :=
    Toml.advances_next ⟨by decide, by decide⟩
      (Toml.written_entries Toml.reads_renderArray c.scoring.regulation.entries)
      c.scoring.regulationMembers_once ⟨by decide, by decide⟩
      (by simp [Dict.keys, build, analysis]) (by simp [Dict.keys, classes])
  have blank := Toml.advances_blank
  rw [sections, List.intercalate_cons_cons, List.intercalate_cons_cons,
    List.intercalate_cons_cons, List.intercalate_singleton]
  exact (first.append (blank _)).append ((second.append (blank _)).append
    ((third.append (blank _)).append fourth))

theorem parse_sections (small : ∀ n ∈ c.integers, n < 1 <<< 63) :
    Toml.parse (String.ofList (['\n'].intercalate c.sections)) =
      some (.table .header c.members) := by
  refine Toml.parse_advances (advances_sections small) ?_
  simp [sections, List.intercalate, Toml.renderSection]

theorem writable_iff : c.writable = true ↔ ∀ n ∈ c.integers, n ≤ maxInteger := by
  have each : ∀ value : Option Nat,
      value.all (· ≤ maxInteger) = true ↔ ∀ n ∈ value.toList, n ≤ maxInteger := by
    intro value
    cases value <;> simp
  simp only [writable, integers, BuildConfig.integers, AnalysisConfig.integers, List.all_cons,
    List.all_nil, Bool.and_eq_true, each, List.forall_mem_append, and_assoc, and_true]

theorem toToml_ok {text : String} :
    c.toToml = .ok text ↔
      c.writable = true ∧ text = String.ofList (['\n'].intercalate c.sections) := by
  rw [toToml]
  cases c.writable with
  | true => simp [eq_comm]
  | false => simp

theorem readToml_sections (path : String) (depth : ∀ n ∈ c.analysis.maxDepth, n < UInt32.size)
    (small : ∀ n ∈ c.integers, n < 1 <<< 63) :
    readToml path (String.ofList (['\n'].intercalate c.sections)) = .ok c := by
  have below : ∀ n ∈ c.integers, n < UInt64.size := fun n member =>
    Nat.lt_trans (small n member) (by decide)
  rw [readToml, parse_sections small, Option.bind_some, ofToml?_members .header depth below]

/-- Settings can be written unless a number is too great for TOML, and valid ones that have been
written are read again, with nothing set that was not. The depth is a number of 32 bits. -/
theorem parse_toToml (c : Config) (depth : ∀ n ∈ c.analysis.maxDepth, n < UInt32.size) :
    ((∃ text, c.toToml = .ok text) ↔ ∀ n ∈ c.integers, n ≤ (1 <<< 63) - 1) ∧
      ∀ text, c.toToml = .ok text → c.validate = .ok () → parse text = .ok c := by
  constructor
  · calc (∃ text, c.toToml = .ok text)
      _ ↔ c.writable = true := by simp only [toToml_ok, exists_and_left, exists_eq, and_true]
      _ ↔ ∀ n ∈ c.integers, n ≤ (1 <<< 63) - 1 := writable_iff
  · intro text written valid
    obtain ⟨writable, rfl⟩ := toToml_ok.mp written
    -- what TOML can hold is below every bound that the reader checks, but for the depth
    have small : ∀ n ∈ c.integers, n < 1 <<< 63 := fun n member =>
      Nat.lt_of_le_of_lt (writable_iff.mp writable n member) (by decide)
    have read := readToml_sections "<string>" depth small
    rw [parse, read]
    change (do c.validate; return c) = Except.ok c
    rw [valid]
    rfl

def awkward : Config where
  build := {
    batchSize := some ((1 <<< 63) - 1)
    storageDir := some "C:\\shards\n'''\"\"\"\x01" }
  analysis := { maxDepth := some 3 }
  scoring := {
    sensitivity := ⟨[("", "health"), ("a.b\n", " PII"), ("it's \"ü\"", "unknown")], by decide⟩
    regulation :=
      ⟨[("Financial", []), ("health", ["GDPR", "hipaa"]), ("pii\t", ["SOX"])], by decide⟩ }

theorem parse_toToml_awkward : ∃ text, awkward.toToml = .ok text ∧ parse text = .ok awkward := by
  have result := parse_toToml awkward (by rintro n ⟨⟩; decide)
  obtain ⟨text, written⟩ := result.1.mpr (by decide)
  exact ⟨text, written, result.2 text written (by decide)⟩

end Config

end DataReach
