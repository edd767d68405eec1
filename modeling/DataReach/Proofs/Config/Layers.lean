import DataReach.Config.Load
import DataReach.Proofs.Config.Valid
/-!
Settings in layers. Each setting is that of the highest layer that has it, whatever the layers below
it say; a fault in a file is told before any in the settings, and these are checked only when all
layers are in place.
-/

namespace DataReach

/-! ### Blanks around a text -/

namespace Text

theorem dropWhile_middle {α : Type} {p : α → Bool} {front core : List α} (back : List α)
    (skipped : ∀ c ∈ front, p c = true) (kept : ∀ c ∈ core, p c = false) (some : core ≠ []) :
    (front ++ (core ++ back)).dropWhile p = core ++ back := by
  obtain ⟨c, rest, rfl⟩ := List.exists_cons_of_ne_nil some
  have first : ¬ p c = true := by simp [kept c (List.mem_cons_self ..)]
  rw [List.dropWhile_append_of_pos skipped, List.cons_append, List.dropWhile_cons_of_neg first]

theorem trimList_middle {front core back : List Char} (blanks : ∀ c ∈ front ++ back, isBlank c = true)
    (solid : ∀ c ∈ core, isBlank c = false) (some : core ≠ []) :
    trimList (front ++ (core ++ back)) = core := by
  obtain ⟨before, after⟩ := List.forall_mem_append.mp blanks
  have reversed : (core ++ back).reverse = back.reverse ++ (core.reverse ++ []) := by simp
  rw [trimList, dropWhile_middle back before solid some, reversed, dropWhile_middle]
  · simp
  · simpa using after
  · simpa using solid
  · simpa using some

theorem trimList_parts (cs : List Char) : ∃ front back,
    cs = front ++ (trimList cs ++ back) ∧ ∀ c ∈ front ++ back, isBlank c = true := by
  let rest := (cs.dropWhile isBlank).reverse
  refine ⟨cs.takeWhile isBlank, (rest.takeWhile isBlank).reverse, ?_, ?_⟩
  · have parts : (rest.takeWhile isBlank ++ rest.dropWhile isBlank).reverse =
        cs.dropWhile isBlank := by
      rw [List.takeWhile_append_dropWhile, List.reverse_reverse]
    rw [List.reverse_append] at parts
    rw [trimList, parts, List.takeWhile_append_dropWhile]
  · intro c member
    rcases List.mem_append.mp member with before | after
    · exact List.mem_takeWhile_imp before
    · exact List.mem_takeWhile_imp (List.mem_reverse.mp after)

theorem isBlank_digit {c : Char} (digit : c.isDigit = true) : isBlank c = false := by
  simp only [Char.isDigit, Char.reduceVal, ge_iff_le, UInt32.le_iff_toNat_le, UInt32.reduceToNat,
    Bool.and_eq_true, decide_eq_true_eq] at digit
  have number : c.toNat = c.val.toNat := rfl
  simp only [isBlank, number]
  simp
  omega

end Text

namespace Config

/-! ### Numbers of the environment -/

/-- A text stands for a number below a bound: digits, perhaps a plus before them, and blanks around
them. -/
inductive Denotes (bound : Nat) (text : String) : Nat → Prop where
  | digits {front plus digits back : List Char}
      (whole : text.toList = front ++ ((plus ++ digits) ++ back))
      (blanks : ∀ c ∈ front ++ back, Text.isBlank c = true) (sign : plus = [] ∨ plus = ['+'])
      (some : digits ≠ []) (each : ∀ c ∈ digits, c.isDigit = true)
      (below : Nat.ofDigitChars 10 digits 0 < bound) :
      Denotes bound text (Nat.ofDigitChars 10 digits 0)

def unsigned : List Char → List Char
  | '+' :: rest => rest
  | cs => cs

theorem unsigned_parts (cs : List Char) :
    ∃ plus, cs = plus ++ unsigned cs ∧ (plus = [] ∨ plus = ['+']) := by
  unfold unsigned
  split
  · exact ⟨['+'], rfl, .inr rfl⟩
  · exact ⟨[], rfl, .inl rfl⟩

theorem unsigned_signed {plus digits : List Char} (sign : plus = [] ∨ plus = ['+'])
    (each : ∀ c ∈ digits, c.isDigit = true) : unsigned (plus ++ digits) = digits := by
  rcases sign with rfl | rfl
  · rw [List.nil_append, unsigned]
    rintro rest rfl
    exact absurd (each '+' (List.mem_cons_self ..)) (by decide)
  · rfl

theorem numberBelow?_eq_some {bound : Nat} {text : String} {digits : List Char} {n : Nat}
    (cut : unsigned (Text.trimList text.toList) = digits) :
    numberBelow? bound text = some n ↔
      (digits ≠ [] ∧ ∀ c ∈ digits, c.isDigit = true) ∧
        Nat.ofDigitChars 10 digits 0 < bound ∧ Nat.ofDigitChars 10 digits 0 = n := by
  have unfolded : numberBelow? bound text =
      if digits.isEmpty || !digits.all Char.isDigit then none
      else if Nat.ofDigitChars 10 digits 0 < bound then some (Nat.ofDigitChars 10 digits 0)
      else none := by
    rw [← cut]
    rfl
  have proper : ¬ (digits.isEmpty || !digits.all Char.isDigit) = true ↔
      digits ≠ [] ∧ ∀ c ∈ digits, c.isDigit = true := by
    simp
  rw [unfolded, Option.ite_none_left_eq_some, Option.ite_none_right_eq_some, proper,
    Option.some.injEq]

theorem numberBelow?_iff {bound : Nat} {text : String} {n : Nat} :
    numberBelow? bound text = some n ↔ Denotes bound text n := by
  constructor
  · intro read
    obtain ⟨⟨some, each⟩, below, rfl⟩ := (numberBelow?_eq_some rfl).mp read
    obtain ⟨front, back, whole, blanks⟩ := Text.trimList_parts text.toList
    obtain ⟨plus, parts, sign⟩ := unsigned_parts (Text.trimList text.toList)
    rw [parts] at whole
    exact .digits whole blanks sign some each below
  · rintro @⟨front, plus, digits, back, whole, blanks, sign, some, each, below⟩
    have solid : ∀ c ∈ plus ++ digits, Text.isBlank c = false := by
      intro c member
      rcases List.mem_append.mp member with before | digit
      · rcases sign with rfl | rfl
        · cases before
        · rw [List.mem_singleton.mp before]
          decide
      · exact Text.isBlank_digit (each c digit)
    have trimmed : Text.trimList text.toList = plus ++ digits := by
      rw [whole]
      exact Text.trimList_middle blanks solid (List.append_ne_nil_of_right_ne_nil _ some)
    have cut : unsigned (Text.trimList text.toList) = digits := by
      rw [trimmed, unsigned_signed sign each]
    exact (numberBelow?_eq_some cut).mpr ⟨⟨some, each⟩, below, rfl⟩

/-! ### Layers -/

def firstSet {α : Type} (layers : List (Option α)) : Option α := layers.findSome? id

def number? (env : Environment) (name : String) (bound : Nat) : Option Nat :=
  (env.lookup name).bind (numberBelow? bound)

/-- Each setting is that of the first of the command line, the environment, the project and the user
to set it, as far as they can. A variable that is no text is as one that is not there. -/
structure Layered (flags : Flags) (env : Environment) (project user : Option Config) (c : Config) :
    Prop where
  batchSize : c.build.batchSize = firstSet [flags.batchSize,
    number? env "PROVENANCE_BUILD_BATCH_SIZE" UInt64.size,
    project.bind (·.build.batchSize), user.bind (·.build.batchSize)]
  threads : c.build.threads = firstSet [flags.threads,
    number? env "PROVENANCE_BUILD_THREADS" UInt64.size,
    project.bind (·.build.threads), user.bind (·.build.threads)]
  cacheCapacity : c.build.cacheCapacity = firstSet [
    number? env "PROVENANCE_BUILD_CACHE_CAPACITY" UInt64.size,
    project.bind (·.build.cacheCapacity), user.bind (·.build.cacheCapacity)]
  storageDir : c.build.storageDir = firstSet [flags.storageDir,
    env.lookup "PROVENANCE_STORAGE_DIR",
    project.bind (·.build.storageDir), user.bind (·.build.storageDir)]
  maxDepth : c.analysis.maxDepth = firstSet [flags.maxDepth,
    number? env "PROVENANCE_ANALYSIS_MAX_DEPTH" UInt32.size,
    project.bind (·.analysis.maxDepth), user.bind (·.analysis.maxDepth)]
  topN : c.analysis.topN = firstSet [
    number? env "PROVENANCE_ANALYSIS_TOP_N" UInt64.size,
    project.bind (·.analysis.topN), user.bind (·.analysis.topN)]
  sensitivity : ∀ keyword, c.scoring.sensitivity.get? keyword = firstSet [
    project.bind (·.scoring.sensitivity.get? keyword),
    user.bind (·.scoring.sensitivity.get? keyword)]
  regulation : ∀ cls, c.scoring.regulation.get? cls = firstSet [
    project.bind (·.scoring.regulation.get? cls), user.bind (·.scoring.regulation.get? cls)]

def layered (flags : Flags) (env : Environment) (project user : Option Config) : Config :=
  ((mergeSome (mergeSome {} user) project).merge (ofEnvironment env)).merge (ofFlags flags)

section Layers

variable {flags : Flags} {env : Environment} {project user : Option Config} {c d : Config}

theorem layered_setting {α : Type} (setting : Config → Option α) (unset : setting {} = none)
    (covers : ∀ base other, setting (merge base other) = (setting other).or (setting base)) :
    setting (layered flags env project user) =
      firstSet [setting (ofFlags flags), setting (ofEnvironment env), project.bind setting,
        user.bind setting] := by
  have given : ∀ (base : Config) (other : Option Config),
      setting (mergeSome base other) = (other.bind setting).or (setting base) := by
    intro base other
    cases other with
    | none => rfl
    | some other => exact covers base other
  have first : ∀ (a : Option α) (rest : List (Option α)),
      firstSet (a :: rest) = a.or (firstSet rest) := by
    intro a rest
    cases a <;> rfl
  rw [layered, covers, covers, given, given, unset, first, first, first, first]
  rfl

theorem layered_layers : Layered flags env project user (layered flags env project user) where
  batchSize := layered_setting (·.build.batchSize) rfl fun _ _ => rfl
  threads := layered_setting (·.build.threads) rfl fun _ _ => rfl
  cacheCapacity := layered_setting (·.build.cacheCapacity) rfl fun _ _ => rfl
  storageDir := layered_setting (·.build.storageDir) rfl fun _ _ => rfl
  maxDepth := layered_setting (·.analysis.maxDepth) rfl fun _ _ => rfl
  topN := layered_setting (·.analysis.topN) rfl fun _ _ => rfl
  sensitivity keyword := layered_setting (·.scoring.sensitivity.get? keyword) rfl
    fun base other => base.scoring.sensitivity.get?_insertAll other.scoring.sensitivity.keys_once _
  regulation cls := layered_setting (·.scoring.regulation.get? cls) rfl
    fun base other => base.scoring.regulation.get?_insertAll other.scoring.regulation.keys_once _

theorem Layered.unique (first : Layered flags env project user c)
    (second : Layered flags env project user d) : c = d := by
  rcases c with ⟨⟨_, _, _, _⟩, ⟨_, _⟩, ⟨sensitivity, regulation⟩⟩
  rcases d with ⟨⟨_, _, _, _⟩, ⟨_, _⟩, ⟨sensitivity', regulation'⟩⟩
  have classes : sensitivity = sensitivity' := SortedMap.ext_get? fun k =>
    (first.sensitivity k).trans (second.sensitivity k).symm
  have regulations : regulation = regulation' := SortedMap.ext_get? fun k =>
    (first.regulation k).trans (second.regulation k).symm
  congr
  · exact first.batchSize.trans second.batchSize.symm
  · exact first.threads.trans second.threads.symm
  · exact first.cacheCapacity.trans second.cacheCapacity.symm
  · exact first.storageDir.trans second.storageDir.symm
  · exact first.maxDepth.trans second.maxDepth.symm
  · exact first.topN.trans second.topN.symm

end Layers

/-! ### Files -/

/-- What comes of reading the settings at a path: none where there is nothing, an error where there
is something else than a text, or a text that is no settings. -/
inductive Reading (disk : Disk) (path : String) : Except ConfigError (Option Config) → Prop where
  | absent {e} (missing : disk.find path = .error e) : Reading disk path (.ok none)
  | unreadable {place entry} (there : disk.find path = .ok (place, entry))
      (other : ∀ s, entry ≠ .file (.text s)) : Reading disk path (.error (.fileNotFound path))
  | unparsable {place s} (there : disk.find path = .ok (place, .file (.text s)))
      (failed : (Toml.parse s).bind ofToml? = none) :
      Reading disk path (.error (.unparsable path "invalid configuration"))
  | settings {place s c} (there : disk.find path = .ok (place, .file (.text s)))
      (parsed : (Toml.parse s).bind ofToml? = some c) : Reading disk path (.ok (some c))

/-- What the user's file sets: nothing where there is no home directory, no file in it, or one that
cannot be read. -/
inductive UserSets (disk : Disk) (env : Environment) : Option Config → Prop where
  | homeless (nowhere : home? env = none) : UserSets disk env none
  | unread {home path} (lives : home? env = some home)
      (passed : Reading disk (userFile home) (.error (.fileNotFound path))) : UserSets disk env none
  | read {home user} (lives : home? env = some home)
      (file : Reading disk (userFile home) (.ok user)) : UserSets disk env user

inductive Loads (disk : Disk) (env : Environment) (root : String) (flags : Flags) :
    Except ConfigError Config → Prop where
  | userFault {home path cause} (lives : home? env = some home)
      (file : Reading disk (userFile home) (.error (.unparsable path cause))) :
      Loads disk env root flags (.error (.unparsable path cause))
  | projectFault {user fault} (sets : UserSets disk env user)
      (file : Reading disk (projectFile root) (.error fault)) :
      Loads disk env root flags (.error fault)
  | invalid {user project c fault} (sets : UserSets disk env user)
      (file : Reading disk (projectFile root) (.ok project))
      (layers : Layered flags env project user c) (failed : c.validate = .error fault) :
      Loads disk env root flags (.error fault)
  | loaded {user project c} (sets : UserSets disk env user)
      (file : Reading disk (projectFile root) (.ok project))
      (layers : Layered flags env project user c) (valid : c.validate = .ok ()) :
      Loads disk env root flags (.ok c)

section Files

variable {disk : Disk} {env : Environment} {root path : String} {flags : Flags}

theorem readFile?_iff {r : Except ConfigError (Option Config)} :
    readFile? disk path = r ↔ Reading disk path r := by
  constructor
  · rintro rfl
    unfold readFile?
    split
    · next missing => exact .absent missing
    · next place s there =>
      unfold readToml
      split
      · next parsed => exact .settings there parsed
      · next failed => exact .unparsable there failed
    · next found other there =>
      exact .unreadable there fun s same => other found.1 s (Prod.ext rfl same)
  · intro reading
    cases reading with
    | absent missing => rw [readFile?, missing]
    | unreadable there other =>
      rw [readFile?, there]
      split <;> simp_all
    | unparsable there failed => simp only [readFile?, there, readToml, failed]; rfl
    | settings there parsed => simp only [readFile?, there, readToml, parsed]; rfl

theorem readUser?_ok {user : Option Config} :
    readUser? disk env = .ok user ↔ UserSets disk env user := by
  constructor
  · intro sets
    unfold readUser? at sets
    split at sets
    · next nowhere =>
      cases sets
      exact .homeless nowhere
    · next home lives =>
      split at sets
      · next passed =>
        cases sets
        exact .unread lives (readFile?_iff.mp passed)
      · exact .read lives (readFile?_iff.mp sets)
  · intro sets
    cases sets with
    | homeless nowhere => rw [readUser?, nowhere]
    | unread lives passed =>
      rw [readUser?, lives]
      simp only [readFile?_iff.mpr passed]
    | read lives file =>
      rw [readUser?, lives]
      simp only [readFile?_iff.mpr file]

theorem readUser?_error {fault : ConfigError} : readUser? disk env = .error fault ↔
    ∃ home path cause, home? env = some home ∧
      Reading disk (userFile home) (.error (.unparsable path cause)) ∧
        fault = .unparsable path cause := by
  constructor
  · intro failed
    unfold readUser? at failed
    split at failed
    · cases failed
    · next home lives =>
      split at failed
      · cases failed
      · next passed =>
        have file := readFile?_iff.mp failed
        cases file with
        | unreadable => exact absurd failed (passed _)
        | unparsable there unread => exact ⟨home, _, _, lives, .unparsable there unread, rfl⟩
  · rintro ⟨home, path, cause, lives, file, rfl⟩
    rw [readUser?, lives]
    simp only [readFile?_iff.mpr file]

theorem load_eq (disk : Disk) (env : Environment) (root : String) (flags : Flags) :
    load disk env root flags =
      match readUser? disk env, readFile? disk (projectFile root) with
      | .error fault, _ => .error fault
      | .ok _, .error fault => .error fault
      | .ok user, .ok project =>
        match (layered flags env project user).validate with
        | .error fault => .error fault
        | .ok () => .ok (layered flags env project user) := by
  rw [load]
  cases readUser? disk env with
  | error fault => rfl
  | ok user =>
    cases readFile? disk (projectFile root) with
    | error fault => rfl
    | ok project =>
      change ((layered flags env project user).validate >>=
        fun _ => .ok (layered flags env project user)) = _
      simp only
      cases (layered flags env project user).validate <;> rfl

theorem loads_load (disk : Disk) (env : Environment) (root : String) (flags : Flags) :
    Loads disk env root flags (load disk env root flags) := by
  rw [load_eq]
  cases sets : readUser? disk env with
  | error fault =>
    obtain ⟨home, path, cause, lives, file, rfl⟩ := readUser?_error.mp sets
    exact .userFault lives file
  | ok user =>
    cases file : readFile? disk (projectFile root) with
    | error fault => exact .projectFault (readUser?_ok.mp sets) (readFile?_iff.mp file)
    | ok project =>
      simp only
      split
      · next fault failed =>
        exact .invalid (readUser?_ok.mp sets) (readFile?_iff.mp file) layered_layers failed
      · next valid =>
        exact .loaded (readUser?_ok.mp sets) (readFile?_iff.mp file) layered_layers valid

/-- Loading ends in the one way that the files, the environment and the command line call for: with
the fault of the user's file, of the project's or of the settings, in this order, or with the settings
of which each is that of its highest layer. -/
theorem load_layered (disk : Disk) (env : Environment) (root : String) (flags : Flags) :
    (∀ r, load disk env root flags = r ↔ Loads disk env root flags r) ∧
    ∀ bound text n, numberBelow? bound text = some n ↔ Denotes bound text n := by
  refine ⟨fun r => ⟨?_, fun loads => ?_⟩, fun bound text n => numberBelow?_iff⟩
  · rintro rfl
    exact loads_load disk env root flags
  · rw [load_eq]
    cases loads with
    | userFault lives file =>
      rw [readUser?_error.mpr ⟨_, _, _, lives, file, rfl⟩]
    | projectFault sets file =>
      simp only [readUser?_ok.mpr sets, readFile?_iff.mpr file]
    | invalid sets file layers failed =>
      rw [layers.unique layered_layers] at failed
      simp only [readUser?_ok.mpr sets, readFile?_iff.mpr file, failed]
    | loaded sets file layers valid =>
      rw [layers.unique layered_layers] at valid ⊢
      simp only [readUser?_ok.mpr sets, readFile?_iff.mpr file, valid]

end Files

def settingsDisk (user project : String) : Disk :=
  ⟨[(⟨"home", by decide⟩, .directory [(⟨".provenance", by decide⟩,
      .directory [(⟨"config.toml", by decide⟩, .file (.text user))])]),
    (⟨"provenance.toml", by decide⟩, .file (.text project))]⟩

def homeOnly : Environment := [("HOME", "/home")]

/-- What would be refused does no harm where a higher layer has something else. -/
example : load
    (settingsDisk
      ("[build]\nresolution_batch_size = 0\n[analysis]\ntop_n = 0\n" ++
        "[scoring.sensitivity_overrides]\nfax = 'none'")
      "[build]\nresolution_batch_size = 8\n[scoring.sensitivity_overrides]\nfax = 'pii'")
    (("PROVENANCE_ANALYSIS_TOP_N", " +5") :: homeOnly) "/" {} =
      .ok {
        build := { batchSize := some 8 }
        analysis := { topN := some 5 }
        scoring := { sensitivity := .ofList [("fax", "pii")] } } := by
  decide +kernel

end Config

end DataReach
