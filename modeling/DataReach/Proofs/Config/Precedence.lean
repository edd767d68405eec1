import DataReach.Proofs.Config.Layers
/-!
The settings of a project over those of its user. Tables of overrides are laid over each other key by
key, as the keys are written; what the keys mean is found out later. So an override of the user can
come after one of the project that means the same, and then it is the user's that counts.
-/

namespace DataReach.Config

variable {c other : Config}

/-! ### Layers -/

theorem or_ne {α : Type} {a b : Option α} {bad : α} (first : a ≠ some bad) (second : b ≠ some bad) :
    a.or b ≠ some bad := by
  cases a with
  | none => exact second
  | some _ => exact first

theorem valid_merge (base : c.Valid) (valid : other.Valid) : (c.merge other).Valid where
  batchSize := or_ne valid.batchSize base.batchSize
  capacity := or_ne valid.capacity base.capacity
  topN := or_ne valid.topN base.topN
  classes := by
    intro e member
    rcases SortedMap.mem_insertAll.mp member with new | ⟨-, old⟩
    · exact valid.classes e new
    · exact base.classes e old
  regulations := by
    intro e member
    rcases SortedMap.mem_insertAll.mp member with new | ⟨-, old⟩
    · exact valid.regulations e new
    · exact base.regulations e old

theorem default_merge (c : Config) : ({} : Config).merge c = c := by
  simp [merge, SortedMap.insertAll_empty]

theorem load_layers {disk : Disk} {env : Environment} {root : String} {user project : Config}
    (readUser : readUser? disk env = .ok (some user))
    (readProject : readFile? disk (projectFile root) = .ok (some project))
    (unset : ofEnvironment env = {}) (validUser : user.validate = .ok ())
    (validProject : project.validate = .ok ()) :
    load disk env root {} = .ok (user.merge project) := by
  have merged : layered {} env (some project) (some user) = user.merge project := by
    rw [layered, mergeSome, mergeSome, default_merge, unset]
    rfl
  have valid : (user.merge project).validate = .ok () :=
    validate_ok.mpr (valid_merge (validate_ok.mp validUser) (validate_ok.mp validProject))
  rw [load_eq, readUser, readProject]
  simp only [merged, valid]

/-! ### Overrides of a project -/

/-- The last entry of a kind in a map does not come before that of another map, or they say the
same. -/
def Prevails {α β : Type} (kind : String → Bool) (say : α → β) (mine theirs : SortedMap α) : Prop :=
  ∀ a b, mine.last? kind = some a → theirs.last? kind = some b → a.1 < b.1 → say b.2 = say a.2

theorem prevails_iff {α β : Type} {kind : String → Bool} {say : α → β} {mine theirs : SortedMap α}
    {a e : String × α} (own : mine.last? kind = some a)
    (last : (theirs.insertAll mine.entries).last? kind = some e) :
    say e.2 = say a.2 ↔ Prevails kind say mine theirs := by
  rw [SortedMap.last?_insertAll own] at last
  have meaning : Prevails kind say mine theirs ↔
      ∀ b, theirs.last? kind = some b → a.1 < b.1 → say b.2 = say a.2 :=
    ⟨fun prevails b => prevails a b own, fun prevails a' b own' => by
      cases own.symm.trans own'
      exact prevails b⟩
  rw [meaning]
  cases base : theirs.last? kind with
  | none =>
    simp only [base, Option.some.injEq] at last
    simp [last]
  | some b =>
    simp only [base] at last
    split at last <;> simp_all

/-- What a project overrides is as it says exactly when no override of its user comes later in the
order of the keys, means the same, and says otherwise. -/
theorem project_override_prevails {disk : Disk} {env : Environment} {root : String}
    {user project : Config} (readUser : readUser? disk env = .ok (some user))
    (readProject : readFile? disk (projectFile root) = .ok (some project))
    (unset : ofEnvironment env = {}) (validUser : user.validate = .ok ())
    (validProject : project.validate = .ok ()) :
    ∃ c, load disk env root {} = .ok c ∧
      (∀ key ∈ project.scoring.regulation.keys, ∀ s, Sensitivity.ofName? key = some s →
        (c.scoring.regulations.regulations s = project.scoring.regulations.regulations s ↔
          Prevails (RegulationMap.names s) Regulation.ofNames project.scoring.regulation
            user.scoring.regulation)) ∧
      ∀ key ∈ project.scoring.sensitivity.keys, (∃ ch ∈ key.toList, ch.isAlphanum = true) →
        (c.scoring.classifier.classify key = project.scoring.classifier.classify key ↔
          Prevails (Classifier.spells (Identifier.normalize key)) Sensitivity.ofName?
            project.scoring.sensitivity user.scoring.sensitivity) := by
  have sound := validate_ok.mp validProject
  have valid := valid_merge (validate_ok.mp validUser) sound
  refine ⟨user.merge project, load_layers readUser readProject unset validUser validProject,
    fun key listed s named => ?_, fun key listed letter => ?_⟩
  · have kind : RegulationMap.names s key = true := by simp [RegulationMap.names, named]
    obtain ⟨a, own⟩ := SortedMap.last?_isSome listed kind
    obtain ⟨e, last⟩ := SortedMap.last?_isSome
      (SortedMap.mem_keys_insertAll (m := user.scoring.regulation) listed) kind
    rw [ScoringConfig.regulations_last (user.merge project).scoring s last,
      ScoringConfig.regulations_last _ s own]
    exact prevails_iff own last
  · have some := Identifier.normalize_ne_empty letter
    have kind : Classifier.spells (Identifier.normalize key) key = true := by
      simp [Classifier.spells]
    obtain ⟨a, own⟩ := SortedMap.last?_isSome listed kind
    obtain ⟨e, last⟩ := SortedMap.last?_isSome
      (SortedMap.mem_keys_insertAll (m := user.scoring.sensitivity) listed) kind
    have merged := ScoringConfig.classify_last (user.merge project).scoring valid.classes some last
    have alone := ScoringConfig.classify_last project.scoring sound.classes some own
    rw [← prevails_iff own last, ← merged, ← alone, Option.some.injEq]

def capitals : String :=
  "[scoring.sensitivity_overrides]\nEmail = 'health'\n[scoring.regulation_overrides]\nPII = ['hipaa']"

def smalls : String :=
  "[scoring.sensitivity_overrides]\nemail = 'credentials'\n[scoring.regulation_overrides]\npii = ['sox']"

/-- Whether both files of such a disk are read, with settings of which something is true. -/
def bothRead (disk : Disk) (p : Config → Config → Bool) : Bool :=
  match readUser? disk homeOnly, readFile? disk (projectFile "/") with
  | .ok (some user), .ok (some project) => p user project
  | _, _ => false

theorem of_bothRead {disk : Disk} {p : Config → Config → Bool} (read : bothRead disk p = true) :
    ∃ user project, readUser? disk homeOnly = .ok (some user) ∧
      readFile? disk (projectFile "/") = .ok (some project) ∧ p user project = true := by
  rw [bothRead] at read
  split at read
  · next user project readUser readProject => exact ⟨user, project, readUser, readProject, read⟩
  · cases read

/-- Keys in small letters come after those in capitals, and so a project that has them prevails. -/
theorem project_override_prevails_smalls :
    ∃ user project c, readUser? (settingsDisk capitals smalls) homeOnly = .ok (some user) ∧
      readFile? (settingsDisk capitals smalls) (projectFile "/") = .ok (some project) ∧
      load (settingsDisk capitals smalls) homeOnly "/" {} = .ok c ∧
      "pii" ∈ project.scoring.regulation.keys ∧ "email" ∈ project.scoring.sensitivity.keys ∧
      (c.scoring.regulations.regulations .pii = project.scoring.regulations.regulations .pii ↔
        Prevails (RegulationMap.names .pii) Regulation.ofNames project.scoring.regulation
          user.scoring.regulation) ∧
      (c.scoring.classifier.classify "email" = project.scoring.classifier.classify "email" ↔
        Prevails (Classifier.spells (Identifier.normalize "email")) Sensitivity.ofName?
          project.scoring.sensitivity user.scoring.sensitivity) := by
  have read : bothRead (settingsDisk capitals smalls) (fun user project => decide (
      user.validate = .ok () ∧ project.validate = .ok () ∧
        "pii" ∈ project.scoring.regulation.keys ∧
        "email" ∈ project.scoring.sensitivity.keys)) = true := by
    decide +kernel
  obtain ⟨user, project, readUser, readProject, facts⟩ := of_bothRead read
  obtain ⟨validUser, validProject, listed, keyword⟩ := of_decide_eq_true facts
  obtain ⟨c, loaded, regulations, classes⟩ := project_override_prevails readUser readProject
    (by decide) validUser validProject
  exact ⟨user, project, c, readUser, readProject, loaded, listed, keyword,
    regulations "pii" listed .pii (by decide), classes "email" keyword ⟨'e', by decide, rfl⟩⟩

/-- The other way round it is the user's overrides that count. -/
theorem user_override_prevails :
    ∃ user project c, readUser? (settingsDisk smalls capitals) homeOnly = .ok (some user) ∧
      readFile? (settingsDisk smalls capitals) (projectFile "/") = .ok (some project) ∧
      user.validate = .ok () ∧ project.validate = .ok () ∧ ofEnvironment homeOnly = {} ∧
      load (settingsDisk smalls capitals) homeOnly "/" {} = .ok c ∧
      ("PII" ∈ project.scoring.regulation.keys ∧ Sensitivity.ofName? "PII" = some .pii ∧
        c.scoring.regulations.regulations .pii ≠ project.scoring.regulations.regulations .pii) ∧
      "Email" ∈ project.scoring.sensitivity.keys ∧
      c.scoring.classifier.classify "Email" ≠ project.scoring.classifier.classify "Email" := by
  have read : bothRead (settingsDisk smalls capitals) (fun user project => decide (
      user.validate = .ok () ∧ project.validate = .ok () ∧
        ("PII" ∈ project.scoring.regulation.keys ∧ Sensitivity.ofName? "PII" = some .pii ∧
          (user.merge project).scoring.regulations.regulations .pii ≠
            project.scoring.regulations.regulations .pii) ∧
        "Email" ∈ project.scoring.sensitivity.keys ∧
        (user.merge project).scoring.classifier.classify "Email" ≠
          project.scoring.classifier.classify "Email")) = true := by
    decide +kernel
  obtain ⟨user, project, readUser, readProject, facts⟩ := of_bothRead read
  obtain ⟨validUser, validProject, differs⟩ := of_decide_eq_true facts
  exact ⟨user, project, user.merge project, readUser, readProject, validUser, validProject,
    by decide, load_layers readUser readProject (by decide) validUser validProject, differs⟩

end DataReach.Config
