import DataReach.Proofs.Sensitivity.Identifier
import DataReach.Proofs.Sorting
import DataReach.Proofs.Text.Run
import DataReach.Sensitivity.Classifier
/-!
Names within longer names. By the built-in words, what stands around a name never makes it less
sensitive.
-/

namespace DataReach

open Text (HasRun)

theorem Sensitivity.all_descending :
    all.Pairwise fun a b => b.severity ≤ a.severity := by decide

theorem Sensitivity.mem_all (s : Sensitivity) : s ∈ all := by
  cases s <;> decide

theorem Sensitivity.keyword_ne_empty : ∀ s ∈ all, ∀ w ∈ s.keywords, w ≠ "" := by decide

namespace Classifier

theorem hasKeyword_iff {name : String} {s : Sensitivity} :
    hasKeyword name s = true ↔ ∃ w ∈ s.keywords, HasRun w name ∨ HasRun (w ++ "s") name := by
  simp only [hasKeyword, List.any_eq_true, Bool.or_eq_true, Text.hasSegments_iff]

theorem severity_le_builtIn {name : String} {s : Sensitivity} (has : hasKeyword name s = true) :
    s.severity ≤ (builtIn name).severity := by
  cases found : Sensitivity.all.find? (hasKeyword name) with
  | none => exact absurd has (List.find?_eq_none.mp found s s.mem_all)
  | some worst =>
    have class_eq : builtIn name = worst := by
      rw [builtIn, found]
      rfl
    rw [class_eq]
    rcases find?_sorted Sensitivity.all_descending found s.mem_all has with rfl | le
    · exact Nat.le_refl _
    · exact le

theorem hasKeyword_builtIn (name : String) :
    builtIn name = .unknown ∨ hasKeyword name (builtIn name) = true := by
  cases found : Sensitivity.all.find? (hasKeyword name) with
  | none =>
    left
    rw [builtIn, found]
    rfl
  | some worst =>
    right
    rw [builtIn, found]
    exact List.find?_some found

theorem builtIn_empty : builtIn "" = .unknown := by
  rcases hasKeyword_builtIn "" with unknown | has
  · exact unknown
  · obtain ⟨w, member, run⟩ := hasKeyword_iff.mp has
    have some : w ≠ "" := Sensitivity.keyword_ne_empty _ (Sensitivity.mem_all _) w member
    rcases run with single | plural
    · exact absurd rfl (single.ne_empty some)
    · exact absurd rfl (plural.ne_empty (by simp))

theorem builtIn_mono {inner outer : String}
    (carried : inner ≠ "" → ∀ word, HasRun word inner → HasRun word outer) :
    (builtIn inner).severity ≤ (builtIn outer).severity := by
  by_cases none : inner = ""
  · rw [none, builtIn_empty]
    exact Nat.zero_le _
  · rcases hasKeyword_builtIn inner with unknown | has
    · rw [unknown]
      exact Nat.zero_le _
    · obtain ⟨w, member, run⟩ := hasKeyword_iff.mp has
      exact severity_le_builtIn
        (hasKeyword_iff.mpr ⟨w, member, run.imp (carried none w) (carried none (w ++ "s"))⟩)

theorem classify_standard (text : String) :
    standard.classify text = builtIn (Identifier.normalize text) := by
  rw [classify]
  by_cases none : Identifier.normalize text = ""
  · rw [none, builtIn_empty]
    rfl
  · simp [none, standard]

theorem toList_normalize_append (front back : String) {separator : String} (some : separator ≠ "")
    (separates : ∀ c ∈ separator.toList, c.isAlphanum = false) :
    (Identifier.normalize (front ++ separator ++ back)).toList =
      Identifier.joined (Identifier.normalize front).toList (Identifier.normalize back).toList := by
  simp only [Identifier.normalize, String.toList_append, String.toList_ofList]
  exact Identifier.normalizeList_append _ _ (by simpa using some) separates

theorem hasRun_joined {front back whole word : String}
    (side : whole.toList = Identifier.joined front.toList back.toList) :
    (front ≠ "" → HasRun word front → HasRun word whole) ∧
      (back ≠ "" → HasRun word back → HasRun word whole) := by
  rw [HasRun, HasRun, HasRun, side, Identifier.joined]
  by_cases first : front = ""
  · simp [first]
  · by_cases last : back = ""
    · simp [first, last]
    · simp only [String.toList_eq_nil_iff, first, last, if_false, Text.segments_joined]
      exact ⟨fun _ run => run.trans (List.prefix_append _ _).isInfix,
        fun _ run => run.trans (List.suffix_append _ _).isInfix⟩

/-- A classifier for which what stands around a name never makes it less sensitive, and which sees
the built-in words of a class wherever they stand. -/
structure SeesWithin (c : Classifier) : Prop where
  embedded : ∀ front separator back : String, separator ≠ "" →
    (∀ ch ∈ separator.toList, ch.isAlphanum = false) →
      max (c.classify front).severity (c.classify back).severity ≤
        (c.classify (front ++ separator ++ back)).severity
  keyword : ∀ (s : Sensitivity), ∀ w ∈ s.keywords, ∀ text : String,
    HasRun w (Identifier.normalize text) ∨ HasRun (w ++ "s") (Identifier.normalize text) →
      s.severity ≤ (c.classify text).severity

theorem seesWithin_standard : standard.SeesWithin where
  embedded := by
    intro front separator back some separates
    have side := toList_normalize_append front back some separates
    simp only [classify_standard]
    exact Nat.max_le.mpr
      ⟨builtIn_mono fun first _ => (hasRun_joined side).1 first,
        builtIn_mono fun last _ => (hasRun_joined side).2 last⟩
  keyword := by
    intro s w member text run
    rw [classify_standard]
    exact severity_le_builtIn (hasKeyword_iff.mpr ⟨w, member, run⟩)

theorem password_within_table :
    max (standard.classify "users").severity (standard.classify "password").severity ≤
      (standard.classify ("users" ++ "." ++ "password")).severity :=
  seesWithin_standard.embedded "users" "." "password" (by decide) (by simp)

end Classifier

end DataReach
