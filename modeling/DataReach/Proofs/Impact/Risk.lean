import DataReach.Impact
import Mathlib.Data.List.Induction
/-!
The risk of a change as a sum. Words that stop at the greatest one give the exact points, since a
limit far below it comes last; so more functions, entry points or paths never make a risk smaller.
-/

namespace DataReach

/-! ### Levels and counts in order -/

def RiskLevel.rank : RiskLevel → Nat
  | .low => 0
  | .medium => 1
  | .high => 2
  | .critical => 3

def RiskLevel.threshold : RiskLevel → UInt32
  | .low => 0
  | .medium => 25
  | .high => 50
  | .critical => 75

instance : LE RiskLevel := ⟨fun a b => a.rank ≤ b.rank⟩

instance (a b : RiskLevel) : Decidable (a ≤ b) := inferInstanceAs (Decidable (a.rank ≤ b.rank))

theorem RiskLevel.critical_le_iff {l : RiskLevel} : .critical ≤ l ↔ l = .critical := by
  cases l <;> decide

def Sensitivity.leastRisk : Sensitivity → RiskLevel
  | .credentials => .critical
  | .financial => .high
  | .health => .high
  | .pii => .medium
  | .unknown => .low

namespace PathCounts

/-- The number of paths to data of a class. Those to data that is not sensitive are not counted. -/
def count (c : PathCounts) : Sensitivity → UInt32
  | .credentials => c.credentials
  | .financial => c.financial
  | .health => c.health
  | .pii => c.pii
  | .unknown => 0

instance : LE PathCounts := ⟨fun c d => ∀ s, c.count s ≤ d.count s⟩

end PathCounts

theorem toNat_ofNatClamp (n : Nat) :
    (UInt32.ofNatClamp n).toNat = min n (UInt32.size - 1) := by
  rw [UInt32.ofNatClamp]
  split
  · next small =>
    rw [UInt32.toNat_ofNatLT]
    omega
  · next large =>
    rw [UInt32.toNat_ofNatLT]
    omega

namespace PathCounts

variable {classes : List Sensitivity} {s : Sensitivity}

theorem ext_count {c d : PathCounts} (same : ∀ s, c.count s = d.count s) : c = d := by
  cases c
  cases d
  exact congr (congr (congr (congrArg PathCounts.mk (same .credentials)) (same .financial))
    (same .health)) (same .pii)

theorem count_unknown (c : PathCounts) : c.count .unknown = 0 := rfl

theorem count_tally (c : PathCounts) (s t : Sensitivity) :
    (c.tally t).count s = if s = t ∧ s ≠ .unknown then c.count s + 1 else c.count s := by
  cases s <;> cases t <;> rfl

theorem toNat_count_foldl (sensitive : s ≠ .unknown) (c : PathCounts) :
    ((classes.foldl tally c).count s).toNat =
      ((c.count s).toNat + classes.count s) % UInt32.size := by
  induction classes generalizing c with
  | nil => exact (Nat.mod_eq_of_lt (c.count s).toNat_lt_size).symm
  | cons t rest ih =>
    rw [List.foldl_cons, ih, count_tally, List.count_cons]
    by_cases own : s = t
    · have next : (c.count s + 1).toNat = ((c.count s).toNat + 1) % UInt32.size :=
        UInt32.toNat_add _ 1
      rw [if_pos ⟨own, sensitive⟩, next, Nat.mod_add_mod, own, beq_self_eq_true, if_pos rfl]
      congr 1
      omega
    · rw [if_neg fun both => own both.1, if_neg (by simpa using Ne.symm own), Nat.add_zero]

theorem toNat_count (sensitive : s ≠ .unknown) :
    ((ofClasses classes).count s).toNat = classes.count s % UInt32.size := by
  rw [ofClasses, toNat_count_foldl sensitive]
  cases s <;> exact congrArg (· % UInt32.size) (Nat.zero_add _)

theorem count_pos_iff (sensitive : s ≠ .unknown) :
    0 < (ofClasses classes).count s ↔ ¬ UInt32.size ∣ classes.count s := by
  rw [UInt32.lt_iff_toNat_lt, toNat_count sensitive, UInt32.toNat_zero, Nat.dvd_iff_mod_eq_zero,
    Nat.pos_iff_ne_zero]

theorem not_dvd_count (few : classes.count s < UInt32.size) (member : s ∈ classes) :
    ¬ UInt32.size ∣ classes.count s := by
  intro whole
  have some := List.count_pos_iff.mpr member
  exact absurd (Nat.le_of_dvd some whole) (Nat.not_le_of_lt few)

theorem ofClasses_le_append {more : List Sensitivity}
    (few : ∀ s ≠ .unknown, (classes ++ more).count s < UInt32.size) :
    ofClasses classes ≤ ofClasses (classes ++ more) := by
  intro s
  by_cases sensitive : s = .unknown
  · rw [sensitive, count_unknown, count_unknown]
    exact UInt32.le_refl _
  · have few := few s sensitive
    rw [UInt32.le_iff_toNat_le, toNat_count sensitive, toNat_count sensitive]
    rw [List.count_append] at few ⊢
    rw [Nat.mod_eq_of_lt few, Nat.mod_eq_of_lt (Nat.lt_of_le_of_lt (Nat.le_add_right _ _) few)]
    exact Nat.le_add_right _ _

end PathCounts

/-! ### The score -/

namespace Risk

def points (affected entryPoints : Nat) (c : PathCounts) : Nat :=
  min 30 (2 * affected) + min 25 (5 * entryPoints) + 15 * c.credentials.toNat +
    12 * c.financial.toNat + 10 * c.health.toNat + 5 * c.pii.toNat

theorem toNat_add (a b : UInt32) : (add a b).toNat = min (a.toNat + b.toNat) (UInt32.size - 1) :=
  toNat_ofNatClamp _

theorem toNat_mul (a b : UInt32) : (mul a b).toNat = min (a.toNat * b.toNat) (UInt32.size - 1) :=
  toNat_ofNatClamp _

theorem toNat_min (a b : UInt32) : (min a b).toNat = min a.toNat b.toNat := by
  change (if a ≤ b then a else b).toNat = _
  split
  · next le =>
    rw [UInt32.le_iff_toNat_le] at le
    omega
  · next gt =>
    rw [UInt32.le_iff_toNat_le] at gt
    omega

theorem clamped_add (a b : Nat) : min (min a (UInt32.size - 1) + min b (UInt32.size - 1))
    (UInt32.size - 1) = min (a + b) (UInt32.size - 1) := by
  omega

theorem toNat_dataScore (c : PathCounts) : (dataScore c).toNat =
    min (15 * c.credentials.toNat + 12 * c.financial.toNat + 10 * c.health.toNat + 5 * c.pii.toNat)
      (UInt32.size - 1) := by
  have fifteen : (15 : UInt32).toNat = 15 := rfl
  have twelve : (12 : UInt32).toNat = 12 := rfl
  have ten : (10 : UInt32).toNat = 10 := rfl
  have five : (5 : UInt32).toNat = 5 := rfl
  simp only [dataScore, toNat_add, toNat_mul, clamped_add, fifteen, twelve, ten, five, Nat.mul_comm]

theorem toNat_limited (n : Nat) {factor limit : UInt32} (some : 0 < factor) :
    (min (mul (.ofNatClamp n) factor) limit).toNat = min limit.toNat (factor.toNat * n) := by
  have positive : 0 < factor.toNat := UInt32.lt_iff_toNat_lt.mp some
  have word : limit.toNat ≤ UInt32.size - 1 := Nat.le_sub_one_of_lt limit.toNat_lt_size
  rw [toNat_min, toNat_mul, toNat_ofNatClamp, Nat.mul_comm]
  rcases Nat.le_total n (UInt32.size - 1) with few | many
  · rw [Nat.min_eq_left few]
    omega
  · have beyond := Nat.le_mul_of_pos_left n positive
    have stopped := Nat.le_mul_of_pos_left (UInt32.size - 1) positive
    rw [Nat.min_eq_right many]
    omega

theorem toNat_score (affected entryPoints : Nat) (c : PathCounts) :
    (score affected entryPoints c).toNat = min 100 (points affected entryPoints c) := by
  have breadth : (min (mul (.ofNatClamp affected) 2) 30).toNat = min 30 (2 * affected) :=
    toNat_limited affected (by decide)
  have surface : (min (mul (.ofNatClamp entryPoints) 5) 25).toNat = min 25 (5 * entryPoints) :=
    toNat_limited entryPoints (by decide)
  have most : maxScore.toNat = 100 := rfl
  have size : 100 < UInt32.size := by decide
  simp only [score, points, toNat_min, toNat_add, breadth, surface, toNat_dataScore, most]
  omega

theorem score_le_score {affected affected' entryPoints entryPoints' : Nat} {c d : PathCounts}
    (more : affected ≤ affected') (wider : entryPoints ≤ entryPoints') (above : c ≤ d) :
    score affected entryPoints c ≤ score affected' entryPoints' d := by
  have credentials : c.credentials.toNat ≤ d.credentials.toNat := above .credentials
  have financial : c.financial.toNat ≤ d.financial.toNat := above .financial
  have health : c.health.toNat ≤ d.health.toNat := above .health
  have pii : c.pii.toNat ≤ d.pii.toNat := above .pii
  rw [UInt32.le_iff_toNat_le, toNat_score, toNat_score, points, points]
  omega

/-! ### The level -/

section Level

variable {s t : UInt32} {c d : PathCounts} {l : RiskLevel} {classes : List Sensitivity}

theorem exists_class_iff {p : Sensitivity → Prop} : (∃ cls, p cls) ↔
    p .credentials ∨ p .financial ∨ p .health ∨ p .pii ∨ p .unknown := by
  constructor
  · rintro ⟨cls, holds⟩
    cases cls <;> simp [holds]
  · rintro (holds | holds | holds | holds | holds) <;> exact ⟨_, holds⟩

theorem rank_level (s : UInt32) (c : PathCounts) : (level s c).rank =
    if 75 ≤ s.toNat ∨ 0 < c.credentials.toNat then 3
    else if 50 ≤ s.toNat ∨ 0 < c.financial.toNat ∨ 0 < c.health.toNat then 2
    else if 25 ≤ s.toNat ∨ 0 < c.pii.toNat then 1 else 0 := by
  simp only [level, apply_ite RiskLevel.rank, Bool.or_eq_true, decide_eq_true_eq, or_assoc,
    UInt32.le_iff_toNat_le, UInt32.lt_iff_toNat_lt]
  rfl

theorem le_level_iff :
    l ≤ level s c ↔ l.threshold ≤ s ∨ ∃ cls : Sensitivity, l ≤ cls.leastRisk ∧ 0 < c.count cls := by
  change l.rank ≤ (level s c).rank ↔
    l.threshold.toNat ≤ s.toNat ∨ ∃ cls, l.rank ≤ cls.leastRisk.rank ∧ 0 < (c.count cls).toNat
  rw [rank_level, exists_class_iff]
  cases l <;>
    simp only [RiskLevel.rank, RiskLevel.threshold, Sensitivity.leastRisk, PathCounts.count,
      UInt32.toNat_ofNat] <;>
    split_ifs <;> omega

theorem level_le_level (higher : s ≤ t) (above : c ≤ d) : level s c ≤ level t d := by
  have own : level s c ≤ level s c := Nat.le_refl _
  rcases le_level_iff.mp own with score | ⟨cls, enough, some⟩
  · exact le_level_iff.mpr (.inl (UInt32.le_trans score higher))
  · exact le_level_iff.mpr (.inr ⟨cls, enough, UInt32.lt_of_lt_of_le some (above cls)⟩)

/-- A level is reached by its score, or by paths of a class that is enough for it, unless their
number is a multiple of the size of a word. -/
theorem le_level_ofClasses_iff : l ≤ level s (.ofClasses classes) ↔
    l.threshold ≤ s ∨ ∃ cls : Sensitivity, l ≤ cls.leastRisk ∧
      ¬ UInt32.size ∣ classes.count cls := by
  rw [le_level_iff]
  by_cases reached : l.threshold ≤ s
  · simp [reached]
  · refine or_congr Iff.rfl (exists_congr fun cls => and_congr_right fun enough => ?_)
    refine PathCounts.count_pos_iff fun unknown => reached ?_
    -- only the lowest level is as low as that of the unknown class, and any score reaches it
    rw [unknown] at enough
    cases l with
    | low => exact UInt32.zero_le
    | _ => exact absurd enough (by decide)

/-- With fewer paths to credentials than a word can tell, the level is critical for its score, or
for a single one of them. -/
theorem level_critical_iff (score : UInt32) (few : classes.count .credentials < UInt32.size) :
    level score (.ofClasses classes) = .critical ↔ 75 ≤ score ∨ .credentials ∈ classes := by
  have only : ∀ cls : Sensitivity, .critical ≤ cls.leastRisk ↔ cls = .credentials := by
    intro cls
    cases cls <;> decide
  have counted : ¬ UInt32.size ∣ classes.count .credentials ↔ .credentials ∈ classes :=
    ⟨fun broken => by_contra fun absent => broken (by simp [List.count_eq_zero.mpr absent]),
      PathCounts.not_dvd_count few⟩
  rw [← RiskLevel.critical_le_iff, le_level_ofClasses_iff]
  simp only [only, exists_eq_left, counted]
  rfl

end Level

def ofPaths (affected entryPoints : Nat) (paths : List DataPath) : RiskLevel :=
  let counts := PathCounts.ofClasses (paths.map (·.sensitivity))
  level (score affected entryPoints counts) counts

/-- The score is the sum of the points as numbers without bounds, up to its limit, and no greater
argument lowers it or the level. The paths of a class are counted in a word that starts again: as
long as there are fewer than it can tell, more paths never lower the level, and it is at least that
of each path. In general a class is overlooked when the number of its paths is a multiple of the size
of a word. -/
theorem risk_exact (affected entryPoints : Nat) (paths : List DataPath) :
    (∀ c : PathCounts, (score affected entryPoints c).toNat =
      min 100 (min 30 (2 * affected) + min 25 (5 * entryPoints) + 15 * c.credentials.toNat +
        12 * c.financial.toNat + 10 * c.health.toNat + 5 * c.pii.toNat)) ∧
    (∀ {affected' entryPoints' : Nat} {c d : PathCounts},
      affected ≤ affected' → entryPoints ≤ entryPoints' → c ≤ d →
        score affected entryPoints c ≤ score affected' entryPoints' d ∧
        level (score affected entryPoints c) c ≤ level (score affected' entryPoints' d) d) ∧
    (∀ s ≠ Sensitivity.unknown, ((PathCounts.ofClasses (paths.map (·.sensitivity))).count s).toNat =
      (paths.map (·.sensitivity)).count s % UInt32.size) ∧
    (∀ more : List DataPath,
      (∀ s ≠ Sensitivity.unknown,
        ((paths ++ more).map (·.sensitivity)).count s < UInt32.size) →
      ofPaths affected entryPoints paths ≤ ofPaths affected entryPoints (paths ++ more)) ∧
    (∀ p ∈ paths, (paths.map (·.sensitivity)).count p.sensitivity < UInt32.size →
      (p.sensitivity = .credentials → ofPaths affected entryPoints paths = .critical) ∧
      (p.sensitivity = .financial ∨ p.sensitivity = .health →
        .high ≤ ofPaths affected entryPoints paths) ∧
      (p.sensitivity = .pii → .medium ≤ ofPaths affected entryPoints paths)) ∧
    ∀ l : RiskLevel, l ≤ ofPaths affected entryPoints paths ↔
      l.threshold ≤ score affected entryPoints (.ofClasses (paths.map (·.sensitivity))) ∨
      ∃ s : Sensitivity, l ≤ s.leastRisk ∧
        ¬ UInt32.size ∣ (paths.map (·.sensitivity)).count s := by
  have higher : ∀ {affected' entryPoints' : Nat} {c d : PathCounts},
      affected ≤ affected' → entryPoints ≤ entryPoints' → c ≤ d →
        level (score affected entryPoints c) c ≤ level (score affected' entryPoints' d) d :=
    fun more wider above => level_le_level (score_le_score more wider above) above
  refine ⟨toNat_score affected entryPoints,
    fun more wider above => ⟨score_le_score more wider above, higher more wider above⟩,
    fun _ => PathCounts.toNat_count, ?_, ?_, fun _ => le_level_ofClasses_iff⟩
  · intro more few
    rw [ofPaths, ofPaths, List.map_append]
    rw [List.map_append] at few
    exact higher (Nat.le_refl _) (Nat.le_refl _) (PathCounts.ofClasses_le_append few)
  · intro p member few
    have reached : p.sensitivity.leastRisk ≤ ofPaths affected entryPoints paths :=
      le_level_ofClasses_iff.mpr (.inr ⟨p.sensitivity, Nat.le_refl _,
        PathCounts.not_dvd_count few (List.mem_map_of_mem member)⟩)
    refine ⟨fun cls => ?_, ?_, fun cls => ?_⟩
    · rw [cls] at reached
      exact RiskLevel.critical_le_iff.mp reached
    · rintro (cls | cls) <;> rw [cls] at reached <;> exact reached
    · rw [cls] at reached
      exact reached

def ownPath (table field : String) (s : Sensitivity) : DataPath where
  table := table
  fields := [field]
  operation := .read
  accessorId := "a.py:pay:1"
  entryPoint := "a.py:pay:1"
  entryPointName := "pay"
  fullPath := [⟨"a.py:pay:1", "pay", "a.py", 1⟩]
  sensitivity := s

def cardPath : DataPath := ownPath "payments" "card_number" .financial

/-- With every number at its greatest the points pass the greatest word, and the score is still that
of the sum. -/
theorem risk_exact_greatest :
    let most : PathCounts := ⟨0xFFFFFFFF, 0xFFFFFFFF, 0xFFFFFFFF, 0xFFFFFFFF⟩
    (score (UInt64.size - 1) (UInt64.size - 1) most).toNat = 100 ∧
      score 3 1 {} ≤ score (UInt64.size - 1) 1 most ∧
      .high ≤ ofPaths 0 0 [cardPath] ∧ ofPaths 0 0 [cardPath] ≤ ofPaths 0 0 [cardPath, cardPath] := by
  intro most
  obtain ⟨sum, -⟩ := risk_exact (UInt64.size - 1) (UInt64.size - 1) []
  obtain ⟨-, higher, -⟩ := risk_exact 3 1 []
  obtain ⟨-, -, -, longer, least, -⟩ := risk_exact 0 0 [cardPath]
  have above : ({} : PathCounts) ≤ most := by
    intro s
    cases s <;> exact UInt32.zero_le
  refine ⟨?_, (higher (by decide) (Nat.le_refl 1) above).1, ?_, longer [cardPath] fun s _ => ?_⟩
  · rw [sum]
    decide
  · exact (least cardPath (List.mem_singleton_self _) (by decide)).2.1 (.inl rfl)
  · cases s <;> decide

def passwordPath : DataPath := ownPath "users" "password" .credentials

/-- One path to a password makes the risk critical, and as many of them as a word has values make it
low again. -/
theorem credentials_forgotten :
    let more := List.replicate (UInt32.size - 1) passwordPath
    ofPaths 1 1 [passwordPath] = .critical ∧ ofPaths 1 1 ([passwordPath] ++ more) = .low ∧
      ∀ p ∈ [passwordPath] ++ more, p.sensitivity = .credentials := by
  intro more
  have size : UInt32.size - 1 + 1 = UInt32.size := rfl
  have all : [passwordPath] ++ more = List.replicate UInt32.size passwordPath := by
    rw [← size, List.replicate_succ]
    rfl
  have counts : PathCounts.ofClasses (List.replicate UInt32.size .credentials) = {} := by
    refine PathCounts.ext_count fun s => ?_
    by_cases sensitive : s = .unknown
    · rw [sensitive, PathCounts.count_unknown, PathCounts.count_unknown]
    · rw [← UInt32.toNat_inj, PathCounts.toNat_count sensitive, List.count_replicate]
      cases s <;> decide
  refine ⟨by decide, ?_, ?_⟩
  · rw [all, ofPaths, List.map_replicate]
    change level (score 1 1 (.ofClasses (List.replicate UInt32.size .credentials)))
      (.ofClasses (List.replicate UInt32.size .credentials)) = .low
    rw [counts]
    decide
  · intro p member
    rw [all] at member
    rw [List.eq_of_mem_replicate member]
    rfl

end Risk

end DataReach
