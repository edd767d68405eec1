import DataReach.Proofs.Sensitivity.Identifier
import DataReach.Proofs.Sorting
import DataReach.Proofs.Text.Run
import DataReach.Sensitivity.Classifier
import Mathlib.Data.List.Induction
/-!
Overrides as a map. A classifier keeps the class that was given last for each canonical keyword, and
of the keywords that stand in a name it goes by the longest.
-/

namespace DataReach.Classifier

open Text (HasRun)

/-! ### What a classifier keeps -/

def spells (name key : String) : Bool := Identifier.normalize key == name

/-- The last entry whose key comes to a keyword; one without letters and digits has none. -/
def lastFor {α : Type} (es : List (String × α)) (name : String) : Option (String × α) :=
  if name = "" then none else es.reverse.find? fun e => spells name e.1

theorem lastFor_append {α : Type} (es : List (String × α)) (e : String × α) (name : String) :
    lastFor (es ++ [e]) name =
      if name ≠ "" ∧ Identifier.normalize e.1 = name then some e else lastFor es name := by
  by_cases empty : name = ""
  · simp [lastFor, empty]
  · rw [lastFor, lastFor, if_neg empty, if_neg empty, List.reverse_append, List.reverse_singleton,
      List.singleton_append, List.find?_cons]
    by_cases own : Identifier.normalize e.1 = name
    · have meant : spells name e.1 = true := beq_iff_eq.mpr own
      rw [meant, if_pos ⟨empty, own⟩]
    · have other : spells name e.1 = false := beq_false_of_ne own
      rw [other, if_neg fun both => own both.2]

theorem lastFor_map {α β : Type} (f : α → β) (es : List (String × α)) (name : String) :
    lastFor (es.map fun e => (e.1, f e.2)) name = (lastFor es name).map fun e => (e.1, f e.2) := by
  by_cases empty : name = ""
  · simp [lastFor, empty]
  · rw [lastFor, lastFor, if_neg empty, if_neg empty, ← List.map_reverse, List.find?_map]
    rfl

/-- The overrides of a classifier are a map of canonical keywords: longer ones first, each once. -/
structure Keeps (c : Classifier) (given : String → Option Sensitivity) : Prop where
  sorted : c.overrides.Pairwise fun a b => before a b = true
  once : (c.overrides.map (·.1)).Nodup
  member : ∀ {k s}, (k, s) ∈ c.overrides ↔ given k = some s
  canonical : ∀ {k s}, given k = some s → k ≠ "" ∧ ∃ text, Identifier.normalize text = k

variable {c : Classifier} {given : String → Option Sensitivity}

theorem before_trans (a b c : String × Sensitivity) (first : before a b = true)
    (second : before b c = true) : before a c = true := by
  simp only [before, Bool.or_eq_true, Bool.and_eq_true, beq_iff_eq, decide_eq_true_eq] at *
  rcases first with first | ⟨size, first⟩
  · rcases second with second | ⟨size', -⟩
    · exact .inl (by omega)
    · exact .inl (by omega)
  · rcases second with second | ⟨size', second⟩
    · exact .inl (by omega)
    · exact .inr ⟨size.trans size', String.le_trans first second⟩

theorem before_total (a b : String × Sensitivity) : (before a b || before b a) = true := by
  simp only [before, Bool.or_eq_true, Bool.and_eq_true, beq_iff_eq, decide_eq_true_eq]
  rcases Nat.lt_trichotomy a.1.utf8ByteSize b.1.utf8ByteSize with less | same | more
  · exact .inr (.inl less)
  · rcases String.le_total a.1 b.1 with le | ge
    · exact .inl (.inr ⟨same, le⟩)
    · exact .inr (.inr ⟨same.symm, ge⟩)
  · exact .inl (.inl more)

theorem key_eq_of_before {a b : String × Sensitivity} (first : before a b = true)
    (second : before b a = true) : a.1 = b.1 := by
  simp only [before, Bool.or_eq_true, Bool.and_eq_true, beq_iff_eq, decide_eq_true_eq]
    at first second
  rcases first with longer | ⟨size, le⟩
  · rcases second with shorter | ⟨size, -⟩
    · omega
    · omega
  · rcases second with shorter | ⟨-, ge⟩
    · omega
    · exact String.le_antisymm le ge

theorem keeps_standard : standard.Keeps fun _ => none where
  sorted := .nil
  once := .nil
  member := by simp [standard]
  canonical := nofun

theorem keeps_put (keeps : c.Keeps given) {word : String} (nonempty : word ≠ "")
    (written : ∃ text, Identifier.normalize text = word) (s : Sensitivity) :
    Keeps ⟨(c.overrides.filter (·.1 != word) ++ [(word, s)]).mergeSort before⟩
      fun k => if k = word then some s else given k := by
  have perm := List.mergeSort_perm (c.overrides.filter (·.1 != word) ++ [(word, s)]) before
  refine ⟨List.pairwise_mergeSort before_trans before_total _, ?_, ?_, ?_⟩
  · have kept : ((c.overrides.filter (·.1 != word)).map (·.1)).Nodup :=
      (List.filter_sublist.map _).nodup keeps.once
    apply (perm.map _).nodup_iff.mpr
    rw [List.map_append, List.map_singleton, ← List.concat_eq_append]
    apply kept.concat
    intro member
    obtain ⟨o, inside, same⟩ := List.mem_map.mp member
    simpa [same] using (List.mem_filter.mp inside).2
  · intro k t
    by_cases own : k = word
    · simp [perm.mem_iff, own, eq_comm]
    · simp [perm.mem_iff, own, keeps.member]
  · intro k t latest
    by_cases own : k = word
    · exact own ▸ ⟨nonempty, written⟩
    · rw [if_neg own] at latest
      exact keeps.canonical latest

theorem keeps_withOverride (keeps : c.Keeps given) (key : String) (s : Sensitivity) :
    (c.withOverride key s).Keeps fun k =>
      if k ≠ "" ∧ Identifier.normalize key = k then some s else given k := by
  have written : ∃ text, Identifier.normalize text = Identifier.normalize key := ⟨key, rfl⟩
  rw [withOverride]
  generalize Identifier.normalize key = word at written
  by_cases empty : word = ""
  · have same : (fun k => if k ≠ "" ∧ word = k then some s else given k) = given := by
      funext k
      exact if_neg fun ⟨nonempty, own⟩ => nonempty (own ▸ empty)
    rw [same]
    simpa [empty] using keeps
  · have same : (fun k => if k ≠ "" ∧ word = k then some s else given k) =
        fun k => if k = word then some s else given k := by
      funext k
      by_cases own : k = word
      · simp [own, empty]
      · simp [own, Ne.symm own]
    rw [same]
    simpa [empty] using keeps_put keeps empty written s

theorem Keeps.unique {other : Classifier} (keeps : c.Keeps given) (same : other.Keeps given) :
    c = other := by
  have perm : c.overrides.Perm other.overrides :=
    (List.perm_ext_iff_of_nodup keeps.once.of_map same.once.of_map).mpr fun _ =>
      keeps.member.trans same.member.symm
  have entries : c.overrides = other.overrides := by
    refine perm.eq_of_pairwise ?_ keeps.sorted same.sorted
    intro a b inside outside first second
    have key := key_eq_of_before first second
    have class_a := keeps.member.mp inside
    have class_b := same.member.mp outside
    rw [key, class_b] at class_a
    exact Prod.ext key (Option.some.inj class_a).symm
  cases c
  cases other
  cases entries
  rfl

/-! ### What a name is classified by -/

def Outranks (a b : String) : Prop := b.length < a.length ∨ a.length = b.length ∧ a ≤ b

theorem outranks_of_before {k other : String} {s t : Sensitivity}
    (precedes : before (k, s) (other, t) = true) (first : ∃ text, Identifier.normalize text = k)
    (second : ∃ text, Identifier.normalize text = other) : Outranks k other := by
  obtain ⟨word, rfl⟩ := first
  obtain ⟨word', rfl⟩ := second
  simpa [before, Outranks, Identifier.utf8ByteSize_normalize] using precedes

/-- A keyword that stands in a name and comes before all others of the map that do. -/
structure Leading (given : String → Option Sensitivity) (name k : String) : Prop where
  run : HasRun k name
  first : ∀ other, given other ≠ none → HasRun other name → Outranks k other

/-- A name goes by the leading keyword that stands in it; without one, by the built-in words. -/
theorem classify_cases (keeps : c.Keeps given) (text : String) :
    (∃ k s, given k = some s ∧ Leading given (Identifier.normalize text) k ∧ c.classify text = s) ∨
      ((∀ k, HasRun k (Identifier.normalize text) → given k = none) ∧
        c.classify text = standard.classify text) := by
  cases found : c.overrides.find? fun o => Text.hasSegments o.1 (Identifier.normalize text) with
  | some o =>
    left
    obtain ⟨k, s⟩ := o
    have own := keeps.member.mp (List.mem_of_find?_eq_some found)
    have stands : Text.hasSegments k (Identifier.normalize text) = true := by
      simpa using List.find?_some found
    have run := Text.hasSegments_iff.mp stands
    have nonempty := run.ne_empty (keeps.canonical own).1
    have class_eq : c.classify text = s := by
      rw [classify]
      simp [nonempty, found]
    refine ⟨k, s, own, ⟨run, fun other overridden within => ?_⟩, class_eq⟩
    obtain ⟨t, latest⟩ := Option.ne_none_iff_exists'.mp overridden
    -- The search stops at the first override that fits, and they are sorted by rank.
    rcases find?_sorted keeps.sorted found (keeps.member.mpr latest)
      (Text.hasSegments_iff.mpr within) with same | precedes
    · rw [(Prod.mk.inj same).1]
      exact .inr ⟨rfl, String.le_refl _⟩
    · exact outranks_of_before precedes (keeps.canonical own).2 (keeps.canonical latest).2
  | none =>
    right
    constructor
    · intro k run
      by_contra overridden
      obtain ⟨s, latest⟩ := Option.ne_none_iff_exists'.mp overridden
      exact List.find?_eq_none.mp found _ (keeps.member.mpr latest) (Text.hasSegments_iff.mpr run)
    · rw [classify, classify, found]
      rfl

theorem classify_of_given (keeps : c.Keeps given) {key : String} {s : Sensitivity}
    (latest : given (Identifier.normalize key) = some s) : c.classify key = s := by
  have own : HasRun (Identifier.normalize key) (Identifier.normalize key) := List.infix_rfl
  rcases classify_cases keeps key with ⟨k, t, class_k, leading, decided⟩ | ⟨none, -⟩
  · -- The whole name is a keyword of the map as well, and no keyword in it is longer.
    have size : k.length = (Identifier.normalize key).length := by
      have shorter := leading.run.length_le
      rcases leading.first _ (by simp [latest]) own with longer | ⟨same, -⟩
      · omega
      · exact same
    rw [leading.run.eq_of_length size, latest] at class_k
    rw [decided, Option.some.inj class_k]
  · rw [none _ own] at latest
    cases latest

/-! ### Overrides in the order they are given -/

def ofCalls (calls : List (String × Sensitivity)) : Classifier :=
  calls.foldl (fun c o => c.withOverride o.1 o.2) standard

def lastGiven (calls : List (String × Sensitivity)) (k : String) : Option Sensitivity :=
  (lastFor calls k).map (·.2)

theorem keeps_ofCalls (calls : List (String × Sensitivity)) :
    (ofCalls calls).Keeps (lastGiven calls) := by
  induction calls using List.reverseRecOn with
  | nil =>
    have nothing : lastGiven [] = fun _ => none := by
      funext k
      simp [lastGiven, lastFor]
    rw [nothing]
    exact keeps_standard
  | append_singleton front o ih =>
    have latest : lastGiven (front ++ [o]) = fun k =>
        if k ≠ "" ∧ Identifier.normalize o.1 = k then some o.2 else lastGiven front k := by
      funext k
      rw [lastGiven, lastFor_append, apply_ite (Option.map _)]
      rfl
    have step : ofCalls (front ++ [o]) = (ofCalls front).withOverride o.1 o.2 := by
      simp only [ofCalls, List.foldl_append, List.foldl_cons, List.foldl_nil]
    rw [latest, step]
    exact keeps_withOverride ih o.1 o.2

/-- Overrides count by the class given last for each keyword only, and the longest keyword that
stands in a name decides; where none does, nothing is overridden. -/
structure OverridesDecide (calls : List (String × Sensitivity)) : Prop where
  same_map : ∀ others, lastGiven others = lastGiven calls →
    ∀ text, (ofCalls others).classify text = (ofCalls calls).classify text
  longest : ∀ text, (∃ k, lastGiven calls k ≠ none ∧ HasRun k (Identifier.normalize text)) →
    ∃ k s, lastGiven calls k = some s ∧ Leading (lastGiven calls) (Identifier.normalize text) k ∧
      (ofCalls calls).classify text = s
  otherwise : ∀ text, (∀ k, HasRun k (Identifier.normalize text) → lastGiven calls k = none) →
    (ofCalls calls).classify text = standard.classify text

theorem overrides_decide (calls : List (String × Sensitivity)) : OverridesDecide calls where
  same_map := by
    intro others same text
    have keeps := same ▸ keeps_ofCalls others
    rw [keeps.unique (keeps_ofCalls calls)]
  longest := by
    intro text overridden
    obtain ⟨k, latest, run⟩ := overridden
    rcases classify_cases (keeps_ofCalls calls) text with decided | ⟨none, -⟩
    · exact decided
    · exact absurd (none k run) latest
  otherwise := by
    intro text none
    rcases classify_cases (keeps_ofCalls calls) text with ⟨k, s, latest, leading, -⟩ | ⟨-, same⟩
    · rw [none k leading.run] at latest
      cases latest
    · exact same

end DataReach.Classifier
