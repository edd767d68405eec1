import DataReach.Inquiry
import Mathlib.Tactic.Simps.Basic
/-!
Functions without the confidences of their calls, and inquiries that do not depend on these. Such an
inquiry goes the same way and comes to the same whichever of two sources it asks, if the answers of
the one differ from those of the other in confidences alone, even when they change on the way.
-/

namespace DataReach

def CallEdge.plain (e : CallEdge) : CallEdge := { e with confidence := 0.0 }

@[simps]
def FunctionNode.plain (f : FunctionNode) : FunctionNode :=
  { f with calls := f.calls.map (·.plain) }

@[simps]
def Shard.plain (s : Shard) : Shard := { s with functions := s.functions.map FunctionNode.plain }

namespace FunctionNode

variable (f : FunctionNode)

@[simp] theorem resolvedCallees_plain : f.plain.resolvedCallees = f.resolvedCallees := by
  simp only [resolvedCallees, plain_calls, List.filterMap_map]
  rfl

@[simp] theorem unresolvedCalls_plain : f.plain.unresolvedCalls = f.unresolvedCalls := by
  simp only [unresolvedCalls, plain_calls, List.filter_map, List.length_map]
  rfl

end FunctionNode

theorem innermostFrom_plain (line : UInt32) (i : Nat) (best : Option Nat) (size : UInt32)
    (functions : List FunctionNode) :
    innermostFrom line i best size (functions.map FunctionNode.plain) =
      innermostFrom line i best size functions := by
  induction functions generalizing i best size with
  | nil => rfl
  | cons f rest ih =>
    simp only [List.map_cons, innermostFrom, ih]
    rfl

theorem innermost_plain (functions : List FunctionNode) (line : UInt32) :
    innermost (functions.map FunctionNode.plain) line =
      (innermost functions line).map FunctionNode.plain := by
  rw [innermost, innermostPosition, innermostFrom_plain, innermost, innermostPosition]
  cases innermostFrom line 0 none 0xFFFFFFFF functions <;> simp

namespace Question

def plain : (q : Question) → q.Answer → q.Answer
  | .function _, found => found.map FunctionNode.plain
  | .inFile _, found | .named _, found | .accessing .., found => found.map FunctionNode.plain
  | .isBuilt, built => built
  | .location, place => place

def Fair (known : String → Prop) : Question → Prop
  | .inFile file => known file
  | .location => False
  | _ => True

def Sound : (q : Question) → q.Answer → Prop
  | .isBuilt, built => built = true
  | _, _ => True

theorem sound_of_plain {q : Question} {r r' : q.Answer} (same : q.plain r = q.plain r')
    (sound : q.Sound r') : q.Sound r := by
  cases q with
  | isBuilt => exact same.trans sound
  | _ => trivial

end Question

namespace Inquiry

variable {α β γ δ : Type} {known : String → Prop} {P : α → β} {Q : γ → δ}

/-- The second inquiry goes along with the first one, if it is answered without confidences: it asks
the same questions, all of them fair, and comes to what `P` makes of the outcome. -/
inductive Shadows (known : String → Prop) (P : α → β) : Inquiry α → Inquiry β → Prop
  | done (a : α) : Shadows known P (.done a) (.done (P a))
  | ask {q : Question} {next : q.Answer → Inquiry α} {next' : q.Answer → Inquiry β} :
    q.Fair known → (∀ r, q.Sound r → Shadows known P (next r) (next' (q.plain r))) →
      Shadows known P (.ask q next) (.ask q next')

/-- The inquiry does not depend on confidences, nor does its outcome. -/
abbrev Blind (known : String → Prop) (x : Inquiry α) : Prop := Shadows known id x x

theorem shadows_pure {a : α} {b : β} (same : b = P a) : Shadows known P (pure a) (pure b) := by
  subst same
  exact .done a

theorem shadows_bind {x : Inquiry α} {y : Inquiry β} {f : α → Inquiry γ} {g : β → Inquiry δ}
    (first : Shadows known P x y) (rest : ∀ a, Shadows known Q (f a) (g (P a))) :
    Shadows known Q (x >>= f) (y >>= g) := by
  induction first with
  | done a => exact rest a
  | ask fair _ ih => exact .ask fair ih

/-! ### Single questions -/

theorem shadows_function (id : String) :
    Shadows known (Option.map FunctionNode.plain) (function id) (function id) :=
  .ask trivial fun r _ => .done r

theorem shadows_inFile {file : String} (fair : known file) :
    Shadows known (List.map FunctionNode.plain) (inFile file) (inFile file) :=
  .ask fair fun r _ => .done r

theorem shadows_named (name : String) :
    Shadows known (List.map FunctionNode.plain) (named name) (named name) :=
  .ask trivial fun r _ => .done r

theorem shadows_accessing (table : String) (field : Option String) :
    Shadows known (List.map FunctionNode.plain) (accessing table field) (accessing table field) :=
  .ask trivial fun r _ => .done r

theorem shadows_missing {f : Option GraphError → Inquiry γ} {g : Option GraphError → Inquiry δ}
    (rest : Shadows known Q (f none) (g none)) :
    Shadows known Q (missing? >>= f) (missing? >>= g) := by
  refine .ask (q := .isBuilt) trivial fun built there => ?_
  cases there
  exact rest

/-! ### Going along -/

section Run

variable {σ : Type} {answer : (q : Question) → StateM σ q.Answer} {I : σ → Prop} {b : Answers}

/-- A source that stays in some condition and gives these answers, but for confidences. -/
def Gives (known : String → Prop) (answer : (q : Question) → StateM σ q.Answer) (I : σ → Prop)
    (b : Answers) : Prop :=
  ∀ (q : Question) (s : σ), I s → q.Fair known →
    q.Sound (answer q s).1 ∧ q.plain (answer q s).1 = q.plain (b q) ∧ I (answer q s).2

theorem run_shadows {x : Inquiry α} {y : Inquiry β} (shadows : Shadows known P x y)
    (gives : Gives known answer I b) {s : σ} (start : I s) :
    P (x.run answer s).1 = y.eval fun q => q.plain (b q) := by
  induction shadows generalizing s with
  | done a => rfl
  | @ask q next next' fair _ ih =>
    rcases gives q s start fair with ⟨sound, same, kept⟩
    have rest := ih (answer q s).1 sound kept
    rw [same] at rest
    exact rest

theorem run_eval (x : Inquiry α) (a : Answers) (s : σ) :
    x.run (fun q => pure (a q)) s = (x.eval a, s) := by
  induction x with
  | done a => rfl
  | ask q next ih => exact ih (a q)

/-- What does not depend on confidences is the same from two sources whose answers differ in nothing
else. -/
theorem run_eq_eval {x : Inquiry α} (blind : Blind known x)
    (gives : Gives known answer I b) (sound : ∀ q : Question, q.Fair known → q.Sound (b q)) {s : σ}
    (start : I s) : (x.run answer s).1 = x.eval b := by
  have constant : Gives known (fun q => (pure (b q) : StateM Unit q.Answer)) (fun _ => True) b :=
    fun q _ _ fair => ⟨sound q fair, rfl, trivial⟩
  have first := run_shadows blind gives start
  have second := run_shadows blind constant (s := ()) trivial
  rw [run_eval] at second
  exact first.trans second.symm

end Run

end Inquiry

end DataReach
