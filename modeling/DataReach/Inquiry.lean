import DataReach.Error
import DataReach.Function
/-!
Questions about a call graph, and analyses as programs that ask them. What an analysis finds depends
on the answers alone, wherever they come from.
-/

namespace DataReach

inductive Question where
  | function (id : String)
  | inFile (file : String)
  | named (name : String)
  | accessing (table : String) (field : Option String)
  | isBuilt
  | location
  deriving DecidableEq, Repr

abbrev Question.Answer : Question → Type
  | .function _ => Option FunctionNode
  | .inFile _ | .named _ | .accessing .. => List FunctionNode
  | .isBuilt => Bool
  | .location => String

abbrev Answers := (q : Question) → q.Answer

inductive Inquiry (α : Type) where
  | done (a : α)
  | ask (q : Question) (next : q.Answer → Inquiry α)

namespace Inquiry

def bind (x : Inquiry α) (f : α → Inquiry β) : Inquiry β :=
  match x with
  | .done a => f a
  | .ask q next => .ask q fun r => (next r).bind f

instance : Monad Inquiry where
  pure := .done
  bind := bind

def eval (answers : Answers) : Inquiry α → α
  | .done a => a
  | .ask q next => (next (answers q)).eval answers

def run (answer : (q : Question) → StateM σ q.Answer) : Inquiry α → StateM σ α
  | .done a => pure a
  | .ask q next => do
    let r ← answer q
    (next r).run answer

def function (id : String) : Inquiry (Option FunctionNode) := .ask (.function id) .done

def inFile (file : String) : Inquiry (List FunctionNode) := .ask (.inFile file) .done

def named (name : String) : Inquiry (List FunctionNode) := .ask (.named name) .done

def accessing (table : String) (field : Option String) : Inquiry (List FunctionNode) :=
  .ask (.accessing table field) .done

def isBuilt : Inquiry Bool := .ask .isBuilt .done

def location : Inquiry String := .ask .location .done

def missing? : Inquiry (Option GraphError) := do
  if ← isBuilt then return none
  else return some (.notBuilt (← location))

@[simp] theorem eval_pure (answers : Answers) (a : α) : (pure a : Inquiry α).eval answers = a := rfl

@[simp] theorem eval_bind (answers : Answers) (x : Inquiry α) (f : α → Inquiry β) :
    (x >>= f).eval answers = (f (x.eval answers)).eval answers := by
  change (x.bind f).eval answers = _
  induction x with
  | done a => rfl
  | ask q next ih => exact ih (answers q)

@[simp] theorem eval_function (answers : Answers) (id : String) :
    (function id).eval answers = answers (.function id) := rfl

@[simp] theorem eval_inFile (answers : Answers) (file : String) :
    (inFile file).eval answers = answers (.inFile file) := rfl

@[simp] theorem eval_named (answers : Answers) (name : String) :
    (named name).eval answers = answers (.named name) := rfl

@[simp] theorem eval_accessing (answers : Answers) (table : String) (field : Option String) :
    (accessing table field).eval answers = answers (.accessing table field) := rfl

@[simp] theorem eval_isBuilt (answers : Answers) : isBuilt.eval answers = answers .isBuilt := rfl

@[simp] theorem eval_location (answers : Answers) : location.eval answers = answers .location := rfl

end Inquiry

end DataReach
