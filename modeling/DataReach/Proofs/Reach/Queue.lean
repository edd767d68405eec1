import Mathlib.Data.List.Infix
import Mathlib.Logic.Function.Iterate
/-!
Breadth-first search with a queue. What is found waits there with its depth, which is a word, and
the search takes one edge after the other. It comes to the same as going level by level, and as it
adds nothing to a depth that has reached the bound, no depth leaves the words.
-/

namespace DataReach

/-- The edges of an item, and what following one of them leaves in memory and leads to. -/
structure Exploration (σ ν ε : Type) where
  edges : ν → List ε
  follow : σ → ν → ε → σ × Option ν

structure Exploration.Stage (σ ν ε : Type) where
  memory : σ
  /-- All that ever came into the queue, in this order, with its depth. -/
  found : List (ν × UInt32)
  /-- What is left there, with its depth and the edges that are still to be followed. -/
  queue : List (ν × UInt32 × List ε)
  /-- Each sum that was taken for a depth, as a number without a limit. -/
  sums : List Nat

namespace Exploration

variable {σ ν ε : Type} (x : Exploration σ ν ε)

def queued (reached : List (ν × UInt32)) : List (ν × UInt32 × List ε) :=
  reached.map fun e => (e.1, e.2, x.edges e.1)

def start (memory : σ) (seeds : List ν) : Stage σ ν ε :=
  ⟨memory, seeds.map (·, 0), x.queued (seeds.map (·, 0)), []⟩

/-- Follows an edge of the item in front; what it leads to is one deeper and goes to the end. -/
def followed (s : Stage σ ν ε) (a : ν) (depth : UInt32) (e : ε) (edges : List ε)
    (rest : List (ν × UInt32 × List ε)) : Stage σ ν ε :=
  let (memory, new) := x.follow s.memory a e
  let reached := new.toList.map (·, depth + 1)
  ⟨memory, s.found ++ reached, (a, depth, edges) :: (rest ++ x.queued reached),
    (depth.toNat + 1) :: s.sums⟩

/-- The item in front leaves the queue when its edges are used up, or when it is as deep as the
search may go. -/
def next (bound : UInt32) (s : Stage σ ν ε) : Stage σ ν ε :=
  match s.queue with
  | [] => s
  | (_, _, []) :: rest => { s with queue := rest }
  | (a, depth, e :: edges) :: rest =>
    if bound ≤ depth then { s with queue := rest } else x.followed s a depth e edges rest

def after (bound : UInt32) (memory : σ) (seeds : List ν) (k : Nat) : Stage σ ν ε :=
  (x.next bound)^[k] (x.start memory seeds)

variable {x} {bound : UInt32} {memory : σ} {seeds : List ν}

theorem after_succ (k : Nat) :
    x.after bound memory seeds (k + 1) = x.next bound (x.after bound memory seeds k) :=
  Function.iterate_succ_apply' ..

theorem next_cases (bound : UInt32) (s : Stage σ ν ε) :
    (s.queue = [] ∧ x.next bound s = s) ∨
      (∃ front rest, s.queue = front :: rest ∧ x.next bound s = { s with queue := rest }) ∨
      ∃ a depth e edges rest, s.queue = (a, depth, e :: edges) :: rest ∧ depth < bound ∧
        x.next bound s = x.followed s a depth e edges rest := by
  rw [next]
  split
  · next none => exact .inl ⟨none, rfl⟩
  · next some => exact .inr (.inl ⟨_, _, some, rfl⟩)
  · next some =>
    split
    · exact .inr (.inl ⟨_, _, some, rfl⟩)
    · next shallow => exact .inr (.inr ⟨_, _, _, _, _, some, UInt32.not_le.mp shallow, rfl⟩)

/-- What holds at the start and is kept by leaving an item and by following an edge holds at every
point of a search. -/
theorem after_induct {P : Stage σ ν ε → Prop} (start : P (x.start memory seeds))
    (leave : ∀ s front rest, P s → s.queue = front :: rest → P { s with queue := rest })
    (follow : ∀ s a depth e edges rest, P s → s.queue = (a, depth, e :: edges) :: rest →
      depth < bound → P (x.followed s a depth e edges rest)) (k : Nat) :
    P (x.after bound memory seeds k) := by
  induction k with
  | zero => exact start
  | succ k ih =>
    rw [after_succ]
    rcases next_cases (x := x) bound (x.after bound memory seeds k) with
      ⟨-, same⟩ | ⟨front, rest, some, same⟩ | ⟨a, depth, e, edges, rest, some, below, same⟩
    · rwa [same]
    · rw [same]
      exact leave _ front rest ih some
    · rw [same]
      exact follow _ a depth e edges rest ih some below

/-! ### Depths as words -/

theorem toNat_succ {depth : UInt32} (below : depth < bound) :
    (depth + 1).toNat = depth.toNat + 1 := by
  have less : depth.toNat < bound.toNat := UInt32.lt_iff_toNat_lt.mp below
  have size : bound.toNat < 2 ^ 32 := bound.toNat_lt
  rw [UInt32.toNat_add, UInt32.toNat_one, Nat.mod_eq_of_lt (by omega)]

/-- No depth is beyond the bound, and each is the very sum that was taken for it. -/
structure Within (bound : UInt32) (s : Stage σ ν ε) : Prop where
  found : ∀ e ∈ s.found, e.2 ≤ bound
  sums : ∀ n ∈ s.sums, n ≤ bound.toNat
  summed : ∀ e ∈ s.found, e.2 = 0 ∨ e.2.toNat ∈ s.sums

theorem within_start : Within bound (x.start memory seeds) where
  found := by simp [start]
  sums := by simp [start]
  summed := by simp [start]

theorem within_followed {s : Stage σ ν ε} {a : ν} {depth : UInt32} {e : ε} {edges : List ε}
    {rest : List (ν × UInt32 × List ε)} (within : Within bound s) (below : depth < bound) :
    Within bound (x.followed s a depth e edges rest) := by
  have sum := toNat_succ below
  have less : depth.toNat < bound.toNat := UInt32.lt_iff_toNat_lt.mp below
  have reached : ∀ new ∈ (x.follow s.memory a e).2.toList.map (·, depth + 1),
      new.2 = depth + 1 := by simp
  constructor
  · intro new member
    rcases List.mem_append.mp member with old | added
    · exact within.found new old
    · rw [reached new added, UInt32.le_iff_toNat_le, sum]
      exact less
  · intro n member
    rcases List.mem_cons.mp member with rfl | old
    · exact less
    · exact within.sums n old
  · intro new member
    rcases List.mem_append.mp member with old | added
    · exact (within.summed new old).imp_right (List.mem_cons_of_mem _)
    · rw [reached new added, sum]
      exact .inr (List.mem_cons_self ..)

theorem within_after (k : Nat) : Within bound (x.after bound memory seeds k) := by
  refine after_induct within_start (fun s _ _ within _ => ?_) (fun s _ _ _ _ _ within _ => ?_) k
  · exact ⟨within.found, within.sums, within.summed⟩
  · exact within_followed within

/-! ### Level by level -/

variable (x) in
def followAll (a : ν) : σ → List ε → σ × List ν
  | memory, [] => (memory, [])
  | memory, e :: rest =>
    let (memory, new) := x.follow memory a e
    let (memory, others) := followAll a memory rest
    (memory, new.toList ++ others)

variable (x) in
def expand : σ → List ν → σ × List ν
  | memory, [] => (memory, [])
  | memory, a :: rest =>
    let (memory, new) := x.followAll a memory (x.edges a)
    let (memory, others) := expand memory rest
    (memory, new ++ others)

variable (x) in
def levels : (left depth : Nat) → σ → List ν → σ × List (ν × Nat)
  | 0, depth, memory, level => (memory, level.map (·, depth))
  | left + 1, depth, memory, level =>
    let (memory, next) := x.expand memory level
    let (memory, deeper) := levels left (depth + 1) memory next
    (memory, level.map (·, depth) ++ deeper)

variable {found : List (ν × UInt32)} {rest : List (ν × UInt32 × List ε)}

variable (x) in
/-- Some number of steps leads from one stage to the other, whatever sums had been taken. -/
def Leads (bound : UInt32) (s t : Stage σ ν ε) : Prop :=
  ∀ sums, ∃ k sums', (x.next bound)^[k] { s with sums } = { t with sums := sums' }

theorem Leads.refl (s : Stage σ ν ε) : x.Leads bound s s := fun sums => ⟨0, sums, rfl⟩

theorem Leads.trans {s t u : Stage σ ν ε} (first : x.Leads bound s t)
    (second : x.Leads bound t u) : x.Leads bound s u := by
  intro sums
  obtain ⟨k, middle, early⟩ := first sums
  obtain ⟨j, last, late⟩ := second middle
  refine ⟨j + k, last, ?_⟩
  rw [Function.iterate_add_apply, early, late]

theorem leads_leave {a : ν} {depth : UInt32} {edges : List ε}
    (finished : edges = [] ∨ bound ≤ depth) :
    x.Leads bound ⟨memory, found, (a, depth, edges) :: rest, []⟩ ⟨memory, found, rest, []⟩ := by
  intro sums
  refine ⟨1, sums, ?_⟩
  rw [Function.iterate_one]
  cases edges with
  | nil => rfl
  | cons e edges =>
    have deep : bound ≤ depth := finished.resolve_left (List.cons_ne_nil e edges)
    simp only [next, deep, if_true]

theorem leads_follow {a : ν} {depth : UInt32} {e : ε} {edges : List ε} (below : depth < bound) :
    let new := (x.follow memory a e).2.toList.map (·, depth + 1)
    x.Leads bound ⟨memory, found, (a, depth, e :: edges) :: rest, []⟩
      ⟨(x.follow memory a e).1, found ++ new, (a, depth, edges) :: (rest ++ x.queued new), []⟩ := by
  intro new sums
  refine ⟨1, (depth.toNat + 1) :: sums, ?_⟩
  have shallow : ¬ bound ≤ depth := UInt32.not_le.mpr below
  simp only [Function.iterate_one, next, shallow, if_false, followed, new]

theorem queued_cons (a : ν) (depth : UInt32) (reached : List (ν × UInt32)) :
    x.queued ((a, depth) :: reached) = (a, depth, x.edges a) :: x.queued reached :=
  rfl

theorem queued_append (first second : List (ν × UInt32)) :
    x.queued (first ++ second) = x.queued first ++ x.queued second :=
  List.map_append

theorem leads_followAll {a : ν} {depth : UInt32} {edges : List ε} (below : depth < bound) :
    let new := (x.followAll a memory edges).2.map (·, depth + 1)
    x.Leads bound ⟨memory, found, (a, depth, edges) :: rest, []⟩
      ⟨(x.followAll a memory edges).1, found ++ new, rest ++ x.queued new, []⟩ := by
  induction edges generalizing memory found rest with
  | nil => simpa [followAll, queued] using leads_leave (x := x) (.inl rfl)
  | cons e edges ih =>
    simp only [followAll, List.map_append, queued_append, ← List.append_assoc]
    exact (leads_follow below).trans ih

theorem leads_expand (memory : σ) (found : List (ν × UInt32)) (level : List ν)
    (rest : List (ν × UInt32 × List ε)) {depth : UInt32} (below : depth < bound) :
    let new := (x.expand memory level).2.map (·, depth + 1)
    x.Leads bound ⟨memory, found, x.queued (level.map (·, depth)) ++ rest, []⟩
      ⟨(x.expand memory level).1, found ++ new, rest ++ x.queued new, []⟩ := by
  induction level generalizing memory found rest with
  | nil => simpa [expand, queued] using Leads.refl (x := x) _
  | cons a level ih =>
    simp only [expand, List.map_cons, List.map_append, queued_cons, queued_append,
      List.cons_append]
    refine Leads.trans (leads_followAll below) ?_
    rw [List.append_assoc, ← List.append_assoc found, ← List.append_assoc rest]
    exact ih _ _ _

theorem leads_pass {level : List ν} {depth : UInt32} (deep : bound ≤ depth) :
    x.Leads bound ⟨memory, found, x.queued (level.map (·, depth)), []⟩
      ⟨memory, found, [], []⟩ := by
  induction level with
  | nil => exact Leads.refl _
  | cons a level ih => exact (leads_leave (.inr deep)).trans ih

def numbered (found : List (ν × UInt32)) : List (ν × Nat) :=
  found.map fun e => (e.1, e.2.toNat)

theorem numbered_level (level : List ν) (depth : UInt32) :
    numbered (level.map (·, depth)) = level.map (·, depth.toNat) := by
  simp [numbered]

theorem leads_levels (memory : σ) (found : List (ν × UInt32)) (level : List ν) (depth : UInt32)
    {left : Nat} (reach : depth.toNat + left = bound.toNat) :
    ∃ new, numbered (level.map (·, depth) ++ new) = (x.levels left depth.toNat memory level).2 ∧
      x.Leads bound ⟨memory, found, x.queued (level.map (·, depth)), []⟩
        ⟨(x.levels left depth.toNat memory level).1, found ++ new, [], []⟩ := by
  induction left generalizing memory found level depth with
  | zero =>
    have deep : bound ≤ depth := UInt32.le_iff_toNat_le.mpr (Nat.le_of_eq reach.symm)
    refine ⟨[], ?_, ?_⟩
    · simpa [levels] using numbered_level level depth
    · simpa [levels] using leads_pass deep
  | succ left ih =>
    have below : depth < bound := UInt32.lt_iff_toNat_lt.mpr (by omega)
    have sum := toNat_succ below
    obtain ⟨deeper, same, leads⟩ := ih (x.expand memory level).1
      (found ++ (x.expand memory level).2.map (·, depth + 1)) (x.expand memory level).2
      (depth + 1) (by omega)
    refine ⟨(x.expand memory level).2.map (·, depth + 1) ++ deeper, ?_, ?_⟩
    · rw [numbered, List.map_append, ← numbered, ← numbered, numbered_level, same, sum]
      rfl
    · have first := leads_expand (x := x) memory found level [] below
      simp only [List.append_nil, List.nil_append] at first
      rw [sum, List.append_assoc] at leads
      exact first.trans leads

variable (x bound memory seeds) in
theorem exists_ended : ∃ k, (x.after bound memory seeds k).queue = [] ∧
    (x.after bound memory seeds k).memory = (x.levels bound.toNat 0 memory seeds).1 ∧
    numbered (x.after bound memory seeds k).found = (x.levels bound.toNat 0 memory seeds).2 := by
  obtain ⟨new, same, leads⟩ := leads_levels (x := x) memory (seeds.map (·, 0)) seeds 0
    (Nat.zero_add bound.toNat)
  obtain ⟨k, sums, ended⟩ := leads []
  have at_end : x.after bound memory seeds k =
      ⟨(x.levels bound.toNat 0 memory seeds).1, seeds.map (·, 0) ++ new, [], sums⟩ := ended
  refine ⟨k, ?_⟩
  rw [at_end]
  exact ⟨rfl, rfl, same⟩

theorem found_step (s : Stage σ ν ε) : s.found <+: (x.next bound s).found := by
  rcases next_cases (x := x) bound s with
    ⟨-, same⟩ | ⟨_, _, -, same⟩ | ⟨_, _, _, _, _, -, -, same⟩
  · rw [same]
  · rw [same]
  · rw [same]
    exact List.prefix_append ..

theorem found_grows {k j : Nat} (order : k ≤ j) :
    (x.after bound memory seeds k).found <+: (x.after bound memory seeds j).found := by
  induction order with
  | refl => exact List.prefix_rfl
  | step _ ih =>
    rw [after_succ]
    exact ih.trans (found_step _)

theorem memory_grows {R : σ → σ → Prop} (refl : ∀ memory, R memory memory)
    (trans : ∀ first second third, R first second → R second third → R first third)
    (follow : ∀ memory a e, R memory (x.follow memory a e).1) {k j : Nat} (order : k ≤ j) :
    R (x.after bound memory seeds k).memory (x.after bound memory seeds j).memory := by
  induction order with
  | refl => exact refl _
  | step _ ih =>
    refine trans _ _ _ ih ?_
    rw [after_succ]
    rcases next_cases (x := x) bound (x.after bound memory seeds _) with
      ⟨-, same⟩ | ⟨_, _, -, same⟩ | ⟨a, _, e, _, _, -, -, same⟩
    · rw [same]
      exact refl _
    · rw [same]
      exact refl _
    · rw [same]
      exact follow _ a e

theorem after_ended {k j : Nat} (ended : (x.after bound memory seeds k).queue = [])
    (order : k ≤ j) : x.after bound memory seeds j = x.after bound memory seeds k := by
  induction order with
  | refl => rfl
  | step _ ih => rw [after_succ, ih, next, ended]

theorem found_prefix (k : Nat) : numbered (x.after bound memory seeds k).found <+:
    (x.levels bound.toNat 0 memory seeds).2 := by
  obtain ⟨j, ended, -, same⟩ := exists_ended x bound memory seeds
  rw [← same]
  rcases Nat.le_total k j with early | late
  · exact (found_grows early).map _
  · rw [after_ended ended late]

end Exploration

end DataReach
