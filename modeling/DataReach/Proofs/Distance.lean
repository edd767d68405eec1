import Mathlib.Data.List.Chain
import Mathlib.Data.List.FinRange
import Mathlib.Data.List.Perm.Subperm
/-!
Walks along a relation and the distance of an item from where they start. A search by levels finds
the items of each distance from those of the one before; `distance_succ_iff` is why that is enough.
-/

namespace DataReach

variable {α : Type}

inductive Walk (start : α → Prop) (step : α → α → Prop) : Nat → α → Prop
  | here {a : α} : start a → Walk start step 0 a
  | next {n : Nat} {a b : α} : Walk start step n a → step a b → Walk start step (n + 1) b

def Distance (start : α → Prop) (step : α → α → Prop) (n : Nat) (a : α) : Prop :=
  Walk start step n a ∧ ∀ m, Walk start step m a → n ≤ m

/-- The items of a walk from one that satisfies `start` to `a`, so many steps further on. -/
structure WalkOf (start : α → Prop) (step : α → α → Prop) (n : Nat) (a : α) (items : List α) :
    Prop where
  first : ∃ s, start s ∧ items.head? = some s
  last : items.getLast? = some a
  length : items.length = n + 1
  linked : items.IsChain step

variable {start : α → Prop} {step : α → α → Prop}

theorem distance_unique {n m : Nat} {a : α} (first : Distance start step n a)
    (second : Distance start step m a) : n = m :=
  Nat.le_antisymm (first.2 m second.1) (second.2 n first.1)

theorem distance_zero_iff {a : α} : Distance start step 0 a ↔ start a := by
  constructor
  · intro given
    rcases given with ⟨walk, -⟩
    cases walk with
    | here started => exact started
  · intro started
    exact ⟨.here started, fun m _ => Nat.zero_le m⟩

theorem walk_distance {n : Nat} {a : α} (walk : Walk start step n a) :
    ∃ m, m ≤ n ∧ Distance start step m a := by
  induction n using Nat.strongRecOn with
  | ind n ih =>
    by_cases least : ∀ m, Walk start step m a → n ≤ m
    · exact ⟨n, Nat.le_refl n, walk, least⟩
    · simp only [not_forall, Nat.not_le] at least
      obtain ⟨m, shorter, below⟩ := least
      obtain ⟨k, bound, distance⟩ := ih m below shorter
      exact ⟨k, by omega, distance⟩

theorem distance_before {n : Nat} {b : α} (distance : Distance start step (n + 1) b) :
    ∃ a, Distance start step n a ∧ step a b := by
  obtain ⟨walk, least⟩ := distance
  cases walk with
  | @next _ a _ walk link =>
    refine ⟨a, ⟨walk, fun m shorter => ?_⟩, link⟩
    have longer := least (m + 1) (.next shorter link)
    omega

theorem distance_succ_iff {n : Nat} {b : α} :
    Distance start step (n + 1) b ↔
      (∃ a, Distance start step n a ∧ step a b) ∧ ∀ m, m ≤ n → ¬ Distance start step m b := by
  constructor
  · intro distance
    refine ⟨distance_before distance, fun m bound nearer => ?_⟩
    have same := distance_unique distance nearer
    omega
  · intro given
    rcases given with ⟨⟨a, distance, link⟩, fresh⟩
    refine ⟨.next distance.1 link, fun m walk => ?_⟩
    obtain ⟨k, bound, nearer⟩ := walk_distance walk
    by_contra short
    exact fresh k (by omega) nearer

theorem distance_below {n m : Nat} {a : α} (distance : Distance start step n a) (bound : m ≤ n) :
    ∃ b, Distance start step m b := by
  induction n generalizing a with
  | zero => exact ⟨a, (Nat.le_zero.mp bound) ▸ distance⟩
  | succ n ih =>
    rcases Nat.lt_or_eq_of_le bound with below | rfl
    · obtain ⟨b, before, -⟩ := distance_before distance
      exact ih before (by omega)
    · exact ⟨a, distance⟩

theorem walkOf_start {a : α} (started : start a) : WalkOf start step 0 a [a] where
  first := ⟨a, started, rfl⟩
  last := rfl
  length := rfl
  linked := .singleton a

theorem walkOf_append {n : Nat} {a b : α} {items : List α} (walk : WalkOf start step n a items)
    (link : step a b) : WalkOf start step (n + 1) b (items ++ [b]) where
  first := by
    obtain ⟨s, started, head⟩ := walk.first
    exact ⟨s, started, by simp [List.head?_append, head]⟩
  last := by simp
  length := by simp [walk.length]
  linked := by
    refine List.isChain_append.mpr ⟨walk.linked, .singleton b, fun x last y first => ?_⟩
    rw [walk.last] at last
    cases last
    cases first
    exact link

theorem exists_walkOf {n : Nat} {a : α} (walk : Walk start step n a) :
    ∃ items, WalkOf start step n a items := by
  induction walk with
  | here started => exact ⟨_, walkOf_start started⟩
  | next _ link ih =>
    obtain ⟨items, before⟩ := ih
    exact ⟨_, walkOf_append before link⟩

theorem walkOf_walk {n : Nat} {a : α} {items : List α} (walk : WalkOf start step n a items) :
    Walk start step n a := by
  induction items using List.reverseRecOn generalizing n a with
  | nil => exact absurd walk.length (by simp)
  | append_singleton front b ih =>
    have same : b = a := by simpa using walk.last
    subst same
    cases front using List.reverseRecOn with
    | nil =>
      obtain ⟨s, started, head⟩ := walk.first
      have zero : n = 0 := by simpa using walk.length.symm
      cases head
      exact zero ▸ .here started
    | append_singleton before c =>
      have length : before.length + 1 = n := by simpa using walk.length
      obtain ⟨front, -, link⟩ := List.isChain_append.mp walk.linked
      refine length ▸ .next (ih ⟨?_, by simp, by simp, front⟩) (link c (by simp) b (by simp))
      obtain ⟨s, started, head⟩ := walk.first
      exact ⟨s, started, by simpa [List.head?_append, List.append_assoc] using head⟩

theorem walk_trans {n m : Nat} {a b : α} (first : Walk start step n a)
    (second : Walk (· = a) step m b) : Walk start step (n + m) b := by
  induction second with
  | here same => exact same ▸ first
  | next _ link ih => exact .next ih link

theorem walk_reverse {back : α → α → Prop} {n : Nat} {a b : α} (walk : Walk (· = a) step n b)
    (turned : ∀ m x y, Walk (· = a) step m x → step x y → back y x) : Walk (· = b) back n a := by
  induction walk with
  | here same => exact .here same.symm
  | @next n x y before link ih =>
    have turn : Walk (· = y) back 1 x := .next (.here rfl) (turned n x y before link)
    have whole := walk_trans turn ih
    rwa [Nat.add_comm] at whole

theorem lt_length_of_distance {κ : Type} {n : Nat} {a : α} (key : α → κ) (keys : List κ)
    (distance : Distance start step n a)
    (injective : ∀ m k b c, Distance start step m b → Distance start step k c → key b = key c →
      b = c)
    (listed : ∀ m b, m ≤ n → Distance start step m b → key b ∈ keys) : n < keys.length := by
  have occurs : ∀ m : Fin (n + 1), ∃ b, Distance start step m b := fun m =>
    distance_below distance (Nat.lt_succ_iff.mp m.isLt)
  choose item near using occurs
  have once : ((List.finRange (n + 1)).map fun m => key (item m)).Nodup := by
    refine (List.nodup_finRange _).map fun m k same => ?_
    have equal := injective m k _ _ (near m) (near k) same
    exact Fin.ext (distance_unique (near m) (equal ▸ near k))
  have covered : ((List.finRange (n + 1)).map fun m => key (item m)) ⊆ keys := by
    intro x member
    obtain ⟨m, -, rfl⟩ := List.mem_map.mp member
    exact listed m _ (Nat.lt_succ_iff.mp m.isLt) (near m)
  have counted := (List.subperm_of_subset once covered).length_le
  rwa [List.length_map, List.length_finRange] at counted

/-- What a search has found are the items of all distances from `low` to `high`, each once, the
nearer ones first; every one found is marked with its distance. -/
structure Covers {β : Type} (start : α → Prop) (step : α → α → Prop) (low high : Nat)
    (item : β → α) (mark : β → Nat) (found : List β) : Prop where
  sound : ∀ b ∈ found, low ≤ mark b ∧ mark b ≤ high ∧ Distance start step (mark b) (item b)
  complete : ∀ n a, Distance start step n a → low ≤ n → n ≤ high → ∃ b ∈ found, item b = a
  distinct : (found.map item).Nodup
  ascending : found.Pairwise (mark · ≤ mark ·)

section Covers

variable {β : Type} {item : β → α} {mark : β → Nat}

theorem covers_nil {low high : Nat} (empty : ∀ a, ¬ Distance start step low a) :
    Covers start step low high item mark [] where
  sound := fun b member => nomatch member
  complete := by
    intro n a distance least _
    obtain ⟨b, nearer⟩ := distance_below distance least
    exact absurd nearer (empty b)
  distinct := List.nodup_nil
  ascending := .nil

theorem covers_level {n : Nat} {level : List β}
    (sound : ∀ b ∈ level, mark b = n ∧ Distance start step n (item b))
    (complete : ∀ a, Distance start step n a → ∃ b ∈ level, item b = a)
    (distinct : (level.map item).Nodup) : Covers start step n n item mark level where
  sound := by
    intro b member
    obtain ⟨same, distance⟩ := sound b member
    exact ⟨same.ge, same.le, same ▸ distance⟩
  complete := by
    intro m a distance least most
    have same : m = n := by omega
    exact complete a (same ▸ distance)
  distinct := distinct
  ascending := by
    refine List.pairwise_of_forall_mem_list fun b first c second => ?_
    rw [(sound b first).1, (sound c second).1]

theorem covers_append {low middle high : Nat} {front back : List β}
    (first : Covers start step low middle item mark front)
    (second : Covers start step (middle + 1) high item mark back)
    (below : low ≤ middle) (above : middle ≤ high) :
    Covers start step low high item mark (front ++ back) where
  sound := by
    intro b member
    rcases List.mem_append.mp member with member | member
    · obtain ⟨least, most, distance⟩ := first.sound b member
      exact ⟨least, by omega, distance⟩
    · obtain ⟨least, most, distance⟩ := second.sound b member
      exact ⟨by omega, most, distance⟩
  complete := by
    intro n a distance least most
    rcases Nat.lt_or_ge middle n with far | near
    · obtain ⟨b, member, same⟩ := second.complete n a distance far most
      exact ⟨b, List.mem_append_right front member, same⟩
    · obtain ⟨b, member, same⟩ := first.complete n a distance least near
      exact ⟨b, List.mem_append_left back member, same⟩
  distinct := by
    rw [List.map_append, List.nodup_append]
    refine ⟨first.distinct, second.distinct, fun a near b far same => ?_⟩
    obtain ⟨x, inFront, rfl⟩ := List.mem_map.mp near
    obtain ⟨y, inBack, rfl⟩ := List.mem_map.mp far
    obtain ⟨-, most, nearer⟩ := first.sound x inFront
    obtain ⟨least, -, farther⟩ := second.sound y inBack
    have equal := distance_unique nearer (same ▸ farther)
    omega
  ascending := by
    refine List.pairwise_append.mpr ⟨first.ascending, second.ascending, fun x near y far => ?_⟩
    have most := (first.sound x near).2.1
    have least := (second.sound y far).1
    omega

theorem covers_mem_iff {low high : Nat} {found : List β}
    (covers : Covers start step low high item mark found) (n : Nat) (a : α) :
    (∃ b ∈ found, item b = a ∧ mark b = n) ↔
      Distance start step n a ∧ low ≤ n ∧ n ≤ high := by
  constructor
  · intro given
    rcases given with ⟨b, member, rfl, rfl⟩
    obtain ⟨least, most, distance⟩ := covers.sound b member
    exact ⟨distance, least, most⟩
  · intro given
    rcases given with ⟨distance, least, most⟩
    obtain ⟨b, member, same⟩ := covers.complete n a distance least most
    have marked := (covers.sound b member).2.2
    exact ⟨b, member, same, distance_unique (same ▸ marked) distance⟩

theorem covers_all {high : Nat} {found : List β}
    (covers : Covers start step 0 high item mark found) (few : found.length ≤ high)
    {n : Nat} {a : α} (distance : Distance start step n a) : n ≤ high := by
  by_contra far
  obtain ⟨b, near⟩ := distance_below distance (Nat.le_of_not_le far)
  have many : high < (found.map item).length := by
    refine lt_length_of_distance id _ near (fun _ _ _ _ _ _ same => same) fun m c bound close => ?_
    obtain ⟨x, member, rfl⟩ := covers.complete m c close (Nat.zero_le m) bound
    exact List.mem_map_of_mem member
  rw [List.length_map] at many
  omega

theorem covers_beyond {low high : Nat} {found : List β}
    (covers : Covers start step low high item mark found) :
    Covers start step (low + 1) high item mark (found.filter fun b => low < mark b) where
  sound := by
    intro b member
    have kept := List.mem_filter.mp member
    have farther : low < mark b := of_decide_eq_true kept.2
    exact ⟨farther, (covers.sound b kept.1).2⟩
  complete := by
    intro n a distance least most
    rcases (covers_mem_iff covers n a).mpr ⟨distance, by omega, most⟩ with ⟨b, member, same, marked⟩
    refine ⟨b, List.mem_filter.mpr ⟨member, decide_eq_true ?_⟩, same⟩
    omega
  distinct := covers.distinct.sublist (List.filter_sublist.map item)
  ascending := covers.ascending.sublist List.filter_sublist

theorem covers_map {γ : Type} {low high : Nat} {found : List γ} (describe : γ → β)
    (covers : Covers start step low high (item ∘ describe) (mark ∘ describe) found) :
    Covers start step low high item mark (found.map describe) where
  sound := by
    intro b member
    rcases List.mem_map.mp member with ⟨x, inFound, rfl⟩
    exact covers.sound x inFound
  complete := by
    intro n a distance least most
    rcases covers.complete n a distance least most with ⟨x, member, same⟩
    exact ⟨describe x, List.mem_map_of_mem member, same⟩
  distinct := by
    rw [List.map_map]
    exact covers.distinct
  ascending := List.pairwise_map.mpr covers.ascending

end Covers

end DataReach
