import DataReach.Text.Segment
import Mathlib.Data.List.Infix
/-!
Names and their separators. The last segment is what stands behind the separator that ends last, and
a name is its own dotted form just when it has no separators but dots.
-/

namespace DataReach.Text

def separators : List (List Char) := [['.'], [':', ':'], ['-', '>']]

def Cuts (name rest : List Char) : Prop :=
  ∃ front, ∃ sep ∈ separators, name = front ++ sep ++ rest

/-- The segment is the whole name or follows a separator; no separator ends later than that one,
and none stands in the segment. -/
structure IsLastSegment (name segment : List Char) : Prop where
  ends : segment = name ∨ Cuts name segment
  latest : ∀ rest, Cuts name rest → segment.length ≤ rest.length
  plain : ∀ rest, ¬ Cuts segment rest

theorem length_separator {sep : List Char} (member : sep ∈ separators) :
    0 < sep.length ∧ sep.length ≤ 2 := by
  revert sep
  decide

theorem afterSeparator_iff {cs rest : List Char} :
    afterSeparator cs = some rest ↔ ∃ sep ∈ separators, cs = sep ++ rest := by
  rw [afterSeparator.eq_def]
  split
  · simp [separators]
  · simp [separators]
  · simp [separators]
  · next dot colons arrow =>
    simp only [separators, List.mem_cons, List.not_mem_nil, or_false, exists_eq_or_imp,
      exists_eq_left, reduceCtorEq, false_iff, not_or]
    exact ⟨dot rest, colons rest, arrow rest⟩

theorem Cuts.shorter {name rest : List Char} (cut : Cuts name rest) :
    rest.length < name.length := by
  obtain ⟨front, sep, member, rfl⟩ := cut
  have some := length_separator member
  simp only [List.length_append]
  omega

theorem cuts_cons {c : Char} {cs rest : List Char} :
    Cuts (c :: cs) rest ↔ afterSeparator (c :: cs) = some rest ∨ Cuts cs rest := by
  rw [afterSeparator_iff]
  constructor
  · rintro ⟨front, sep, member, whole⟩
    cases front with
    | nil => exact .inl ⟨sep, member, whole⟩
    | cons d front => exact .inr ⟨front, sep, member, (List.cons.inj whole).2⟩
  · rintro (⟨sep, member, whole⟩ | ⟨front, sep, member, rfl⟩)
    · exact ⟨[], sep, member, whole⟩
    · exact ⟨c :: front, sep, member, rfl⟩

theorem Cuts.trans {name rest end' : List Char} (cut : Cuts name rest) (later : Cuts rest end') :
    Cuts name end' := by
  obtain ⟨front, sep, -, rfl⟩ := cut
  obtain ⟨middle, sep', member, rfl⟩ := later
  exact ⟨front ++ sep ++ middle, sep', member, by simp only [List.append_assoc]⟩

theorem lastSegmentFrom_cases (best cs : List Char) :
    (∀ rest, ¬ Cuts cs rest) ∧ lastSegmentFrom best cs = best ∨
      Cuts cs (lastSegmentFrom best cs) ∧
        ∀ rest, Cuts cs rest → (lastSegmentFrom best cs).length ≤ rest.length := by
  induction cs generalizing best with
  | nil =>
    refine .inl ⟨fun rest cut => ?_, rfl⟩
    exact absurd cut.shorter (Nat.not_lt_zero _)
  | cons c cs ih =>
    simp only [cuts_cons]
    cases found : afterSeparator (c :: cs) with
    | none =>
      have step : lastSegmentFrom best (c :: cs) = lastSegmentFrom best cs := by
        simp only [lastSegmentFrom, found]
      simpa [step] using ih best
    | some tail =>
      have step : lastSegmentFrom best (c :: cs) = lastSegmentFrom tail cs := by
        simp only [lastSegmentFrom, found]
      -- A separator that starts later also ends later, as none has more than two characters.
      have long : cs.length ≤ tail.length + 1 := by
        obtain ⟨sep, member, whole⟩ := afterSeparator_iff.mp found
        have short := length_separator member
        have lengths := congrArg List.length whole
        simp only [List.length_cons, List.length_append] at lengths
        omega
      rw [step]
      refine .inr ?_
      rcases ih tail with ⟨plain, kept⟩ | ⟨cut, latest⟩
      · rw [kept]
        refine ⟨.inl rfl, fun rest other => ?_⟩
        rcases other with here | later
        · exact (congrArg List.length (Option.some.inj here)).le
        · exact absurd later (plain rest)
      · refine ⟨.inr cut, fun rest other => ?_⟩
        rcases other with here | later
        · have shorter := cut.shorter
          have same := congrArg List.length (Option.some.inj here)
          omega
        · exact latest rest later

theorem isLastSegment_lastSegment (name : String) :
    IsLastSegment name.toList (lastSegment name).toList := by
  rw [lastSegment, String.toList_ofList]
  rcases lastSegmentFrom_cases name.toList name.toList with ⟨plain, whole⟩ | ⟨cut, latest⟩
  · rw [whole]
    exact ⟨.inl rfl, fun rest cut => absurd cut (plain rest), plain⟩
  · refine ⟨.inr cut, latest, fun rest later => ?_⟩
    exact absurd later.shorter (Nat.not_lt.mpr (latest rest (cut.trans later)))

theorem lastSegment_eq_iff {name : String} :
    lastSegment name = name ↔ ∀ rest, ¬ Cuts name.toList rest := by
  have segment := isLastSegment_lastSegment name
  constructor
  · intro same
    have plain := segment.plain
    rwa [same] at plain
  · intro plain
    rcases segment.ends with whole | cut
    · exact String.toList_inj.mp whole
    · exact absurd cut (plain _)

/-! ### Dotted names -/

section Replace

variable {a b joint : Char}

theorem length_replacePair_le (cs : List Char) : (replacePair a b joint cs).length ≤ cs.length := by
  fun_induction replacePair a b joint cs with
  | case1 _ ih =>
    simp only [List.length_cons]
    omega
  | case2 _ _ _ _ ih =>
    simp only [List.length_cons] at ih ⊢
    omega
  | case3 => exact Nat.le_refl _

theorem infix_cons_pair {x y : Char} {rest : List Char} :
    [a, b] <:+: x :: y :: rest ↔ (x = a ∧ y = b) ∨ [a, b] <:+: y :: rest := by
  rw [List.infix_cons_iff]
  simp [eq_comm]

theorem replacePair_absent {cs : List Char} (absent : ¬ [a, b] <:+: cs) :
    replacePair a b joint cs = cs := by
  fun_induction replacePair a b joint cs with
  | case1 x y rest here => exact absurd (infix_cons_pair.mpr (.inl here)) absent
  | case2 x y rest _ ih =>
    rw [ih fun later => absent (infix_cons_pair.mpr (.inr later))]
  | case3 => rfl

theorem length_replacePair_lt {cs : List Char} (occurs : [a, b] <:+: cs) :
    (replacePair a b joint cs).length < cs.length := by
  fun_induction replacePair a b joint cs with
  | case1 _ _ rest =>
    have short : (replacePair a b joint rest).length ≤ rest.length := length_replacePair_le rest
    simp only [List.length_cons]
    omega
  | case2 x y rest other ih =>
    rcases infix_cons_pair.mp occurs with here | later
    · exact absurd here other
    · have short := ih later
      simp only [List.length_cons] at short ⊢
      omega
  | case3 cs short =>
    have length := occurs.length_le
    match cs, length with
    | x :: y :: rest, _ => exact absurd rfl (short x y rest)

end Replace

/-- Neither of the separators that are written as dots stands in the name. -/
def IsDotted (name : String) : Prop :=
  ¬ [':', ':'] <:+: name.toList ∧ ¬ ['-', '>'] <:+: name.toList

theorem dotted_eq_iff {name : String} : dotted name = name ↔ IsDotted name := by
  constructor
  · intro same
    have chars := congrArg String.toList same
    rw [dotted, String.toList_ofList] at chars
    have lengths := congrArg List.length chars
    have colons : ¬ [':', ':'] <:+: name.toList := by
      intro occurs
      have fewer : (replacePair ':' ':' '.' name.toList).length < name.toList.length :=
        length_replacePair_lt occurs
      have least : (replacePair '-' '>' '.' (replacePair ':' ':' '.' name.toList)).length ≤
          (replacePair ':' ':' '.' name.toList).length := length_replacePair_le _
      omega
    refine ⟨colons, fun occurs => ?_⟩
    have fewer : (replacePair '-' '>' '.' name.toList).length < name.toList.length :=
      length_replacePair_lt occurs
    rw [replacePair_absent colons] at lengths
    omega
  · intro plain
    rw [dotted, replacePair_absent plain.1, replacePair_absent plain.2, String.ofList_toList]

end DataReach.Text
