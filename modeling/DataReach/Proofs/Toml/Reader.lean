import DataReach.Proofs.Toml.Number
import DataReach.Proofs.Toml.Text
/-!
Written lines read back. A written key and a written value are read as what they were written from,
and a run of lines takes the tables read so far to those with the new entries.
-/

namespace DataReach.Toml

theorem skipBlanks_cons {c : Char} (plain : isBlank c = false) (rest : List Char) :
    skipBlanks (c :: rest) = c :: rest := by
  rw [skipBlanks, List.dropWhile_cons_of_neg (by simp [plain])]

/-! ### Keys -/

structure IsBare (name : List Char) : Prop where
  some : name ≠ []
  chars : name.all isBareKeyChar = true

theorem IsBare.head {name : List Char} (bare : IsBare name) :
    ∃ c cs, name = c :: cs ∧ isBareKeyChar c = true := by
  cases name with
  | nil => exact absurd rfl bare.some
  | cons c cs => exact ⟨c, cs, rfl, List.all_eq_true.mp bare.chars c (List.mem_cons_self ..)⟩

theorem keyPart_lineString {cs part rest : List Char} (read : lineString cs = some (part, rest)) :
    keyPart cs = some (part, rest) := by
  rw [keyPart, read]

theorem keyPart_bare {name : List Char} (bare : IsBare name) {c : Char}
    (stop : isBareKeyChar c = false) (rest : List Char) :
    keyPart (name ++ c :: rest) = some (name, c :: rest) := by
  have chars := List.all_eq_true.mp bare.chars
  have taken : (name ++ c :: rest).takeWhile isBareKeyChar = name := by
    rw [List.takeWhile_append_of_pos chars]
    simp [stop]
  have left : (name ++ c :: rest).dropWhile isBareKeyChar = c :: rest := by
    rw [List.dropWhile_append_of_pos chars]
    simp [stop]
  obtain ⟨d, ds, rfl, first⟩ := bare.head
  have double : d ≠ '"' := ne_of_test first (by decide)
  have single : d ≠ '\'' := ne_of_test first (by decide)
  have unquoted : lineString (d :: ds ++ c :: rest) = none := by
    rw [List.cons_append, lineString]
    all_goals simp [double, single]
  rw [keyPart, unquoted, taken, left]

theorem renderKey_cases (s : String) :
    (renderKey s = s.toList ∧ IsBare s.toList) ∨ renderKey s = basicText s.toList ∨
      (renderKey s = literalText s.toList ∧ (∀ c ∈ s.toList, isControl c = false) ∧
        '\'' ∉ s.toList) := by
  simp only [renderKey]
  split
  · next bare =>
    rw [Bool.and_eq_true] at bare
    exact .inl ⟨rfl, by simpa using bare.1, bare.2⟩
  · split
    · exact .inr (.inl rfl)
    · next held =>
      simp only [Bool.or_eq_true, not_or, Bool.not_eq_true] at held
      split
      · exact .inr (.inl rfl)
      · split
        · next single =>
          have plain : ∀ c ∈ s.toList, isControl c = false := fun c =>
            plain_of_traits held.1 held.2
          exact .inr (.inr ⟨rfl, plain, not_mem_of_singles (beq_iff_eq.mp single)⟩)
        · exact .inr (.inl rfl)

theorem keyPart_renderKey (s : String) (rest : List Char) :
    keyPart (renderKey s ++ ' ' :: rest) = some (s.toList, ' ' :: rest) := by
  rcases renderKey_cases s with ⟨same, bare⟩ | same | ⟨same, plain, single⟩
  · rw [same]
    exact keyPart_bare bare (by decide) rest
  · rw [same]
    exact keyPart_lineString (lineString_basic s.toList _)
  · rw [same]
    exact keyPart_lineString (lineString_literal plain single _)

def startsKey (c : Char) : Bool := isBareKeyChar c || c == '"' || c == '\''

theorem isBlank_key {c : Char} (start : startsKey c = true) : isBlank c = false := by
  have space : c ≠ ' ' := ne_of_test start (by decide)
  have tab : c ≠ '\t' := ne_of_test start (by decide)
  simp [isBlank, space, tab]

theorem skipBlanks_key {c : Char} (start : startsKey c = true) (rest : List Char) :
    skipBlanks (c :: rest) = c :: rest :=
  skipBlanks_cons (isBlank_key start) rest

theorem renderKey_head (s : String) : ∃ c cs, renderKey s = c :: cs ∧ startsKey c = true := by
  rcases renderKey_cases s with ⟨same, bare⟩ | same | ⟨same, -⟩
  · obtain ⟨c, cs, text, first⟩ := bare.head
    exact ⟨c, cs, same.trans text, by simp [startsKey, first]⟩
  · exact ⟨'"', _, same, by decide⟩
  · exact ⟨'\'', _, same, by decide⟩

section Parts

variable {cs part rest : List Char}

theorem keyParts_last (fuel : Nat) (start : skipBlanks cs = cs)
    (first : keyPart cs = some (part, rest)) (last : ∀ tail, skipBlanks rest ≠ '.' :: tail) :
    keyParts (fuel + 1) cs = some ([String.ofList part], skipBlanks rest) := by
  rw [keyParts, start, first]
  simp only [Option.bind_eq_bind, Option.bind_some]
  cases stop : skipBlanks rest with
  | nil => rfl
  | cons c cs =>
    have other : c ≠ '.' := fun dot => last cs (dot ▸ stop)
    simp

theorem keyParts_dotted (fuel : Nat) (start : skipBlanks cs = cs)
    (first : keyPart cs = some (part, '.' :: rest)) :
    keyParts (fuel + 1) cs =
      (keyParts fuel rest).map fun r => (String.ofList part :: r.1, r.2) := by
  rw [keyParts, start, first]
  simp only [Option.bind_eq_bind, Option.bind_some]
  rw [skipBlanks_cons (by decide)]
  simp only
  cases keyParts fuel rest <;> rfl

end Parts

theorem key_renderKey (s : String) (rest : List Char) :
    key (renderKey s ++ ' ' :: '=' :: rest) = some (([], s), '=' :: rest) := by
  have start : skipBlanks (renderKey s ++ ' ' :: '=' :: rest) =
      renderKey s ++ ' ' :: '=' :: rest := by
    obtain ⟨c, cs, same, start⟩ := renderKey_head s
    rw [same, List.cons_append, skipBlanks_key start]
  have equals : skipBlanks (' ' :: '=' :: rest) = '=' :: rest := by
    rw [skipBlanks, List.dropWhile_cons_of_pos (by decide), List.dropWhile_cons_of_neg (by decide)]
  rw [key, keyParts_last _ start (keyPart_renderKey s _) (by simp [equals]), equals]
  simp [depthLimit]

theorem skipBlanks_bare {name : List Char} (bare : IsBare name) (rest : List Char) :
    skipBlanks (name ++ rest) = name ++ rest := by
  obtain ⟨c, cs, rfl, first⟩ := bare.head
  exact skipBlanks_key (by simp [startsKey, first]) _

theorem lineEnd_newline (rest : List Char) : lineEnd ('\n' :: rest) = some rest := by
  rw [lineEnd, skipBlanks_cons (by decide)]
  rfl

section Header

variable {outer name : List Char} (bareName : IsBare name)

include bareName

theorem keyParts_header (fuel : Nat) (rest : List Char) :
    keyParts (fuel + 1) (name ++ ']' :: rest) = some ([String.ofList name], ']' :: rest) := by
  have stop : skipBlanks (']' :: rest) = ']' :: rest := skipBlanks_cons (by decide) _
  rw [keyParts_last fuel (skipBlanks_bare bareName _) (keyPart_bare bareName (by decide) _), stop]
  simp [stop]

theorem headerKey_bare (rest : List Char) :
    headerKey [']'] (name ++ ']' :: '\n' :: rest) = some (([], String.ofList name), rest) := by
  rw [headerKey, key, keyParts_header bareName]
  simp [depthLimit, lineEnd_newline]

theorem headerKey_dotted (bareOuter : IsBare outer) (rest : List Char) :
    headerKey [']'] (outer ++ '.' :: (name ++ ']' :: '\n' :: rest)) =
      some (([String.ofList outer], String.ofList name), rest) := by
  have parts : keyParts ((outer ++ '.' :: (name ++ ']' :: '\n' :: rest)).length + 1)
      (outer ++ '.' :: (name ++ ']' :: '\n' :: rest)) =
        some ([String.ofList outer, String.ofList name], ']' :: '\n' :: rest) := by
    rw [keyParts_dotted _ (skipBlanks_bare bareOuter _) (keyPart_bare bareOuter (by decide) _),
      List.length_append, List.length_cons, ← Nat.add_assoc, keyParts_header bareName]
    rfl
  rw [headerKey, key, parts]
  simp [depthLimit, lineEnd_newline]

end Header

/-! ### Values -/

theorem renderText_head (s : String) :
    ∃ quote cs, renderText s = quote :: cs ∧ (quote = '"' ∨ quote = '\'') := by
  rw [renderText]
  cases (Traits.of s.toList).style with
  | basic => exact ⟨_, _, rfl, .inl rfl⟩
  | literal => exact ⟨_, _, rfl, .inr rfl⟩
  | basicLines => exact ⟨_, _, rfl, .inl rfl⟩
  | literalLines => exact ⟨_, _, rfl, .inr rfl⟩

theorem value_renderText (fuel depth : Nat) (s : String) {rest : List Char}
    (unquoted : Unquoted rest) :
    value (fuel + 1) depth (renderText s ++ rest) = some (.string s, rest) := by
  have read := string?_renderText s unquoted
  obtain ⟨quote, cs, same, double | single⟩ := renderText_head s
  · subst double
    rw [same, List.cons_append] at read ⊢
    rw [value, read]
    simp
  · subst single
    rw [same, List.cons_append] at read ⊢
    rw [value, read]
    simp

theorem value_renderNat (fuel depth : Nat) {n : Nat} (small : n < 1 <<< 63) (rest : List Char) :
    value (fuel + 1) depth (renderNat n ++ '\n' :: rest) = some (.integer n, '\n' :: rest) := by
  have read := wordOf_renderNat small rest
  obtain ⟨d, ds, same⟩ := renderNat_cons n
  have digit : d.isDigit = true := isDigit_renderNat (same ▸ List.mem_cons_self ..)
  have other : ∀ c : Char, c.isDigit = false → d ≠ c := fun c => ne_of_test digit
  rw [same, List.cons_append] at read ⊢
  rw [value, read]
  all_goals simp [other]

theorem skipAll_renderText (s : String) (rest : List Char) :
    skipAll (renderText s ++ rest) = some (renderText s ++ rest) := by
  obtain ⟨quote, cs, same, rfl | rfl⟩ := renderText_head s
  all_goals
    rw [same]
    rfl

theorem skipAll_item (s : String) (rest : List Char) :
    skipAll ('\n' :: ("    ".toList ++ (renderText s ++ rest))) = some (renderText s ++ rest) := by
  obtain ⟨quote, cs, same, rfl | rfl⟩ := renderText_head s
  all_goals
    rw [same]
    rfl

section Elements

variable {cs rest : List Char} {s : String} (fuel depth : Nat)

theorem elements_last (skip : skipAll cs = some (renderText s ++ ']' :: rest)) :
    elements (fuel + 2) depth cs = some ([.string s], rest) := by
  have read := value_renderText fuel depth s (unquoted_cons (c := ']') (by decide) (by decide) rest)
  have stop : skipAll (']' :: rest) = some (']' :: rest) := rfl
  obtain ⟨quote, cs, same, rfl | rfl⟩ := renderText_head s
  all_goals
    rw [same, List.cons_append] at read skip
    rw [elements, skip]
    simp [read, stop]

theorem elements_comma (skip : skipAll cs = some (renderText s ++ ',' :: rest)) :
    elements (fuel + 2) depth cs =
      (elements (fuel + 1) depth rest).map fun r => (.string s :: r.1, r.2) := by
  have read := value_renderText fuel depth s (unquoted_cons (c := ',') (by decide) (by decide) rest)
  have stop : skipAll (',' :: rest) = some (',' :: rest) := rfl
  obtain ⟨quote, cs, same, rfl | rfl⟩ := renderText_head s
  all_goals
    rw [same, List.cons_append] at read skip
    rw [elements, skip]
    cases others : elements (fuel + 1) depth rest <;> simp [read, stop, others]

theorem elements_lines (items : List String) (enough : items.length < fuel) (rest : List Char) :
    elements fuel depth ('\n' :: (items.flatMap (fun s => "    ".toList ++ renderText s ++
      [',', '\n']) ++ ']' :: rest)) = some (items.map .string, rest) := by
  induction items generalizing fuel with
  | nil =>
    obtain ⟨fuel, rfl⟩ := Nat.exists_eq_add_one.mpr enough
    rw [elements]
    rfl
  | cons s items ih =>
    obtain ⟨fuel, rfl⟩ : ∃ more, fuel = more + 2 := ⟨fuel - 2, by grind⟩
    have skip := skipAll_item s (',' :: '\n' :: (items.flatMap (fun s => "    ".toList ++
      renderText s ++ [',', '\n']) ++ ']' :: rest))
    have more := ih (fuel + 1) (by grind)
    simp only [List.flatMap_cons, List.append_assoc, List.cons_append, List.nil_append]
      at skip more ⊢
    rw [elements_comma fuel depth skip, more]
    rfl

end Elements

/-- A text that is read as a value wherever its line ends behind it. -/
structure Reads (v : List Char) (t : Toml) : Prop where
  starts : ∀ rest, skipBlanks (v ++ rest) = v ++ rest
  reads : ∀ fuel, v.length < fuel → ∀ rest,
    value fuel (depthLimit - 1) (v ++ '\n' :: rest) = some (t, '\n' :: rest)

theorem reads_renderText (s : String) : Reads (renderText s) (.string s) where
  starts rest := by
    obtain ⟨quote, cs, same, rfl | rfl⟩ := renderText_head s
    all_goals
      rw [same]
      rfl
  reads fuel enough rest := by
    obtain ⟨fuel, rfl⟩ := Nat.exists_eq_add_one.mpr (Nat.zero_lt_of_lt enough)
    exact value_renderText fuel _ s (unquoted_cons (by decide) (by decide) rest)

theorem reads_renderNat {n : Nat} (small : n < 1 <<< 63) : Reads (renderNat n) (.integer n) where
  starts rest := by
    obtain ⟨d, ds, same⟩ := renderNat_cons n
    have digit : d.isDigit = true := isDigit_renderNat (same ▸ List.mem_cons_self ..)
    rw [same]
    exact skipBlanks_key (by simp [startsKey, isBareKeyChar, Char.isAlphanum, digit]) _
  reads fuel enough rest := by
    obtain ⟨fuel, rfl⟩ := Nat.exists_eq_add_one.mpr (Nat.zero_lt_of_lt enough)
    exact value_renderNat fuel _ small rest

theorem length_renderArray (items : List String) :
    items.length + 2 ≤ (renderArray items).length := by
  have lines : items.length ≤
      (items.flatMap fun s => "    ".toList ++ renderText s ++ [',', '\n']).length := by
    induction items with
    | nil => exact Nat.le_refl 0
    | cons s items ih =>
      simp only [List.flatMap_cons, List.length_append, List.length_cons]
      omega
  match items with
  | [] => exact Nat.le_refl 2
  | [s] =>
    obtain ⟨quote, cs, same, -⟩ := renderText_head s
    simp [renderArray, same]
  | s :: t :: items =>
    simp only [renderArray, List.length_append, List.length_cons]
    simp only [List.length_cons] at lines
    omega

theorem value_array {fuel depth : Nat} {cs rest : List Char} {items : List Toml}
    (read : elements fuel depth cs = some (items, rest)) :
    value (fuel + 1) (depth + 1) ('[' :: cs) = some (.array items, rest) := by
  rw [value, if_neg (Nat.succ_ne_zero depth), Nat.add_sub_cancel, read]
  rfl

theorem reads_renderArray (items : List String) :
    Reads (renderArray items) (.array (items.map .string)) where
  starts rest := by
    match items with
    | [] | [s] | s :: t :: items => rfl
  reads fuel enough rest := by
    have longer := length_renderArray items
    obtain ⟨fuel, rfl⟩ : ∃ more, fuel = more + 3 := ⟨fuel - 3, by omega⟩
    match items with
    | [] => exact value_array rfl
    | [s] =>
      have read := elements_last fuel 78 (skipAll_renderText s (']' :: '\n' :: rest))
      simpa [renderArray, depthLimit] using value_array read
    | s :: t :: items =>
      have read := elements_lines (fuel + 2) 78 (s :: t :: items) (by omega) ('\n' :: rest)
      simpa [renderArray, depthLimit] using value_array read

end DataReach.Toml
