import DataReach.Dict
import DataReach.Proofs.Toml.Reader
import Mathlib.Data.List.Forall2
import Mathlib.Data.List.Nodup
/-!
Written sections read back. Each line takes the tables read so far to those with its entry in the
table that is open; so do the lines of a section, one after the other.
-/

namespace DataReach.Toml

/-! ### The open table -/

section Fresh

variable {ms : Members} {name : String} (fresh : name ∉ Dict.keys ms)

include fresh

theorem lookup_fresh : ms.lookup name = none := (Dict.get?_eq_none_iff ms name).mpr fresh

theorem lookup_last (t : Toml) : (ms ++ [(name, t)]).lookup name = some t := by
  simp [List.lookup_append, lookup_fresh fresh]

theorem replace_last (t u : Toml) : replace (ms ++ [(name, t)]) name u = ms ++ [(name, u)] := by
  have others : ∀ m ∈ ms, (if m.1 == name then (name, u) else m) = m := by
    intro m member
    refine if_neg fun same => fresh ?_
    exact beq_iff_eq.mp same ▸ List.mem_map_of_mem member
  rw [replace, List.map_append, List.map_congr_left others, List.map_id']
  simp

theorem openTable_fresh : openTable name ms = some (ms ++ [(name, .table .header [])]) := by
  rw [openTable, lookup_fresh fresh]

theorem within_fresh (f : Members → Option Members) :
    within ms [name] f = (f []).map fun inner => ms ++ [(name, .table .implied inner)] := by
  rw [within, lookup_fresh fresh]
  simp only [within]
  cases f [] <;> rfl

theorem assign_fresh (v : Toml) : assign ms [] name v = some (ms ++ [(name, v)]) := by
  rw [assign, lookup_fresh fresh]
  rfl

end Fresh

/-- All tables of a document, as a function of the members of the one that names lead to: a change
of that one changes nothing else. -/
def Focus (context : Members → Members) (path : List String) : Prop :=
  ∀ ms f, within (context ms) path f = (f ms).map context

theorem focus_here : Focus id [] := fun ms f => by rw [within, Option.map_id, id, id]

theorem Focus.inside {context : Members → Members} {path : List String}
    (focus : Focus context path) {ms : Members} {name : String} (fresh : name ∉ Dict.keys ms)
    (kind : TableKind) (grows : kind ≠ .inline) :
    Focus (fun inner => ms ++ [(name, .table kind (context inner))]) (name :: path) := by
  intro inner f
  have step : within (ms ++ [(name, .table kind (context inner))]) (name :: path) f =
      (within (context inner) path f).map fun changed => ms ++ [(name, .table kind changed)] := by
    simp only [within, lookup_last fresh, replace_last fresh]
    cases kind with
    | inline => exact absurd rfl grows
    | header | implied | dotted => cases within (context inner) path f <;> rfl
  rw [step, focus, Option.map_map]
  rfl

/-! ### Lines -/

/-- The lines of a text, whatever follows it, take one draft to another. They use no more fuel than
they have characters. -/
def Advances (d : Draft) (cs : List Char) (d' : Draft) : Prop :=
  ∃ n ≤ cs.length, ∀ fuel rest, lines (fuel + n) d (cs ++ rest) = lines fuel d' rest

variable {d d' d'' : Draft}

theorem Advances.refl (d : Draft) : Advances d [] d :=
  ⟨0, Nat.le_refl 0, fun _ _ => rfl⟩

theorem Advances.append {cs cs' : List Char} (first : Advances d cs d')
    (second : Advances d' cs' d'') : Advances d (cs ++ cs') d'' := by
  obtain ⟨m, small, first⟩ := first
  obtain ⟨n, small', second⟩ := second
  refine ⟨n + m, by rw [List.length_append]; omega, fun fuel rest => ?_⟩
  calc lines (fuel + (n + m)) d (cs ++ cs' ++ rest)
    _ = lines (fuel + n + m) d (cs ++ (cs' ++ rest)) := by rw [Nat.add_assoc, List.append_assoc]
    _ = lines (fuel + n) d' (cs' ++ rest) := first (fuel + n) (cs' ++ rest)
    _ = lines fuel d'' rest := second fuel rest

theorem advances_line {c : Char} {cs : List Char} (plain : isBlank c = false)
    (read : ∀ rest, line d (c :: cs ++ rest) = some (d', rest)) : Advances d (c :: cs) d' := by
  refine ⟨1, by simp, fun fuel rest => ?_⟩
  have step := read rest
  rw [List.cons_append] at step ⊢
  simp only [lines, skipBlanks_cons plain, step, Option.bind_eq_bind, Option.bind_some]

theorem advances_blank (d : Draft) : Advances d ['\n'] d := by
  refine advances_line (by decide) fun rest => ?_
  rw [List.cons_append, List.nil_append, line, lineEnd_newline]
  rfl

theorem parse_advances {cs : List Char} (read : Advances .start cs d)
    (plain : ∀ tail, cs ≠ '\uFEFF' :: tail) :
    parse (String.ofList cs) = some (.table .header d.members) := by
  obtain ⟨n, small, read⟩ := read
  have all : lines (cs.length + 1) .start cs = some d.members := by
    calc lines (cs.length + 1) .start cs
      _ = lines (cs.length - n + 1 + n) .start (cs ++ []) := by
        rw [List.append_nil]
        congr 1
        omega
      _ = lines (cs.length - n + 1) d [] := read _ []
      _ = some d.members := rfl
  rw [parse, String.toList_ofList]
  split
  · exact absurd rfl (plain _)
  · rw [all]
    rfl

theorem line_header {cs rest : List Char} {path : List String} {name : String} {ms : Members}
    (single : ∀ tail, cs ≠ '[' :: tail) (read : headerKey [']'] cs = some ((path, name), rest))
    (opened : within d.members path (openTable name) = some ms) :
    line d ('[' :: cs) = some (⟨ms, path ++ [name]⟩, rest) := by
  rw [line, read]
  · simp [opened]
  · exact single

theorem line_pair {name : String} {v : List Char} {t : Toml} {ms : Members} (reads : Reads v t)
    (added : within d.members d.current (fun ms => assign ms [] name t) = some ms)
    (rest : List Char) : line d (renderPair name v ++ rest) = some (⟨ms, d.current⟩, rest) := by
  have text : renderPair name v ++ rest =
      renderKey name ++ ' ' :: '=' :: ' ' :: (v ++ '\n' :: rest) := by
    simp [renderPair]
  have first := key_renderKey name (' ' :: (v ++ '\n' :: rest))
  have skip : skipBlanks (' ' :: (v ++ '\n' :: rest)) = v ++ '\n' :: rest := by
    rw [skipBlanks, List.dropWhile_cons_of_pos (by decide)]
    exact reads.starts _
  have second := reads.reads (2 * (v ++ '\n' :: rest).length + 2)
    (by rw [List.length_append]; omega) rest
  obtain ⟨c, cs, same, start⟩ := renderKey_head name
  have hash : c ≠ '#' := ne_of_test start (by decide)
  have newline : c ≠ '\n' := ne_of_test start (by decide)
  have return' : c ≠ '\r' := ne_of_test start (by decide)
  have bracket : c ≠ '[' := ne_of_test start (by decide)
  rw [text]
  rw [same, List.cons_append] at first ⊢
  rw [line, first]
  · simp only [Option.bind_eq_bind, Option.bind_some, skip, second, added, lineEnd_newline]
    rfl
  all_goals simp [hash, newline, return', bracket]

theorem advances_pair {name : String} {v : List Char} {t : Toml} {ms : Members} (reads : Reads v t)
    (added : within d.members d.current (fun ms => assign ms [] name t) = some ms) :
    Advances d (renderPair name v) ⟨ms, d.current⟩ := by
  obtain ⟨c, cs, same, start⟩ := renderKey_head name
  have text : renderPair name v = c :: (cs ++ " = ".toList ++ v ++ ['\n']) := by
    simp [renderPair, same]
  have read := line_pair reads added
  rw [text] at read ⊢
  exact advances_line (isBlank_key start) read

/-! ### Sections -/

def Written (text : List Char) (e : String × Toml) : Prop :=
  ∃ v, text = renderPair e.1 v ∧ Reads v e.2

section Section

variable {context : Members → Members} {path : List String} (focus : Focus context path)

include focus

theorem advances_pairs {texts : List (List Char)} {es : Members}
    (written : List.Forall₂ Written texts es) {done : Members}
    (once : (Dict.keys (done ++ es)).Nodup) :
    Advances ⟨context done, path⟩ texts.flatten ⟨context (done ++ es), path⟩ := by
  induction written generalizing done with
  | nil =>
    rw [List.append_nil]
    exact Advances.refl _
  | @cons text e texts es first others ih =>
    obtain ⟨v, rfl, reads⟩ := first
    have fresh : e.1 ∉ Dict.keys done := by
      rw [Dict.keys, List.map_append, List.map_cons] at once
      exact (List.nodup_middle.mp once).notMem ∘ List.mem_append_left _
    have added : within (context done) path (fun ms => assign ms [] e.1 e.2) =
        some (context (done ++ [e])) := by
      rw [focus, assign_fresh fresh]
      rfl
    have rest : Advances ⟨context (done ++ [e]), path⟩ texts.flatten
        ⟨context (done ++ [e] ++ es), path⟩ := ih (by simpa using once)
    rw [List.append_assoc] at rest
    exact (advances_pair reads added).append rest

theorem advances_section {d : Draft} {header : String} {texts : List (List Char)} {es : Members}
    (opens : Advances d ('[' :: header.toList ++ [']', '\n']) ⟨context [], path⟩)
    (written : List.Forall₂ Written texts es) (once : (Dict.keys es).Nodup) :
    Advances d (renderSection header texts) ⟨context es, path⟩ :=
  opens.append (advances_pairs focus written once)

end Section

theorem bare_ne_bracket {name : List Char} (bare : IsBare name) (rest : List Char) :
    ∀ tail, name ++ rest ≠ '[' :: tail := by
  obtain ⟨c, cs, rfl, first⟩ := bare.head
  have other : c ≠ '[' := ne_of_test first (by decide)
  simp [other]

section Header

variable {outer name : String} (bare : IsBare name.toList) {ms : Members}

include bare

theorem advances_header (opened : openTable name d.members = some ms) :
    Advances d ('[' :: name.toList ++ [']', '\n']) ⟨ms, [name]⟩ := by
  refine advances_line (by decide) fun rest => ?_
  have read := headerKey_bare bare rest
  rw [String.ofList_toList] at read
  have step := line_header (bare_ne_bracket bare _) read opened
  simpa using step

theorem advances_dotted (bareOuter : IsBare outer.toList)
    (opened : within d.members [outer] (openTable name) = some ms) :
    Advances d ('[' :: (outer ++ "." ++ name).toList ++ [']', '\n']) ⟨ms, [outer, name]⟩ := by
  refine advances_line (by decide) fun rest => ?_
  have read := headerKey_dotted bare bareOuter rest
  rw [String.ofList_toList, String.ofList_toList] at read
  have step := line_header (bare_ne_bracket bareOuter _) read opened
  simpa using step

variable {texts : List (List Char)} {es : Members} (written : List.Forall₂ Written texts es)
  (once : (Dict.keys es).Nodup)

include written once

theorem advances_table (fresh : name ∉ Dict.keys d.members) :
    Advances d (renderSection name texts) ⟨d.members ++ [(name, .table .header es)], [name]⟩ :=
  advances_section (focus_here.inside fresh .header (by decide))
    (advances_header bare (openTable_fresh fresh)) written once

theorem advances_first (bareOuter : IsBare outer.toList) (fresh : outer ∉ Dict.keys d.members) :
    Advances d (renderSection (outer ++ "." ++ name) texts)
      ⟨d.members ++ [(outer, .table .implied [(name, .table .header es)])], [outer, name]⟩ := by
  have none : name ∉ Dict.keys ([] : Members) := List.not_mem_nil
  have opened : within d.members [outer] (openTable name) =
      some (d.members ++ [(outer, .table .implied [(name, .table .header [])])]) := by
    rw [within_fresh fresh, openTable_fresh none]
    rfl
  have focus := (focus_here.inside none .header (by decide)).inside fresh .implied (by decide)
  exact advances_section focus (advances_dotted bare bareOuter opened) written once

theorem advances_next {inner : Members} {current : List String} (bareOuter : IsBare outer.toList)
    (freshOuter : outer ∉ Dict.keys ms) (fresh : name ∉ Dict.keys inner) :
    Advances ⟨ms ++ [(outer, .table .implied inner)], current⟩
      (renderSection (outer ++ "." ++ name) texts)
      ⟨ms ++ [(outer, .table .implied (inner ++ [(name, .table .header es)]))], [outer, name]⟩ := by
  have opened : within (ms ++ [(outer, .table .implied inner)]) [outer] (openTable name) =
      some (ms ++ [(outer, .table .implied (inner ++ [(name, .table .header [])]))]) := by
    have focus := focus_here.inside freshOuter .implied (by decide)
    refine (focus inner (openTable name)).trans ?_
    rw [openTable_fresh fresh]
    rfl
  have focus := (focus_here.inside fresh .header (by decide)).inside freshOuter .implied (by decide)
  exact advances_section focus (advances_dotted bare bareOuter opened) written once

end Header

end DataReach.Toml
