import DataReach.Proofs.Disk.Path
import DataReach.Proofs.Disk.Tree
/-!
What the operations on files do, for paths made of a base and the name of an entry. Where a path
leads depends on which places are directories and on nothing else, and writing, moving and removing
files leaves these as they are.
-/

namespace DataReach

theorem Except.bind_eq_ok {ε α β : Type} {x : Except ε α} {f : α → Except ε β} {b : β} :
    x >>= f = .ok b ↔ ∃ a, x = .ok a ∧ f a = .ok b := by
  cases x with
  | error e => simp [bind, Except.bind]
  | ok a => simp [bind, Except.bind]

theorem Except.both_of_map {ε α β : Type} {x : Except ε α} {y : Except ε β}
    (same : x.map (fun _ => ()) = y.map fun _ => ()) :
    (∃ e, x = .error e ∧ y = .error e) ∨ ∃ a b, x = .ok a ∧ y = .ok b := by
  cases x <;> cases y <;> cases same
  · exact .inl ⟨_, rfl, rfl⟩
  · exact .inr ⟨_, _, rfl, rfl⟩

namespace Disk

def HasDirectory (d : Disk) (p : Place) : Prop :=
  (d.at? p).map DiskEntry.isDirectory = some true

theorem hasDirectory_iff {d : Disk} {p : Place} :
    d.HasDirectory p ↔ ∃ children, d.at? p = some (.directory children) := by
  rw [HasDirectory]
  cases d.at? p with
  | none => simp
  | some e => cases e <;> simp [DiskEntry.isDirectory]

theorem requireDirectory_iff {d : Disk} {p q : Place} :
    d.requireDirectory p = .ok q ↔ d.HasDirectory p ∧ q = p := by
  rw [requireDirectory, HasDirectory]
  cases d.at? p with
  | none => simp
  | some e => cases e <;> simp [DiskEntry.isDirectory, eq_comm]

def Fits (x : FileName) : Prop := x.text.utf8ByteSize ≤ Path.maxNameBytes

def Descends (d : Disk) (here : Place) : List FileName → Place → Prop
  | [], there => there = here
  | name :: rest, there =>
    Fits name ∧ d.HasDirectory (step here name) ∧ d.Descends (step here name) rest there

section Descends

variable {d : Disk} {here there : Place} {names : List FileName}

theorem descends_unique {other : Place} (first : d.Descends here names there)
    (second : d.Descends here names other) : there = other := by
  induction names generalizing here with
  | nil => exact first.trans second.symm
  | cons name rest ih => exact ih first.2.2 second.2.2

theorem descends_append (x : FileName) :
    d.Descends here (names ++ [x]) there ↔
      ∃ q, d.Descends here names q ∧ Fits x ∧ d.HasDirectory (step q x) ∧ there = step q x := by
  induction names generalizing here with
  | nil => simp [Descends]
  | cons name rest ih =>
    simp only [List.cons_append, Descends, ih]
    constructor
    · intro given
      rcases given with ⟨fits, directory, q, below, last⟩
      exact ⟨q, ⟨fits, directory, below⟩, last⟩
    · intro given
      rcases given with ⟨q, ⟨fits, directory, below⟩, last⟩
      exact ⟨fits, directory, q, below, last⟩

theorem descends_congr {d' : Disk} (same : ∀ p, d'.HasDirectory p ↔ d.HasDirectory p) :
    d'.Descends here names there ↔ d.Descends here names there := by
  induction names generalizing here with
  | nil => rfl
  | cons name rest ih => simp only [Descends, same, ih]

theorem descends_mono {d' : Disk} (grows : ∀ p, d.HasDirectory p → d'.HasDirectory p)
    (below : d.Descends here names there) : d'.Descends here names there := by
  induction names generalizing here with
  | nil => exact below
  | cons name rest ih => exact ⟨below.1, grows _ below.2.1, ih below.2.2⟩

theorem hasDirectory_of_descends (start : d.HasDirectory here)
    (below : d.Descends here names there) : d.HasDirectory there := by
  induction names generalizing here with
  | nil => exact below ▸ start
  | cons name rest ih => exact ih below.2.1 below.2.2

theorem hasDirectory_top (d : Disk) : d.HasDirectory [] := rfl

/-- Behind names that lead through directories only the length of the last name matters. -/
theorem follow_of_descends (x : FileName) (below : d.Descends here names there) :
    d.follow here (names ++ [x]) =
      if Path.maxNameBytes < x.text.utf8ByteSize then .error .nameTooLong
      else .ok (step there x) := by
  induction names generalizing here with
  | nil =>
    cases below
    simp [follow]
  | cons name rest ih =>
    have fits : ¬ Path.maxNameBytes < name.text.utf8ByteSize := Nat.not_lt.mpr below.1
    have more : (rest ++ [x]).isEmpty = false := by simp
    have opened : d.requireDirectory (step here name) = .ok (step here name) :=
      requireDirectory_iff.mpr ⟨below.2.1, rfl⟩
    rw [List.cons_append, follow, if_neg fits, more, opened]
    exact ih below.2.2

theorem descends_of_follow {x : FileName} {p : Place}
    (found : d.follow here (names ++ [x]) = .ok p) : ∃ q, d.Descends here names q := by
  induction names generalizing here with
  | nil => exact ⟨here, rfl⟩
  | cons name rest ih =>
    rw [List.cons_append, follow] at found
    have more : (rest ++ [x]).isEmpty = false := by simp
    split at found
    · cases found
    · next fits =>
      rw [more, if_neg Bool.false_ne_true] at found
      cases opened : d.requireDirectory (step here name) with
      | error e =>
        rw [opened] at found
        cases found
      | ok q =>
        rw [opened] at found
        rcases requireDirectory_iff.mp opened with ⟨directory, rfl⟩
        rcases ih found with ⟨there, below⟩
        exact ⟨there, Nat.not_lt.mp fits, directory, below⟩

end Descends

def Passable (base : String) (x : FileName) : Prop :=
  checkPath (Path.join base x.text) = .ok () ∧ Fits x

section Joined

variable {d d' : Disk} {base : String} {x y : FileName} {p q : Place}

theorem step_of_proper (proper : x.Proper) : step q x = q ++ [x] := by
  have other : (x.text == "..") = false := by
    apply beq_false_of_ne
    intro dots
    simp [FileName.Proper, dots] at proper
  simp [step, other]

theorem locate_of_descends (proper : x.Proper) (below : d.Descends [] (Path.steps base) q) :
    d.locate (Path.join base x.text) = (checkPath (Path.join base x.text) >>= fun _ =>
      if Path.maxNameBytes < x.text.utf8ByteSize then .error .nameTooLong
      else .ok (q ++ [x])) := by
  rw [locate, Path.not_meansDirectory_join base proper, Path.steps_join base proper,
    follow_of_descends x below, step_of_proper proper]
  rfl

theorem locate_join (proper : x.Proper) :
    d.locate (Path.join base x.text) = .ok p ↔
      Passable base x ∧ ∃ q, d.Descends [] (Path.steps base) q ∧ p = q ++ [x] := by
  constructor
  · intro found
    have reached : ∃ q, d.Descends [] (Path.steps base) q := by
      rw [locate, Path.not_meansDirectory_join base proper, Path.steps_join base proper] at found
      rcases Except.bind_eq_ok.mp found with ⟨_, -, followed⟩
      exact descends_of_follow followed
    rcases reached with ⟨q, below⟩
    rw [locate_of_descends proper below] at found
    rcases Except.bind_eq_ok.mp found with ⟨_, checked, placed⟩
    split at placed
    · cases placed
    · next fits =>
      cases placed
      exact ⟨⟨checked, Nat.not_lt.mp fits⟩, q, below, rfl⟩
  · intro given
    rcases given with ⟨⟨checked, fits⟩, q, below, rfl⟩
    rw [locate_of_descends proper below]
    exact Except.bind_eq_ok.mpr ⟨(), checked, if_neg (Nat.not_lt.mpr fits)⟩

theorem find_join (proper : x.Proper) {e : DiskEntry} :
    d.find (Path.join base x.text) = .ok (p, e) ↔
      Passable base x ∧ ∃ q, d.Descends [] (Path.steps base) q ∧ p = q ++ [x] ∧
        d.at? p = some e := by
  rw [find]
  constructor
  · intro found
    rcases Except.bind_eq_ok.mp found with ⟨there, located, held⟩
    rcases (locate_join proper).mp located with ⟨passable, q, below, rfl⟩
    split at held
    · next entry same =>
      cases held
      exact ⟨passable, q, below, rfl, same⟩
    · cases held
  · intro given
    rcases given with ⟨passable, q, below, rfl, held⟩
    refine Except.bind_eq_ok.mpr ⟨q ++ [x], (locate_join proper).mpr ⟨passable, q, below, rfl⟩, ?_⟩
    rw [held]

theorem find_congr (proper : x.Proper) (below : d.Descends [] (Path.steps base) q)
    (below' : d'.Descends [] (Path.steps base) q)
    (same : d'.at? (q ++ [x]) = d.at? (q ++ [x])) :
    d'.find (Path.join base x.text) = d.find (Path.join base x.text) := by
  rw [find, find, locate_of_descends proper below, locate_of_descends proper below']
  cases checkPath (Path.join base x.text) with
  | error e => rfl
  | ok u =>
    by_cases long : Path.maxNameBytes < x.text.utf8ByteSize
    · simp [bind, Except.bind, long]
    · simp [bind, Except.bind, long, same]

theorem read_join (proper : x.Proper) {c : Content} :
    d.read (Path.join base x.text) = .ok c ↔
      Passable base x ∧ ∃ q, d.Descends [] (Path.steps base) q ∧
        d.at? (q ++ [x]) = some (.file c) := by
  rw [read]
  constructor
  · intro found
    rcases Except.bind_eq_ok.mp found with ⟨⟨p, e⟩, located, isFile⟩
    rcases (find_join proper).mp located with ⟨passable, q, below, rfl, held⟩
    cases e with
    | directory children => cases isFile
    | file own =>
      cases isFile
      exact ⟨passable, q, below, held⟩
  · intro given
    rcases given with ⟨passable, q, below, held⟩
    exact Except.bind_eq_ok.mpr ⟨_, (find_join proper).mpr ⟨passable, q, below, rfl, held⟩, rfl⟩

theorem write_join (proper : x.Proper) {c : Content} :
    d.write (Path.join base x.text) c = .ok d' ↔
      Passable base x ∧ ∃ q, d.Descends [] (Path.steps base) q ∧ ¬ d.HasDirectory (q ++ [x]) ∧
        d' = d.put (q ++ [x]) (.file c) := by
  constructor
  · intro written
    rcases Except.bind_eq_ok.mp written with ⟨place, located, put⟩
    rcases (locate_join proper).mp located with ⟨passable, q, below, rfl⟩
    refine ⟨passable, q, below, ?_⟩
    split at put
    · cases put
    · next other =>
      cases put
      refine ⟨?_, rfl⟩
      intro directory
      rcases hasDirectory_iff.mp directory with ⟨children, held⟩
      exact other children held
  · intro given
    rcases given with ⟨passable, q, below, free, rfl⟩
    have located := (locate_join proper).mpr ⟨passable, q, below, rfl⟩
    refine Except.bind_eq_ok.mpr ⟨q ++ [x], located, ?_⟩
    split
    · next children held => exact absurd (hasDirectory_iff.mpr ⟨children, held⟩) free
    · rfl

theorem rename_join (source : x.Proper) (target : y.Proper) :
    d.rename (Path.join base x.text) (Path.join base y.text) = .ok d' ↔
      Passable base x ∧ Passable base y ∧ ∃ q e, d.Descends [] (Path.steps base) q ∧
        d.at? (q ++ [x]) = some e ∧ ¬ d.HasDirectory (q ++ [y]) ∧
        d' = (d.drop (q ++ [x])).put (q ++ [y]) e := by
  constructor
  · intro renamed
    rcases Except.bind_eq_ok.mp renamed with ⟨⟨p, e⟩, located, moved⟩
    rcases (find_join source).mp located with ⟨passable, q, below, rfl, held⟩
    rcases Except.bind_eq_ok.mp moved with ⟨place, goal, put⟩
    rcases (locate_join target).mp goal with ⟨passable', q', below', rfl⟩
    obtain rfl := descends_unique below below'
    refine ⟨passable, passable', q, e, below, held, ?_⟩
    split at put
    · cases put
    · next other =>
      cases put
      refine ⟨?_, rfl⟩
      intro directory
      rcases hasDirectory_iff.mp directory with ⟨children, there⟩
      exact other children there
  · intro given
    rcases given with ⟨passable, passable', q, e, below, held, free, rfl⟩
    have found := (find_join source).mpr ⟨passable, q, below, rfl, held⟩
    have located := (locate_join target).mpr ⟨passable', q, below, rfl⟩
    refine Except.bind_eq_ok.mpr ⟨_, found, Except.bind_eq_ok.mpr ⟨_, located, ?_⟩⟩
    split
    · next children there => exact absurd (hasDirectory_iff.mpr ⟨children, there⟩) free
    · rfl

theorem write_congr (proper : x.Proper) (below : d.Descends [] (Path.steps base) q)
    (below' : d'.Descends [] (Path.steps base) q)
    (same : d'.HasDirectory (q ++ [x]) ↔ d.HasDirectory (q ++ [x])) (c c' : Content) :
    (d'.write (Path.join base x.text) c').map (fun _ => ()) =
      (d.write (Path.join base x.text) c).map fun _ => () := by
  rw [write, write, locate_of_descends proper below, locate_of_descends proper below']
  cases checkPath (Path.join base x.text) with
  | error e => rfl
  | ok u =>
    by_cases long : Path.maxNameBytes < x.text.utf8ByteSize
    · simp [bind, Except.bind, long]
    · simp only [bind, Except.bind, long, if_false]
      rw [HasDirectory, HasDirectory] at same
      generalize d.at? (q ++ [x]) = e at same ⊢
      generalize d'.at? (q ++ [x]) = e' at same ⊢
      rcases e with _ | (_ | _) <;> rcases e' with _ | (_ | _) <;>
        first
          | rfl
          | simp [DiskEntry.isDirectory] at same

theorem rename_congr (source : x.Proper) (target : y.Proper)
    (below : d.Descends [] (Path.steps base) q) (below' : d'.Descends [] (Path.steps base) q)
    (there : (d.at? (q ++ [x])).isSome) (there' : (d'.at? (q ++ [x])).isSome)
    (same : d'.HasDirectory (q ++ [y]) ↔ d.HasDirectory (q ++ [y])) :
    (d'.rename (Path.join base x.text) (Path.join base y.text)).map (fun _ => ()) =
      (d.rename (Path.join base x.text) (Path.join base y.text)).map fun _ => () := by
  rw [rename, rename, find, find, locate_of_descends source below, locate_of_descends source below',
    locate_of_descends target below, locate_of_descends target below']
  cases checkPath (Path.join base x.text) with
  | error e => rfl
  | ok u =>
    by_cases long : Path.maxNameBytes < x.text.utf8ByteSize
    · simp [bind, Except.bind, long]
    · obtain ⟨e, held⟩ := Option.isSome_iff_exists.mp there
      obtain ⟨e', held'⟩ := Option.isSome_iff_exists.mp there'
      simp only [bind, Except.bind, long, if_false, held, held']
      cases checkPath (Path.join base y.text) with
      | error e => rfl
      | ok u =>
        by_cases longer : Path.maxNameBytes < y.text.utf8ByteSize
        · simp [longer]
        · simp only [longer, if_false]
          rw [HasDirectory, HasDirectory] at same
          generalize d.at? (q ++ [y]) = e at same ⊢
          generalize d'.at? (q ++ [y]) = e' at same ⊢
          rcases e with _ | (_ | _) <;> rcases e' with _ | (_ | _) <;>
            first
              | rfl
              | simp [DiskEntry.isDirectory] at same

theorem removeFile_join (proper : x.Proper) (below : d.Descends [] (Path.steps base) q)
    (removed : d.removeFile (Path.join base x.text) = .ok d') :
    ¬ d.HasDirectory (q ++ [x]) ∧ d' = d.drop (q ++ [x]) := by
  rcases Except.bind_eq_ok.mp removed with ⟨⟨p, e⟩, located, dropped⟩
  rcases (find_join proper).mp located with ⟨-, q', below', rfl, held⟩
  obtain rfl := descends_unique below below'
  cases e with
  | directory children => cases dropped
  | file c =>
    cases dropped
    exact ⟨by simp [HasDirectory, held, DiskEntry.isDirectory], rfl⟩

theorem checkPath_ne_notFound (path : String) : checkPath path ≠ .error .notFound := by
  rw [checkPath]
  split
  · simp
  · split <;> simp

theorem at?_of_find (proper : x.Proper) (below : d.Descends [] (Path.steps base) q)
    (missing : d.find (Path.join base x.text) = .error .notFound) : d.at? (q ++ [x]) = none := by
  rw [find, locate_of_descends proper below] at missing
  cases checked : checkPath (Path.join base x.text) with
  | error err =>
    rw [checked] at missing
    cases missing
    exact absurd checked (checkPath_ne_notFound _)
  | ok u =>
    rw [checked] at missing
    by_cases long : Path.maxNameBytes < x.text.utf8ByteSize
    · simp [long, bind, Except.bind] at missing
    · cases held : d.at? (q ++ [x]) with
      | none => rfl
      | some e => simp [long, bind, Except.bind, held] at missing

theorem at?_of_removeFile (proper : x.Proper) (below : d.Descends [] (Path.steps base) q)
    (missing : d.removeFile (Path.join base x.text) = .error .notFound) :
    d.at? (q ++ [x]) = none := by
  apply at?_of_find proper below
  rw [removeFile] at missing
  cases found : d.find (Path.join base x.text) with
  | error err =>
    rw [found] at missing
    cases missing
    rfl
  | ok place =>
    rcases place with ⟨p, e⟩
    rw [found] at missing
    cases e <;> cases missing

end Joined

/-- Two disks differ in the children of one directory, but not in where directories are. -/
structure Edited (d d' : Disk) (q : Place) (before after : Dict FileName DiskEntry) : Prop where
  held : d.at? q = some (.directory before)
  holds : d'.at? q = some (.directory after)
  directories : ∀ p, d'.HasDirectory p ↔ d.HasDirectory p

section Edited

variable {d d' : Disk} {base : String} {x y : FileName} {q : Place}
  {before between after children : Dict FileName DiskEntry}

theorem edited_trans {d'' : Disk} (first : Edited d d' q before between)
    (second : Edited d' d'' q between after) : Edited d d'' q before after where
  held := first.held
  holds := second.holds
  directories p := (second.directories p).trans (first.directories p)

theorem at?_below (held : d.at? q = some (.directory children)) (y : FileName)
    (rest : Place) :
    d.at? (q ++ y :: rest) = (Dict.get? children y).bind fun e => e.at? rest := by
  rw [at?] at held ⊢
  rw [DiskEntry.at?_append, held]
  rfl

theorem at?_child (held : d.at? q = some (.directory children)) (y : FileName) :
    d.at? (q ++ [y]) = Dict.get? children y := by
  rw [at?_below held]
  cases Dict.get? children y <;> rfl

theorem edited_of_edit (f : Dict FileName DiskEntry → Dict FileName DiskEntry) (x : FileName)
    (held : d.at? q = some (.directory children)) (result : d'.top = d.top.edit f q)
    (others : ∀ y, y ≠ x → Dict.get? (f children) y = Dict.get? children y)
    (old : (Dict.get? children x).map DiskEntry.isDirectory ≠ some true)
    (new : (Dict.get? (f children) x).map DiskEntry.isDirectory ≠ some true) :
    Edited d d' q children (f children) where
  held := held
  holds := by
    rw [at?, result]
    exact DiskEntry.at?_edit held
  directories := by
    intro p
    rw [HasDirectory, HasDirectory, at?, at?, result]
    refine DiskEntry.isDirectory_edit held (fun y rest => ?_) p
    by_cases same : y = x
    · -- Below what is no directory there is nothing.
      have nothing : ∀ e : Option DiskEntry, e.map DiskEntry.isDirectory ≠ some true →
          ¬ (e.bind fun e => e.at? rest).map DiskEntry.isDirectory = some true := by
        intro e file
        cases e with
        | none => simp
        | some e =>
          cases e with
          | directory own => exact absurd rfl file
          | file c => cases rest <;> simp [DiskEntry.at?, DiskEntry.isDirectory]
      rw [same]
      exact iff_of_false (nothing _ new) (nothing _ old)
    · simp only [DiskEntry.at?, others y same]

theorem top_put (e : DiskEntry) : (d.put (q ++ [x]) e).top = d.top.put (q ++ [x]) e := by
  cases q <;> rfl

theorem top_drop : (d.drop (q ++ [x])).top = d.top.drop (q ++ [x]) := by
  cases q with
  | nil => rfl
  | cons name rest =>
    have more : rest ++ [x] ≠ [] := by simp
    rw [drop, top, top, List.cons_append, DiskEntry.drop]
    · split <;> rfl
    · exact more

theorem edited_put (held : d.at? q = some (.directory children))
    (other : ¬ d.HasDirectory (q ++ [x])) (c : Content) :
    Edited d (d.put (q ++ [x]) (.file c)) q children (Dict.insert children x (.file c)) := by
  rw [HasDirectory, at?_child held] at other
  refine edited_of_edit (Dict.insert · x (.file c)) x held ?_ ?_ other ?_
  · rw [top_put, DiskEntry.put_eq_edit x (.file c) held]
  · intro y differs
    rw [Dict.get?_insert, if_neg differs]
  · simp [Dict.get?_insert, DiskEntry.isDirectory]

theorem at?_put_beside (held : d.at? (q ++ [x]) = some (.directory children)) {z : FileName}
    (other : z ≠ x) (e : DiskEntry) (rest : Place) :
    (d.put (q ++ [x] ++ [y]) e).at? (q ++ z :: rest) = d.at? (q ++ z :: rest) := by
  rw [at?, top_put, DiskEntry.put_eq_edit y e held]
  exact DiskEntry.at?_edit_beside other

theorem edited_drop (held : d.at? q = some (.directory children))
    (other : ¬ d.HasDirectory (q ++ [x])) :
    Edited d (d.drop (q ++ [x])) q children (Dict.erase children x) := by
  rw [HasDirectory, at?_child held] at other
  refine edited_of_edit (Dict.erase · x) x held ?_ ?_ other ?_
  · rw [top_drop, DiskEntry.drop_eq_edit x held]
  · intro y differs
    rw [Dict.get?_erase, if_neg differs]
  · simp [Dict.get?_erase]

/-- The children of a directory once a file was written beside its place and moved there. -/
def replaced (children : Dict FileName DiskEntry) (draft x : FileName) (c : Content) :
    Dict FileName DiskEntry :=
  Dict.insert (Dict.erase (Dict.insert children draft (.file c)) draft) x (.file c)

/-- A file can be written as a draft and moved from there: nothing is in the way. -/
structure Replaceable (d : Disk) (base : String) (draft x : FileName) : Prop where
  passable : Passable base x
  drafted : Passable base draft
  free : ∃ q, d.Descends [] (Path.steps base) q ∧ ¬ d.HasDirectory (q ++ [draft]) ∧
    ¬ d.HasDirectory (q ++ [x])

theorem replaceable_congr (same : ∀ p, d'.HasDirectory p ↔ d.HasDirectory p) {draft : FileName}
    (replaceable : Replaceable d base draft x) : Replaceable d' base draft x where
  passable := replaceable.passable
  drafted := replaceable.drafted
  free := by
    rcases replaceable.free with ⟨q, below, noDraft, noTarget⟩
    refine ⟨q, (descends_congr same).mpr below, ?_, ?_⟩
    · rwa [same]
    · rwa [same]

theorem edited_replace {moved : Disk} {draft : FileName} {c : Content} (proper : x.Proper)
    (properDraft : draft.Proper) (written : d.write (Path.join base draft.text) c = .ok d')
    (renamed : d'.rename (Path.join base draft.text) (Path.join base x.text) = .ok moved) :
    Replaceable d base draft x ∧ ∃ q children, d.Descends [] (Path.steps base) q ∧
      Edited d moved q children (replaced children draft x c) := by
  rcases (write_join properDraft).mp written with ⟨drafted, q, below, free, rfl⟩
  rcases hasDirectory_iff.mp (hasDirectory_of_descends d.hasDirectory_top below) with
    ⟨children, held⟩
  have first := edited_put held free c
  rcases (rename_join properDraft proper).mp renamed with
    ⟨-, passable, q', e, below', found, place, rfl⟩
  obtain rfl : q = q' := descends_unique below ((descends_congr first.directories).mp below')
  rw [at?_child first.holds, Dict.get?_insert, if_pos rfl] at found
  cases found
  have isFile : ¬ (d.put (q ++ [draft]) (.file c)).HasDirectory (q ++ [draft]) := by
    rw [HasDirectory, at?_child first.holds, Dict.get?_insert, if_pos rfl]
    simp [DiskEntry.isDirectory]
  have second := edited_drop first.holds isFile
  have third := edited_put second.holds (fun directory => place ((second.directories _).mp directory))
    c
  rw [first.directories] at place
  exact ⟨⟨passable, drafted, q, below, free, place⟩, q, children, below,
    edited_trans (edited_trans first second) third⟩

theorem replace_ok {draft : FileName} (proper : x.Proper) (properDraft : draft.Proper)
    (replaceable : Replaceable d base draft x) (c : Content) :
    ∃ between moved, d.write (Path.join base draft.text) c = .ok between ∧
      between.rename (Path.join base draft.text) (Path.join base x.text) = .ok moved := by
  rcases replaceable.free with ⟨q, below, noDraft, noTarget⟩
  rcases hasDirectory_iff.mp (hasDirectory_of_descends d.hasDirectory_top below) with
    ⟨children, held⟩
  have first := edited_put held noDraft c
  have below' := (descends_congr first.directories).mpr below
  have drafted : (d.put (q ++ [draft]) (.file c)).at? (q ++ [draft]) = some (.file c) := by
    rw [at?_child first.holds, Dict.get?_insert, if_pos rfl]
  have place : ¬ (d.put (q ++ [draft]) (.file c)).HasDirectory (q ++ [x]) := by
    rwa [first.directories]
  exact ⟨_, _, (write_join properDraft).mpr ⟨replaceable.drafted, q, below, noDraft, rfl⟩,
    (rename_join properDraft proper).mpr
      ⟨replaceable.drafted, replaceable.passable, q, _, below', drafted, place, rfl⟩⟩

end Edited

end Disk

end DataReach
