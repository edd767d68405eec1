import DataReach.Disk
/-!
Changing an entry changes the directory around it and nothing beside it: putting and dropping are
edits of the children of one directory.
-/

namespace DataReach

theorem Dict.alter_eq_insert {κ α : Type} [DecidableEq κ] {d : Dict κ α} {k : κ} {v : α}
    (found : d.get? k = some v) (f : Option α → α) : d.alter k f = d.insert k (f (some v)) := by
  induction d with
  | nil => cases found
  | cons entry rest ih =>
    obtain ⟨first, w⟩ := entry
    rw [Dict.get?_cons] at found
    rw [Dict.insert, Dict.alter, Dict.alter]
    split
    · next same =>
      rw [if_pos same.symm] at found
      cases found
      rfl
    · next other =>
      rw [if_neg (Ne.symm other)] at found
      rw [ih found]
      rfl

namespace DiskEntry

def isDirectory : DiskEntry → Bool
  | .file _ => false
  | .directory _ => true

theorem at?_append (e : DiskEntry) (front back : Place) :
    e.at? (front ++ back) = (e.at? front).bind (·.at? back) := by
  induction front generalizing e with
  | nil => simp [at?]
  | cons name rest ih =>
    cases e with
    | file c => simp [at?]
    | directory children =>
      cases found : Dict.get? children name with
      | none => simp [at?, found]
      | some child => simp [at?, found, ih]

def edit (f : Dict FileName DiskEntry → Dict FileName DiskEntry) :
    DiskEntry → Place → DiskEntry
  | .directory children, [] => .directory (f children)
  | .directory children, name :: rest =>
    match Dict.get? children name with
    | some e => .directory (Dict.insert children name (e.edit f rest))
    | none => .directory children
  | e, _ => e

variable {e : DiskEntry} {place : Place} {children : Dict FileName DiskEntry}
  {f : Dict FileName DiskEntry → Dict FileName DiskEntry}

theorem put_eq_edit (name : FileName) (new : DiskEntry)
    (found : e.at? place = some (.directory children)) :
    e.put (place ++ [name]) new = e.edit (Dict.insert · name new) place := by
  induction place generalizing e with
  | nil =>
    cases e with
    | file c => cases found
    | directory own => rfl
  | cons first rest ih =>
    cases e with
    | file c => cases found
    | directory own =>
      rw [at?] at found
      rcases Option.bind_eq_some_iff.mp found with ⟨child, here, below⟩
      rw [List.cons_append, put, edit, here, Dict.alter_eq_insert here]
      simp only [Option.getD_some, ih below]

theorem drop_eq_edit (name : FileName) (found : e.at? place = some (.directory children)) :
    e.drop (place ++ [name]) = e.edit (Dict.erase · name) place := by
  induction place generalizing e with
  | nil =>
    cases e with
    | file c => cases found
    | directory own => rfl
  | cons first rest ih =>
    cases e with
    | file c => cases found
    | directory own =>
      rw [at?] at found
      rcases Option.bind_eq_some_iff.mp found with ⟨child, here, below⟩
      have more : rest ++ [name] ≠ [] := by simp
      rw [List.cons_append, edit, here]
      rw [drop]
      · simp only [here, ih below]
      · exact more

theorem at?_edit (found : e.at? place = some (.directory children)) :
    (e.edit f place).at? place = some (.directory (f children)) := by
  induction place generalizing e with
  | nil =>
    cases e with
    | file c => cases found
    | directory own =>
      cases found
      rfl
  | cons first rest ih =>
    cases e with
    | file c => cases found
    | directory own =>
      rw [at?] at found
      rcases Option.bind_eq_some_iff.mp found with ⟨child, here, below⟩
      rw [edit, here]
      simp [at?, Dict.get?_insert, ih below]

theorem at?_edit_beside {front back rest : Place} {x y : FileName} (other : y ≠ x) :
    (e.edit f (front ++ x :: back)).at? (front ++ y :: rest) = e.at? (front ++ y :: rest) := by
  induction front generalizing e with
  | nil =>
    cases e with
    | file c => rfl
    | directory own =>
      rw [List.nil_append, edit]
      split
      · simp [at?, Dict.get?_insert, other]
      · rfl
  | cons first others ih =>
    cases e with
    | file c => rfl
    | directory own =>
      rw [List.cons_append, edit]
      split
      · next child here => simp [at?, Dict.get?_insert, here, ih]
      · rfl

theorem isDirectory_edit (found : e.at? place = some (.directory children))
    (kept : ∀ name rest, ((directory (f children)).at? (name :: rest)).map isDirectory = some true ↔
      ((directory children).at? (name :: rest)).map isDirectory = some true) (p : Place) :
    ((e.edit f place).at? p).map isDirectory = some true ↔
      (e.at? p).map isDirectory = some true := by
  induction place generalizing e p with
  | nil =>
    cases e with
    | file c => cases found
    | directory own =>
      cases found
      cases p with
      | nil => rfl
      | cons name rest => exact kept name rest
  | cons first rest ih =>
    cases e with
    | file c => cases found
    | directory own =>
      rw [at?] at found
      rcases Option.bind_eq_some_iff.mp found with ⟨child, here, below⟩
      rw [edit, here]
      cases p with
      | nil => rfl
      | cons name others =>
        by_cases same : name = first
        · subst same
          simpa [at?, Dict.get?_insert, here] using ih below others
        · simp [at?, Dict.get?_insert, same]

theorem isDirectory_put {old new : DiskEntry} (found : e.at? place = some old)
    (grows : ∀ rest, (old.at? rest).map isDirectory = some true →
      (new.at? rest).map isDirectory = some true) (p : Place)
    (there : (e.at? p).map isDirectory = some true) :
    ((e.put place new).at? p).map isDirectory = some true := by
  induction place generalizing e p with
  | nil =>
    cases found
    exact grows p there
  | cons first rest ih =>
    cases e with
    | file c => cases found
    | directory own =>
      rw [at?] at found
      obtain ⟨child, here, below⟩ := Option.bind_eq_some_iff.mp found
      rw [put, Dict.alter_eq_insert here]
      cases p with
      | nil => rfl
      | cons name others =>
        by_cases same : name = first
        · subst same
          simp only [at?, here, Option.bind_some] at there
          simpa [at?, Dict.get?_insert] using ih below others there
        · simpa [at?, Dict.get?_insert, same] using there

end DiskEntry

end DataReach
