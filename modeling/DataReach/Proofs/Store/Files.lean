import DataReach.Proofs.Disk.Operations
import DataReach.Proofs.Sorting
import DataReach.Proofs.Store.Document
/-!
The directory of a store: which keys its entries stand for, and how writing a document changes it.
-/

namespace DataReach.Store

/-! ### Names -/

theorem keyOfName_iff {name key : String} :
    keyOfName name = some key ↔ name = key ++ ".json" ∧ key ≠ "" := by
  rw [keyOfName]
  constructor
  · intro found
    split at found
    · next c rest chars =>
      have back := congrArg List.reverse chars
      rw [List.reverse_reverse] at back
      cases found
      refine ⟨?_, ?_⟩
      · apply String.toList_inj.mp
        simp [back]
      · intro empty
        have none := congrArg String.toList empty
        simp at none
    · cases found
  · intro given
    rcases given with ⟨rfl, some⟩
    have chars : (key ++ ".json").toList.reverse =
        'n' :: 'o' :: 's' :: 'j' :: '.' :: key.toList.reverse := by
      simp
    cases own : key.toList.reverse with
    | nil =>
      have none : key.toList = [] := by simpa using own
      exact absurd (String.toList_eq_nil_iff.mp none) some
    | cons c rest =>
      rw [chars, own]
      have back := congrArg List.reverse own
      rw [List.reverse_reverse] at back
      simp only [← back, String.ofList_toList]

def docName (key : String) (plain : '/' ∉ key.toList) : FileName where
  text := key ++ ".json"
  plain := by simpa using plain

def draftName (x : FileName) : FileName where
  text := x.text ++ ".tmp"
  plain := by simpa using x.plain

def filesName : FileName := ⟨"files", by decide⟩

def indexName : FileName := ⟨"index.json", by decide⟩

def entryPointsName : FileName := ⟨"entry-points.json", by decide⟩

theorem proper_docName {key : String} (plain : '/' ∉ key.toList) : (docName key plain).Proper := by
  simp [FileName.Proper, docName]

theorem proper_draftName (x : FileName) : (draftName x).Proper := by
  simp [FileName.Proper, draftName]

theorem proper_filesName : filesName.Proper := by
  simp [FileName.Proper, filesName]

theorem fits_filesName : Disk.Fits filesName := by
  unfold Disk.Fits
  decide

theorem filesDir_eq (root : String) : filesDir root = Path.join root filesName.text := rfl

theorem shardPath_eq (root : String) {key : String} (plain : '/' ∉ key.toList) :
    shardPath root key = Path.join (filesDir root) (docName key plain).text := rfl

theorem keyOfName_draft (x : FileName) : keyOfName (draftName x).text = none := by
  simp [keyOfName, draftName]

theorem docName_ne_draft {key : String} (plain : '/' ∉ key.toList) (x : FileName) :
    docName key plain ≠ draftName x := by
  intro same
  have last := congrArg (fun n : FileName => n.text.toList.getLast?) same
  simp [docName, draftName, List.getLast?_append] at last

theorem docName_inj {key other : String} {plain : '/' ∉ key.toList} {plain' : '/' ∉ other.toList}
    (same : docName key plain = docName other plain') : key = other := by
  have texts := congrArg FileName.text same
  have chars := congrArg String.toList texts
  simp only [docName, String.toList_append, List.append_cancel_right_eq] at chars
  exact String.toList_inj.mp chars

/-! ### The keys of a directory -/

def docKeys (children : Dict FileName DiskEntry) : List String :=
  (children.keys.map (·.text)).filterMap keyOfName

theorem mem_docKeys {children : Dict FileName DiskEntry} {key : String} :
    key ∈ docKeys children ↔
      ∃ plain : '/' ∉ key.toList, key ≠ "" ∧ docName key plain ∈ children.keys := by
  simp only [docKeys, List.mem_filterMap, List.mem_map]
  constructor
  · intro given
    rcases given with ⟨text, ⟨name, member, rfl⟩, stands⟩
    rcases keyOfName_iff.mp stands with ⟨same, some⟩
    have plain : '/' ∉ key.toList := by
      have outer := name.plain
      rw [same] at outer
      simp only [String.toList_append, List.mem_append, not_or] at outer
      exact outer.1
    have named : docName key plain = name := by
      cases name
      cases same
      rfl
    exact ⟨plain, some, named ▸ member⟩
  · intro given
    rcases given with ⟨plain, some, member⟩
    exact ⟨_, ⟨_, member, rfl⟩, keyOfName_iff.mpr ⟨rfl, some⟩⟩

theorem docKeys_insert (children : Dict FileName DiskEntry) (x : FileName) (e : DiskEntry) :
    docKeys (children.insert x e) =
      if x ∈ children.keys then docKeys children
      else docKeys children ++ (keyOfName x.text).toList := by
  rw [docKeys, Dict.insert, Dict.keys_alter]
  split
  · rfl
  · cases stands : keyOfName x.text <;> simp [docKeys, stands]

theorem docKeys_insert_draft (children : Dict FileName DiskEntry) (x : FileName) (e : DiskEntry) :
    docKeys (children.insert (draftName x) e) = docKeys children := by
  rw [docKeys_insert]
  split <;> simp [keyOfName_draft]

theorem keys_erase (children : Dict FileName DiskEntry) (x : FileName) :
    (children.erase x).keys = children.keys.filter (· ≠ x) := by
  simp [Dict.erase, Dict.keys, List.filter_map, Function.comp_def]

theorem docKeys_erase_sublist (children : Dict FileName DiskEntry) (x : FileName) :
    (docKeys (children.erase x)).Sublist (docKeys children) := by
  rw [docKeys, keys_erase]
  exact (List.filter_sublist.map _).filterMap _

theorem mem_keys_insert {children : Dict FileName DiskEntry} {x y : FileName} {e : DiskEntry} :
    y ∈ (children.insert x e).keys ↔ y = x ∨ y ∈ children.keys := by
  rw [Dict.insert, Dict.keys_alter]
  split
  · next present =>
    constructor
    · exact .inr
    · intro given
      rcases given with rfl | member
      · exact present
      · exact member
  · simp [or_comm]

theorem mem_docKeys_replaced {children : Dict FileName DiskEntry} {key : String}
    {plain : '/' ∉ key.toList} (some : key ≠ "") (c : Content) {k : String} :
    k ∈ docKeys (Disk.replaced children (draftName (docName key plain)) (docName key plain) c) ↔
      k = key ∨ k ∈ docKeys children := by
  simp only [mem_docKeys, Disk.replaced, mem_keys_insert, keys_erase, List.mem_filter]
  constructor
  · intro given
    rcases given with ⟨plainK, someK, same | ⟨draft | member, -⟩⟩
    · exact .inl (docName_inj same)
    · exact absurd draft (docName_ne_draft plainK _)
    · exact .inr ⟨plainK, someK, member⟩
  · intro given
    rcases given with rfl | ⟨plainK, someK, member⟩
    · exact ⟨plain, some, .inl rfl⟩
    · exact ⟨plainK, someK, .inr ⟨.inr member, by simpa using docName_ne_draft plainK _⟩⟩

theorem nodup_docKeys_replaced {children : Dict FileName DiskEntry} {key : String}
    {plain : '/' ∉ key.toList} (some : key ≠ "") (c : Content) (once : (docKeys children).Nodup) :
    (docKeys (Disk.replaced children (draftName (docName key plain)) (docName key plain)
      c)).Nodup := by
  have stands : keyOfName (docName key plain).text = Option.some key :=
    keyOfName_iff.mpr ⟨rfl, some⟩
  have kept := docKeys_erase_sublist (children.insert (draftName (docName key plain)) (.file c))
    (draftName (docName key plain))
  rw [docKeys_insert_draft] at kept
  rw [Disk.replaced, docKeys_insert]
  split
  · exact once.sublist kept
  · next fresh =>
    rw [stands, List.nodup_append]
    refine ⟨once.sublist kept, by simp, ?_⟩
    intro k member other own same
    have last : key = other := Option.mem_toList.mp own |> Option.some.inj
    subst same last
    rcases mem_docKeys.mp member with ⟨plainK, -, present⟩
    exact fresh present

theorem get?_replaced {children : Dict FileName DiskEntry} {x y : FileName} {c : Content}
    (other : y ≠ x) (draft : y ≠ draftName x) :
    (Disk.replaced children (draftName x) x c).get? y = children.get? y := by
  rw [Disk.replaced, Dict.get?_insert, if_neg other, Dict.get?_erase, if_neg draft,
    Dict.get?_insert, if_neg draft]

/-! ### The directory on disk -/

/-- The directory of the documents is there, with these children. -/
structure Opened (s : Store) (q : Place) (children : Dict FileName DiskEntry) : Prop where
  below : s.disk.Descends [] (Path.steps s.root) q
  held : s.disk.at? (q ++ [filesName]) = some (.directory children)

theorem descends_filesDir {s : Store} {there : Place} :
    s.disk.Descends [] (Path.steps (filesDir s.root)) there ↔
      ∃ q children, Opened s q children ∧ there = q ++ [filesName] := by
  have placed : ∀ q, Disk.step q filesName = q ++ [filesName] := fun _ =>
    Disk.step_of_proper proper_filesName
  rw [filesDir_eq, Path.steps_join s.root proper_filesName, Disk.descends_append]
  simp only [placed]
  constructor
  · intro given
    rcases given with ⟨q, below, -, directory, same⟩
    rcases Disk.hasDirectory_iff.mp directory with ⟨children, held⟩
    exact ⟨q, children, ⟨below, held⟩, same⟩
  · intro given
    rcases given with ⟨q, children, opened, same⟩
    exact ⟨q, opened.below, fits_filesName, Disk.hasDirectory_iff.mpr ⟨children, opened.held⟩, same⟩

theorem opened_unique {s : Store} {q p : Place} {children others : Dict FileName DiskEntry}
    (first : Opened s q children) (second : Opened s p others) : q = p ∧ children = others := by
  obtain rfl := Disk.descends_unique first.below second.below
  have same := first.held
  rw [second.held] at same
  cases same
  exact ⟨rfl, rfl⟩

theorem find_of_opened {s : Store} {q : Place} {children : Dict FileName DiskEntry}
    (opened : Opened s q children) (passable : Disk.Passable s.root filesName) :
    s.disk.find (filesDir s.root) = .ok (q ++ [filesName], .directory children) := by
  rw [filesDir_eq]
  exact (Disk.find_join proper_filesName).mpr ⟨passable, q, opened.below, rfl, opened.held⟩

theorem keys_of_opened {s : Store} {q : Place} {children : Dict FileName DiskEntry}
    (opened : Opened s q children) (passable : Disk.Passable s.root filesName) :
    s.keys = .ok ((docKeys children).mergeSort fun a b => decide (a ≤ b)) := by
  rw [keys, Disk.list, find_of_opened opened passable]
  exact congrArg Except.ok (sortBy_eq ..)

/-- Directories at one place with the same keys are listed alike, though the listing may fail. -/
theorem keys_congr {s : Store} {disk : Disk} {q : Place} {children others : Dict FileName DiskEntry}
    (opened : Opened s q children) (opened' : Opened { s with disk } q others)
    (same : docKeys others = docKeys children) : ({ s with disk } : Store).keys = s.keys := by
  have before := Disk.locate_of_descends proper_filesName opened.below
  have after := Disk.locate_of_descends proper_filesName opened'.below
  rw [docKeys, docKeys] at same
  rw [keys, keys, Disk.list, Disk.list, Disk.find, Disk.find, filesDir_eq, before, after]
  cases Disk.checkPath (Path.join s.root filesName.text) with
  | error e => rfl
  | ok u =>
    rw [if_neg (Nat.not_lt.mpr fits_filesName)]
    simp only [bind, Except.bind, opened.held, opened'.held, same]

theorem keys_cases {s : Store} {ks : List String} (listed : s.keys = .ok ks) :
    (∃ q children, Opened s q children ∧ Disk.Passable s.root filesName ∧
        ks = (docKeys children).mergeSort fun a b => decide (a ≤ b)) ∨
      ks = [] ∧ s.disk.find (filesDir s.root) = .error .notFound := by
  cases found : s.disk.find (filesDir s.root) with
  | error e =>
    rw [keys, Disk.list, found] at listed
    cases e <;> cases listed
    exact .inr ⟨rfl, rfl⟩
  | ok place =>
    rcases place with ⟨p, e⟩
    rw [filesDir_eq] at found
    rcases (Disk.find_join proper_filesName).mp found with ⟨passable, q, below, rfl, held⟩
    rw [← filesDir_eq] at found
    rw [keys, Disk.list, found] at listed
    cases e with
    | file c => cases listed
    | directory children =>
      cases listed
      exact .inl ⟨q, children, ⟨below, held⟩, passable, sortBy_eq ..⟩

theorem keys_opened {s : Store} {q : Place} {children : Dict FileName DiskEntry}
    (opened : Opened s q children) {ks : List String} (listed : s.keys = .ok ks) :
    Disk.Passable s.root filesName ∧
      ks = (docKeys children).mergeSort fun a b => decide (a ≤ b) := by
  rcases keys_cases listed with ⟨p, others, opened', passable, same⟩ | ⟨-, missing⟩
  · obtain ⟨-, rfl⟩ := opened_unique opened opened'
    exact ⟨passable, same⟩
  · rw [filesDir_eq] at missing
    have absent := Disk.at?_of_find proper_filesName opened.below missing
    rw [opened.held] at absent
    cases absent

theorem readDocument_congr {s s' : Store} {path path' : String}
    (same : ∀ c, s'.disk.read path' = .ok c ↔ s.disk.read path = .ok c) :
    s'.readDocument path' = s.readDocument path := by
  rw [readDocument, readDocument]
  cases before : s.disk.read path with
  | ok c => rw [(same c).mpr before]
  | error e =>
    cases after : s'.disk.read path' with
    | ok c => rw [(same c).mp after] at before; cases before
    | error e' => rfl

theorem readShard_congr {s s' : Store} {key : String}
    (same : ∀ c, s'.disk.read (shardPath s'.root key) = .ok c ↔
      s.disk.read (shardPath s.root key) = .ok c) : s'.readShard key = s.readShard key := by
  rw [readShard, readShard, readDocument_congr same]

structure SameFiles (s s' : Store) : Prop where
  keys : s'.keys = s.keys
  read : ∀ key, '/' ∉ key.toList → s'.readShard key = s.readShard key

theorem sameFiles_of_edit {s : Store} {d' : Disk} {q : Place}
    {before after : Dict FileName DiskEntry} (below : s.disk.Descends [] (Path.steps s.root) q)
    (edited : Disk.Edited s.disk d' q before after)
    (same : after.get? filesName = before.get? filesName) :
    SameFiles s { s with disk := d' } := by
  have below' : d'.Descends [] (Path.steps s.root) q :=
    (Disk.descends_congr edited.directories).mpr below
  have kept : ∀ rest, d'.at? (q ++ filesName :: rest) = s.disk.at? (q ++ filesName :: rest) := by
    intro rest
    rw [Disk.at?_below edited.holds, Disk.at?_below edited.held, same]
  constructor
  · have found : d'.find (filesDir s.root) = s.disk.find (filesDir s.root) := by
      rw [filesDir_eq]
      exact Disk.find_congr proper_filesName below below' (kept [])
    simp only [Store.keys, Disk.list, found]
  · intro key plain
    refine readShard_congr fun c => ?_
    simp only [shardPath_eq _ plain, Disk.read_join (proper_docName plain)]
    refine and_congr_right fun _ => exists_congr fun there => ?_
    rw [Disk.descends_congr edited.directories]
    refine and_congr_right fun inside => ?_
    rcases descends_filesDir.mp inside with ⟨p, children, opened, rfl⟩
    obtain rfl := Disk.descends_unique below opened.below
    rw [List.append_assoc, List.singleton_append, kept]

theorem writeDocument_ok {s s' : Store} {base : String} {x : FileName} (proper : x.Proper)
    {j : Json} (written : s.writeDocument (Path.join base x.text) j = (.ok (), s')) :
    Disk.Replaceable s.disk base (draftName x) x ∧ ∃ q children d', s' = { s with disk := d' } ∧
      s.disk.Descends [] (Path.steps base) q ∧
      Disk.Edited s.disk d' q children
        (Disk.replaced children (draftName x) x (.document j.reread)) := by
  have draft : Path.join base x.text ++ ".tmp" = Path.join base (draftName x).text :=
    Path.join_append base rfl
  rw [writeDocument, draft] at written
  cases first : s.disk.write (Path.join base (draftName x).text) (.document j.reread) with
  | error e =>
    simp only [first] at written
    cases written
  | ok disk =>
    simp only [first] at written
    cases second : disk.rename (Path.join base (draftName x).text) (Path.join base x.text) with
    | error e =>
      simp only [second] at written
      cases written
    | ok disk' =>
      simp only [second] at written
      cases written
      rcases Disk.edited_replace proper (proper_draftName x) first second with
        ⟨replaceable, q, children, below, edited⟩
      exact ⟨replaceable, q, children, disk', rfl, below, edited⟩

theorem writeDocument_succeeds {s : Store} {base : String} {x : FileName} (proper : x.Proper)
    (replaceable : Disk.Replaceable s.disk base (draftName x) x) (j : Json) :
    ∃ s', s.writeDocument (Path.join base x.text) j = (.ok (), s') := by
  have draft : Path.join base x.text ++ ".tmp" = Path.join base (draftName x).text :=
    Path.join_append base rfl
  rcases Disk.replace_ok proper (proper_draftName x) replaceable (.document j.reread) with
    ⟨between, moved, written, renamed⟩
  refine ⟨{ s with disk := moved }, ?_⟩
  simp only [writeDocument, draft, written, renamed]

theorem write_lands {d d' : Disk} {base : String} {x : FileName} {q : Place} {c : Content}
    (proper : x.Proper) (below : d.Descends [] (Path.steps base) q)
    (written : d.write (Path.join base x.text) c = .ok d') :
    (d'.at? (q ++ [x])).isSome ∧ ∀ p, d'.HasDirectory p ↔ d.HasDirectory p := by
  obtain ⟨-, q', below', free, rfl⟩ := (Disk.write_join proper).mp written
  obtain rfl := Disk.descends_unique below below'
  obtain ⟨children, held⟩ := Disk.hasDirectory_iff.mp
    (Disk.hasDirectory_of_descends d.hasDirectory_top below)
  have edited := Disk.edited_put held free c
  refine ⟨?_, edited.directories⟩
  rw [Disk.at?_child edited.holds, Dict.get?_insert, if_pos rfl]
  rfl

/-- Whether a document can be written does not depend on the document, but on its path and on the
directories that are in the way. -/
theorem writeDocument_congr {s s' : Store} {base : String} {x : FileName} {q : Place}
    (proper : x.Proper) (below : s.disk.Descends [] (Path.steps base) q)
    (below' : s'.disk.Descends [] (Path.steps base) q)
    (draft : s'.disk.HasDirectory (q ++ [draftName x]) ↔ s.disk.HasDirectory (q ++ [draftName x]))
    (target : s'.disk.HasDirectory (q ++ [x]) ↔ s.disk.HasDirectory (q ++ [x])) (j j' : Json) :
    (s'.writeDocument (Path.join base x.text) j').1 =
      (s.writeDocument (Path.join base x.text) j).1 := by
  have path : Path.join base x.text ++ ".tmp" = Path.join base (draftName x).text :=
    Path.join_append base rfl
  have writes := Disk.write_congr (proper_draftName x) below below' draft (.document j.reread)
    (.document j'.reread)
  rw [writeDocument, writeDocument, path]
  rcases Except.both_of_map writes with ⟨e, failed', failed⟩ | ⟨disk', disk, first', first⟩
  · simp only [failed, failed']
  · obtain ⟨there, same⟩ := write_lands (proper_draftName x) below first
    obtain ⟨there', same'⟩ := write_lands (proper_draftName x) below' first'
    have moves := Disk.rename_congr (proper_draftName x) proper
      ((Disk.descends_congr same).mpr below) ((Disk.descends_congr same').mpr below') there there'
      ((same' _).trans (target.trans (same _).symm))
    simp only [first, first']
    rcases Except.both_of_map moves with ⟨e, failed', failed⟩ | ⟨moved', moved, second', second⟩
    · simp only [failed, failed']
    · simp only [second, second']

theorem sameFiles_of_writeDocument {s s' : Store} {x : FileName} (proper : x.Proper)
    (other : filesName ≠ x) (notDraft : filesName ≠ draftName x) {j : Json}
    (written : s.writeDocument (Path.join s.root x.text) j = (.ok (), s')) :
    SameFiles s s' ∧ s'.root = s.root ∧ s'.cache = s.cache := by
  rcases writeDocument_ok proper written with ⟨-, q, children, d', rfl, below, edited⟩
  exact ⟨sameFiles_of_edit below edited (get?_replaced other notDraft), rfl, rfl⟩

theorem removeFile_ok {s s' : Store} {base : String} {x : FileName} {q : Place} {gone : Bool}
    (proper : x.Proper) (below : s.disk.Descends [] (Path.steps base) q)
    (removed : s.removeFile (Path.join base x.text) = (.ok gone, s')) :
    ∃ children d', s' = { s with disk := d' } ∧
      Disk.Edited s.disk d' q children (children.erase x) := by
  rcases Disk.hasDirectory_iff.mp
    (Disk.hasDirectory_of_descends s.disk.hasDirectory_top below) with ⟨children, held⟩
  refine ⟨children, ?_⟩
  rw [removeFile] at removed
  cases outcome : s.disk.removeFile (Path.join base x.text) with
  | ok disk =>
    rw [outcome] at removed
    cases removed
    rcases Disk.removeFile_join proper below outcome with ⟨free, rfl⟩
    exact ⟨_, rfl, Disk.edited_drop held free⟩
  | error e =>
    rw [outcome] at removed
    cases e <;> cases removed
    have absent := Disk.at?_of_removeFile proper below outcome
    rw [Disk.at?_child held, Dict.get?_eq_none_iff] at absent
    have same : Dict.erase children x = children := by
      apply List.filter_eq_self.mpr
      intro entry member
      have own : entry.1 ≠ x := by
        rintro rfl
        exact absent (List.mem_map_of_mem member)
      simpa using own
    exact ⟨s.disk, rfl, held, same.symm ▸ held, fun _ => Iff.rfl⟩

end DataReach.Store
