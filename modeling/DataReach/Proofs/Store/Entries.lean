import DataReach.Proofs.Store.Hurdles
/-!
A store with more entries in the directory of its documents, none of which a shard can be read from.
They are listed; nothing else about the documents is different, nor about what can be written.
-/

namespace DataReach

def DiskEntry.shard? : DiskEntry → Option Shard
  | .file c => c.json?.bind Store.shardOfDocument?
  | .directory _ => none

theorem Dict.get?_append {κ α : Type} [DecidableEq κ] (d d' : Dict κ α) (k : κ) :
    Dict.get? (d ++ d') k = (d.get? k).or (d'.get? k) :=
  List.lookup_append

theorem Dict.get?_append_left {κ α : Type} [DecidableEq κ] {d d' : Dict κ α} {k : κ}
    (absent : k ∉ Dict.keys d') : Dict.get? (d ++ d') k = d.get? k := by
  rw [Dict.get?_append, (Dict.get?_eq_none_iff d' k).mpr absent, Option.or_none]

namespace Disk

variable {d : Disk} {q : Place} {x : FileName} {children extra : Dict FileName DiskEntry}

theorem put_directory (extra : Dict FileName DiskEntry)
    (held : d.at? (q ++ [x]) = some (.directory children)) :
    (d.put (q ++ [x]) (.directory (children ++ extra))).at? (q ++ [x]) =
        some (.directory (children ++ extra)) ∧
      (∀ y, y ≠ x → (d.put (q ++ [x]) (.directory (children ++ extra))).at? (q ++ [y]) =
        d.at? (q ++ [y])) ∧
      ∀ p, d.HasDirectory p → (d.put (q ++ [x]) (.directory (children ++ extra))).HasDirectory p := by
  have above : ∃ around, d.at? q = some (.directory around) := by
    rw [at?, DiskEntry.at?_append] at held
    obtain ⟨e, found, below⟩ := Option.bind_eq_some_iff.mp held
    cases e with
    | file c => cases below
    | directory around => exact ⟨around, found⟩
  obtain ⟨around, found⟩ := above
  have result : (d.put (q ++ [x]) (.directory (children ++ extra))).at? q =
      some (.directory (Dict.insert around x (.directory (children ++ extra)))) := by
    rw [at?, top_put, DiskEntry.put_eq_edit x _ found]
    exact DiskEntry.at?_edit found
  refine ⟨?_, fun y other => ?_, fun p there => ?_⟩
  · rw [at?_child result, Dict.get?_insert, if_pos rfl]
  · rw [at?_child result, Dict.get?_insert, if_neg other, at?_child found]
  · rw [HasDirectory, at?, top_put]
    apply DiskEntry.isDirectory_put held _ p there
    intro rest inside
    cases rest with
    | nil => rfl
    | cons y others =>
      simp only [DiskEntry.at?, Dict.get?_append] at inside ⊢
      cases own : Dict.get? children y with
      | none =>
        rw [own] at inside
        cases inside
      | some e => rwa [own] at inside

end Disk

namespace Store

variable {s t : Store} {ks : List String} {q : Place} {children extra : Dict FileName DiskEntry}
  {k : String}

@[irreducible] def withEntries (s : Store) (extra : Dict FileName DiskEntry) : Store :=
  match s.disk.find (filesDir s.root) with
  | .ok (place, .directory children) =>
    { s with disk := s.disk.put place (.directory (children ++ extra)) }
  | _ => s

/-- Entries named for keys that are not listed yet and not in the cache, and no shard can be read from
any. -/
structure Clutter (s : Store) (ks : List String) (extra : Dict FileName DiskEntry) : Prop where
  once : extra.keys.Nodup
  named : ∀ x ∈ extra.keys, ∃ k, keyOfName x.text = some k ∧ k ∉ ks ∧
    s.cache.shards.get? k = none
  unreadable : ∀ x e, (x, e) ∈ extra → e.shard? = none

/-! ### Documents -/

theorem docKeys_append : docKeys (children ++ extra) = docKeys children ++ docKeys extra := by
  simp [docKeys, Dict.keys]

theorem Clutter.apart (clutter : s.Clutter ks extra) (junk : k ∈ docKeys extra) :
    k ∉ ks ∧ s.cache.shards.get? k = none := by
  obtain ⟨plain, some, member⟩ := mem_docKeys.mp junk
  obtain ⟨key, stands, rest⟩ := clutter.named _ member
  obtain ⟨same, -⟩ := keyOfName_iff.mp stands
  have own : k = key := by
    have chars := congrArg String.toList same
    simp only [docName, String.toList_append, List.append_cancel_right_eq] at chars
    exact String.toList_inj.mp chars
  exact own ▸ rest

theorem Clutter.no_draft (clutter : s.Clutter ks extra) (x : FileName) :
    draftName x ∉ extra.keys := by
  intro member
  obtain ⟨key, stands, -⟩ := clutter.named _ member
  rw [keyOfName_draft] at stands
  cases stands

theorem docName_junk (junk : k ∉ docKeys extra) (plain : '/' ∉ k.toList) (some : k ≠ "") :
    docName k plain ∉ extra.keys := fun member => junk (mem_docKeys.mpr ⟨plain, some, member⟩)

theorem Opened.housed (opened : Opened s q children) : s.Housed (q ++ [filesName]) :=
  ⟨descends_filesDir.mpr ⟨q, children, opened, rfl⟩⟩

theorem readShard_entry {children' : Dict FileName DiskEntry} (root : t.root = s.root)
    (opened : Opened s q children) (opened' : Opened t q children') (plain : '/' ∉ k.toList)
    (same : children'.get? (docName k plain) = children.get? (docName k plain)) :
    t.readShard k = s.readShard k := by
  have inside := opened.housed.inside
  have inside' := opened'.housed.inside
  apply readShard_congr
  intro c
  simp only [shardPath_eq _ plain, Disk.read_join (proper_docName plain)]
  rw [root] at inside' ⊢
  apply and_congr_right
  intro _
  constructor
  · rintro ⟨there, below, held⟩
    obtain rfl := Disk.descends_unique inside' below
    rw [Disk.at?_child opened'.held, same, ← Disk.at?_child opened.held] at held
    exact ⟨_, inside, held⟩
  · rintro ⟨there, below, held⟩
    obtain rfl := Disk.descends_unique inside below
    rw [Disk.at?_child opened.held, ← same, ← Disk.at?_child opened'.held] at held
    exact ⟨_, inside', held⟩

theorem readShard_unreadable (opened : Opened s q children) (plain : '/' ∉ k.toList)
    {e : DiskEntry} (entry : children.get? (docName k plain) = some e) (unreadable : e.shard? = none) :
    s.readShard k = none := by
  rw [readShard, readDocument]
  cases found : s.disk.read (shardPath s.root k) with
  | error e => rfl
  | ok c =>
    rw [shardPath_eq s.root plain] at found
    obtain ⟨-, there, below, held⟩ := (Disk.read_join (proper_docName plain)).mp found
    obtain rfl := Disk.descends_unique opened.housed.inside below
    rw [Disk.at?_child opened.held, entry] at held
    cases held
    exact unreadable

/-! ### The store with more entries -/

/-- Where the directory of the documents is, and what it has. -/
structure Located (s : Store) (q : Place) (children : Dict FileName DiskEntry) : Prop extends
    Opened s q children where
  passable : Disk.Passable s.root filesName

theorem located_of_find {place : Place}
    (found : s.disk.find (filesDir s.root) = .ok (place, .directory children)) :
    ∃ q, place = q ++ [filesName] ∧ s.Located q children := by
  obtain ⟨passable, q, below, rfl, held⟩ := (Disk.find_join proper_filesName).mp found
  exact ⟨q, rfl, ⟨below, held⟩, passable⟩

theorem withEntries_eq (located : s.Located q children) (extra : Dict FileName DiskEntry) :
    s.withEntries extra =
      { s with disk := s.disk.put (q ++ [filesName]) (.directory (children ++ extra)) } := by
  rw [withEntries, find_of_opened located.toOpened located.passable]

theorem located_withEntries (located : s.Located q children) (extra : Dict FileName DiskEntry) :
    (s.withEntries extra).Located q (children ++ extra) := by
  obtain ⟨held, -, grows⟩ := Disk.put_directory extra located.held
  rw [withEntries_eq located]
  exact ⟨⟨Disk.descends_mono grows located.below, held⟩, located.passable⟩

theorem beside_withEntries (located : s.Located q children) (extra : Dict FileName DiskEntry)
    {y : FileName} (other : y ≠ filesName) :
    (s.withEntries extra).disk.at? (q ++ [y]) = s.disk.at? (q ++ [y]) := by
  rw [withEntries_eq located]
  exact (Disk.put_directory extra located.held).2.1 y other

section Clutter

variable (located : s.Located q children) (keyed : s.Keyed ks) (clutter : s.Clutter ks extra)

include located keyed in
theorem mem_listed {k : String} : k ∈ ks ↔ k ∈ docKeys children := by
  rw [(keys_opened located.toOpened keyed.listed).2, List.mem_mergeSort]

include located keyed clutter in
theorem get?_withEntries_junk {x : FileName} {e : DiskEntry} (entry : (x, e) ∈ extra) :
    Dict.get? (children ++ extra) x = some e := by
  have member : x ∈ extra.keys := List.mem_map_of_mem entry
  obtain ⟨k, stands, fresh, -⟩ := clutter.named x member
  have absent : x ∉ Dict.keys children := by
    intro there
    obtain ⟨same, some⟩ := keyOfName_iff.mp stands
    apply fresh
    rw [mem_listed located keyed]
    exact List.mem_filterMap.mpr ⟨x.text, List.mem_map_of_mem there, stands⟩
  rw [Dict.get?_append, (Dict.get?_eq_none_iff _ _).mpr absent, Option.none_or]
  exact Dict.get?_of_mem clutter.once entry

include located keyed clutter in
theorem readShard_withEntries (plain : '/' ∉ k.toList) (some : k ≠ "") :
    (s.withEntries extra).readShard k = s.readShard k := by
  have opened' := (located_withEntries located extra).toOpened
  by_cases junk : k ∈ docKeys extra
  · obtain ⟨_, _, member⟩ := mem_docKeys.mp junk
    obtain ⟨⟨x, e⟩, entry, rfl⟩ := List.mem_map.mp member
    have there := get?_withEntries_junk located keyed clutter entry
    rw [readShard_unreadable opened' plain there (clutter.unreadable _ e entry),
      readShard_unlisted keyed.listed plain some (clutter.apart junk).1]
  · apply readShard_entry _ located.toOpened opened' plain
    · exact Dict.get?_append_left (docName_junk junk plain some)
    · rw [withEntries_eq located]

include located keyed clutter in
theorem keyed_withEntries :
    ∃ ks', (s.withEntries extra).Keyed ks' ∧ ∀ k, k ∈ ks' ↔ k ∈ ks ∨ k ∈ docKeys extra := by
  have located' := located_withEntries located extra
  have listed' := keys_of_opened located'.toOpened located'.passable
  have members : ∀ k, k ∈ (docKeys (children ++ extra)).mergeSort (fun a b => decide (a ≤ b)) ↔
      k ∈ ks ∨ k ∈ docKeys extra := by
    intro k
    rw [List.mem_mergeSort, docKeys_append, List.mem_append, mem_listed located keyed]
  have once : (docKeys (children ++ extra)).Nodup := by
    have first : (docKeys children).Nodup := by
      have sorted := keyed.once
      rw [(keys_opened located.toOpened keyed.listed).2] at sorted
      exact (List.mergeSort_perm _ _).nodup_iff.mp sorted
    have second : (docKeys extra).Nodup := by
      rw [docKeys]
      apply List.Nodup.filterMap
      · intro a b key own own'
        rw [(keyOfName_iff.mp own).1, (keyOfName_iff.mp own').1]
      · apply clutter.once.map
        intro a b same
        cases a
        cases b
        cases same
        rfl
    rw [docKeys_append, List.nodup_append]
    refine ⟨first, second, fun a member b junk same => ?_⟩
    subst same
    exact (clutter.apart junk).1 ((mem_listed located keyed).mpr member)
  refine ⟨_, ⟨listed', mergeSort_ascending id _ (by simpa using once), fun k member shard read => ?_⟩,
    members⟩
  have plain := plain_of_listed listed' k member
  have some : k ≠ "" := by
    rw [List.mem_mergeSort] at member
    obtain ⟨-, some, -⟩ := mem_docKeys.mp member
    exact some
  rw [readShard_withEntries located keyed clutter plain some] at read
  have listed : k ∈ ks := by
    by_contra absent
    rw [readShard_unlisted keyed.listed plain some absent] at read
    cases read
  exact keyed.own k listed shard read

include located keyed clutter in
theorem hurdle_withEntries (member : k ∈ ks) : (s.withEntries extra).hurdle k = s.hurdle k := by
  have located' := located_withEntries located extra
  have root : (s.withEntries extra).root = s.root := by rw [withEntries_eq located]
  have plain := keyed.plain member
  have some : k ≠ "" := by
    obtain ⟨-, some, -⟩ := mem_docKeys.mp ((mem_listed located keyed).mp member)
    exact some
  have junk : k ∉ docKeys extra := fun junk => (clutter.apart junk).1 member
  have drafts : (s.withEntries extra).disk.HasDirectory
        (q ++ [filesName] ++ [draftName (docName k plain)]) ↔
      s.disk.HasDirectory (q ++ [filesName] ++ [draftName (docName k plain)]) := by
    rw [Disk.HasDirectory, Disk.HasDirectory, Disk.at?_child located'.held,
      Disk.at?_child located.held, Dict.get?_append_left (clutter.no_draft _)]
  have targets : (s.withEntries extra).disk.HasDirectory (q ++ [filesName] ++ [docName k plain]) ↔
      s.disk.HasDirectory (q ++ [filesName] ++ [docName k plain]) := by
    rw [Disk.HasDirectory, Disk.HasDirectory, Disk.at?_child located'.held,
      Disk.at?_child located.held, Dict.get?_append_left (docName_junk junk plain some)]
  exact hurdle_congr plain root located.toOpened.housed located'.toOpened.housed drafts targets

end Clutter

end Store

end DataReach
