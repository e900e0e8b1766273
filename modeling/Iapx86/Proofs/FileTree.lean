import Iapx86.FileTree
import Iapx86.Proofs.Errors

/-!
# Trees in whatever order

A tree is kept as a list of its entries, and that list has an order, which means nothing. Of two
trees with the same entries and no path twice (`FileTree.Rearranged`), each path leads to the same,
what a directory lists is the same but for the order, and what is made or written in one makes them
differ no more than before (`Rearranged.write`).

What has been written is there to be read (`FileTree.read?_write`).
-/

namespace Iapx86

namespace FileTree

/-! ### Entries in another order -/

/-- Whether no path occurs twice. -/
def Distinct (t : FileTree) : Prop := (t.entries.map Prod.fst).Nodup

instance (t : FileTree) : Decidable t.Distinct :=
  inferInstanceAs (Decidable (t.entries.map Prod.fst).Nodup)

/-- Whether two trees have the same entries, no path twice, in whatever order. -/
structure Rearranged (t t' : FileTree) : Prop where
  distinct : t.Distinct
  perm : t.entries.Perm t'.entries

/-- Whether two attempts have failed for one reason, and left the same entries. -/
structure Failure.Rearranged (f f' : Failure) : Prop where
  cause_eq : f.cause = f'.cause
  tree : FileTree.Rearranged f.tree f'.tree

namespace Rearranged

variable {t t' : FileTree}

theorem distinct_right (h : Rearranged t t') : t'.Distinct :=
  (h.perm.map Prod.fst).nodup_iff.mp h.distinct

theorem node?_eq (h : Rearranged t t') (path : Path) : t.node? path = t'.node? path := by
  unfold node?
  split
  · rfl
  · refine Option.ext fun node => ?_
    rw [lookup_eq_some_iff_mem h.distinct, lookup_eq_some_iff_mem h.distinct_right,
      h.perm.mem_iff]

theorem put (h : Rearranged t t') (path : Path) (node : Node) :
    Rearranged (t.put path node) (t'.put path node) where
  distinct := by
    have hothers : ((t.entries.filter (·.1 ≠ path)).map Prod.fst).Nodup :=
      h.distinct.sublist (List.filter_sublist.map _)
    have hnew : path ∉ (t.entries.filter (·.1 ≠ path)).map Prod.fst := by simp
    exact List.nodup_cons.mpr ⟨hnew, hothers⟩
  perm := (h.perm.filter _).cons _

theorem directoryAt_eq (h : Rearranged t t') (names : List String) :
    t.directoryAt names = t'.directoryAt names := by
  have hdescend : t.descend = t'.descend := by
    funext directory name
    simp only [descend, h.node?_eq]
  rw [directoryAt, directoryAt, hdescend]

theorem list (h : Rearranged t t') (text : String) :
    Alike Eq List.Perm (t.list text) (t'.list text) := by
  unfold FileTree.list
  rw [h.directoryAt_eq]
  split
  · exact .error rfl
  · cases t'.directoryAt (Path.ofText text) with
    | error e => exact .error rfl
    | ok directory => exact .ok (h.perm.filterMap _)

theorem makeDirectories (h : Rearranged t t') (making : Bool) (directory : Path)
    (names : List String) :
    Alike Failure.Rearranged Rearranged (t.makeDirectories making directory names)
      (t'.makeDirectories making directory names) := by
  induction names generalizing t t' making directory with
  | nil => exact .ok h
  | cons name names ih =>
      simp only [FileTree.makeDirectories, h.node?_eq]
      split
      · exact ih h making directory.dropLast
      · cases t'.node? (directory ++ [name]) with
        | none => exact ih (h.put _ _) true _
        | some node =>
            dsimp only
            cases node.obstacle? with
            | none => exact ih h making _
            | some cause => exact .error ⟨rfl, h⟩

theorem place_eq (h : Rearranged t t') (text : String) : t.place text = t'.place text := by
  simp only [place, h.directoryAt_eq, h.node?_eq]

theorem write (h : Rearranged t t') (path text : String) :
    Alike Failure.Rearranged Rearranged (t.write path text) (t'.write path text) := by
  unfold FileTree.write
  split
  · exact .error ⟨rfl, h⟩
  · refine (h.makeDirectories false [] _).bind fun {made made'} hmade => ?_
    rw [hmade.place_eq]
    cases made'.place path with
    | error e => exact .error ⟨rfl, hmade⟩
    | ok target => exact .ok (hmade.put target _)

end Rearranged

/-! ### What a directory lists -/

theorem childOf?_eq_some_iff {directory : Path} {entry : Path × Node} {name : String}
    {node : Node} :
    childOf? directory entry = some (name, node) ↔ entry = (directory ++ [name], node) := by
  obtain ⟨path, n⟩ := entry
  obtain rfl | ⟨before, last, rfl⟩ := List.eq_nil_or_concat path
  · simp [childOf?]
  · simp only [childOf?, List.concat_eq_append, List.getLast?_concat, List.dropLast_concat]
    by_cases h : before = directory
    · simp [h]
    · simp [h]

section List

variable {t : FileTree} {text : String} {entries : List (String × Node)}

theorem list_eq_ok_iff : t.list text = .ok entries ↔
    text.isEmpty = false ∧ ∃ directory, t.directoryAt (Path.ofText text) = .ok directory
      ∧ t.entries.filterMap (childOf? directory) = entries := by
  unfold FileTree.list
  cases text.isEmpty with
  | true => simp
  | false => simp [map_eq_ok_iff]

theorem nodup_list (h : t.Distinct) (hlist : t.list text = .ok entries) :
    (entries.map Prod.fst).Nodup := by
  obtain ⟨-, directory, -, rfl⟩ := list_eq_ok_iff.mp hlist
  refine List.pairwise_map.mpr (List.pairwise_filterMap.mpr ?_)
  refine (List.pairwise_map.mp h).imp fun {a b} hne (name, node) ha (name', node') hb hname => ?_
  rw [childOf?_eq_some_iff.mp ha, childOf?_eq_some_iff.mp hb] at hne
  exact hne (by rw [show name = name' from hname])

/-- What is in a directory is what the names lead to from there. -/
theorem exists_mem_list_iff (h : t.Distinct) (hlist : t.list text = .ok entries) :
    ∃ directory, t.directoryAt (Path.ofText text) = .ok directory
      ∧ ∀ name node, (name, node) ∈ entries ↔ t.node? (directory ++ [name]) = some node := by
  obtain ⟨-, directory, hdirectory, rfl⟩ := list_eq_ok_iff.mp hlist
  refine ⟨directory, hdirectory, fun name node => ?_⟩
  rw [node?, if_neg (List.concat_ne_nil name directory), lookup_eq_some_iff_mem h]
  simp only [List.mem_filterMap, childOf?_eq_some_iff, exists_eq_right]

end List

/-! ### Ways through directories -/

/-- Whether all directories of a tree are directories in another. -/
def DirectoriesIn (t t' : FileTree) : Prop :=
  ∀ path, t.node? path = some .directory → t'.node? path = some .directory

section Ways

variable {t t' : FileTree} {target : Path}

/-- Putting something in the place of a file leaves the directories as they are. -/
theorem directoriesIn_put (htarget : t.node? target ≠ some .directory) (node : Node) :
    t.DirectoriesIn (t.put target node) := by
  intro path hpath
  have hne : path ≠ target := fun heq => htarget (heq ▸ hpath)
  rwa [node?_put_of_ne t hne]

theorem DirectoriesIn.descend (h : t.DirectoriesIn t') {directory next : Path} {name : String}
    (hnext : t.descend directory name = .ok next) : t'.descend directory name = .ok next := by
  unfold FileTree.descend at hnext ⊢
  split
  · next hpoint => rwa [if_pos hpoint] at hnext
  · next hpoint =>
      rw [if_neg hpoint] at hnext
      split
      · next hback => rwa [if_pos hback] at hnext
      · next hback =>
          rw [if_neg hback] at hnext
          have hnode : t.node? (directory ++ [name]) = some .directory := by
            split at hnext
            · cases hnext
            · next node hsome =>
                split at hnext
                · next hnone => rw [hsome, Node.obstacle?_eq_none_iff.mp hnone]
                · cases hnext
          rw [hnode] at hnext
          rwa [h _ hnode]

/-- A way through directories leads on to the same. -/
theorem DirectoriesIn.directoryAt (h : t.DirectoriesIn t') {names : List String} {directory : Path}
    (hway : t.directoryAt names = .ok directory) : t'.directoryAt names = .ok directory := by
  unfold FileTree.directoryAt at hway ⊢
  -- The rest of a way does not begin at the root.
  generalize ([] : Path) = start at hway ⊢
  induction names generalizing start with
  | nil => exact hway
  | cons name names ih =>
      rw [List.foldlM_cons] at hway ⊢
      obtain ⟨next, hnext, hrest⟩ := bind_eq_ok_iff.mp hway
      exact bind_eq_ok_iff.mpr ⟨next, h.descend hnext, ih next hrest⟩

end Ways

/-! ### What has been written -/

variable {t : FileTree} {target : Path}

/-- Single points lead nowhere else. -/
theorem directoryAt_filter (t : FileTree) (names : List String) :
    t.directoryAt (names.filter (· ≠ ".")) = t.directoryAt names := by
  unfold directoryAt
  generalize ([] : Path) = start
  induction names generalizing start with
  | nil => rfl
  | cons name names ih =>
      by_cases hname : name = "."
      · rw [List.filter_cons_of_neg (by simpa using hname), ih, List.foldlM_cons, descend,
          if_pos hname]
        rfl
      · rw [List.filter_cons_of_pos (by simpa using hname), List.foldlM_cons, List.foldlM_cons]
        congr 1
        funext next
        exact ih next

/-- The text of a path that may mean a file ends in a name. -/
theorem segments_of_not_meansDirectory {text : String} (h : Path.meansDirectory text = false) :
    ∃ before name, Path.segments text = before ++ [name] ∧ name ≠ "." := by
  have hlast := (Bool.or_eq_false_iff.mp h).2
  obtain hnil | ⟨before, name, hsegments⟩ := List.eq_nil_or_concat (Path.segments text)
  · rw [hnil] at hlast
    cases hlast
  · rw [hsegments, List.concat_eq_append] at hlast ⊢
    refine ⟨before, name, rfl, ?_⟩
    rintro rfl
    simp at hlast

theorem ne_directory_of_bind_refusal? {node? : Option Node}
    (h : node?.bind Node.refusal? = none) : node? ≠ some .directory := by
  rintro rfl
  cases h

/-- A place for a file is that of a name in a directory, and nothing there refuses to be written. -/
theorem place_eq_ok {text : String} (h : t.place text = .ok target) :
    ∃ before name directory, Path.segments text = before ++ [name] ∧ name ≠ "."
      ∧ t.directoryAt before = .ok directory ∧ target = directory ++ [name]
      ∧ (t.node? target).bind Node.refusal? = none := by
  obtain ⟨directory, hdirectory, h⟩ := bind_eq_ok_iff.mp h
  obtain ⟨hmeans, h⟩ := ite_error_eq_ok_iff.mp h
  obtain ⟨before, name, hsegments, hname⟩ :=
    segments_of_not_meansDirectory (Bool.not_eq_true _ ▸ hmeans)
  simp only [hsegments, List.dropLast_concat, List.getLast?_concat, Option.toList_some]
    at hdirectory h
  split at h
  · next hrefusal =>
      obtain rfl := Except.ok.inj h
      exact ⟨before, name, directory, hsegments, hname, hdirectory, rfl, hrefusal⟩
  · cases h

theorem write_eq_ok_iff {t t' : FileTree} {path text : String} : t.write path text = .ok t' ↔
    path.isEmpty = false ∧ ∃ made target,
      t.makeDirectories false [] (Path.ofText path).dropLast = .ok made
        ∧ made.place path = .ok target ∧ made.put target (.file text) = t' := by
  unfold write
  cases path.isEmpty with
  | true => simp
  | false =>
      simp only [Bool.false_eq_true, if_false, bind_eq_ok_iff, true_and]
      refine exists_congr fun made => ?_
      cases made.place path <;> simp

/-- What has been written into a file is what is in it. -/
theorem contents?_write {t t' : FileTree} {path text : String} (h : t.write path text = .ok t') :
    t'.contents? path = some (Text.bytes text) := by
  obtain ⟨-, made, target, -, hplace, rfl⟩ := write_eq_ok_iff.mp h
  obtain ⟨before, name, directory, hsegments, hname, hdirectory, rfl, hnode⟩ := place_eq_ok hplace
  have hnames : Path.ofText path = before.filter (· ≠ ".") ++ [name] := by
    rw [Path.ofText, hsegments, List.filter_append, List.filter_singleton]
    simp [hname]
  have hput : (made.put (directory ++ [name]) (.file text)).directoryAt (before.filter (· ≠ "."))
      = .ok directory := by
    rw [directoryAt_filter]
    exact (directoriesIn_put (ne_directory_of_bind_refusal? hnode) _).directoryAt hdirectory
  simp only [contents?, hnames, List.getLast?_concat, List.dropLast_concat, hput]
  simp [Except.toOption, Node.file]

theorem read?_write {t t' : FileTree} {path text : String} (h : t.write path text = .ok t') :
    t'.read? path = some text := by
  rw [read?, contents?_write h]
  exact Text.ofBytes?_bytes text

end FileTree

end Iapx86
