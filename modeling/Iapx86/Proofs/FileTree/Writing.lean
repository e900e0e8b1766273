import Iapx86.Proofs.FileTree

/-!
# What writing changes

Writing a text into a file puts the file in its place, makes directories where there was nothing,
and leaves all else as it is (`Written`, `exists_written`). All directories of the tree stay
directories, so that the same path then leads to the same place, through directories that are all
there: writing the same once more changes nothing (`write_again`). Where the text cannot be written,
directories may have been made for it, and nothing else has changed (`grown_of_write_error`).
-/

namespace Iapx86

namespace FileTree

variable {t t' made : FileTree} {target : Path} {path text : String}

/-! ### The directories on the way -/

/-- Whether two trees differ by directories alone that are in the second where nothing is in the
first. -/
def Grown (t t' : FileTree) : Prop :=
  ∀ path, t'.node? path = t.node? path ∨ t.node? path = none ∧ t'.node? path = some .directory

theorem Grown.refl (t : FileTree) : t.Grown t := fun _ => .inl rfl

theorem Grown.trans {t'' : FileTree} (h : t.Grown t') (h' : t'.Grown t'') : t.Grown t'' := by
  intro path
  obtain hkept | ⟨hnothing, hmade⟩ := h' path
  · rw [hkept]
    exact h path
  · obtain hkept | ⟨-, hdirectory⟩ := h path
    · exact .inr ⟨hkept ▸ hnothing, hmade⟩
    · cases hnothing.symm.trans hdirectory

theorem Grown.directoriesIn (h : t.Grown t') : t.DirectoriesIn t' := by
  intro path hpath
  obtain hkept | ⟨hnothing, -⟩ := h path
  · rw [hkept, hpath]
  · cases hpath.symm.trans hnothing

theorem grown_put (hnone : t.node? target = none) : t.Grown (t.put target .directory) := by
  have hroot : target ≠ [] := by
    rintro rfl
    cases hnone
  intro path
  by_cases hpath : path = target
  · rw [hpath]
    exact .inr ⟨hnone, t.node?_put_self hroot .directory⟩
  · exact .inl (t.node?_put_of_ne hpath .directory)

/-- The tree as an attempt leaves it. -/
def left : Except Failure FileTree → FileTree
  | .ok t => t
  | .error f => f.tree

/-- Directories are made only where there is nothing, whether all of them are or not. -/
theorem grown_makeDirectories (t : FileTree) (making : Bool) (directory : Path)
    (names : List String) : t.Grown (left (t.makeDirectories making directory names)) := by
  induction names generalizing t making directory with
  | nil => exact .refl t
  | cons name names ih =>
      rw [makeDirectories]
      split
      · exact ih t making directory.dropLast
      · dsimp only
        split
        · next hnone => exact (grown_put hnone).trans (ih _ true _)
        · split
          · exact ih t making _
          · exact .refl t

theorem grown_of_makeDirectories {making : Bool} {directory : Path} {names : List String}
    (h : t.makeDirectories making directory names = .ok made) : t.Grown made := by
  have hgrown := t.grown_makeDirectories making directory names
  rwa [h] at hgrown

/-- Where the directories are, none is made. -/
theorem makeDirectories_again {making making' : Bool} {directory : Path} {names : List String}
    (h : t.makeDirectories making directory names = .ok made) (hin : made.DirectoriesIn t') :
    t'.makeDirectories making' directory names = .ok t' := by
  induction names generalizing t making making' directory with
  | nil => rfl
  | cons name names ih =>
      rw [makeDirectories] at h ⊢
      split
      · next hback =>
          rw [if_pos hback] at h
          exact ih h
      · next hback =>
          rw [if_neg hback] at h
          dsimp only at h ⊢
          have hthere {u : FileTree} {making : Bool} (hmakes : u.makeDirectories making
              (directory ++ [name]) names = .ok made)
              (hnext : u.node? (directory ++ [name]) = some .directory) :
              t'.node? (directory ++ [name]) = some .directory :=
            hin _ ((grown_of_makeDirectories hmakes).directoriesIn _ hnext)
          split at h
          · rw [hthere h (t.node?_put_self (List.concat_ne_nil name directory) .directory)]
            exact ih h
          · next node hnode =>
              split at h
              · next hnone =>
                  rw [Node.obstacle?_eq_none_iff.mp hnone] at hnode
                  rw [hthere h hnode]
                  exact ih h
              · cases h

/-! ### The file -/

theorem put_put (t : FileTree) (path : Path) (node node' : Node) :
    (t.put path node).put path node' = t.put path node' := by
  simp [put, List.filter_filter]

theorem place_of_directoriesIn (h : t.place text = .ok target) (hin : t.DirectoriesIn t')
    (htarget : (t'.node? target).bind Node.refusal? = none) : t'.place text = .ok target := by
  obtain ⟨directory, hdirectory, h⟩ := bind_eq_ok_iff.mp h
  refine bind_eq_ok_iff.mpr ⟨directory, hin.directoryAt hdirectory, ?_⟩
  obtain ⟨hmeans, h⟩ := ite_error_eq_ok_iff.mp h
  refine ite_error_eq_ok_iff.mpr ⟨hmeans, ?_⟩
  split at h
  · obtain rfl := Except.ok.inj h
    rw [htarget]
  · cases h

/-- A file that is put where a path leads is where the path leads then. -/
theorem place_put (h : t.place path = .ok target) (text : String) :
    (t.put target (.file text)).place path = .ok target := by
  obtain ⟨-, name, directory, -, -, -, rfl, hrefusal⟩ := place_eq_ok h
  refine place_of_directoriesIn h
    (directoriesIn_put (ne_directory_of_bind_refusal? hrefusal) _) ?_
  rw [t.node?_put_self (List.concat_ne_nil name directory)]
  rfl

/-- A text is written in two steps: directories are made, and then the file is put where the path
leads. -/
theorem exists_made (h : t.write path text = .ok t') : ∃ made target,
    t.makeDirectories false [] (Path.ofText path).dropLast = .ok made
      ∧ made.node? target ≠ some .directory ∧ made.put target (.file text) = t'
      ∧ t'.node? target = some (.file text) ∧ t'.place path = .ok target := by
  obtain ⟨-, made, target, hmakes, hplace, rfl⟩ := write_eq_ok_iff.mp h
  obtain ⟨-, name, directory, -, -, -, rfl, hrefusal⟩ := place_eq_ok hplace
  have hnode := ne_directory_of_bind_refusal? hrefusal
  have hfile := made.node?_put_self (List.concat_ne_nil name directory) (.file text)
  exact ⟨made, _, hmakes, hnode, rfl, hfile, place_put hplace text⟩

/-- What has come of a tree when a text has been written: the path leads to a place, the text is
there, and elsewhere everything is as before, but that directories have been made where there was
nothing. -/
structure Written (t t' : FileTree) (path text : String) (target : Path) : Prop where
  place_eq : t'.place path = .ok target
  node?_target : t'.node? target = some (.file text)
  node?_ne_directory : t.node? target ≠ some .directory
  node?_of_ne : ∀ other, other ≠ target → t'.node? other = t.node? other ∨
    t.node? other = none ∧ t'.node? other = some .directory

theorem exists_written (h : t.write path text = .ok t') :
    ∃ target, Written t t' path text target := by
  obtain ⟨made, target, hmakes, hnode, rfl, hfile, hplace⟩ := exists_made h
  have hgrown := grown_of_makeDirectories hmakes
  refine ⟨target, hplace, hfile, fun hwas => hnode (hgrown.directoriesIn _ hwas),
    fun other hother => ?_⟩
  rw [made.node?_put_of_ne hother]
  exact hgrown other

/-- What cannot be written leaves nothing but directories behind. -/
theorem grown_of_write_error {f : Failure} (h : t.write path text = .error f) : t.Grown f.tree := by
  have hgrown := t.grown_makeDirectories false [] (Path.ofText path).dropLast
  unfold write at h
  split at h
  · cases h
    exact .refl t
  · cases hmakes : t.makeDirectories false [] (Path.ofText path).dropLast with
    | error f' =>
        rw [hmakes] at h hgrown
        cases h
        exact hgrown
    | ok made =>
        rw [hmakes] at h hgrown
        simp only [Except.bind] at h
        split at h
        · cases h
        · cases h
          exact hgrown

theorem Written.directoriesIn {target : Path} (h : Written t t' path text target) :
    t.DirectoriesIn t' := by
  intro other hother
  have hne : other ≠ target := fun heq => h.node?_ne_directory (heq ▸ hother)
  obtain hkept | ⟨hnothing, -⟩ := h.node?_of_ne other hne
  · rw [hkept, hother]
  · cases hother.symm.trans hnothing

/-- Written once more, the same text leaves the tree as it is. -/
theorem write_again (h : t.write path text = .ok t') : t'.write path text = .ok t' := by
  have hpath := (write_eq_ok_iff.mp h).1
  obtain ⟨made, target, hmakes, hnode, rfl, -, hplace⟩ := exists_made h
  exact write_eq_ok_iff.mpr ⟨hpath, _, target,
    makeDirectories_again hmakes (directoriesIn_put hnode _), hplace, made.put_put _ _ _⟩

theorem distinct_write (hdistinct : t.Distinct) (h : t.write path text = .ok t') : t'.Distinct := by
  have halike := (Rearranged.mk hdistinct (.refl _)).write path text
  rw [h] at halike
  cases halike with
  | ok hsame => exact hsame.distinct

/-- What is in a directory can still be listed when other directories have been made and files
written. -/
theorem exists_list_of_directoriesIn (h : t.Distinct) (h' : t'.Distinct) (hin : t.DirectoriesIn t')
    {entries : List (String × Node)} (hlist : t.list text = .ok entries) :
    ∃ directory entries', t.directoryAt (Path.ofText text) = .ok directory
      ∧ t'.list text = .ok entries'
      ∧ (∀ name node, (name, node) ∈ entries ↔ t.node? (directory ++ [name]) = some node)
      ∧ ∀ name node, (name, node) ∈ entries' ↔ t'.node? (directory ++ [name]) = some node := by
  obtain ⟨directory, hdirectory, hentries⟩ := exists_mem_list_iff h hlist
  have hdirectory' := hin.directoryAt hdirectory
  have hlist' := list_eq_ok_iff.mpr ⟨(list_eq_ok_iff.mp hlist).1, directory, hdirectory', rfl⟩
  obtain ⟨directory', hagain, hentries'⟩ := exists_mem_list_iff h' hlist'
  obtain rfl := Except.ok.inj (hdirectory'.symm.trans hagain)
  exact ⟨directory, _, hdirectory, hlist', hentries, hentries'⟩

end FileTree

end Iapx86
