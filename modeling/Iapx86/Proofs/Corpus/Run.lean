import Iapx86.Corpus.Run
import Iapx86.Proofs.Corpus.Report
import Iapx86.Proofs.FileTree.Writing
import Mathlib.Data.List.TakeDrop

/-!
# What a run over a corpus comes to

A run lists a directory, takes from it the files that the filter selects, in the order of their
names (`ascending_selection`), and loads them all before it looks at any case. So a run has one of
few outcomes: the directory cannot be listed; nothing is selected although something was asked for;
a file cannot be loaded (`Selected.Fails`), and of all such files the error is that of the first by
name; or everything is loaded, and the report is that on all cases of all files in order
(`reportOn_eq`), printed and written as `Delivers` says.

Nothing of this shows in which order the directory was listed (`run_rearranged`).
-/

namespace Iapx86

namespace Corpus

/-! ### The files that are selected -/

theorem jsonStem?_eq_some_iff {fileName name : String} :
    jsonStem? fileName = some name ↔ fileName = name ++ ".json" ∧ name ≠ "" := by
  simp only [jsonStem?, List.span_eq_takeWhile_dropWhile]
  constructor
  · intro h
    split at h
    · next stem hrest =>
        split at h
        · next hextension =>
            obtain rfl := Option.some.inj h
            have hwhole : fileName.toList.reverse = "json".toList.reverse ++ '.' :: stem := by
              rw [← hextension.1, List.reverse_reverse, ← hrest, List.takeWhile_append_dropWhile]
            refine ⟨?_, fun hempty => hextension.2 ?_⟩
            · rw [← String.toList_inj, ← List.reverse_inj, hwhole]
              simp
            · simpa using congrArg String.toList hempty
        · cases h
    · cases h
  · rintro ⟨rfl, hne⟩
    have hreverse : (name ++ ".json").toList.reverse
        = "json".toList.reverse ++ '.' :: name.toList.reverse := by
      simp
    have hextension : ∀ c ∈ "json".toList.reverse, decide (c ≠ '.') = true :=
      List.all_eq_true.mp rfl
    rw [hreverse, List.takeWhile_append_of_pos hextension, List.dropWhile_append_of_pos hextension]
    simp [hne]

theorem selects_iff {filter : List String} {name : String} :
    selects filter name ↔
      filter = [] ∨ ∃ term ∈ filter, term.toList <:+: Text.lower name.toList := by
  simp only [selects, Bool.or_eq_true, List.isEmpty_iff, List.any_eq_true, Text.occursIn_iff]

/-- Whether an entry of a directory is a corpus file that the filter selects. -/
def Selected.IsChosen (filter : List String) (f : Selected) : Prop :=
  f.fileName = f.name ++ ".json" ∧ f.name ≠ ""
    ∧ (filter = [] ∨ ∃ term ∈ filter, term.toList <:+: Text.lower f.name.toList)

theorem select?_eq_some_iff {filter : List String} {entry : String × Node} {f : Selected} :
    select? filter entry = some f ↔ entry = (f.fileName, f.node) ∧ f.IsChosen filter := by
  simp only [select?, Selected.IsChosen, ← selects_iff]
  constructor
  · intro h
    split at h
    · next hname =>
        obtain ⟨hfile, hne⟩ := jsonStem?_eq_some_iff.mp hname
        split at h
        · next hselects =>
            obtain rfl := Option.some.inj h
            exact ⟨rfl, hfile, hne, hselects⟩
        · cases h
    · cases h
  · rintro ⟨rfl, hfile, hne, hselects⟩
    rw [jsonStem?_eq_some_iff.mpr ⟨hfile, hne⟩]
    exact if_pos hselects

section Selection

variable {filter : List String} {entries entries' : List (String × Node)}

theorem mem_selection {f : Selected} :
    f ∈ selection filter entries ↔ (f.fileName, f.node) ∈ entries ∧ f.IsChosen filter := by
  simp only [selection, List.mem_mergeSort, List.mem_filterMap, select?_eq_some_iff]
  exact ⟨fun ⟨entry, hentry, heq, hchosen⟩ => ⟨heq ▸ hentry, hchosen⟩,
    fun ⟨hentry, hchosen⟩ => ⟨_, hentry, rfl, hchosen⟩⟩

theorem ascending_selection (h : (entries.map Prod.fst).Nodup) :
    Ascending Selected.fileName (selection filter entries) := by
  refine ascending_mergeSort (List.pairwise_map.mpr (List.pairwise_filterMap.mpr ?_))
  refine (List.pairwise_map.mp h).imp fun {a b} hne f hf g hg hname => ?_
  rw [(select?_eq_some_iff.mp hf).1, (select?_eq_some_iff.mp hg).1] at hne
  exact hne hname

/-- Files in the order of their names are selected if just these are chosen. -/
theorem selection_eq {files : List Selected} (h : (entries.filterMap (select? filter)).Perm files)
    (hascending : Ascending Selected.fileName files) : selection filter entries = files := by
  have hnodup : ((entries.filterMap (select? filter)).map Selected.fileName).Nodup :=
    (h.map _).nodup_iff.mpr hascending.nodup_map
  refine (ascending_mergeSort hnodup).eq_of_mem_iff hascending fun f => ?_
  rw [List.mem_mergeSort, h.mem_iff]

theorem selection_eq_of_perm (h : (entries.map Prod.fst).Nodup) (hperm : entries.Perm entries') :
    selection filter entries = selection filter entries' := by
  have h' : (entries'.map Prod.fst).Nodup := (hperm.map Prod.fst).nodup_iff.mp h
  refine (ascending_selection h).eq_of_mem_iff (ascending_selection h') fun f => ?_
  rw [mem_selection, mem_selection, hperm.mem_iff]

end Selection

/-! ### Loading all or nothing -/

variable {format : Format}

namespace Selected

/-- Whether a file has been loaded from its entry in the directory: its name is that of an opcode,
and it holds the cases. -/
structure Loads (format : Format) (f : Selected) (loaded : File) : Prop where
  name_eq : loaded.name = f.name
  stem_eq : Stem.ofText? f.name = some loaded.stem
  cases_eq : ∃ contents, f.node = .data contents ∧ format.cases? contents = some loaded.cases

/-- Whether a file cannot be loaded. -/
def Fails (format : Format) (f : Selected) : Prop := ∀ loaded, ¬ f.Loads format loaded

/-- What is said of a file that cannot be loaded: its name is looked at first, and then whether it
can be opened. -/
def loadError (directory : String) (f : Selected) : RunError :=
  let path := joinPath directory f.fileName
  if Stem.ofText? f.name = none then .invalidFileName path
  else match f.node with
    | .locked cause | .broken cause => .file path cause
    | .directory | .data _ => .malformed path

end Selected

theorem loadFile_cases (format : Format) (directory : String) (f : Selected) :
    (∃ loaded, loadFile format directory f = .ok loaded ∧ f.Loads format loaded) ∨
      (loadFile format directory f = .error (f.loadError directory) ∧ f.Fails format) := by
  simp only [loadFile, Selected.loadError]
  cases hstem : Stem.ofText? f.name with
  | none =>
      refine .inr ⟨rfl, fun loaded h => ?_⟩
      cases hstem.symm.trans h.stem_eq
  | some stem =>
      have hother (hnode : ∀ contents, f.node ≠ .data contents) : f.Fails format := by
        intro loaded h
        obtain ⟨contents, hcontents, -⟩ := h.cases_eq
        exact hnode contents hcontents
      cases hnode : f.node with
      | directory => exact .inr ⟨rfl, hother (by simp [hnode])⟩
      | locked cause => exact .inr ⟨rfl, hother (by simp [hnode])⟩
      | broken cause => exact .inr ⟨rfl, hother (by simp [hnode])⟩
      | data contents =>
          dsimp only
          cases hcases : format.cases? contents with
          | none =>
              refine .inr ⟨rfl, fun loaded h => ?_⟩
              obtain ⟨contents', hcontents, hread⟩ := h.cases_eq
              obtain rfl := Node.data.inj (hnode.symm.trans hcontents)
              cases hcases.symm.trans hread
          | some cases => exact .inl ⟨_, rfl, rfl, hstem, contents, hnode, hcases⟩

theorem loads_of_loadFile {directory : String} {f : Selected} {loaded : File}
    (h : loadFile format directory f = .ok loaded) : f.Loads format loaded := by
  obtain ⟨loaded', hok, hloads⟩ | ⟨herror, -⟩ := loadFile_cases format directory f
  · obtain rfl := Except.ok.inj (h.symm.trans hok)
    exact hloads
  · cases h.symm.trans herror

theorem loadFile_eq_error_iff {directory : String} {f : Selected} {e : RunError} :
    loadFile format directory f = .error e ↔ f.Fails format ∧ e = f.loadError directory := by
  obtain ⟨loaded, hok, hloads⟩ | ⟨herror, hfails⟩ := loadFile_cases format directory f
  · exact iff_of_false (fun h => nomatch h.symm.trans hok) fun h => h.1 loaded hloads
  · rw [herror, Except.error.injEq, eq_comm, and_iff_right hfails]

theorem loadFiles_of_list {directory : String} {filter : List String} {t : FileTree}
    {entries : List (String × Node)} (h : t.list directory = .ok entries) :
    loadFiles format directory filter t =
      if selection filter entries = [] ∧ filter ≠ [] then
        .error (.noFilesMatched directory (",".intercalate filter))
      else (selection filter entries).mapM (loadFile format directory) := by
  simp only [loadFiles, h]

theorem loadFiles_eq {directory : String} {filter : List String} {t : FileTree}
    {entries : List (String × Node)} (files : List Selected)
    (hlist : t.list directory = .ok entries)
    (hfiles : (entries.filterMap (select? filter)).Perm files)
    (hascending : Ascending Selected.fileName files) (hne : files ≠ []) :
    loadFiles format directory filter t = files.mapM (loadFile format directory) := by
  rw [loadFiles_of_list hlist, selection_eq hfiles hascending, if_neg fun hnone => hne hnone.1]

theorem exists_list_of_loadFiles {directory : String} {filter : List String} {t : FileTree}
    {files : List File} (h : loadFiles format directory filter t = .ok files) :
    ∃ entries, t.list directory = .ok entries := by
  cases hlist : t.list directory with
  | error cause =>
      simp only [loadFiles, hlist] at h
      cases h
  | ok entries => exact ⟨entries, rfl⟩

theorem loadFiles_rearranged {t t' : FileTree} (h : t.Rearranged t') (format : Format)
    (directory : String) (filter : List String) :
    loadFiles format directory filter t = loadFiles format directory filter t' := by
  have hlist := h.list directory
  generalize hx : t.list directory = x at hlist
  generalize hy : t'.list directory = y at hlist
  cases hlist with
  | error heq => simp only [loadFiles, hx, hy, heq]
  | ok hperm =>
      rw [loadFiles_of_list hx, loadFiles_of_list hy,
        selection_eq_of_perm (FileTree.nodup_list h.distinct hx) hperm]

/-! ### The report -/

/-- The cases of a file, each with what comes of it: the checks of `Case.check` for an encoding of
the opcode that the file is named for, and a failure for any other. -/
def File.entries (model : Model) (f : File) : List Entry :=
  f.cases.map fun c =>
    { file := f.name, checked := c,
      outcome := if f.stem.covers c.bytes then c.check model else .error (.opcode f.name) }

theorem reportOn_eq (model : Model) (limit : Nat) (files : List File) :
    reportOn model limit files
      = (Report.new model.name limit).recordAll (files.flatMap (File.entries model)) := by
  simp only [Report.recordAll, List.foldl_flatMap, File.entries, List.foldl_map]
  rfl

theorem run_of_error {s : Settings} {t : FileTree} {e : RunError}
    (h : loadFiles format s.directory s.filter t = .error e) :
    format.run s t = ⟨.error e, [], t⟩ := by
  simp only [Format.run, h]

/-- What a run comes to whose files have all been loaded, and which so has a report: if it is to be
written and cannot be, that is an error, nothing is printed, and at most directories have been made
for it; else the summary is printed, and what has been written is there to be read. -/
structure Delivers (format : Format) (s : Settings) (t : FileTree) (report : Report) : Prop where
  of_none : s.reportPath = none → format.run s t = ⟨.ok report, report.summary, t⟩
  of_refused : ∀ path failure, s.reportPath = some path →
    t.write path (format.report report) = .error failure →
      format.run s t = ⟨.error (.file path failure.cause), [], failure.tree⟩
        ∧ t.Grown failure.tree
  of_written : ∀ path t', s.reportPath = some path → t.write path (format.report report) = .ok t' →
    format.run s t = ⟨.ok report, report.summary, t'⟩
      ∧ t'.contents? path = some (Text.bytes (format.report report))

theorem delivers {s : Settings} {t : FileTree} {files : List File}
    (h : loadFiles format s.directory s.filter t = .ok files) :
    Delivers format s t (reportOn s.model s.sampleLimit files) where
  of_none hpath := by simp only [Format.run, h, hpath]
  of_refused path failure hpath hwrite := by
    refine ⟨?_, FileTree.grown_of_write_error hwrite⟩
    simp only [Format.run, h, hpath, hwrite]
  of_written path t' hpath hwrite := by
    refine ⟨?_, FileTree.contents?_write hwrite⟩
    simp only [Format.run, h, hpath, hwrite]

/-- A run that has a report has loaded its files, prints the summary, and leaves the tree as it was
unless the report is written. -/
theorem run_eq_ok {s : Settings} {t : FileTree} {report : Report}
    (h : (format.run s t).outcome = .ok report) :
    ∃ files t', loadFiles format s.directory s.filter t = .ok files
      ∧ report = reportOn s.model s.sampleLimit files
      ∧ format.run s t = ⟨.ok report, report.summary, t'⟩
      ∧ (s.reportPath = none → t' = t)
      ∧ ∀ path, s.reportPath = some path → t.write path (format.report report) = .ok t' := by
  cases hload : loadFiles format s.directory s.filter t with
  | error e =>
      rw [run_of_error hload] at h
      cases h
  | ok files =>
      have hdelivers := delivers hload
      cases hpath : s.reportPath with
      | none =>
          have hrun := hdelivers.of_none hpath
          rw [hrun] at h
          obtain rfl := Except.ok.inj h
          exact ⟨files, t, rfl, rfl, hrun, fun _ => rfl, nofun⟩
      | some path =>
          cases hwrite : t.write path (format.report (reportOn s.model s.sampleLimit files)) with
          | error failure =>
              have hrefused := (hdelivers.of_refused path failure hpath hwrite).1
              rw [hrefused] at h
              cases h
          | ok t' =>
              have hrun := (hdelivers.of_written path t' hpath hwrite).1
              rw [hrun] at h
              obtain rfl := Except.ok.inj h
              exact ⟨files, t', rfl, rfl, hrun, nofun, fun _ hpath' =>
                Option.some.inj hpath' ▸ hwrite⟩

/-- Whether two runs come to the same, but for the order in which the files afterwards are kept. -/
structure RunResult.Agrees (r r' : RunResult) : Prop where
  outcome : r.outcome = r'.outcome
  printed : r.printed = r'.printed
  tree : r.tree.Rearranged r'.tree

theorem run_rearranged {t t' : FileTree} (h : t.Rearranged t') (format : Format) (s : Settings) :
    (format.run s t).Agrees (format.run s t') := by
  unfold Format.run
  rw [loadFiles_rearranged h]
  cases loadFiles format s.directory s.filter t' with
  | error e => exact ⟨rfl, rfl, h⟩
  | ok files =>
      cases s.reportPath with
      | none => exact ⟨rfl, rfl, h⟩
      | some path =>
          have hwrite := h.write path (format.report (reportOn s.model s.sampleLimit files))
          dsimp only
          generalize t.write path _ = x at hwrite ⊢
          generalize t'.write path _ = y at hwrite ⊢
          cases hwrite with
          | error hfailures =>
              exact ⟨congrArg (Except.error <| RunError.file path ·) hfailures.cause_eq, rfl,
                hfailures.tree⟩
          | ok hwritten => exact ⟨rfl, rfl, hwritten⟩

/-- What a run comes to, whatever the format of files and reports is, and whatever the order in
which the tree is kept and its directory listed. With the files that the filter selects in the order
of the bytes of their names: nothing selected although something was asked for is an error; so are
files that cannot be loaded, and the error is that of the first of them; in both cases nothing is
printed and nothing written. Else all files are loaded, and the report is that on their cases, from
the first case of the first file on, each of them counted and each failure kept in words as long as
there is room. -/
theorem run_of_distinct (format : Format) (s : Settings) (t : FileTree) (h : t.Distinct) :
    (∀ t', t.entries.Perm t'.entries →
      (format.run s t').outcome = (format.run s t).outcome
        ∧ (format.run s t').printed = (format.run s t).printed
        ∧ (format.run s t').tree.entries.Perm (format.run s t).tree.entries)
    ∧ (∀ cause, t.list s.directory = .error cause →
      format.run s t = ⟨.error (.file s.directory cause), [], t⟩)
    ∧ ∀ entries, t.list s.directory = .ok entries →
      ∃ files : List Selected,
        (∀ f, f ∈ files ↔ (f.fileName, f.node) ∈ entries ∧ f.IsChosen s.filter)
        ∧ (files.map fun f => Text.bytes f.fileName).Pairwise (· < ·)
        ∧ (files = [] → s.filter ≠ [] → format.run s t
            = ⟨.error (.noFilesMatched s.directory (",".intercalate s.filter)), [], t⟩)
        ∧ ((∃ f ∈ files, f.Fails format) →
            ∃ f ∈ files, f.Fails format
              ∧ format.run s t = ⟨.error (f.loadError s.directory), [], t⟩
              ∧ ∀ g ∈ files, g.Fails format →
                  g = f ∨ Text.bytes f.fileName < Text.bytes g.fileName)
        ∧ ((files ≠ [] ∨ s.filter = []) → (∀ f ∈ files, ¬ f.Fails format) →
            ∃ (loaded : List File) (report : Report),
              List.Forall₂ (Selected.Loads format) files loaded
              ∧ report = (Report.new s.model.name s.sampleLimit).recordAll
                  (loaded.flatMap (File.entries s.model))
              ∧ report.model = s.model.name ∧ report.sampleLimit = s.sampleLimit
              ∧ report.Accounts (loaded.flatMap (File.entries s.model))
              ∧ Delivers format s t report) := by
  refine ⟨fun t' hperm => ?_, fun cause hlist => ?_, fun entries hlist => ?_⟩
  · obtain ⟨houtcome, hprinted, htree⟩ := run_rearranged ⟨h, hperm⟩ format s
    exact ⟨houtcome.symm, hprinted.symm, htree.perm.symm⟩
  · exact run_of_error (by simp only [loadFiles, hlist])
  have hascending : Ascending Selected.fileName (selection s.filter entries) :=
    ascending_selection (FileTree.nodup_list h hlist)
  have hload := @loadFiles_of_list format s.directory s.filter t entries hlist
  have hfails (f : Selected) :
      (∃ e, loadFile format s.directory f = .error e) ↔ f.Fails format := by
    simp only [loadFile_eq_error_iff, exists_and_left, exists_eq, and_true]
  refine ⟨selection s.filter entries, fun f => mem_selection, hascending.pairwise_bytes,
    fun hnone hfilter => ?_, fun hsome => ?_, fun hasked hnone => ?_⟩
  · exact run_of_error (hload.trans (if_pos ⟨hnone, hfilter⟩))
  · simp only [← hfails] at hsome
    obtain ⟨f, hf, e, he, hall, hfirst⟩ := exists_mapM_eq_error hascending hsome
    obtain ⟨hf', rfl⟩ := loadFile_eq_error_iff.mp he
    have hne : selection s.filter entries ≠ [] := List.ne_nil_of_mem hf
    refine ⟨f, hf, hf', run_of_error ?_, fun g hg hg' => ?_⟩
    · rw [hload, if_neg fun hnone => hne hnone.1, hall]
    · exact (hfirst g hg ((hfails g).mpr hg')).imp_right Text.bytes_lt_iff.mpr
  · simp only [← hfails] at hnone
    obtain ⟨loaded, hall, hloaded⟩ := exists_mapM_eq_ok hnone
    refine ⟨loaded, _, hloaded.imp fun _ _ => loads_of_loadFile, rfl, Report.model_recordAll _ _,
      Report.sampleLimit_recordAll _ _, Report.accounts_recordAll _ _ _, ?_⟩
    rw [← reportOn_eq]
    refine delivers ?_
    rw [hload, if_neg fun hnone => hasked.elim (· hnone.1) hnone.2, hall]

/-- What is said of a file that is there and may not be read. -/
def permissionDenied : FileError := .other "Permission denied (os error 13)"

/-- Two corpora side by side. All files of `c` can be loaded, and no file of `d` can. -/
def twoCorpora : List (Path × Node) :=
  [(["c"], .directory),
    (["c", "F6.3.json"], .file "[[\"neg bl\",[246,219]],[\"not bl\",[246,211]]]"),
    (["c", "90.json"], .file "[[\"nop\",[144]],[\"xchg\",[144]]]"),
    (["c", "90.txt"], .locked permissionDenied), (["d"], .directory),
    (["d", "x.json"], .file "[]"), (["d", "92.json"], .file "?"),
    (["d", "91.json"], .broken .notFound), (["d", "90.json"], .locked permissionDenied)]

/-- The report on the corpus `c`. -/
def twoFilesReport : Report where
  model := "8086"
  totalCases := 4
  failures := 2
  files := [("90", ⟨2, 1⟩), ("F6.3", ⟨2, 1⟩)]
  failureSamples :=
    ["90: \"xchg\" [90]: decoded as \"nop\", expected \"xchg\"",
      "F6.3: \"not bl\" [f6, d3]: encoding does not start with opcode F6.3"]
  sampleLimit := 32

theorem delivers_twoCorpora (reportPath : Option String) :
    Delivers Format.json { directory := "c", model := .i8086, reportPath } ⟨twoCorpora⟩
      twoFilesReport := by
  let entries : List (String × Node) :=
    [("F6.3.json", .file "[[\"neg bl\",[246,219]],[\"not bl\",[246,211]]]"),
      ("90.json", .file "[[\"nop\",[144]],[\"xchg\",[144]]]"),
      ("90.txt", .locked permissionDenied)]
  let files : List Selected :=
    [⟨"90.json", "90", .file "[[\"nop\",[144]],[\"xchg\",[144]]]"⟩,
      ⟨"F6.3.json", "F6.3", .file "[[\"neg bl\",[246,219]],[\"not bl\",[246,211]]]"⟩]
  let loaded : List File :=
    [⟨"90", ⟨[0x90], none⟩, [⟨"nop", [0x90]⟩, ⟨"xchg", [0x90]⟩]⟩,
      ⟨"F6.3", ⟨[0xF6], some 3⟩, [⟨"neg bl", [0xF6, 0xDB]⟩, ⟨"not bl", [0xF6, 0xD3]⟩]⟩]
  have hlist : FileTree.list ⟨twoCorpora⟩ "c" = .ok entries := by decide +kernel
  have hload : loadFiles Format.json "c" [] ⟨twoCorpora⟩ = .ok loaded := by
    rw [loadFiles_eq files hlist (by decide +kernel) (by decide +kernel) (by decide)]
    decide +kernel
  have hreport : reportOn .i8086 32 loaded = twoFilesReport := by decide +kernel
  exact hreport ▸ delivers (s := { directory := "c", model := .i8086, reportPath }) hload

/-- The entries of the directory `d`. -/
def unreadableEntries : List (String × Node) :=
  [("x.json", .file "[]"), ("92.json", .file "?"), ("91.json", .broken .notFound),
    ("90.json", .locked permissionDenied)]

theorem run_of_unreadable (files : List Selected) {s : Settings} {e : RunError}
    (hdirectory : s.directory = "d") (hne : files ≠ [])
    (hfiles : (unreadableEntries.filterMap (select? s.filter)).Perm files)
    (hascending : Ascending Selected.fileName files)
    (herror : files.mapM (loadFile Format.json "d") = .error e) :
    Format.json.run s ⟨twoCorpora⟩ = ⟨.error e, [], ⟨twoCorpora⟩⟩ := by
  have hlist : FileTree.list ⟨twoCorpora⟩ "d" = .ok unreadableEntries := by decide +kernel
  refine run_of_error ?_
  rw [hdirectory, loadFiles_eq files hlist hfiles hascending hne, herror]

/-- Two files of a corpus are read, with one failure in each, and the report is written into a
directory that is made for it. When the path of the report means a directory, the report is not
written, but the directory above has been made. In another directory, no file can be loaded. -/
theorem run_of_distinct_two_directories :
    let s : Settings := { directory := "c", model := .i8086, reportPath := some "n/r.json" }
    let made : List (Path × Node) := (["n"], .directory) :: twoCorpora
    let text := "\n".intercalate
      ["\x7b", "  \"model\": \"8086\",", "  \"total_cases\": 4,", "  \"failures\": 2,",
        "  \"files\": \x7b", "    \"90\": \x7b", "      \"cases\": 2,", "      \"failures\": 1",
        "    \x7d,", "    \"F6.3\": \x7b", "      \"cases\": 2,", "      \"failures\": 1",
        "    \x7d", "  \x7d,", "  \"failure_samples\": [",
        "    \"90: \\\"xchg\\\" [90]: decoded as \\\"nop\\\", expected \\\"xchg\\\"\",",
        "    \"F6.3: \\\"not bl\\\" [f6, d3]: encoding does not start with opcode F6.3\"",
        "  ]", "\x7d"]
    let summary := ["conformance (8086): 4 cases in 2 files, 2 failures", "failing files:",
      "  - 90: 1/2", "  - F6.3: 1/2",
      "  90: \"xchg\" [90]: decoded as \"nop\", expected \"xchg\"",
      "  F6.3: \"not bl\" [f6, d3]: encoding does not start with opcode F6.3"]
    let fails (filter : List String) (e : RunError) : Prop :=
      Format.json.run { s with directory := "d", filter } ⟨twoCorpora⟩
        = ⟨.error e, [], ⟨twoCorpora⟩⟩
    FileTree.Distinct ⟨twoCorpora⟩
      ∧ Format.json.run s ⟨twoCorpora⟩
        = ⟨.ok twoFilesReport, summary, ⟨(["n", "r.json"], .file text) :: made⟩⟩
      ∧ (Format.json.run s ⟨twoCorpora.reverse⟩).outcome = .ok twoFilesReport
      ∧ (Format.json.run s ⟨twoCorpora.reverse⟩).printed = summary
      ∧ Format.json.run { s with reportPath := some "n/r.json/" } ⟨twoCorpora⟩
        = ⟨.error (.file "n/r.json/" .isDirectory), [], ⟨made⟩⟩
      ∧ fails [] (.file "d/90.json" permissionDenied)
      ∧ fails ["91", "92"] (.file "d/91.json" .notFound)
      ∧ fails ["x", "92"] (.malformed "d/92.json")
      ∧ fails ["x"] (.invalidFileName "d/x.json")
      ∧ fails ["y", "z"] (.noFilesMatched "d" "y,z") := by
  intro s made text summary fails
  have hdistinct : FileTree.Distinct ⟨twoCorpora⟩ := by decide
  have htext : twoFilesReport.json = text := by decide +kernel
  have hwrite : FileTree.write ⟨twoCorpora⟩ "n/r.json" twoFilesReport.json
      = .ok ⟨(["n", "r.json"], .file twoFilesReport.json) :: made⟩ := by
    decide +kernel
  have hrefused : FileTree.write ⟨twoCorpora⟩ "n/r.json/" twoFilesReport.json
      = .error ⟨.isDirectory, ⟨made⟩⟩ := by
    decide +kernel
  have hsummary : twoFilesReport.summary = summary := by decide +kernel
  have hrun : Format.json.run s ⟨twoCorpora⟩
      = ⟨.ok twoFilesReport, summary, ⟨(["n", "r.json"], .file text) :: made⟩⟩ := by
    rw [((delivers_twoCorpora _).of_written _ _ rfl hwrite).1, hsummary, htext]
  obtain ⟨houtcome, hprinted, -⟩ :=
    (run_of_distinct Format.json s ⟨twoCorpora⟩ hdistinct).1 ⟨twoCorpora.reverse⟩
      twoCorpora.reverse_perm.symm
  rw [hrun] at houtcome hprinted
  refine ⟨hdistinct, hrun, houtcome, hprinted,
    ((delivers_twoCorpora _).of_refused _ _ rfl hrefused).1, ?_, ?_, ?_, ?_, ?_⟩
  · exact run_of_unreadable [⟨"90.json", "90", .locked permissionDenied⟩,
      ⟨"91.json", "91", .broken .notFound⟩, ⟨"92.json", "92", .file "?"⟩,
      ⟨"x.json", "x", .file "[]"⟩] rfl (by decide) (by decide +kernel) (by decide +kernel)
      (by decide +kernel)
  · exact run_of_unreadable [⟨"91.json", "91", .broken .notFound⟩, ⟨"92.json", "92", .file "?"⟩]
      rfl (by decide) (by decide +kernel) (by decide +kernel) (by decide +kernel)
  · exact run_of_unreadable [⟨"92.json", "92", .file "?"⟩, ⟨"x.json", "x", .file "[]"⟩] rfl
      (by decide) (by decide +kernel) (by decide +kernel) (by decide +kernel)
  · exact run_of_unreadable [⟨"x.json", "x", .file "[]"⟩] rfl (by decide) (by decide +kernel)
      (by decide +kernel) (by decide +kernel)
  · have hlist : FileTree.list ⟨twoCorpora⟩ "d" = .ok unreadableEntries := by decide +kernel
    have hnone : selection ["y", "z"] unreadableEntries = [] :=
      selection_eq (by decide +kernel) (by decide +kernel)
    refine run_of_error ?_
    rw [loadFiles_of_list hlist, hnone]
    decide +kernel

end Corpus

end Iapx86
