import Iapx86.Proofs.Corpus.Run
import Iapx86.Proofs.Json

/-!
# Runs one after the other

A run that succeeds leaves everything as it was but for the report and the directories that are made
for it (`Settings.Puts`). If none of these is in the corpus directory under a name that the filter
selects, the next run finds the same files, reports the same on them, and leaves the tree as it is.

Otherwise the next run fails if the format keeps reports apart from corpus files
(`Format.KeepsApart`), since a directory holds no cases either. JSON does: a report is an object and
no array (`keepsApart_json`).
-/

namespace Iapx86

namespace Corpus

/-! ### Reports as corpus files -/

/-- Whether no report is read as cases. -/
def Format.KeepsApart (format : Format) : Prop :=
  ∀ r : Report, format.cases? (Text.bytes (format.report r)) = none

theorem exists_toList_json (r : Report) : ∃ cs, r.json.toList = '\x7b' :: cs := by
  simp only [Report.json, Json.objectBlock, Json.blockText, List.map_cons, String.toList_append]
  exact ⟨_, rfl⟩

theorem casesOfText?_json (r : Report) : casesOfText? r.json = none := by
  obtain ⟨cs, hcs⟩ := exists_toList_json r
  unfold casesOfText?
  split
  · next items hitems =>
      obtain ⟨members, hmembers⟩ := Json.exists_eq_object_of_brace hcs hitems
      cases hmembers
  · rfl

theorem keepsApart_json : Format.json.KeepsApart := by
  intro r
  simp only [Format.json, Text.ofBytes?_bytes, Option.bind_eq_bind, Option.bind_some]
  exact casesOfText?_json r

variable {format : Format}

/-- Whether something is what a run with this report may put into a tree. -/
def Format.IsPut (format : Format) (report : Report) (node : Node) : Prop :=
  node = .file (format.report report) ∨ node = .directory

namespace Selected

variable {f : Selected} {report : Report}

theorem fails_of_isPut (hformat : format.KeepsApart) (h : format.IsPut report f.node) :
    f.Fails format := by
  intro loaded hloads
  obtain ⟨contents, hcontents, hcases⟩ := hloads.cases_eq
  obtain hreport | hdirectory := h
  · obtain rfl := Node.data.inj (hreport.symm.trans hcontents)
    cases (hformat report).symm.trans hcases
  · cases hdirectory.symm.trans hcontents

theorem loadError_of_isPut (h : format.IsPut report f.node) (directory : String) :
    f.loadError directory =
      if Stem.ofText? f.name = none then .invalidFileName (joinPath directory f.fileName)
      else .malformed (joinPath directory f.fileName) := by
  obtain hreport | hdirectory := h
  · simp only [loadError, hreport, Node.file]
  · simp only [loadError, hdirectory]

end Selected

/-! ### What the next run finds -/

/-- Whether a run puts something at a path: the report, or a directory that is made for it. -/
def Settings.Puts (format : Format) (s : Settings) (t : FileTree) (p : Path) : Prop :=
  ∃ path, s.reportPath = some path ∧ ((format.run s t).tree.place path = .ok p
    ∨ t.node? p = none ∧ (format.run s t).tree.node? p = some .directory)

variable {s : Settings} {t t' : FileTree} {entries entries' : List (String × Node)}

theorem Settings.puts_iff {path : String} {target p : Path} (hpath : s.reportPath = some path)
    (htree : (format.run s t).tree = t') (hplace : t'.place path = .ok target) :
    s.Puts format t p ↔ p = target ∨ t.node? p = none ∧ t'.node? p = some .directory := by
  simp only [Settings.Puts, hpath, htree, Option.some.injEq, exists_eq_left', hplace,
    Except.ok.injEq, eq_comm]

theorem run_of_fails (h : t.Distinct) (hlist : t.list s.directory = .ok entries) {f : Selected}
    (hf : f ∈ selection s.filter entries) (hfails : f.Fails format) :
    ∃ g ∈ selection s.filter entries, g.Fails format
      ∧ format.run s t = ⟨.error (g.loadError s.directory), [], t⟩ := by
  have hascending : Ascending Selected.fileName (selection s.filter entries) :=
    ascending_selection (FileTree.nodup_list h hlist)
  obtain ⟨g, hg, e, he, hall, -⟩ := exists_mapM_eq_error hascending
    ⟨f, hf, f.loadError s.directory, loadFile_eq_error_iff.mpr ⟨hfails, rfl⟩⟩
  obtain ⟨hg', rfl⟩ := loadFile_eq_error_iff.mp he
  refine ⟨g, hg, hg', run_of_error ?_⟩
  rw [loadFiles_of_list hlist, if_neg fun hnone => List.ne_nil_of_mem hf hnone.1, hall]

theorem not_fails_of_loadFiles {files : List File}
    (h : loadFiles format s.directory s.filter t = .ok files)
    (hlist : t.list s.directory = .ok entries) :
    ∀ f ∈ selection s.filter entries, ¬ f.Fails format := by
  intro f hf hfails
  rw [loadFiles_of_list hlist] at h
  split at h
  · cases h
  · obtain ⟨loaded, -, hloaded⟩ := exists_ok_of_mem h hf
    exact hfails loaded (loads_of_loadFile hloaded)

/-- What a run that has a report leaves for the next one. -/
structure LeavesBehind (format : Format) (s : Settings) (t : FileTree) (report : Report) :
    Prop where
  distinct : t.Distinct → (format.run s t).tree.Distinct
  directoriesIn : t.DirectoriesIn (format.run s t).tree
  exists_node : ∀ p, s.Puts format t p →
    ∃ node, (format.run s t).tree.node? p = some node ∧ format.IsPut report node
  node?_of_not_puts : ∀ p, ¬ s.Puts format t p → (format.run s t).tree.node? p = t.node? p
  run_eq :
    loadFiles format s.directory s.filter (format.run s t).tree
        = loadFiles format s.directory s.filter t →
      format.run s (format.run s t).tree = format.run s t

theorem leavesBehind {report : Report} (h : (format.run s t).outcome = .ok report) :
    LeavesBehind format s t report := by
  obtain ⟨files, t', hload, rfl, hrun, hnone, hsome⟩ := run_eq_ok h
  have htree : (format.run s t).tree = t' := congrArg RunResult.tree hrun
  cases hpath : s.reportPath with
  | none =>
      obtain rfl := hnone hpath
      have hnever (p : Path) : ¬ s.Puts format t' p := by
        rintro ⟨path, hpath', -⟩
        cases hpath.symm.trans hpath'
      exact
        { distinct := fun hdistinct => by rw [htree]; exact hdistinct
          directoriesIn := fun p hp => by rw [htree]; exact hp
          exists_node := fun p hp => absurd hp (hnever p)
          node?_of_not_puts := fun p _ => by rw [htree]
          run_eq := fun _ => by rw [htree] }
  | some path =>
      have hwrite := hsome path hpath
      obtain ⟨target, hwritten⟩ := FileTree.exists_written hwrite
      have hputs (p : Path) := Settings.puts_iff (p := p) hpath htree hwritten.place_eq
      exact
        { distinct := fun hdistinct => htree ▸ FileTree.distinct_write hdistinct hwrite
          directoriesIn := htree ▸ hwritten.directoriesIn
          exists_node := fun p hp => by
            rw [htree]
            obtain rfl | ⟨-, hmade⟩ := (hputs p).mp hp
            · exact ⟨_, hwritten.node?_target, .inl rfl⟩
            · exact ⟨_, hmade, .inr rfl⟩
          node?_of_not_puts := fun p hp => by
            rw [hputs, not_or] at hp
            rw [htree]
            exact (hwritten.node?_of_ne p hp.1).resolve_right hp.2
          run_eq := fun hagain => by
            rw [htree] at hagain ⊢
            rw [hrun]
            exact ((delivers (hagain.trans hload)).of_written path t' hpath
              (FileTree.write_again hwrite)).1 }

/-- A run that succeeds leaves everything as it was where it puts nothing, so that a corpus file
keeps its contents unless the report is written in its place. If what it puts is not in the corpus
directory under a name that the filter selects, the next run comes to the same in every respect.
If something is, and no report is read as cases, the next run fails, and because of that: a name
that it puts there is not that of an opcode, or it is, and there are no cases under it. -/
theorem run_again {report : Report} (h : t.Distinct) (hok : (format.run s t).outcome = .ok report) :
    (∀ p, ¬ s.Puts format t p → (format.run s t).tree.node? p = t.node? p)
    ∧ (∀ path, s.reportPath = some path →
        (format.run s t).tree.contents? path = some (Text.bytes (format.report report)))
    ∧ ∃ directory, t.directoryAt (Path.ofText s.directory) = .ok directory
      ∧ ((∀ f : Selected, f.IsChosen s.filter → ¬ s.Puts format t (directory ++ [f.fileName])) →
        format.run s (format.run s t).tree = format.run s t)
      ∧ (format.KeepsApart →
        ∀ f : Selected, f.IsChosen s.filter → s.Puts format t (directory ++ [f.fileName]) →
          ∃ g : Selected, g.IsChosen s.filter ∧ s.Puts format t (directory ++ [g.fileName])
            ∧ format.run s (format.run s t).tree =
              ⟨.error (if Stem.ofText? g.name = none
                  then .invalidFileName (joinPath s.directory g.fileName)
                  else .malformed (joinPath s.directory g.fileName)),
                [], (format.run s t).tree⟩) := by
  have hleaves := leavesBehind hok
  have hdistinct := hleaves.distinct h
  obtain ⟨files, t', hload, -, hrun, -, hwrite⟩ := run_eq_ok hok
  obtain ⟨entries, hlist⟩ := exists_list_of_loadFiles hload
  obtain ⟨directory, entries', hdirectory, hlist', hentries, hentries'⟩ :=
    FileTree.exists_list_of_directoriesIn h hdistinct hleaves.directoriesIn hlist
  refine ⟨hleaves.node?_of_not_puts, fun path hpath => ?_, directory, hdirectory, fun hnone => ?_,
    fun hformat f hf hputs => ?_⟩
  · rw [hrun]
    exact FileTree.contents?_write (hwrite path hpath)
  · have hselection : selection s.filter entries' = selection s.filter entries := by
      refine (ascending_selection (FileTree.nodup_list hdistinct hlist')).eq_of_mem_iff
        (ascending_selection (FileTree.nodup_list h hlist)) fun f => ?_
      rw [mem_selection, mem_selection, hentries, hentries']
      exact and_congr_left fun hf => by rw [hleaves.node?_of_not_puts _ (hnone f hf)]
    exact hleaves.run_eq (by rw [loadFiles_of_list hlist, loadFiles_of_list hlist', hselection])
  · obtain ⟨node, hnode, hput⟩ := hleaves.exists_node _ hputs
    have hmem : { f with node } ∈ selection s.filter entries' :=
      mem_selection.mpr ⟨(hentries' f.fileName node).mpr hnode, hf⟩
    have hfails : Selected.Fails format { f with node } := Selected.fails_of_isPut hformat hput
    obtain ⟨g, hg, hgfails, hagain⟩ := run_of_fails hdistinct hlist' hmem hfails
    obtain ⟨hmem', hchosen⟩ := mem_selection.mp hg
    have hgputs : s.Puts format t (directory ++ [g.fileName]) := by
      refine Classical.byContradiction fun hnot => ?_
      -- What is not put there was there before, and has been loaded.
      rw [hentries', hleaves.node?_of_not_puts _ hnot, ← hentries] at hmem'
      exact not_fails_of_loadFiles hload hlist g (mem_selection.mpr ⟨hmem', hchosen⟩) hgfails
    obtain ⟨node', hnode', hput'⟩ := hleaves.exists_node _ hgputs
    obtain rfl := Option.some.inj (((hentries' _ _).mp hmem').symm.trans hnode')
    exact ⟨g, hchosen, hgputs, Selected.loadError_of_isPut hput' _ ▸ hagain⟩

/-- A run whose report is written puts it where its path leads once the directories are made for it,
and puts these. -/
theorem run_of_place (made : FileTree) (target : Path) {path : String} {files : List File}
    (hload : loadFiles format s.directory s.filter t = .ok files)
    (hpath : s.reportPath = some path) (hne : path.isEmpty = false)
    (hmakes : t.makeDirectories false [] (Path.ofText path).dropLast = .ok made)
    (hplace : made.place path = .ok target) :
    let report := reportOn s.model s.sampleLimit files
    format.run s t =
        ⟨.ok report, report.summary, made.put target (.file (format.report report))⟩ ∧
      ∀ p, s.Puts format t p ↔ p = target ∨ t.node? p = none ∧ made.node? p = some .directory := by
  intro report
  have hwrite : t.write path (format.report report)
      = .ok (made.put target (.file (format.report report))) :=
    FileTree.write_eq_ok_iff.mpr ⟨hne, made, target, hmakes, hplace, rfl⟩
  have hrun := ((delivers hload).of_written path _ hpath hwrite).1
  refine ⟨hrun, fun p => ?_⟩
  rw [Settings.puts_iff hpath (congrArg RunResult.tree hrun) (FileTree.place_put hplace _)]
  refine or_congr_right' fun hp => ?_
  rw [made.node?_put_of_ne hp]

/-- A corpus of one file. -/
def oneFile : FileTree :=
  ⟨[(["c"], .directory), (["c", "90.json"], .file "[[\"nop\",[144]]]")]⟩

theorem loadFiles_oneFile : loadFiles Format.json "c" [] oneFile
    = .ok [⟨"90", ⟨[0x90], none⟩, [⟨"nop", [0x90]⟩]⟩] := by
  have hlist : oneFile.list "c" = .ok [("90.json", .file "[[\"nop\",[144]]]")] := by
    decide +kernel
  rw [loadFiles_eq [⟨"90.json", "90", .file "[[\"nop\",[144]]]"⟩] hlist
    (by decide +kernel) (by decide +kernel) (by decide)]
  decide +kernel

/-- The report goes to a directory that is made for it beside the corpus file. Neither has the name
of a corpus file, so the next run comes to the same. When the report itself has the name of a corpus
file, the next run looks for cases in it. -/
theorem run_again_madeDirectory :
    let s : Settings :=
      { directory := "c", model := .i8086, reportPath := some "c/out/report.json" }
    let s' : Settings := { s with reportPath := some "c/91.json" }
    oneFile.Distinct
      ∧ (∃ report, (Format.json.run s oneFile).outcome = .ok report
        ∧ oneFile.node? ["c", "out"] = none
        ∧ (Format.json.run s oneFile).tree.node? ["c", "out"] = some .directory
        ∧ Format.json.run s (Format.json.run s oneFile).tree = Format.json.run s oneFile)
      ∧ Format.json.KeepsApart
      ∧ ∃ report, (Format.json.run s' oneFile).outcome = .ok report
        ∧ Format.json.run s' (Format.json.run s' oneFile).tree
          = ⟨.error (.malformed "c/91.json"), [], (Format.json.run s' oneFile).tree⟩ := by
  intro s s'
  have hdistinct : oneFile.Distinct := by decide
  have hc : oneFile.directoryAt (Path.ofText "c") = .ok ["c"] := by decide +kernel
  refine ⟨hdistinct, ?_, keepsApart_json, ?_⟩
  · let made := oneFile.put ["c", "out"] .directory
    obtain ⟨hrun, hputs⟩ := run_of_place (s := s) made ["c", "out", "report.json"]
      loadFiles_oneFile rfl (by decide) (by decide +kernel) (by decide +kernel)
    obtain ⟨-, -, directory, hdirectory, hagain, -⟩ :=
      run_again hdistinct (congrArg RunResult.outcome hrun)
    obtain rfl := Except.ok.inj (hc.symm.trans hdirectory)
    refine ⟨_, congrArg RunResult.outcome hrun, by decide +kernel, ?_, hagain fun f hf => ?_⟩
    · rw [hrun, made.node?_put_of_ne (by decide)]
      decide +kernel
    have hout : f.fileName ≠ "out" := by
      intro hname
      have hjson := jsonStem?_eq_some_iff.mpr ⟨hf.1, hf.2.1⟩
      rw [hname, show jsonStem? "out" = none by decide +kernel] at hjson
      cases hjson
    rw [hputs]
    rintro (hfile | ⟨hnothing, hmade⟩)
    · simp at hfile
    · rw [FileTree.node?_put_of_ne _ (by simpa using hout), hnothing] at hmade
      cases hmade
  · obtain ⟨hrun, hputs⟩ := run_of_place (s := s') oneFile ["c", "91.json"]
      loadFiles_oneFile rfl (by decide) (by decide +kernel) (by decide +kernel)
    obtain ⟨-, -, directory, hdirectory, -, hrefused⟩ :=
      run_again hdistinct (congrArg RunResult.outcome hrun)
    obtain rfl := Except.ok.inj (hc.symm.trans hdirectory)
    obtain ⟨g, hg, hgputs, hagain⟩ := hrefused keepsApart_json ⟨"91.json", "91", .directory⟩
      ⟨rfl, by decide, .inl rfl⟩ ((hputs _).mpr (.inl rfl))
    have hname : g.fileName = "91.json" := by
      obtain hfile | ⟨hnothing, hmade⟩ := (hputs _).mp hgputs
      · simpa using hfile
      · cases hnothing.symm.trans hmade
    have hjson := jsonStem?_eq_some_iff.mpr ⟨hg.1, hg.2.1⟩
    rw [hname, show jsonStem? "91.json" = some "91" by decide +kernel] at hjson
    have herror : (if Stem.ofText? g.name = none
        then RunError.invalidFileName (joinPath "c" g.fileName)
        else .malformed (joinPath "c" g.fileName)) = .malformed "c/91.json" := by
      rw [hname, ← Option.some.inj hjson]
      decide +kernel
    exact ⟨_, congrArg RunResult.outcome hrun, herror ▸ hagain⟩

/-- With a file beside it that is not named for an opcode, the corpus cannot be loaded, whatever is
in that file. -/
theorem loadFiles_oneFile_beside (text : String) :
    loadFiles Format.json "c" [] (oneFile.put ["c", "report.json"] (.file text))
      = .error (.invalidFileName "c/report.json") := by
  let nop : Selected := ⟨"90.json", "90", .file "[[\"nop\",[144]]]"⟩
  let report : Selected := ⟨"report.json", "report", .file text⟩
  have hlist : (oneFile.put ["c", "report.json"] (.file text)).list "c"
      = .ok [("report.json", report.node), ("90.json", nop.node)] := rfl
  have hnop : select? [] ("90.json", nop.node) = some nop := by decide +kernel
  have hreport : select? [] ("report.json", report.node) = some report :=
    select?_eq_some_iff.mpr ⟨rfl, rfl, by simp [report], .inl rfl⟩
  have hloadNop : loadFile Format.json "c" nop
      = .ok ⟨"90", ⟨[0x90], none⟩, [⟨"nop", [0x90]⟩]⟩ := by
    decide +kernel
  have hloadReport : loadFile Format.json "c" report
      = .error (.invalidFileName "c/report.json") := by
    have hnone : Stem.ofText? "report" = none := by decide +kernel
    have hpath : joinPath "c" "report.json" = "c/report.json" := by decide +kernel
    simp only [loadFile, report, hnone, hpath]
  rw [loadFiles_eq [nop, report] hlist ?_ ?_ (List.cons_ne_nil _ _),
    List.mapM_cons, hloadNop, List.mapM_cons, hloadReport]
  · rfl
  · rw [List.filterMap_cons_some hreport, List.filterMap_cons_some hnop]
    exact .swap _ _ _
  · exact List.pairwise_pair.mpr (show "90.json" < "report.json" by decide +kernel)

/-- The report goes beside the corpus file, under a name of the same kind. It names no opcode, so
that the next run fails. -/
theorem run_of_report_beside_corpus :
    let s : Settings := { directory := "c", model := .i8086, reportPath := some "c/report.json" }
    oneFile.Distinct ∧ (∃ report, (Format.json.run s oneFile).outcome = .ok report)
      ∧ (Format.json.run s (Format.json.run s oneFile).tree).outcome
        = .error (.invalidFileName "c/report.json") := by
  intro s
  obtain ⟨hrun, -⟩ := run_of_place (s := s) oneFile ["c", "report.json"]
    loadFiles_oneFile rfl (by decide) (by decide +kernel) (by decide +kernel)
  refine ⟨by decide, ⟨_, congrArg RunResult.outcome hrun⟩, ?_⟩
  rw [hrun, run_of_error (loadFiles_oneFile_beside _)]

end Corpus

end Iapx86
