import Iapx86.Proofs.Corpus.Run
import Iapx86.Proofs.Words

/-!
# Filtered runs

A filter selects files by what occurs in their names (`Mentions`), and does nothing else: the files
that are loaded are those of the unfiltered run whose names mention a term, and the report says of
them what the report of the unfiltered run does (`exists_run_filtered`). So the files that are
reported on under a filter are the restriction of all files to it (`files_run_filtered`), and two
filters together select what either selects.

The terms that the environment gives are the words of a text, in whatever case
(`isChosen_filterTerms_iff`).
-/

namespace Iapx86

namespace Corpus

open Text (lower)

/-! ### The files that a filter selects -/

/-- Whether one of the terms occurs in a name, once the name is in lower case. -/
def Mentions (terms : List String) (name : String) : Prop :=
  ∃ term ∈ terms, term.toList <:+: lower name.toList

instance (terms : List String) (name : String) : Decidable (Mentions terms name) :=
  decidable_of_iff (∃ term ∈ terms, Text.occursIn term.toList (lower name.toList) = true) <| by
    simp only [Text.occursIn_iff, Mentions]

theorem mentions_append {terms terms' : List String} {name : String} :
    Mentions (terms ++ terms') name ↔ Mentions terms name ∨ Mentions terms' name := by
  simp only [Mentions, List.mem_append, or_and_right, exists_or]

/-- Whether a directory has a corpus file of a name, which is that of the file without its
extension. -/
def HasCorpusFile (entries : List (String × Node)) (name : String) : Prop :=
  name ≠ "" ∧ ∃ node, (name ++ ".json", node) ∈ entries

section Selection

variable {terms : List String} {entries : List (String × Node)}

theorem isChosen_nil_iff {f : Selected} :
    f.IsChosen [] ↔ f.fileName = f.name ++ ".json" ∧ f.name ≠ "" := by
  simp only [Selected.IsChosen, true_or, and_true]

theorem isChosen_iff (h : terms ≠ []) {f : Selected} :
    f.IsChosen terms ↔ f.IsChosen [] ∧ Mentions terms f.name := by
  simp only [Selected.IsChosen, Mentions, h, false_or, true_or, and_true, and_assoc]

theorem hasCorpusFile_iff {name : String} :
    HasCorpusFile entries name ↔ ∃ f ∈ selection [] entries, f.name = name := by
  simp only [mem_selection, isChosen_nil_iff]
  constructor
  · rintro ⟨hne, node, hmem⟩
    exact ⟨⟨name ++ ".json", name, node⟩, ⟨hmem, rfl, hne⟩, rfl⟩
  · rintro ⟨f, ⟨hmem, hfile, hne⟩, rfl⟩
    exact ⟨hne, f.node, hfile ▸ hmem⟩

theorem selection_perm_filter (h : terms ≠ []) :
    (selection terms entries).Perm ((selection [] entries).filter (Mentions terms ·.name)) := by
  have hselect (entry : String × Node) :
      select? terms entry = (select? [] entry).filter (Mentions terms ·.name) := by
    refine Option.ext fun f => ?_
    rw [Option.filter_eq_some_iff, select?_eq_some_iff, select?_eq_some_iff, isChosen_iff h,
      and_assoc, decide_eq_true_iff]
  have hall : (selection [] entries).Perm (entries.filterMap (select? [])) :=
    List.mergeSort_perm _ _
  have hsome : (selection terms entries).Perm (entries.filterMap (select? terms)) :=
    List.mergeSort_perm _ _
  rw [funext hselect, ← List.filter_filterMap] at hsome
  exact hsome.trans (hall.filter _).symm

theorem selection_eq_nil_iff (h : terms ≠ []) :
    selection terms entries = [] ↔ ∀ name, HasCorpusFile entries name → ¬ Mentions terms name := by
  rw [← List.isEmpty_iff, (selection_perm_filter h).isEmpty_eq, List.isEmpty_iff,
    List.filter_eq_nil_iff]
  simp only [hasCorpusFile_iff, decide_eq_true_iff]
  exact ⟨fun hnone name ⟨f, hf, hname⟩ => hname ▸ hnone f hf,
    fun hnone f hf => hnone f.name ⟨f, hf, rfl⟩⟩

end Selection

/-! ### The report under a filter -/

/-- The files that a run reports on; none if it comes to an error. -/
def RunResult.files (r : RunResult) : List (String × FileTally) :=
  match r.outcome with
  | .ok report => report.files
  | .error _ => []

theorem filter_flatMap_entries (model : Model) (p : String → Bool) (files : List File) :
    (files.flatMap (File.entries model)).filter (p ·.file) =
      (files.filter (p ·.name)).flatMap (File.entries model) := by
  have hfile (f : File) : (f.entries model).filter (p ·.file) =
      if p f.name then f.entries model else [] := by
    rw [File.entries, List.filter_map]
    cases hp : p f.name <;> simp [Function.comp_def, hp]
  induction files with
  | nil => rfl
  | cons f files ih =>
      rw [List.flatMap_cons, List.filter_append, ih, hfile, List.filter_cons]
      split
      · rw [List.flatMap_cons]
      · rw [List.nil_append]

theorem name_mem_files_reportOn {model : Model} {limit : Nat} {files : List File}
    {f : String × FileTally} (h : f ∈ (reportOn model limit files).files) :
    ∃ loaded ∈ files, loaded.name = f.1 := by
  rw [reportOn_eq, (Report.accounts_recordAll _ _ _).mem_files] at h
  obtain ⟨⟨e, he, hname⟩, -⟩ := h
  obtain ⟨loaded, hloaded, he⟩ := List.mem_flatMap.mp he
  obtain ⟨c, -, rfl⟩ := List.mem_map.mp he
  exact ⟨loaded, hloaded, hname⟩

/-- Whether a report is that of a run on the files alone whose names a condition holds of, as far as
the numbers go. -/
structure Report.IsRestriction (r full : Report) (p : String → Bool) : Prop where
  files_eq : r.files = full.files.filter (p ·.1)
  totalCases_eq : r.totalCases = (r.files.map (·.2.cases)).sum
  failures_eq : r.failures = (r.files.map (·.2.failures)).sum

theorem isRestriction_reportOn {model : Model} {limit : Nat} {p : String → Bool}
    {files chosen : List File} (h : chosen.Perm (files.filter (p ·.name))) :
    (reportOn model limit chosen).IsRestriction (reportOn model limit files) p := by
  have hall := Report.accounts_recordAll model.name limit (files.flatMap (File.entries model))
  have hsome := Report.accounts_recordAll model.name limit (chosen.flatMap (File.entries model))
  have hcases := h.flatMap_right (File.entries model)
  rw [← filter_flatMap_entries] at hcases
  rw [reportOn_eq, reportOn_eq]
  exact ⟨hall.files_eq_filter hsome hcases, hsome.sum_cases.symm, hsome.sum_failures.symm⟩

section Filtered

variable {format : Format} {s : Settings} {t : FileTree} {full : Report}

/-- What a run comes to under each filter if it succeeds without one. -/
theorem exists_run_filtered (hpath : s.reportPath = none)
    (hfull : (format.run { s with filter := [] } t).outcome = .ok full) :
    ∃ entries, t.list s.directory = .ok entries
      ∧ (∀ f ∈ full.files, HasCorpusFile entries f.1)
      ∧ ∀ terms, terms ≠ [] →
        ((∀ name, HasCorpusFile entries name → ¬ Mentions terms name) →
          format.run { s with filter := terms } t
            = ⟨.error (.noFilesMatched s.directory (",".intercalate terms)), [], t⟩)
        ∧ ∀ name, HasCorpusFile entries name → Mentions terms name →
          ∃ report, format.run { s with filter := terms } t = ⟨.ok report, report.summary, t⟩
            ∧ report.IsRestriction full (Mentions terms ·) := by
  obtain ⟨files, -, hfiles, rfl, -⟩ := run_eq_ok hfull
  obtain ⟨entries, hlist⟩ := exists_list_of_loadFiles hfiles
  rw [loadFiles_of_list hlist, if_neg fun hnone => hnone.2 rfl] at hfiles
  have hnames (x : Selected) (y : File) (hxy : loadFile format s.directory x = .ok y) :
      y.name = x.name :=
    (loads_of_loadFile hxy).name_eq
  refine ⟨entries, hlist, fun f hf => ?_, fun terms hterms => ⟨fun hnone => ?_, ?_⟩⟩
  · obtain ⟨loaded, hloaded, hname⟩ := name_mem_files_reportOn hf
    obtain ⟨x, hx, hok⟩ := exists_eq_ok_of_mem hfiles hloaded
    exact hasCorpusFile_iff.mpr ⟨x, hx, (hnames x loaded hok).symm.trans hname⟩
  · have hempty := (selection_eq_nil_iff hterms).mpr hnone
    exact run_of_error ((loadFiles_of_list hlist).trans (if_pos ⟨hempty, hterms⟩))
  · intro name hname hmentions
    have hsome : ¬ (selection terms entries = [] ∧ terms ≠ []) := fun hempty =>
      (selection_eq_nil_iff hterms).mp hempty.1 name hname hmentions
    have hsame (x : Selected) (y : File) (hxy : loadFile format s.directory x = .ok y) :
        decide (Mentions terms x.name) = decide (Mentions terms y.name) := by
      rw [hnames x y hxy]
    obtain ⟨loaded, hload, hperm⟩ :=
      exists_mapM_eq_ok_of_perm_filter hfiles hsame (selection_perm_filter hterms)
    have hrun : loadFiles format s.directory terms t = .ok loaded :=
      (loadFiles_of_list hlist).trans ((if_neg hsome).trans hload)
    exact ⟨_, (delivers (s := { s with filter := terms }) hrun).of_none hpath,
      isRestriction_reportOn hperm⟩

/-- The files that a filtered run reports on are those of the unfiltered run that the filter
selects, also if there are none. -/
theorem files_run_filtered (hpath : s.reportPath = none)
    (hfull : (format.run { s with filter := [] } t).outcome = .ok full) {terms : List String}
    (hterms : terms ≠ []) :
    (format.run { s with filter := terms } t).files = full.files.filter (Mentions terms ·.1) := by
  obtain ⟨entries, -, hnames, hfiltered⟩ := exists_run_filtered hpath hfull
  obtain ⟨hnone, hsome⟩ := hfiltered terms hterms
  by_cases hmatch : ∃ name, HasCorpusFile entries name ∧ Mentions terms name
  · obtain ⟨name, hname, hmentions⟩ := hmatch
    obtain ⟨report, hrun, hreport⟩ := hsome name hname hmentions
    rw [hrun]
    exact hreport.files_eq
  · rw [hnone fun name hname hmentions => hmatch ⟨name, hname, hmentions⟩]
    refine (List.filter_eq_nil_iff.mpr fun f hf hmentions => hmatch ?_).symm
    exact ⟨f.1, hnames f hf, of_decide_eq_true hmentions⟩

end Filtered

/-! ### The filter that the environment gives -/

theorem filter_of_settings {env : Environment} {s : Settings} (h : env.settings = .ok s) :
    s.filter = filterTerms (env.filter.getD "") := by
  unfold Environment.settings at h
  dsimp only at h
  split at h
  · cases h
  · cases h
  · split at h
    · cases h
      rfl
    · split at h
      · cases h
        rfl
      · cases h

/-- Whether a text, by its words, selects a name: one of them occurs in it, in whatever case either
is written, or there are none. -/
def WordsSelect (text name : String) : Prop :=
  (∀ word, ¬ Text.IsWordOf separatesTerms word text.toList) ∨
    ∃ word, Text.IsWordOf separatesTerms word text.toList ∧ lower word <:+: lower name.toList

theorem isChosen_filterTerms_iff {text : String} {f : Selected} :
    f.IsChosen (filterTerms text) ↔
      f.fileName = f.name ++ ".json" ∧ f.name ≠ "" ∧ WordsSelect text f.name := by
  have hnone : filterTerms text = [] ↔ ∀ word, ¬ Text.IsWordOf separatesTerms word text.toList := by
    rw [filterTerms, List.map_eq_nil_iff, List.eq_nil_iff_forall_not_mem]
    simp only [Text.mem_words_iff]
  have hsome : (∃ term ∈ filterTerms text, term.toList <:+: lower f.name.toList) ↔
      ∃ word, Text.IsWordOf separatesTerms word text.toList
        ∧ lower word <:+: lower f.name.toList := by
    simp only [filterTerms, List.mem_map, Text.mem_words_iff, exists_exists_and_eq_and,
      String.toList_ofList]
  rw [Selected.IsChosen, hnone, hsome, WordsSelect]

/-- A filter selects, and that is all. Where a run without one succeeds, a run with one finds
nothing if no corpus file mentions a term, and else succeeds, with the numbers of the same files
that the run without it has for those that mention a term. Two filters together select what either
selects. And the filter that the environment gives selects by the words of its text, or everything
if it has none. -/
theorem run_filtered (format : Format) (s : Settings) (t : FileTree) (full : Report) :
    (s.reportPath = none → (format.run { s with filter := [] } t).outcome = .ok full →
      (∃ entries, t.list s.directory = .ok entries ∧ ∀ terms, terms ≠ [] →
        ((∀ name, HasCorpusFile entries name → ¬ Mentions terms name) →
          format.run { s with filter := terms } t
            = ⟨.error (.noFilesMatched s.directory (",".intercalate terms)), [], t⟩)
        ∧ ∀ name, HasCorpusFile entries name → Mentions terms name →
          ∃ report, format.run { s with filter := terms } t = ⟨.ok report, report.summary, t⟩
            ∧ report.files = full.files.filter (Mentions terms ·.1)
            ∧ report.totalCases = (report.files.map (·.2.cases)).sum
            ∧ report.failures = (report.files.map (·.2.failures)).sum)
      ∧ ∀ terms terms', terms ≠ [] → terms' ≠ [] → ∀ f,
        f ∈ (format.run { s with filter := terms ++ terms' } t).files ↔
          f ∈ (format.run { s with filter := terms } t).files
            ∨ f ∈ (format.run { s with filter := terms' } t).files)
    ∧ ∀ (env : Environment) (text : String) (s' : Settings), env.filter = some text →
      env.settings = .ok s' → ∀ u, format.runFromEnvironment env u = format.run s' u ∧
        ∀ entries f, f ∈ selection s'.filter entries ↔
          (f.fileName, f.node) ∈ entries ∧ f.fileName = f.name ++ ".json" ∧ f.name ≠ ""
            ∧ WordsSelect text f.name := by
  refine ⟨fun hpath hfull => ⟨?_, fun terms terms' hterms hterms' f => ?_⟩,
    fun env text s' htext hs' u => ?_⟩
  · obtain ⟨entries, hlist, -, hfiltered⟩ := exists_run_filtered hpath hfull
    refine ⟨entries, hlist, fun terms hterms => ⟨(hfiltered terms hterms).1, ?_⟩⟩
    intro name hname hmentions
    obtain ⟨report, hrun, hreport⟩ := (hfiltered terms hterms).2 name hname hmentions
    exact ⟨report, hrun, hreport.files_eq, hreport.totalCases_eq, hreport.failures_eq⟩
  · rw [files_run_filtered hpath hfull hterms, files_run_filtered hpath hfull hterms',
      files_run_filtered hpath hfull (List.append_ne_nil_of_left_ne_nil hterms terms')]
    simp only [List.mem_filter, decide_eq_true_iff, mentions_append, and_or_left]
  · have hfilter : s'.filter = filterTerms text := by rw [filter_of_settings hs', htext]; rfl
    refine ⟨by simp only [Format.runFromEnvironment, hs'], fun entries f => ?_⟩
    rw [mem_selection, hfilter, isChosen_filterTerms_iff]

/-- One term occurs in the name of one of two files, the other in none. The environment gives the
first between separators, in the other case. -/
theorem run_filtered_group :
    let t : FileTree := ⟨[(["c"], .directory), (["c", "90.json"], .file "[[\"nop\",[144]]]"),
      (["c", "F6.3.json"], .file "[[\"neg bl\",[246,219]],[\"not bl\",[246,211]]]")]⟩
    let s : Settings := { directory := "c", model := .i8086 }
    s.reportPath = none
    ∧ (∃ full, (Format.json.run { s with filter := [] } t).outcome = .ok full
      ∧ full.files = [("90", ⟨1, 0⟩), ("F6.3", ⟨2, 1⟩)]
      ∧ (∃ report, Format.json.run { s with filter := ["f6"] } t = ⟨.ok report, report.summary, t⟩
        ∧ report.files = full.files.filter (Mentions ["f6"] ·.1))
      ∧ Format.json.run { s with filter := ["c3"] } t = ⟨.error (.noFilesMatched "c" "c3"), [], t⟩
      ∧ ∀ f, f ∈ (Format.json.run { s with filter := ["f6", "c3"] } t).files ↔
        f ∈ (Format.json.run { s with filter := ["f6"] } t).files
          ∨ f ∈ (Format.json.run { s with filter := ["c3"] } t).files)
    ∧ Format.json.runFromEnvironment { directory := some "c", filter := some "; F6," } t
      = Format.json.run { s with filter := ["f6"] } t
    ∧ ⟨"F6.3.json", "F6.3", .directory⟩ ∈ selection ["f6"] [("F6.3.json", .directory)] := by
  intro t s
  let nop : File := ⟨"90", ⟨[0x90], none⟩, [⟨"nop", [0x90]⟩]⟩
  let neg : File := ⟨"F6.3", ⟨[0xF6], some 3⟩, [⟨"neg bl", [0xF6, 0xDB]⟩, ⟨"not bl", [0xF6, 0xD3]⟩]⟩
  let entries : List (String × Node) := [("90.json", .file "[[\"nop\",[144]]]"),
    ("F6.3.json", .file "[[\"neg bl\",[246,219]],[\"not bl\",[246,211]]]")]
  have hlist : t.list "c" = .ok entries := by decide +kernel
  have hsorted : selection [] entries
      = [⟨"90.json", "90", .file "[[\"nop\",[144]]]"⟩,
        ⟨"F6.3.json", "F6.3", .file "[[\"neg bl\",[246,219]],[\"not bl\",[246,211]]]"⟩] :=
    selection_eq (by decide +kernel) (by decide +kernel)
  have hload : loadFiles Format.json "c" [] t = .ok [nop, neg] := by
    rw [loadFiles_of_list hlist, hsorted]
    decide +kernel
  have hrun := (delivers (s := { s with filter := [] }) hload).of_none rfl
  obtain ⟨⟨entries', hentries, hfiltered⟩, hunion⟩ :=
    (run_filtered Format.json s t _).1 rfl (congrArg RunResult.outcome hrun)
  obtain rfl := Except.ok.inj (hlist.symm.trans hentries)
  have hneg : HasCorpusFile entries "F6.3" :=
    ⟨by decide, _, List.mem_cons_of_mem _ List.mem_cons_self⟩
  obtain ⟨report, hreport, hfiles, -⟩ :=
    (hfiltered ["f6"] (List.cons_ne_nil _ _)).2 "F6.3" hneg (by decide +kernel)
  obtain ⟨hsame, hchosen⟩ :=
    (run_filtered Format.json s t (reportOn s.model s.sampleLimit [nop, neg])).2
      { directory := some "c", filter := some "; F6," } "; F6," { s with filter := ["f6"] } rfl
      (by decide +kernel) t
  refine ⟨rfl, ⟨_, congrArg RunResult.outcome hrun, by decide +kernel,
    ⟨report, hreport, hfiles⟩, ?_, hunion ["f6"] ["c3"] (List.cons_ne_nil _ _)
    (List.cons_ne_nil _ _)⟩, hsame, ?_⟩
  · refine (hfiltered ["c3"] (List.cons_ne_nil _ _)).1 fun name hname => ?_
    obtain ⟨f, hf, rfl⟩ := hasCorpusFile_iff.mp hname
    rw [hsorted] at hf
    obtain rfl | rfl : f = _ ∨ f = _ := by simpa using hf
    · decide +kernel
    · decide +kernel
  · refine (hchosen _ _).mpr ⟨List.mem_cons_self, by decide, by decide, .inr ⟨"F6".toList, ?_⟩⟩
    exact ⟨Text.mem_words_iff.mp (by decide +kernel), by decide +kernel⟩

end Corpus

end Iapx86
