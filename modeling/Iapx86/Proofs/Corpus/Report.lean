import Iapx86.Corpus.Report
import Iapx86.Proofs.Names
import Iapx86.Proofs.Numerals
import Mathlib.Algebra.GroupWithZero.Nat
import Mathlib.Data.List.Induction

/-!
# What a report says of the cases taken in

A report keeps several counts and a list of samples, all of them brought up to date by
`Report.record`. `Report.Accounts` says what they are for the cases taken in so far, each of them
on its own: the totals count the cases, the tally of a file counts the cases of that file, and the
samples are the first failures. One more case keeps that up (`Report.Accounts.record`), so that it
holds of every report made from nothing (`Report.accounts_recordAll`).

The files are seen through `List.lookup` and the order of their names. The two together leave only
one list of files, which is why the order in which the cases came does not show in it.
-/

namespace Iapx86

namespace Corpus

/-! ### Cases and their tallies -/

/-- A byte in hexadecimal: a digit for each of its halves. -/
def hexadecimalByte (b : UInt8) : String :=
  String.ofList [Nat.digitChar (b.toNat / 16), Nat.digitChar (b.toNat % 16)]

theorem ofList_byteDigits (b : UInt8) :
    String.ofList (Numeral.byteDigits b) = hexadecimalByte b := by
  rw [Numeral.byteDigits_eq, hexadecimalByte]

/-- A case that has been checked. -/
structure Entry where
  file : String
  checked : Case
  outcome : Except Mismatch Unit

namespace Entry

/-- What did not fit, if the case has failed. -/
def mismatch? (e : Entry) : Option Mismatch :=
  match e.outcome with
  | .ok () => none
  | .error mismatch => some mismatch

/-- Whether the case has failed. -/
def failed (e : Entry) : Bool := e.mismatch?.isSome

/-- The failure in words, if the case has failed: the file, the name of the case in quotes, its
bytes in hexadecimal, and what did not fit. -/
def sample? (e : Entry) : Option String :=
  e.mismatch?.map fun mismatch =>
    e.file ++ ": " ++ Text.quoted e.checked.name.toList ++ " ["
      ++ ", ".intercalate (e.checked.bytes.map hexadecimalByte) ++ "]: " ++ mismatch.message

theorem isSome_sample? (e : Entry) : e.sample?.isSome = e.failed := Option.isSome_map

end Entry

/-- What has come of the cases of one file, among cases of many. -/
def tallyOf (file : String) (entries : List Entry) : FileTally where
  cases := entries.countP (·.file = file)
  failures := entries.countP fun e => e.file = file ∧ e.failed

theorem tallyOf_append_self {e : Entry} (entries : List Entry) :
    tallyOf e.file (entries ++ [e]) = (tallyOf e.file entries).count e.failed := by
  cases h : e.failed <;> simp [tallyOf, FileTally.count, List.countP_append, h]

theorem tallyOf_append_of_ne {e : Entry} {file : String} (h : e.file ≠ file)
    (entries : List Entry) : tallyOf file (entries ++ [e]) = tallyOf file entries := by
  simp [tallyOf, List.countP_append, h]

theorem tallyOf_of_forall_ne {file : String} {entries : List Entry}
    (h : ∀ e ∈ entries, e.file ≠ file) : tallyOf file entries = {} := by
  have hcases : entries.countP (·.file = file) = 0 := by
    simpa [List.countP_eq_zero] using h
  have hfailures : (entries.countP fun e => e.file = file ∧ e.failed) = 0 :=
    List.countP_eq_zero.mpr fun e he => by simp [h e he]
  rw [tallyOf, hcases, hfailures]

theorem failures_le_cases_tallyOf (file : String) (entries : List Entry) :
    (tallyOf file entries).failures ≤ (tallyOf file entries).cases :=
  List.countP_mono_left fun e _ h => by simpa using (show _ ∧ _ by simpa using h).1

/-! ### Files in the order of their names -/

variable {file : String} {failed : Bool} {files : List (String × FileTally)}

theorem name_of_mem_countIn {f : String × FileTally} (h : f ∈ countIn file failed files) :
    f.1 = file ∨ ∃ g ∈ files, g.1 = f.1 := by
  fun_induction countIn file failed files with
  | case1 => exact .inl (by rw [List.mem_singleton.mp h])
  | case2 tally files =>
      obtain rfl | hf := List.mem_cons.mp h
      · exact .inl rfl
      · exact .inr ⟨f, List.mem_cons_of_mem _ hf, rfl⟩
  | case3 name tally files _ _ =>
      obtain rfl | hf := List.mem_cons.mp h
      · exact .inl rfl
      · exact .inr ⟨f, hf, rfl⟩
  | case4 name tally files _ _ ih =>
      obtain rfl | hf := List.mem_cons.mp h
      · exact .inr ⟨_, List.mem_cons_self, rfl⟩
      · exact (ih hf).imp_right fun ⟨g, hg, hname⟩ => ⟨g, List.mem_cons_of_mem _ hg, hname⟩

theorem ascending_countIn (h : Ascending Prod.fst files) :
    Ascending Prod.fst (countIn file failed files) := by
  fun_induction countIn file failed files with
  | case1 => exact List.pairwise_singleton _ _
  | case2 tally files =>
      obtain ⟨hhead, htail⟩ := List.pairwise_cons.mp h
      exact .cons hhead htail
  | case3 name tally files _ hlt =>
      have hhead := (List.pairwise_cons.mp h).1
      refine .cons (fun f hf => ?_) h
      obtain rfl | hf := List.mem_cons.mp hf
      · exact hlt
      · exact hlt.trans (hhead f hf)
  | case4 name tally files hne hlt ih =>
      obtain ⟨hhead, htail⟩ := List.pairwise_cons.mp h
      refine .cons (fun f hf => ?_) (ih htail)
      obtain hfile | ⟨g, hg, hname⟩ := name_of_mem_countIn hf
      · exact hfile ▸ lt_of_le_of_ne (not_lt.mp hlt) (Ne.symm hne)
      · exact hname ▸ hhead g hg

/-- The tally of the file itself goes up by the case. -/
theorem lookup_countIn_self (h : Ascending Prod.fst files) :
    (countIn file failed files).lookup file
      = some (((files.lookup file).getD {}).count failed) := by
  fun_induction countIn file failed files with
  | case1 => exact List.lookup_cons_self
  | case2 tally files => rw [List.lookup_cons_self, List.lookup_cons_self, Option.getD_some]
  | case3 name tally files hne hlt =>
      have hnone : ((name, tally) :: files).lookup file = none := by
        refine List.lookup_eq_none_iff.mpr fun f hf => bne_iff_ne.mpr ?_
        obtain rfl | hf := List.mem_cons.mp hf
        · exact hne
        · exact ne_of_lt (hlt.trans ((List.pairwise_cons.mp h).1 f hf))
      rw [List.lookup_cons_self, hnone, Option.getD_none]
  | case4 name tally files hne hlt ih =>
      have hskip : (file == name) = false := beq_false_of_ne hne
      rw [List.lookup_cons, List.lookup_cons, hskip, ih (List.pairwise_cons.mp h).2]

/-- The tallies of the others stay as they are. -/
theorem lookup_countIn_of_ne {other : String} (h : other ≠ file) :
    (countIn file failed files).lookup other = files.lookup other := by
  have hskip : (other == file) = false := beq_false_of_ne h
  fun_induction countIn file failed files with
  | case1 => rw [List.lookup_cons, hskip]
  | case2 tally files => rw [List.lookup_cons, List.lookup_cons, hskip]
  | case3 name tally files _ _ => rw [List.lookup_cons, hskip]
  | case4 name tally files _ _ ih => rw [List.lookup_cons, List.lookup_cons, ih]

/-- What a case adds to the tally of its file, it adds to the tallies of all files. -/
theorem sum_countIn {measure : FileTally → Nat} {k : Nat} (hnew : measure {} = 0)
    (hcount : ∀ t : FileTally, measure (t.count failed) = measure t + k) :
    ((countIn file failed files).map (measure ·.2)).sum = (files.map (measure ·.2)).sum + k := by
  fun_induction countIn file failed files with
  | case1 => simp only [List.map_cons, List.sum_cons, List.map_nil, hcount, hnew]; omega
  | case2 tally files => simp only [List.map_cons, List.sum_cons, hcount]; omega
  | case3 name tally files _ _ => simp only [List.map_cons, List.sum_cons, hcount, hnew]; omega
  | case4 name tally files _ _ ih => simp only [List.map_cons, List.sum_cons, ih]; omega

theorem failures_count (t : FileTally) (failed : Bool) :
    (t.count failed).failures = t.failures + failed.toNat := by
  cases failed <;> rfl

namespace Report

/-- Takes in cases, one after the other. -/
def recordAll (r : Report) (entries : List Entry) : Report :=
  entries.foldl (fun r e => r.record e.file e.checked e.outcome) r

/-- What a report says of the cases that it has taken in. -/
structure Accounts (r : Report) (entries : List Entry) : Prop where
  totalCases_eq : r.totalCases = entries.length
  failures_eq : r.failures = entries.countP (·.failed)
  ascending : Ascending Prod.fst r.files
  lookup_files : ∀ file, r.files.lookup file
    = if ∃ e ∈ entries, e.file = file then some (tallyOf file entries) else none
  sum_cases : (r.files.map (·.2.cases)).sum = r.totalCases
  sum_failures : (r.files.map (·.2.failures)).sum = r.failures
  failureSamples_eq : r.failureSamples = (entries.filterMap Entry.sample?).take r.sampleLimit

theorem accounts_new (model : String) (limit : Nat) : (new model limit).Accounts [] where
  totalCases_eq := rfl
  failures_eq := rfl
  ascending := .nil
  lookup_files := by simp [new]
  sum_cases := rfl
  sum_failures := rfl
  failureSamples_eq := by simp [new]

theorem failures_record (r : Report) (e : Entry) :
    (r.record e.file e.checked e.outcome).failures = r.failures + e.failed.toNat := by
  unfold record Entry.failed Entry.mismatch?
  cases e.outcome <;> rfl

theorem files_record (r : Report) (e : Entry) :
    (r.record e.file e.checked e.outcome).files = countIn e.file e.failed r.files := by
  unfold record Entry.failed Entry.mismatch?
  cases e.outcome <;> rfl

theorem sampleText_eq (e : Entry) {mismatch : Mismatch} (h : e.outcome = .error mismatch) :
    e.sample? = some (sampleText e.file e.checked mismatch) := by
  simp only [Entry.sample?, Entry.mismatch?, h, Option.map_some, sampleText, ofList_byteDigits]

theorem failureSamples_record {r : Report} {samples : List String} (e : Entry)
    (h : r.failureSamples = samples.take r.sampleLimit) :
    (r.record e.file e.checked e.outcome).failureSamples
      = (samples ++ e.sample?.toList).take r.sampleLimit := by
  unfold record
  cases houtcome : e.outcome with
  | ok => simp [h, Entry.sample?, Entry.mismatch?, houtcome]
  | error mismatch =>
      rw [sampleText_eq e houtcome]
      simp only [Option.toList_some, h, List.length_take]
      by_cases hroom : samples.length < r.sampleLimit
      · rw [if_pos (by omega), List.take_of_length_le (by omega),
          List.take_of_length_le (by rw [List.length_append, List.length_singleton]; omega)]
      · rw [if_neg (by omega), List.take_append_of_le_length (by omega)]

/-- One more case keeps the account. -/
theorem Accounts.record {r : Report} {entries : List Entry} (h : r.Accounts entries) (e : Entry) :
    (r.record e.file e.checked e.outcome).Accounts (entries ++ [e]) where
  totalCases_eq := by
    rw [totalCases_record, h.totalCases_eq, List.length_append, List.length_singleton]
  failures_eq := by
    rw [failures_record, h.failures_eq, List.countP_append, List.countP_singleton]
    cases e.failed <;> rfl
  ascending := by
    rw [files_record]
    exact ascending_countIn h.ascending
  lookup_files file := by
    rw [files_record]
    by_cases hfile : e.file = file
    · subst hfile
      have hbefore : (r.files.lookup e.file).getD {} = tallyOf e.file entries := by
        rw [h.lookup_files]
        split
        · rfl
        · next hnone => exact (tallyOf_of_forall_ne fun e' he' heq => hnone ⟨e', he', heq⟩).symm
      rw [lookup_countIn_self h.ascending, hbefore, tallyOf_append_self,
        if_pos ⟨e, List.mem_append_right _ List.mem_cons_self, rfl⟩]
    · have hmem : (∃ e' ∈ entries ++ [e], e'.file = file) ↔ ∃ e' ∈ entries, e'.file = file := by
        simp [or_and_right, exists_or, hfile]
      rw [lookup_countIn_of_ne (Ne.symm hfile), h.lookup_files, tallyOf_append_of_ne hfile]
      simp only [hmem]
  sum_cases := by
    rw [files_record, totalCases_record, sum_countIn rfl fun _ => rfl, h.sum_cases]
  sum_failures := by
    rw [files_record, failures_record, sum_countIn rfl fun t => failures_count t _, h.sum_failures]
  failureSamples_eq := by
    rw [sampleLimit_record, failureSamples_record e h.failureSamples_eq, List.filterMap_append]
    cases hsample : e.sample? <;> simp [hsample]

theorem sampleLimit_recordAll (r : Report) (entries : List Entry) :
    (r.recordAll entries).sampleLimit = r.sampleLimit := by
  induction entries generalizing r with
  | nil => rfl
  | cons e entries ih => exact (ih _).trans (sampleLimit_record ..)

theorem model_recordAll (r : Report) (entries : List Entry) :
    (r.recordAll entries).model = r.model := by
  induction entries generalizing r with
  | nil => rfl
  | cons e entries ih => exact (ih _).trans (model_record ..)

theorem accounts_recordAll (model : String) (limit : Nat) (entries : List Entry) :
    ((new model limit).recordAll entries).Accounts entries := by
  -- From the back, since the last case is the one taken in last.
  induction entries using List.reverseRecOn with
  | nil => exact accounts_new model limit
  | append_singleton entries e ih =>
      rw [recordAll, List.foldl_append]
      exact ih.record e

namespace Accounts

variable {r r' : Report} {entries entries' : List Entry}

theorem mem_files (h : r.Accounts entries) (name : String) (tally : FileTally) :
    (name, tally) ∈ r.files ↔ (∃ e ∈ entries, e.file = name) ∧ tally = tallyOf name entries := by
  rw [← lookup_eq_some_iff_mem h.ascending.nodup_map, h.lookup_files]
  split
  · next hname => rw [Option.some_inj, and_iff_right hname, eq_comm]
  · next hname => simp only [hname, false_and, reduceCtorEq]

theorem failures_le_cases (h : r.Accounts entries) {f : String × FileTally} (hf : f ∈ r.files) :
    f.2.failures ≤ f.2.cases := by
  rw [((h.mem_files f.1 f.2).mp hf).2]
  exact failures_le_cases_tallyOf f.1 entries

/-- A report says nothing of the order in which the cases came, but by its samples. -/
theorem files_eq (h : r.Accounts entries) (h' : r'.Accounts entries')
    (hperm : entries.Perm entries') : r.files = r'.files := by
  refine h.ascending.eq_of_mem_iff h'.ascending fun (name, tally) => ?_
  have htally : tallyOf name entries = tallyOf name entries' := by
    rw [tallyOf, tallyOf, hperm.countP_eq, hperm.countP_eq]
  simp only [h.mem_files, h'.mem_files, htally, hperm.mem_iff]

/-- A report on the cases of some of the files says of these files what a report on all cases
does. -/
theorem files_eq_filter {p : String → Bool} (h : r.Accounts entries) (h' : r'.Accounts entries')
    (hperm : entries'.Perm (entries.filter (p ·.file))) : r'.files = r.files.filter (p ·.1) := by
  have htally {name : String} (hname : p name = true) :
      tallyOf name entries' = tallyOf name entries := by
    have hcount (failed : Entry → Prop) [DecidablePred failed] :
        entries'.countP (fun e => e.file = name ∧ failed e)
          = entries.countP fun e => e.file = name ∧ failed e := by
      rw [hperm.countP_eq, List.countP_filter]
      refine List.countP_congr fun e _ => ?_
      simp only [Bool.and_eq_true, decide_eq_true_eq]
      exact ⟨And.left, fun he => ⟨he, he.1 ▸ hname⟩⟩
    have hcases := hcount fun _ => True
    simp only [and_true] at hcases
    rw [tallyOf, tallyOf, hcases, hcount (·.failed)]
  refine h'.ascending.eq_of_mem_iff (h.ascending.filter _) fun (name, tally) => ?_
  rw [List.mem_filter, h.mem_files, h'.mem_files]
  simp only [hperm.mem_iff, List.mem_filter]
  constructor
  · rintro ⟨⟨e, ⟨he, hp⟩, rfl⟩, rfl⟩
    exact ⟨⟨⟨e, he, rfl⟩, htally hp⟩, hp⟩
  · rintro ⟨⟨⟨e, he, rfl⟩, rfl⟩, hp⟩
    exact ⟨⟨e, ⟨he, hp⟩, rfl⟩, (htally hp).symm⟩

theorem length_failures (h : r.Accounts entries) :
    (entries.filterMap Entry.sample?).length = r.failures := by
  rw [List.length_filterMap_eq_countP, h.failures_eq]
  simp only [Entry.isSome_sample?]

theorem isClean_iff (h : r.Accounts entries) : r.isClean ↔ ∀ f ∈ r.files, f.2.failures = 0 := by
  rw [isClean, decide_eq_true_iff, ← h.sum_failures, List.sum_eq_zero_iff_forall_eq_nat]
  simp only [List.mem_map, forall_exists_index, and_imp, forall_apply_eq_imp_iff₂]

theorem failingFiles_eq_nil_iff (h : r.Accounts entries) : r.failingFiles = [] ↔ r.isClean := by
  rw [h.isClean_iff, failingFiles, List.filter_eq_nil_iff]
  simp [Nat.pos_iff_ne_zero]

end Accounts

/-- The first line of the summary. -/
def headline (r : Report) : String :=
  "conformance (" ++ r.model ++ "): " ++ Numeral.decimal r.totalCases ++ " cases in "
    ++ Numeral.decimal r.files.length ++ " files, " ++ Numeral.decimal r.failures ++ " failures"

/-- The line of the summary for a file in which cases have failed. -/
def fileLine (f : String × FileTally) : String :=
  "  - " ++ f.1 ++ ": " ++ Numeral.decimal f.2.failures ++ "/" ++ Numeral.decimal f.2.cases

theorem Accounts.summary_eq {r : Report} {entries : List Entry} (h : r.Accounts entries) :
    r.summary = r.headline :: (if r.isClean then [] else "failing files:" ::
        (r.files.filter fun f => 0 < f.2.failures).map fileLine)
      ++ r.failureSamples.map ("  " ++ ·) := by
  have hlist : (r.failingFiles.map fileLine = []) ↔ r.isClean := by
    rw [List.map_eq_nil_iff, h.failingFiles_eq_nil_iff]
  simp only [← hlist]
  rfl

/-- What a report says of any cases, taken in from the first to the last: its totals count the
cases and are the sums over the files; the files are those of the cases, in the order of the bytes
of their names, each with the numbers of its own cases and failures; the samples are the first
failures, as many as are kept, each with the file, the name of the case in quotes, its bytes in
hexadecimal and what did not fit; and the summary lists just the files in which cases have failed.
Taken in in another order, the same cases come to the same totals, files and number of samples. -/
theorem recordAll_new (model : String) (limit : Nat) (entries : List Entry) :
    let r := (new model limit).recordAll entries
    r.model = model
    ∧ (r.totalCases = entries.length ∧ r.totalCases = (r.files.map (·.2.cases)).sum)
    ∧ (r.failures = entries.countP (·.failed) ∧ r.failures = (r.files.map (·.2.failures)).sum)
    ∧ (r.files.map fun f => Text.bytes f.1).Pairwise (· < ·)
    ∧ (∀ name tally, (name, tally) ∈ r.files ↔
        (∃ e ∈ entries, e.file = name) ∧ tally = tallyOf name entries)
    ∧ (∀ f ∈ r.files, f.2.failures ≤ f.2.cases)
    ∧ r.failureSamples = (entries.filterMap fun e => e.mismatch?.map fun mismatch =>
        e.file ++ ": " ++ Text.quoted e.checked.name.toList ++ " ["
          ++ ", ".intercalate (e.checked.bytes.map hexadecimalByte) ++ "]: "
          ++ mismatch.message).take (min limit r.failures)
    ∧ (r.isClean ↔ ∀ f ∈ r.files, f.2.failures = 0)
    ∧ r.summary = r.headline :: (if r.isClean then [] else "failing files:" ::
          (r.files.filter fun f => 0 < f.2.failures).map fileLine)
        ++ r.failureSamples.map ("  " ++ ·)
    ∧ ∀ entries', entries.Perm entries' →
        let r' := (new model limit).recordAll entries'
        r'.totalCases = r.totalCases ∧ r'.failures = r.failures ∧ r'.files = r.files
          ∧ r'.failureSamples.length = r.failureSamples.length := by
  intro r
  have h : r.Accounts entries := accounts_recordAll model limit entries
  have hsamples : r.failureSamples
      = (entries.filterMap Entry.sample?).take (min limit r.failures) := by
    rw [h.failureSamples_eq, sampleLimit_recordAll, ← h.length_failures, ← List.take_take,
      List.take_length]
    rfl
  refine ⟨model_recordAll _ _, ⟨h.totalCases_eq, h.sum_cases.symm⟩,
    ⟨h.failures_eq, h.sum_failures.symm⟩, h.ascending.pairwise_bytes, h.mem_files,
    fun f => h.failures_le_cases, hsamples, h.isClean_iff, h.summary_eq, fun entries' hperm => ?_⟩
  have h' := accounts_recordAll model limit entries'
  refine ⟨?_, ?_, (h.files_eq h' hperm).symm, ?_⟩
  · rw [h'.totalCases_eq, h.totalCases_eq, hperm.length_eq]
  · rw [h'.failures_eq, h.failures_eq, hperm.countP_eq]
  · rw [h'.failureSamples_eq, h.failureSamples_eq, List.length_take, List.length_take,
      sampleLimit_recordAll, sampleLimit_recordAll, (hperm.filterMap _).length_eq]

/-- Six of seven cases fail, in three files and each but the last in its own way, and five failures
are kept. When the last case comes first, it is kept in the place of another. -/
theorem recordAll_new_every_mismatch :
    let nop := Entry.mk "90" ⟨"nop", [0x90]⟩ (.ok ())
    let failing : List Entry :=
      [⟨"90", ⟨"xchg \"a\\b\"", [0x90]⟩, .error (.mnemonic "xchg" "nop")⟩,
        ⟨"90", ⟨"nop", [0x90, 0xAF]⟩, .error (.length 2 1)⟩,
        ⟨"63", ⟨"\t\u200b", [0x63]⟩, .error .undefined⟩,
        ⟨"B8", ⟨"mov ax, 1", [0xB8, 0x01]⟩, .error (.incomplete 2)⟩,
        ⟨"B8", ⟨"nop", []⟩, .error (.opcode "B8")⟩]
    let last := Entry.mk "63" ⟨"arpl", [0x63, 0x04]⟩ (.error .undefined)
    let entries := nop :: failing ++ [last]
    let r := (new "8086" 5).recordAll entries
    let r' := (new "8086" 5).recordAll (last :: nop :: failing)
    entries.Perm (last :: nop :: failing)
    ∧ r.failureSamples =
        ["90: \"xchg \\\"a\\\\b\\\"\" [90]: decoded as \"nop\", expected \"xchg\"",
          "90: \"nop\" [90, af]: decoded 1 bytes, expected 2",
          "63: \"\\t\\u\x7b200b\x7d\" [63]: rejected as undefined",
          "B8: \"mov ax, 1\" [b8, 01]: decoder needs more than the 2 bytes given",
          "B8: \"nop\" []: encoding does not start with opcode B8"]
    ∧ r.files = [("63", ⟨2, 2⟩), ("90", ⟨3, 2⟩), ("B8", ⟨2, 2⟩)]
    ∧ r.summary = ["conformance (8086): 7 cases in 3 files, 6 failures", "failing files:",
        "  - 63: 2/2", "  - 90: 2/3", "  - B8: 2/2"] ++ r.failureSamples.map ("  " ++ ·)
    ∧ r.isClean = false ∧ r'.totalCases = 7 ∧ r'.failures = 6 ∧ r'.files = r.files
    ∧ r'.failureSamples = "63: \"arpl\" [63, 04]: rejected as undefined" :: r.failureSamples.take 4
    ∧ r'.failureSamples.length = 5 := by
  intro nop failing last entries r r'
  have hperm : (nop :: failing ++ [last]).Perm ([last] ++ nop :: failing) :=
    List.perm_append_comm
  obtain ⟨-, -, -, -, -, -, -, -, -, h⟩ := recordAll_new "8086" 5 entries
  obtain ⟨htotal, hfailures, hfiles, hlength⟩ := h _ hperm
  exact ⟨hperm, by decide +kernel, by decide +kernel, by decide +kernel, by decide +kernel,
    htotal.trans (by decide +kernel), hfailures.trans (by decide +kernel), hfiles,
    by decide +kernel, hlength.trans (by decide +kernel)⟩

end Report

end Corpus

end Iapx86
