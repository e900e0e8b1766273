import Iapx86.Corpus.Case

/-!
# Reports

What has come of the cases checked so far: how many there were and how many failed, in all and file
by file, and the first few failures in words. Files are kept in the order of their names, each name
once. A report is printed as a summary of a few lines.
-/

namespace Iapx86

namespace Corpus

/-- What has come of the cases of a file. -/
structure FileTally where
  cases : Nat := 0
  failures : Nat := 0
  deriving DecidableEq, Repr, Inhabited

/-- Counts one more case. -/
def FileTally.count (t : FileTally) (failed : Bool) : FileTally where
  cases := t.cases + 1
  failures := if failed then t.failures + 1 else t.failures

/-- Counts one more case of a file, among files in the order of their names. -/
def countIn (file : String) (failed : Bool) :
    List (String × FileTally) → List (String × FileTally)
  | [] => [(file, FileTally.count {} failed)]
  | (name, tally) :: files =>
      if file = name then (name, tally.count failed) :: files
      else if file < name then (file, FileTally.count {} failed) :: (name, tally) :: files
      else (name, tally) :: countIn file failed files

/-- The number of failures that are kept in words, unless another is asked for. -/
def defaultSampleLimit : Nat := 32

/-- What has come of the cases checked so far. -/
structure Report where
  model : String
  totalCases : Nat := 0
  failures : Nat := 0
  /-- The files in the order of their names. -/
  files : List (String × FileTally) := []
  /-- The first failures, in words. -/
  failureSamples : List String := []
  /-- The number of failures that are kept in words. -/
  sampleLimit : Nat
  deriving DecidableEq, Repr

/-- A failed case in words. -/
def sampleText (file : String) (c : Case) (mismatch : Mismatch) : String :=
  let bytes := ", ".intercalate (c.bytes.map fun b => String.ofList (Numeral.byteDigits b))
  file ++ ": " ++ Text.quoted c.name.toList ++ " [" ++ bytes ++ "]: " ++ mismatch.message

namespace Report

/-- A report on no cases yet. -/
def new (model : String) (sampleLimit : Nat) : Report := { model, sampleLimit }

/-- Takes in one case. -/
def record (r : Report) (file : String) (c : Case) (outcome : Except Mismatch Unit) : Report :=
  match outcome with
  | .ok () => { r with totalCases := r.totalCases + 1, files := countIn file false r.files }
  | .error mismatch =>
      { r with
        totalCases := r.totalCases + 1
        failures := r.failures + 1
        files := countIn file true r.files
        failureSamples :=
          if r.failureSamples.length < r.sampleLimit then
            r.failureSamples ++ [sampleText file c mismatch]
          else r.failureSamples }

@[simp] theorem totalCases_record (r : Report) (file : String) (c : Case)
    (outcome : Except Mismatch Unit) :
    (r.record file c outcome).totalCases = r.totalCases + 1 := by
  cases outcome <;> rfl

@[simp] theorem sampleLimit_record (r : Report) (file : String) (c : Case)
    (outcome : Except Mismatch Unit) :
    (r.record file c outcome).sampleLimit = r.sampleLimit := by
  cases outcome <;> rfl

@[simp] theorem model_record (r : Report) (file : String) (c : Case)
    (outcome : Except Mismatch Unit) : (r.record file c outcome).model = r.model := by
  cases outcome <;> rfl

/-- Whether no case has failed. -/
def isClean (r : Report) : Bool := r.failures = 0

/-- The files in which cases have failed. -/
def failingFiles (r : Report) : List (String × FileTally) :=
  r.files.filter fun (_, tally) => 0 < tally.failures

/-- The lines of the summary: the totals, the files in which cases have failed, and the failures
that are kept in words. -/
def summary (r : Report) : List String :=
  let decimal := Numeral.decimal
  let totals := "conformance (" ++ r.model ++ "): " ++ decimal r.totalCases ++ " cases in "
    ++ decimal r.files.length ++ " files, " ++ decimal r.failures ++ " failures"
  let failing := r.failingFiles.map fun (name, tally) =>
    "  - " ++ name ++ ": " ++ decimal tally.failures ++ "/" ++ decimal tally.cases
  [totals] ++ (if failing = [] then [] else "failing files:" :: failing)
    ++ r.failureSamples.map ("  " ++ ·)

end Report

end Corpus

end Iapx86
