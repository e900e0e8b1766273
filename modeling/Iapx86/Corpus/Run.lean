import Iapx86.Corpus.Json
import Iapx86.Corpus.Stem
import Iapx86.FileTree
import Iapx86.Model.Name

/-!
# Checking a corpus

A corpus is a directory of files with names that end in `.json`. A run checks the files that a
filter selects, in the order of their names, and reports on all their cases. It either loads every
selected file or reports on none: the first file that cannot be loaded ends the run. The report may
be written to a file too, and only a run that has come so far prints its summary.

Everything a run reads and writes is in a `FileTree`, so that a run is a function, from the tree
before to the tree after. `Format.run` takes files and reports in any format; `run` is that of the
program, whose files are what their names say.
-/

namespace Iapx86

namespace Corpus

/-- What to check, and how. -/
structure Settings where
  directory : String
  model : Model
  /-- Parts of file names in lower case, of which one is enough; none selects every file. -/
  filter : List String := []
  reportPath : Option String := none
  sampleLimit : Nat := defaultSampleLimit
  deriving DecidableEq, Repr

/-- Why a corpus is not checked, or the report not written. -/
inductive RunError where
  | missingDirectory
  | invalidModel (cause : UnknownModel)
  | file (path : String) (cause : FileError)
  /-- The file holds something else than cases. -/
  | malformed (path : String)
  /-- The file is not named for an opcode. -/
  | invalidFileName (path : String)
  | noFilesMatched (directory filter : String)
  deriving DecidableEq, Repr

/-- What is said of an error. -/
def RunError.message : RunError → String
  | missingDirectory => "VINTAGE_X86_CORPUS_DIR is not set"
  | invalidModel cause => "invalid VINTAGE_X86_MODEL: " ++ cause.message
  | file path cause => "io error on " ++ path ++ ": " ++ cause.message
  | malformed path => "malformed corpus file " ++ path
  | invalidFileName path => "corpus file name " ++ path ++ " does not name an opcode"
  | noFilesMatched directory filter =>
      "filter " ++ Text.quoted filter.toList ++ " matched no corpus files in " ++ directory

/-- A file of a corpus. -/
structure File where
  /-- The name of the file without its extension. -/
  name : String
  stem : Stem
  cases : List Case
  deriving DecidableEq, Repr

/-- What stands before the last point of a name, when the name ends in `.json` and does not begin
with that point. -/
def jsonStem? (fileName : String) : Option String :=
  let reversed := fileName.toList.reverse
  let (extension, rest) := reversed.span (· ≠ '.')
  match rest with
  | '.' :: stem =>
      if extension.reverse = "json".toList ∧ stem ≠ [] then some (String.ofList stem.reverse)
      else none
  | _ => none

/-- Whether a filter selects the file of a name, in whatever case the name is written. -/
def selects (filter : List String) (name : String) : Bool :=
  filter.isEmpty || filter.any fun term => Text.occursIn term.toList (Text.lower name.toList)

/-- A file of the directory that is to be checked. -/
structure Selected where
  fileName : String
  name : String
  node : Node
  deriving DecidableEq, Repr

/-- The entry of a directory, if it is a corpus file that the filter selects. -/
def select? (filter : List String) : String × Node → Option Selected
  | (fileName, node) =>
      match jsonStem? fileName with
      | some name => if selects filter name then some { fileName, name, node } else none
      | none => none

/-- The files of a directory that the filter selects, in the order of their names. -/
def selection (filter : List String) (entries : List (String × Node)) : List Selected :=
  (entries.filterMap (select? filter)).mergeSort fun a b => a.fileName ≤ b.fileName

/-- Loads a file of the directory. Its name is looked at before it is opened. A directory can be
opened, and there are no cases in it. -/
def loadFile (format : Format) (directory : String) (s : Selected) : Except RunError File :=
  let path := joinPath directory s.fileName
  match Stem.ofText? s.name with
  | none => .error (.invalidFileName path)
  | some stem =>
      match s.node with
      | .locked cause | .broken cause => .error (.file path cause)
      | .directory => .error (.malformed path)
      | .data contents =>
          match format.cases? contents with
          | none => .error (.malformed path)
          | some cases => .ok { name := s.name, stem, cases }

/-- Loads the files that the filter selects. -/
def loadFiles (format : Format) (directory : String) (filter : List String) (t : FileTree) :
    Except RunError (List File) :=
  match t.list directory with
  | .error cause => .error (.file directory cause)
  | .ok entries =>
      let selected := selection filter entries
      if selected = [] ∧ filter ≠ [] then
        .error (.noFilesMatched directory (",".intercalate filter))
      else selected.mapM (loadFile format directory)

/-- What comes of a case of a file: the encoding has to be one of the opcode that the file is named
for. -/
def File.outcome (f : File) (model : Model) (c : Case) : Except Mismatch Unit :=
  if f.stem.covers c.bytes then c.check model else .error (.opcode f.name)

/-- Takes the cases of a file into a report. -/
def Report.recordFile (model : Model) (r : Report) (f : File) : Report :=
  f.cases.foldl (fun r c => r.record f.name c (f.outcome model c)) r

/-- The report on files. -/
def reportOn (model : Model) (sampleLimit : Nat) (files : List File) : Report :=
  files.foldl (Report.recordFile model) (.new model.name sampleLimit)

/-- What a run comes to. -/
structure RunResult where
  outcome : Except RunError Report
  /-- The lines printed. -/
  printed : List String := []
  /-- The files afterwards. -/
  tree : FileTree

/-- Checks a corpus. -/
def Format.run (format : Format) (settings : Settings) (t : FileTree) : RunResult :=
  match loadFiles format settings.directory settings.filter t with
  | .error e => { outcome := .error e, tree := t }
  | .ok files =>
      let report := reportOn settings.model settings.sampleLimit files
      match settings.reportPath with
      | none => { outcome := .ok report, printed := report.summary, tree := t }
      | some path =>
          match t.write path (format.report report) with
          | .error failure => { outcome := .error (.file path failure.cause), tree := failure.tree }
          | .ok t => { outcome := .ok report, printed := report.summary, tree := t }

/-- The variables of the environment that a run is set up from. -/
structure Environment where
  directory : Option String := none
  model : Option String := none
  filter : Option String := none
  reportPath : Option String := none
  deriving DecidableEq, Repr

/-- Whether a character separates the terms of a filter: blanks, commas and semicolons do. -/
def separatesTerms (c : Char) : Bool := c = ',' || c = ';' || Text.isBlank c

/-- The terms of a filter, in lower case. -/
def filterTerms (text : String) : List String :=
  (Text.words separatesTerms text.toList).map fun term => String.ofList (Text.lower term)

/-- The settings that the environment asks for. A directory has to be given; the model is the
oldest one unless another is named. -/
def Environment.settings (env : Environment) : Except RunError Settings := do
  let directory ← match env.directory with
    | none | some "" => throw .missingDirectory
    | some directory => pure directory
  let text := env.model.getD ""
  let model ←
    if Text.trim text.toList = [] then pure Model.i8086
    else match Model.ofText text with
      | .ok model => pure model
      | .error cause => throw (.invalidModel cause)
  return { directory, model, filter := filterTerms (env.filter.getD ""),
           reportPath := env.reportPath }

/-- Checks the corpus that the environment asks for. -/
def Format.runFromEnvironment (format : Format) (env : Environment) (t : FileTree) : RunResult :=
  match env.settings with
  | .error e => { outcome := .error e, tree := t }
  | .ok settings => format.run settings t

/-- Checks a corpus of JSON files. -/
def run (settings : Settings) (t : FileTree) : RunResult := Format.json.run settings t

/-- Checks the corpus of JSON files that the environment asks for. -/
def runFromEnvironment (env : Environment) (t : FileTree) : RunResult :=
  Format.json.runFromEnvironment env t

end Corpus

end Iapx86
