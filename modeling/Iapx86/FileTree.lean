import Iapx86.Text.Blank
import Iapx86.Text.Bytes

/-!
# File trees

A tree of directories and files, as a list of its entries below the root with their paths. Not every
file can be opened, and there may be links that cannot be followed; both say why. A link that can be
followed is not told from what it leads to.

Paths in text are names between slashes; empty names count for nothing, a single point leads to the
directory that it stands in, and two points lead back to the directory above. The tree is seen by a
program that works in its root: a path begins there with a slash in front or without, and two points
do not lead out of it.

`FileTree.write` puts a text into a file and makes the directories that the file is to be in. If it
cannot do the one, it may have done some of the other, so a `Failure` says what is there then.
-/

namespace Iapx86

/-- The names on the way from the root. -/
abbrev Path := List String

/-- Why a file or directory cannot be used. -/
inductive FileError where
  | notFound
  /-- A file stands where a directory is to be made. -/
  | alreadyExists
  /-- A file stands where a directory is needed on the way. -/
  | notDirectory
  /-- A directory stands where a file is to be written. -/
  | isDirectory
  /-- Another reason, in the words of the system. -/
  | other (description : String)
  deriving DecidableEq, Repr

/-- What the system says of an error, with its number. -/
def FileError.message : FileError → String
  | notFound => "No such file or directory (os error 2)"
  | alreadyExists => "File exists (os error 17)"
  | notDirectory => "Not a directory (os error 20)"
  | isDirectory => "Is a directory (os error 21)"
  | other description => description

/-- What a path leads to. -/
inductive Node where
  | data (contents : List UInt8)
  | directory
  /-- A file that cannot be opened. -/
  | locked (cause : FileError)
  /-- A link that cannot be followed, not even to make a file where it leads. -/
  | broken (cause : FileError)
  deriving DecidableEq, Repr

namespace Node

/-- A file that holds a text. -/
def file (text : String) : Node := .data (Text.bytes text)

/-- Why a way does not lead on from here, if it does not. -/
def obstacle? : Node → Option FileError
  | directory => none
  | data _ | locked _ => some .notDirectory
  | broken cause => some cause

/-- Why nothing is written here, if nothing is. -/
def refusal? : Node → Option FileError
  | data _ => none
  | directory => some .isDirectory
  | locked cause | broken cause => some cause

@[simp] theorem obstacle?_directory : directory.obstacle? = none := rfl

@[simp] theorem refusal?_file (text : String) : (file text).refusal? = none := rfl

theorem obstacle?_eq_none_iff {node : Node} : node.obstacle? = none ↔ node = .directory := by
  cases node <;> simp [obstacle?]

end Node

/-- What stands between the slashes in the text of a path. -/
def Path.segments (text : String) : List String :=
  (Text.words (· = '/') text.toList).map String.ofList

/-- The names in the text of a path, without the single points, which lead nowhere else. -/
def Path.ofText (text : String) : Path := (Path.segments text).filter (· ≠ ".")

/-- Whether the text of a path can only mean a directory, because of how it ends: in a slash or in
points. -/
def Path.meansDirectory (text : String) : Bool :=
  text.toList.getLast? = some '/' || (Path.segments text).getLast?.all (· ∈ [".", ".."])

/-- The text of the path of a name in a directory. -/
def joinPath (directory name : String) : String :=
  if directory.isEmpty || directory.toList.getLast? = some '/' then directory ++ name
  else directory ++ "/" ++ name

/-- A tree of directories and files. -/
structure FileTree where
  entries : List (Path × Node) := []
  deriving DecidableEq, Repr

namespace FileTree

/-- What a path leads to. The root is a directory. -/
def node? (t : FileTree) (path : Path) : Option Node :=
  if path = [] then some .directory else t.entries.lookup path

/-- The tree with something else, or something new, at a path. -/
def put (t : FileTree) (path : Path) (node : Node) : FileTree :=
  ⟨(path, node) :: t.entries.filter (·.1 ≠ path)⟩

@[simp] theorem node?_root (t : FileTree) : t.node? [] = some .directory := rfl

@[simp] theorem node?_put_self (t : FileTree) {path : Path} (h : path ≠ []) (node : Node) :
    (t.put path node).node? path = some node := by
  simp [node?, put, h]

/-- What is put at one path changes nothing at another. -/
theorem node?_put_of_ne (t : FileTree) {path other : Path} (h : other ≠ path) (node : Node) :
    (t.put path node).node? other = t.node? other := by
  have hlookup : (t.entries.filter (·.1 ≠ path)).lookup other = t.entries.lookup other := by
    induction t.entries with
    | nil => rfl
    | cons entry entries ih =>
        obtain ⟨p, n⟩ := entry
        by_cases hp : p = path
        · have hskip : (other == p) = false := by simpa [hp] using h
          rw [List.filter_cons_of_neg (by simpa using hp), List.lookup_cons, hskip, ih]
        · rw [List.filter_cons_of_pos (by simpa using hp), List.lookup_cons, List.lookup_cons, ih]
  have hne : (other == path) = false := by simpa using h
  simp only [node?, put, List.lookup_cons, hne, hlookup]

/-- Goes on from a directory to the next name on the way. -/
def descend (t : FileTree) (directory : Path) (name : String) : Except FileError Path :=
  if name = "." then .ok directory
  else if name = ".." then .ok directory.dropLast
  else match t.node? (directory ++ [name]) with
    | none => .error .notFound
    | some node =>
        match node.obstacle? with
        | none => .ok (directory ++ [name])
        | some cause => .error cause

/-- The directory that names lead to from the root. -/
def directoryAt (t : FileTree) (names : List String) : Except FileError Path :=
  names.foldlM t.descend []

/-- The name and the node of an entry, if it is in the directory itself. -/
def childOf? (directory : Path) : Path × Node → Option (String × Node)
  | (path, node) =>
      match path.getLast? with
      | some name => if path.dropLast = directory then some (name, node) else none
      | none => none

/-- What is in a directory. No text is no path. -/
def list (t : FileTree) (text : String) : Except FileError (List (String × Node)) :=
  if text.isEmpty then .error .notFound
  else (t.directoryAt (Path.ofText text)).map fun directory =>
    t.entries.filterMap (childOf? directory)

/-- An attempt that has failed: why, and the tree as it is then. -/
structure Failure where
  cause : FileError
  tree : FileTree
  deriving DecidableEq, Repr

/-- Makes the directories on the rest of a way, where they are not there yet. What stands in the way
already exists if it is the last on the way, or if a directory has been made before it, which
`making` says, or if it is a link to nothing; else it cannot be gone on from. -/
def makeDirectories (t : FileTree) (making : Bool) (directory : Path) :
    List String → Except Failure FileTree
  | [] => .ok t
  | name :: names =>
      if name = ".." then t.makeDirectories making directory.dropLast names
      else
        let next := directory ++ [name]
        match t.node? next with
        | none => (t.put next .directory).makeDirectories true next names
        | some node =>
            match node.obstacle? with
            | none => t.makeDirectories making next names
            | some cause =>
                let stands := making || names = [] || cause = .notFound
                .error ⟨if stands then .alreadyExists else cause, t⟩

/-- Where the text of a path leads to as that of a file, which need not be there. -/
def place (t : FileTree) (text : String) : Except FileError Path :=
  let segments := Path.segments text
  (t.directoryAt segments.dropLast).bind fun directory =>
    let target := directory ++ segments.getLast?.toList
    if Path.meansDirectory text then .error .isDirectory
    else match (t.node? target).bind Node.refusal? with
      | none => .ok target
      | some cause => .error cause

/-- Writes a text into a file, in place of what is there, and makes the directories that the file is
to be in. -/
def write (t : FileTree) (path text : String) : Except Failure FileTree :=
  if path.isEmpty then .error ⟨.notFound, t⟩
  else
    (t.makeDirectories false [] (Path.ofText path).dropLast).bind fun made =>
      match made.place path with
      | .ok target => .ok (made.put target (.file text))
      | .error cause => .error ⟨cause, made⟩

/-- What is in the file that the text of a path leads to, if it leads to one. -/
def contents? (t : FileTree) (path : String) : Option (List UInt8) := do
  let names := Path.ofText path
  let name ← names.getLast?
  let directory ← (t.directoryAt names.dropLast).toOption
  match ← t.node? (directory ++ [name]) with
  | .data contents => some contents
  | _ => none

/-- The text in the file that the text of a path leads to, if there is one. -/
def read? (t : FileTree) (path : String) : Option String := t.contents? path >>= Text.ofBytes?

end FileTree

end Iapx86
