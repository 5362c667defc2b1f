import MatrixScript.Text.Lines

/-!
# The files a script sees

A `Disk` is what is known of the files around the current directory. File names are resolved piece by
piece, as the operating system does it, and the ways in which that fails are the constructors of
`FileFault`.
-/

namespace MatrixScript

/-- Why a file cannot be read or written, or a sink takes no more output. -/
inductive FileFault where
  | missing
  | isDirectory
  | notDirectory
  | nameTooLong
  | nulInName
  | notUtf8
  | refused (reason : String)
  deriving DecidableEq, Repr

def FileFault.message : FileFault → String
  | .missing => "No such file or directory (os error 2)"
  | .isDirectory => "Is a directory (os error 21)"
  | .notDirectory => "Not a directory (os error 20)"
  | .nameTooLong => "File name too long (os error 36)"
  | .nulInName => "file name contained an unexpected NUL byte"
  | .notUtf8 => "stream did not contain valid UTF-8"
  | .refused reason => reason

/-- The names on the way from the current directory to a file. A path that leaves the current directory
starts with two dots for each step up, or with a slash for the root. -/
abbrev FilePath := List String

def FilePath.components (name : String) : List String :=
  (name.toList.foldr cut [[]]).map String.ofList
where
  cut (c : Char) (pieces : List (List Char)) : List (List Char) :=
    match c, pieces with
    | '/', pieces => [] :: pieces
    | c, piece :: rest => (c :: piece) :: rest
    | c, [] => [[c]]

/-- A file name in its plain form, without empty pieces and without the dot for the directory itself. -/
def FilePath.plain (name : String) : FilePath :=
  (components name).filter fun piece => !(piece.isEmpty || piece == ".")

/-- The name of a file below the current directory. -/
def FilePath.name (path : FilePath) : String :=
  "/".intercalate path

def FilePath.parent (path : FilePath) : FilePath :=
  if path = ["/"] then path
  else if path.all (· = "..") then path ++ [".."]
  else path.dropLast

/-- The known directories, the known files with their contents, and how often one has been written. -/
structure Disk where
  directories : List FilePath
  files : List (FilePath × ByteArray)
  revision : Nat := 0

namespace Disk

def parents (path : FilePath) : List FilePath :=
  (List.range path.length).map path.take

/-- The disk with the given files, each under its name. -/
def ofFiles (files : List (String × ByteArray)) : Disk where
  directories := files.flatMap fun (name, _) => parents (FilePath.plain name)
  files := files.map fun (name, content) => (FilePath.plain name, content)

/-- Whether there is a directory at a path. The root, the current directory and those above it are
there. -/
def isDirectory (disk : Disk) (path : FilePath) : Bool :=
  path = ["/"] || path.all (· = "..") || disk.directories.contains path

def content? (disk : Disk) (path : FilePath) : Option ByteArray :=
  (disk.files.find? fun (other, _) => other == path).map (·.2)

def put (disk : Disk) (path : FilePath) (content : ByteArray) : Disk :=
  if (disk.content? path).isSome then
    { disk with
      files := disk.files.map fun (other, old) => (other, if other == path then content else old) }
  else
    { disk with files := disk.files ++ [(path, content)] }

inductive Place where
  | directory
  | file (path : FilePath) (content : ByteArray)
  /-- Nothing yet, in a directory that is there. -/
  | vacant (path : FilePath)

inductive Purpose where
  | reading
  | writing
  deriving DecidableEq, Repr

def maxPiece : Nat := 255

def maxName : Nat := 4095

/-- Whether only slashes are left of a name, and at least one. -/
def onlySlashes (rest : List String) : Bool :=
  !rest.isEmpty && rest.all String.isEmpty

/-- Follows the pieces of a name from the directory at a path. A name that ends with a slash can only be
that of a directory, so nothing is written under it, whatever its last piece is. -/
def walk (disk : Disk) (purpose : Purpose) : FilePath → List String → Except FileFault Place
  | _, [] => .ok .directory
  | path, piece :: rest =>
    if piece = "" ∨ piece = "." then walk disk purpose path rest
    else if piece = ".." then walk disk purpose (FilePath.parent path) rest
    else if purpose = .writing ∧ onlySlashes rest then .error .isDirectory
    else if maxPiece < piece.utf8ByteSize then .error .nameTooLong
    else if disk.isDirectory (path ++ [piece]) then walk disk purpose (path ++ [piece]) rest
    else
      match disk.content? (path ++ [piece]) with
      | some content =>
        if rest.isEmpty then .ok (.file (path ++ [piece]) content) else .error .notDirectory
      | none => if rest.isEmpty then .ok (.vacant (path ++ [piece])) else .error .missing

def resolve (disk : Disk) (purpose : Purpose) (name : String) : Except FileFault Place :=
  if name.toList.contains '\x00' then .error .nulInName
  else if name.isEmpty then .error .missing
  else if maxName < name.utf8ByteSize then .error .nameTooLong
  else
    let start := if name.toList.head? = some '/' then ["/"] else []
    disk.walk purpose start (FilePath.components name)

/-- What one attempt to read a line gives. -/
abbrev Line := Except FileFault (List Char)

def decodeLine (bytes : List UInt8) : Line :=
  match String.fromUTF8? ⟨bytes.toArray⟩ with
  | some text => .ok text.toList
  | none => .error .notUtf8

/-- The lines of a file. A line that is not well-formed can be read past. -/
def linesOf (content : ByteArray) : List Line :=
  match String.fromUTF8? content with
  | some text => (Text.lines text.toList).map .ok
  | none => (Text.byteLines content.data.toList).map decodeLine

/-- The lines of the file with the given name. A directory can be opened, but no line can be read from
it. -/
def open? (disk : Disk) (name : String) : Except FileFault (List Line) :=
  match disk.resolve .reading name with
  | .error fault => .error fault
  | .ok .directory => .ok [.error .isDirectory]
  | .ok (.file _ content) => .ok (linesOf content)
  | .ok (.vacant _) => .error .missing

def text? (disk : Disk) (name : String) : Except FileFault String :=
  match disk.resolve .reading name with
  | .error fault => .error fault
  | .ok .directory => .error .isDirectory
  | .ok (.file _ content) =>
    match String.fromUTF8? content with
    | some text => .ok text
    | none => .error .notUtf8
  | .ok (.vacant _) => .error .missing

/-- The disk with a text in the file with the given name, in place of what was there. -/
def write? (disk : Disk) (name : String) (text : String) : Except FileFault Disk :=
  match disk.resolve .writing name with
  | .error fault => .error fault
  | .ok .directory => .error .isDirectory
  | .ok (.file path _) | .ok (.vacant path) =>
    .ok { disk.put path text.toUTF8 with revision := disk.revision + 1 }

end Disk

end MatrixScript
