import Dialogue.Dict
import Dialogue.Text.Utf8
/-!
A directory with files.

Programs work in one directory.  It holds files and no further directories; the directories above
it exist, and what they hold at first is unknown and counts as nothing.  Paths are split at the
slashes: an empty part and a dot stay where they are, two dots go up.  The names of files and whole
paths may only be so long, counted in bytes (`nameLimit`, `pathLimit`).
-/

namespace Dialogue.Storage

/-- Why a file could not be read or written. -/
inductive DiskFault
  | notFound
  | notDirectory
  | isDirectory
  | nameTooLong
  /-- A path holds the character with number zero. -/
  | zeroInName
  /-- Another fault, in the words of the system. -/
  | other (message : String)
deriving DecidableEq

/-- What a person is told about a fault. -/
def DiskFault.message : DiskFault → String
  | notFound => "No such file or directory (os error 2)"
  | notDirectory => "Not a directory (os error 20)"
  | isDirectory => "Is a directory (os error 21)"
  | nameTooLong => "File name too long (os error 36)"
  | zeroInName => "file name contained an unexpected NUL byte"
  | other message => message

/-- The text that the bytes of a file stand for. -/
def textOf (bytes : List UInt8) : Except DiskFault String :=
  (Text.decodeUtf8 bytes).mapError fun _ => .other "stream did not contain valid UTF-8"

/-- Files by their places.  A file in the directory itself goes by its name; two dots and a slash
stand before it for each level up. -/
structure Disk where
  /-- What the files hold. -/
  files : Dict (List UInt8) := .empty

/-- What a path leads to. -/
inductive Place
  /-- The directory some levels up. -/
  | directory (up : Nat)
  /-- The top of all directories. -/
  | top
  /-- A file, by its place. -/
  | file (place : String)
deriving DecidableEq

/-- How many bytes the name of a file may have. -/
def nameLimit : Nat := 255

/-- How many bytes a path may have. -/
def pathLimit : Nat := 4095

/-- Refuses a path that no system would look at. -/
def checkPath (path : String) : Except DiskFault Unit :=
  if path.toList.contains '\x00' then .error .zeroInName
  else if path = "" then .error .notFound
  else if pathLimit < path.utf8ByteSize then .error .nameTooLong
  else .ok ()

/-- Refuses a name that no file can have. -/
def checkName (name : String) : Except DiskFault Unit :=
  if nameLimit < name.utf8ByteSize then .error .nameTooLong else .ok ()

/-- The place of a file in the directory some levels up. -/
def placeOf (up : Nat) (name : String) : String :=
  String.join (List.replicate up "../") ++ name

/-- The parts of a path. -/
def parts (path : String) : List String :=
  path.splitOn "/"

/-- Where a path begins, and its parts from there on. -/
def beginning (path : String) : Place × List String :=
  match parts path with
  | "" :: rest => (.top, rest)
  | all => (.directory 0, all)

namespace Disk

/-- What the file at a place holds. -/
def content? (disk : Disk) (place : String) : Option (List UInt8) :=
  disk.files.entries.lookup place

/-- Goes on from a place by one part of a path. -/
def step (disk : Disk) (place : Place) (part : String) : Except DiskFault Place :=
  match place with
  | .file _ => .error .notDirectory
  | .top =>
    if part = "" || part = "." || part = ".." then .ok .top
    else do
      checkName part
      throw .notFound
  | .directory up =>
    if part = "" || part = "." then .ok place
    else if part = ".." then .ok (.directory (up + 1))
    else do
      checkName part
      match disk.content? (placeOf up part) with
      | some _ => return .file (placeOf up part)
      | none => throw .notFound

/-- What a path leads to. -/
def locate (disk : Disk) (path : String) : Except DiskFault Place := do
  checkPath path
  let (place, rest) := beginning path
  rest.foldlM disk.step place

/-- The bytes of a file. -/
def read (disk : Disk) (path : String) : Except DiskFault (List UInt8) := do
  match ← disk.locate path with
  | .file place =>
    match disk.content? place with
    | some bytes => return bytes
    | none => throw .notFound
  | .directory _ | .top => throw .isDirectory

/-- The text of a file. -/
def readText (disk : Disk) (path : String) : Except DiskFault String := do
  textOf (← disk.read path)

/-- The place at which a file would be created.  A path that ends in a slash names a directory. -/
def target (disk : Disk) (path : String) : Except DiskFault String := do
  checkPath path
  let (place, rest) := beginning path
  match (rest.reverse.dropWhile (· == "")) with
  | [] => throw .isDirectory
  | last :: before =>
    let place ← before.reverse.foldlM disk.step place
    if let .file _ := place then throw .notDirectory
    if last = "." || last = ".." || path.endsWith "/" then throw .isDirectory
    checkName last
    match place with
    | .directory up => return placeOf up last
    | .file _ | .top => throw .notFound

/-- Writes a file.  What it held before is lost. -/
def write (disk : Disk) (path : String) (bytes : List UInt8) : Except DiskFault Disk := do
  let place ← disk.target path
  return { files := disk.files.put place bytes }

end Disk

end Dialogue.Storage
