import Chip8.Options
import Chip8.Rom

/-!
Storing files and finding them again on a host, beside the places that every host has. A path is a
list of names between slashes. An empty name or a single dot stays in a directory, two dots go up
from it, and any other name is looked up in it. The directory above the topmost one is that one
again. The working directory is a new one among the temporary files, under a name that no path
knows. No file is open on such a host.
-/

namespace Chip8

namespace Folder

/-- A directory that a path can reach. -/
inductive Directory
  | working
  /-- The one reached by these names from the topmost one on. -/
  | absolute (names : List String)
deriving DecidableEq

def Directory.top : Directory := .absolute []

def Directory.parent : Directory → Directory
  | .working => .absolute ["tmp"]
  | .absolute names => .absolute names.dropLast

structure Stored where
  place : Directory
  name : String
  content : List UInt8

/-- Where a name leads. -/
inductive Entry
  | directory (d : Directory)
  | file (content : List UInt8)

def topDirectories : List String :=
  ["bin", "boot", "dev", "etc", "home", "lib", "media", "mnt", "opt", "proc", "root", "run", "sbin",
    "srv", "sys", "tmp", "usr", "var"]

/-- The directories that every host has, by their names from the topmost one on. -/
def standingDirectories : List (List String) :=
  topDirectories.map (fun name => [name]) ++
    [["dev", "pts"], ["dev", "shm"], ["usr", "bin"], ["usr", "lib"], ["usr", "local"],
      ["usr", "sbin"], ["usr", "share"], ["var", "cache"], ["var", "lib"], ["var", "log"],
      ["var", "tmp"]]

/-- The device that is an empty file. -/
def nullDevice : List String := ["dev", "null"]

/-- The device that gives zeros but has no room for anything. -/
def fullDevice : List String := ["dev", "full"]

/-- The devices that never come to an end. -/
def endlessDevices : List (List String) :=
  [fullDevice, ["dev", "random"], ["dev", "urandom"], ["dev", "zero"]]

/-- What every host has under these names. An endless file is given as far as it is read. -/
def standing? (names : List String) : Option Entry :=
  if names ∈ standingDirectories then some (.directory (.absolute names))
  else if names = nullDevice then some (.file [])
  else if names ∈ endlessDevices then some (.file (List.replicate Rom.readLimit 0))
  else none

/-- The names of an entry of a directory from the topmost one on, if they are known. -/
def Directory.absolute? (d : Directory) (name : String) : Option (List String) :=
  match d with
  | .working => none
  | .absolute names => some (names ++ [name])

def maxNameBytes : Nat := 255

/-- A path has fewer bytes than this. -/
def pathLimit : Nat := 4096

/-- Whether a name stays in the directory that it is looked up in. -/
def staysPut (name : List Char) : Bool := name.isEmpty || name == ['.']

def upwards : List Char := ['.', '.']

/-- The names in a path, and the directory that the first one is looked up in. The empty path names
nothing. -/
def route (path : String) : Except Rom.Fault (Directory × List (List Char)) :=
  let cs := path.toList
  if cs.contains '\x00' then .error .badName
  else if cs.isEmpty then .error .notFound
  else if pathLimit ≤ path.utf8ByteSize then .error .nameTooLong
  else .ok (if cs.head? = some '/' then .top else .working, cs.splitOn '/')

end Folder

/-- A host's files as far as they are known. Of two files in one place the first one counts. -/
structure Folder where
  files : List Folder.Stored

namespace Folder

def empty : Folder := ⟨[]⟩

/-- What a name stands for in a directory. -/
def entry? (f : Folder) (name : List Char) (d : Directory) : Except Rom.Fault (Option Entry) :=
  let name := String.ofList name
  if maxNameBytes < name.utf8ByteSize then .error .nameTooLong
  else .ok (((d.absolute? name).bind standing?).or
    ((f.files.find? fun s => s.place = d ∧ s.name = name).map fun s => .file s.content))

/-- Follows names from a directory on. -/
def follow (f : Folder) (d : Directory) : List (List Char) → Except Rom.Fault Entry
  | [] => .ok (.directory d)
  | name :: rest =>
    if staysPut name then f.follow d rest
    else if name = upwards then f.follow d.parent rest
    else match f.entry? name d with
      | .error fault => .error fault
      | .ok none => .error .notFound
      | .ok (some (.directory d)) => f.follow d rest
      | .ok (some (.file content)) =>
        if rest.isEmpty then .ok (.file content) else .error .notDirectory

def read (f : Folder) (path : String) : Except Rom.Fault (List UInt8) := do
  let (start, ns) ← route path
  match ← f.follow start ns with
  | .directory _ => .error .isDirectory
  | .file content => .ok content

/-- The numbers of open files have a smaller magnitude than this. -/
def descriptorLimit : Int := 0x80000000

/-- Why there is no open file of this number. -/
def descriptorFault (number : Int) : Rom.Fault :=
  if number < -descriptorLimit ∨ descriptorLimit ≤ number then .noFile
  else if number < 0 then .badName
  else .notOpen number

def readProgram (f : Folder) : ProgramFile → Except Rom.Fault (List UInt8)
  | .path path => f.read path
  | .descriptor number => .error (descriptorFault number)
  | .other _ => .error .noFile

def reach (f : Folder) (d : Directory) (ns : List (List Char)) : Except Rom.Fault Directory := do
  match ← f.follow d ns with
  | .directory d => .ok d
  | .file _ => .error .notDirectory

/-- Stores a file in a directory, unless the name is a directory's. -/
def put (f : Folder) (d : Directory) (name : List Char) (content : List UInt8) :
    Except Rom.Fault Folder := do
  match ← f.entry? name d with
  | some (.directory _) => .error .isDirectory
  | _ =>
    let name := String.ofList name
    if d.absolute? name = some fullDevice ∧ content ≠ [] then .error .noSpace
    else .ok ⟨⟨d, name, content⟩ :: f.files⟩

/-- Stores a file at a path. What a device is given is lost. A path that ends in a slash or in dots
is a directory's, whether there is one or not. -/
def store (f : Folder) (path : String) (content : List UInt8) : Except Rom.Fault Folder := do
  let (start, ns) ← route path
  let given := ns.reverse.dropWhile List.isEmpty
  match given with
  | [] => .error .isDirectory
  | name :: before =>
    let d ← f.reach start before.reverse
    if staysPut name ∨ name = upwards ∨ given.length < ns.length then .error .isDirectory
    else f.put d name content

end Folder

end Chip8
