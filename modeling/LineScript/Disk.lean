-- SUMMARY: The files around a working directory.
import LineScript.Path

/-!
# Disks

A place is a way down from the file root, from the working directory, or from a directory some
levels above it. A disk holds files by their places; the starts of these ways are directories, and
so is every place on the way to a file. Names and paths have a greatest length.

Ways from different starts lead to different places: where the working directory itself stands is
not known, so a path that goes up and comes back down into it, or an absolute path into it, is not
taken for one from it. Every file may be read and written, and there are no links.
-/

namespace LineScript

/-- Where a way down starts. -/
inductive Base where
  | root
  /-- The directory that many levels above the working directory. -/
  | above (levels : Nat)
  deriving DecidableEq, Repr

/-- A place of a file or directory. -/
structure Place where
  base : Base
  names : List String
  deriving DecidableEq, Repr

/-- The place one level up. -/
def Place.parent (p : Place) : Place :=
  match p.names, p.base with
  | [], .root => p
  | [], .above n => ⟨.above (n + 1), []⟩
  | _, _ => { p with names := p.names.dropLast }

/-- The place of a name in the directory at a place. -/
def Place.enter (p : Place) (name : String) : Place :=
  if name = ".." then p.parent else { p with names := p.names ++ [name] }

/-- What stands at a place. -/
inductive Entry where
  | file (content : ByteArray)
  | directory
  | absent

/-- Why a file is not read or written. -/
inductive DiskError where
  /-- There is no such file, or no way to it. -/
  | missing
  /-- A directory where the file should be. -/
  | directory
  /-- A name or a path that is too long. -/
  | tooLong
  deriving DecidableEq, Repr

/-- Files, and directories that are not on the way to one. -/
structure Disk where
  files : List (Place × ByteArray)
  directories : List Place

namespace Disk

/-- The place is on the way to the other one. -/
def leadsTo (p q : Place) : Bool :=
  p.base = q.base && p.names.length < q.names.length && q.names.take p.names.length = p.names

/-- There is a directory at the place. -/
def isDirectory (d : Disk) (p : Place) : Bool :=
  p.names = [] || d.directories.contains p || d.files.any (fun f => leadsTo p f.1) ||
    d.directories.any (leadsTo p)

/-- What stands at the place. -/
def entry (d : Disk) (p : Place) : Entry :=
  match d.files.lookup p with
  | some content => .file content
  | none => if d.isDirectory p then .directory else .absent

/-- The number of bytes that a name may have. -/
def longestName : Nat := 255

/-- The number of bytes that the text of a path may have. -/
def longestPath : Nat := 4095

/-- Walk along names. A name is looked at only once the place in front of it is known to be a
    directory, so a gap on the way counts before a long name behind it. -/
def walk (d : Disk) (p : Place) : List String → Except DiskError Place
  | [] => .ok p
  | name :: names =>
    if !d.isDirectory p then .error .missing
    else if longestName < name.utf8ByteSize then .error .tooLong
    else d.walk (p.enter name) names

/-- The place that a path leads to. No file has a name with a null character, and the length of the
    whole path counts before anything on the way. -/
def resolve (d : Disk) (path : Path) : Except DiskError Place :=
  if path.render.toList.contains '\x00' then .error .missing
  else if longestPath < path.render.utf8ByteSize then .error .tooLong
  else d.walk ⟨if path.root = "" then .above 0 else .root, []⟩ path.names

/-- The content of the file at the end of a path. -/
def read (d : Disk) (path : Path) : Except DiskError ByteArray := do
  match d.entry (← d.resolve path) with
  | .file content => .ok content
  | .directory => .error .directory
  | .absent => .error .missing

/-- Put a file at a place of a list of files. -/
def putFile (p : Place) (content : ByteArray) : List (Place × ByteArray) → List (Place × ByteArray)
  | [] => [(p, content)]
  | (q, c) :: rest => if q = p then (q, content) :: rest else (q, c) :: putFile p content rest

/-- Write the file at the end of a path. -/
def write (d : Disk) (path : Path) (content : String) : Except DiskError Disk := do
  let p ← d.resolve path
  if d.isDirectory p then .error .directory
  else .ok { d with files := putFile p content.toUTF8 d.files }

end Disk

end LineScript
