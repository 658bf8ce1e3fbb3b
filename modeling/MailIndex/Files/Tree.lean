import MailIndex.Files.Path

/-!
# File trees

The files that there are, with their bytes, and the directories.
-/

namespace MailIndex

structure FileTree where
  files : List (Path × List UInt8)
  directories : List Path
  deriving DecidableEq, Repr

namespace FileTree

def empty : FileTree := ⟨[], [[]]⟩

def read? (t : FileTree) (p : Path) : Option (List UInt8) := t.files.lookup p

def isDirectory (t : FileTree) (p : Path) : Bool := t.directories.contains p

def contains (t : FileTree) (p : Path) : Bool := t.isDirectory p || (t.read? p).isSome

inductive Obstacle where
  /-- There is a file at its path. -/
  | file
  /-- There is a file on the way to it. -/
  | fileAbove
  deriving DecidableEq, Repr

def obstacle? (t : FileTree) (p : Path) : Option Obstacle :=
  if (t.read? p).isSome then some .file
  else if (List.range p.length).any fun n => (t.read? (p.take n)).isSome then some .fileAbove
  else none

def makeDirectory (t : FileTree) (p : Path) : FileTree :=
  let wanted := (List.range (p.length + 1)).map p.take
  { t with directories := t.directories ++ wanted.filter (!t.directories.contains ·) }

def write (t : FileTree) (p : Path) (bytes : List UInt8) : FileTree :=
  let t := t.makeDirectory p.dropLast
  { t with files := t.files.filter (·.1 ≠ p) ++ [(p, bytes)] }

def remove (t : FileTree) (p : Path) : FileTree :=
  { t with files := t.files.filter (·.1 ≠ p) }

/-- The files below a path, each with its path from there. -/
def below (t : FileTree) (base : Path) : List (Path × List UInt8) :=
  t.files.filterMap fun (p, bytes) => (base.below? p).map (·, bytes)

end FileTree

end MailIndex
