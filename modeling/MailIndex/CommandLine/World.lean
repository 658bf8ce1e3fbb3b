import MailIndex.Files.Tree
import MailIndex.Store.Archive
import MailIndex.Store.WriterLock

/-!
# The world around a command

Files, databases, the locks that others hold, and the time. A database is made when it is first
connected to; one that is kept in memory is made anew every time.
-/

namespace MailIndex

structure World where
  files : FileTree
  /-- The databases by their paths. -/
  databases : List (Path × Store)
  workingDirectory : Path
  /-- The locks that others hold. -/
  held : List WriterLock
  /-- The time in seconds. -/
  now : Int
  /-- Whether errors and progress go to a terminal. -/
  terminal : Bool

inductive ConnectError where
  | obstacle (o : FileTree.Obstacle)
  /-- There is a directory in its place. -/
  | directory
  /-- There is a file in its place that is no database. -/
  | otherFile
  deriving DecidableEq, Repr

def ConnectError.message : ConnectError → Text
  | .obstacle .file => "File exists (os error 17)".toList
  | .obstacle .fileAbove => "Not a directory (os error 20)".toList
  | .directory => "error returned from database: (code: 14) unable to open database file".toList
  | .otherFile => "error returned from database: (code: 26) file is not a database".toList

namespace World

def resolve (w : World) (written : Text) : Path := Path.resolve w.workingDirectory written

def isTransient (database : Text) : Bool :=
  database.isEmpty || database = ":memory:".toList

/-- The database at a path; one without tables if it has not been connected to. -/
def store (w : World) (database : Text) : Store :=
  (w.databases.lookup (w.resolve database)).getD .bare

def withStore (w : World) (database : Text) (s : Store) : World :=
  let path := w.resolve database
  { w with databases := (path, s) :: w.databases.filter (·.1 ≠ path) }

/-- Connects to a database: makes the directories above it, and the database itself unless it is
there. -/
def connect (w : World) (database : Text) : Except ConnectError World :=
  let path := w.resolve database
  if isTransient database then .ok (w.withStore database .bare)
  else
    match w.files.obstacle? path.dropLast with
    | some o => .error (.obstacle o)
    | none =>
      let w := { w with files := w.files.makeDirectory path.dropLast }
      if (w.databases.lookup path).isSome then .ok w
      else if w.files.isDirectory path then .error .directory
      else if (w.files.read? path).any (!·.isEmpty) then .error .otherFile
      else .ok (w.withStore database .bare)

def databaseSize (w : World) (database : Text) : Nat :=
  (Text.toBytes (Archive.encode (w.store database))).length

def lock (w : World) (database : Text) : Except WriterLock.Error (WriterLock × World) :=
  let path := w.resolve (WriterLock.path ⟨database⟩)
  if !w.files.isDirectory path.dropLast || w.files.isDirectory path then
    .error (.unreachable (WriterLock.path ⟨database⟩))
  else
    match WriterLock.acquire w.held database with
    | .error e => .error e
    | .ok lock =>
      let files := if w.files.contains path then w.files else w.files.write path []
      .ok (lock, { w with files })

def hasFile (w : World) (p : Path) : Bool :=
  (w.files.read? p).isSome || (w.databases.lookup p).isSome

def remove (w : World) (p : Path) : World :=
  { w with files := w.files.remove p, databases := w.databases.filter (·.1 ≠ p) }

end World

end MailIndex
