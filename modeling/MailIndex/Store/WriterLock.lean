import MailIndex.Text.Range

/-!
# The writer lock

Runs that write hold the lock of their database. A second one is turned away at once.
-/

namespace MailIndex

structure WriterLock where
  database : Text
  deriving DecidableEq, Repr

namespace WriterLock

def path (lock : WriterLock) : Text := lock.database ++ ".writer.lock".toList

inductive Error where
  /-- Another holds the lock. -/
  | taken (database : Text)
  /-- The file of the lock cannot be opened. -/
  | unreachable (path : Text)
  deriving DecidableEq, Repr

def Error.message : Error → Text
  | .taken database =>
    "Another writer (reindex or db-check --fix) is already running on ".toList ++ database
  | .unreachable path => "Failed to open lock file: ".toList ++ path

def acquire (held : List WriterLock) (database : Text) : Except Error WriterLock :=
  let lock : WriterLock := ⟨database⟩
  if held.contains lock then .error (.taken database) else .ok lock

def release (held : List WriterLock) (lock : WriterLock) : List WriterLock :=
  held.filter (· ≠ lock)

end WriterLock

end MailIndex
