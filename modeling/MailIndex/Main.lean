import MailIndex.CommandLine.Answer
import Std.Time.DateTime.Timestamp

/-!
# The program

Brings in as much of the world as an invocation needs, lets the library answer, and writes back what
has become of the world.
-/

namespace MailIndex.Program

open CommandLine

def written (p : Path) : String := "/" ++ String.ofList p.joined

def bytesOf? (p : Path) : IO (Option (List UInt8)) := do
  try return some (← IO.FS.readBinFile (written p)).toList
  catch _ => return none

/-- The tree with all that lies below a directory. -/
partial def withBelow (t : FileTree) (p : Path) : IO FileTree := do
  let mut t := t
  try
    let directory ← IO.FS.realPath (written p)
    t := t.makeDirectory p
    for entry in ← directory.readDir do
      let inner := p ++ [entry.fileName.toList]
      match (← entry.path.symlinkMetadata).type with
      | .dir => t ← withBelow t inner
      | .file => if let some bytes ← bytesOf? inner then t := t.write inner bytes
      | _ => pure ()
  catch _ => pure ()
  return t

/-- The tree with a file, or with the directories on the way to it as far as there are any. -/
def withFile (t : FileTree) (p : Path) : IO FileTree := do
  let mut t := t
  for n in [0:p.length] do
    let above := p.take n
    try
      let directory ← IO.FS.realPath (written above)
      if ← directory.isDir then t := t.makeDirectory above
      else t := t.write above []
    catch _ => pure ()
  if let some bytes ← bytesOf? p then t := t.write p bytes
  return t

def withDatabase (w : World) (database : Text) : IO World := do
  let path := w.resolve database
  let w := { w with files := ← withFile w.files path }
  match ((w.files.read? path).bind Text.ofBytes?).bind Archive.decode? with
  | some s => return { w with databases := [(path, s)], files := w.files.remove path }
  | none => return w

/-- Tries to lock the file of a database. The lock holds as long as the handle is kept. -/
def tryLock (w : World) (database : Text) : IO (World × Option IO.FS.Handle) := do
  let lock : WriterLock := ⟨database⟩
  try
    let handle ← IO.FS.Handle.mk (written (w.resolve lock.path)) .append
    if ← handle.tryLock then return (w, some handle)
    else return ({ w with held := [lock] }, none)
  catch _ => return (w, none)

/-- Whether a command may write to an index that another could be writing to. -/
def writes : Command → Bool
  | .ingest a => a.index
  | .reindex _ => true
  | .check a => a.fix
  | _ => false

def readsMessages : Command → Bool
  | .ingest _ => true
  | .reindex _ => true
  | _ => false

def writeBack (before after : World) : IO Unit := do
  for directory in after.files.directories do
    if !before.files.isDirectory directory then IO.FS.createDirAll (written directory)
  for (p, bytes) in after.files.files do
    if (before.files.read? p).isNone then
      IO.FS.writeBinFile (written p) ⟨bytes.toArray⟩
  for (p, s) in after.databases do
    if !World.isTransient (p.getLastD []) && before.databases.lookup p ≠ some s then
      IO.FS.writeFile (written p) (String.ofList (Archive.encode s))

def carryOut (i : Invocation) : IO Answer := do
  let directory := Path.resolve [] (← IO.currentDir).toString.toList
  let now := (← Std.Time.Timestamp.now).toSecondsSinceUnixEpoch.val
  let terminal ← (← IO.getStderr).isTty
  let w : World := ⟨FileTree.empty.makeDirectory directory, [], directory, [], now, terminal⟩
  let w := { w with files := ← withFile w.files (w.resolve i.config) }
  match (Action.loadConfig i.config).inWorld w with
  | (.error _, _) => return (i.answer w).1
  | (.ok c, _) =>
    let mut w ← withDatabase w c.dbPath
    if readsMessages i.command then
      if let some source := c.source then
        w := { w with files := ← withBelow w.files (w.resolve source.root) }
    let (held, handle) ← if writes i.command then tryLock w c.dbPath else pure (w, none)
    let (answer, after) := i.answer held
    writeBack w after
    if let some handle := handle then handle.unlock
    return answer

end MailIndex.Program

def main (args : List String) : IO UInt32 := do
  let answer ←
    match MailIndex.CommandLine.Invocation.ofArguments (args.map (·.toList)) with
    | .ok i => MailIndex.Program.carryOut i
    | .error e => pure e.answer
  (← IO.getStdout).putStr (String.ofList answer.out)
  (← IO.getStderr).putStr (String.ofList answer.err)
  return answer.code.toUInt32
