import MailIndex.Config.Basic
import MailIndex.Files.Tree
import MailIndex.Glob.Matching
import MailIndex.Text.Order

/-!
# Scanning for messages

The files below the root of the messages whose relative paths match one of the patterns that
include and none that exclude, in the order of these paths.
-/

namespace MailIndex.Ingest

structure ScannedFile where
  /-- The path from the root, with slashes between its parts. -/
  relativePath : Text
  bytes : List UInt8
  deriving DecidableEq, Repr

inductive ScanError where
  | missingRoot (root : Text)
  | invalidGlob (pattern : Text)
  deriving DecidableEq, Repr

def ScanError.message : ScanError → Text
  | .missingRoot root => "Source root does not exist: ".toList ++ root
  | .invalidGlob pattern => "Invalid glob: ".toList ++ pattern

def globs (patterns : List Text) : Except ScanError (List Glob) :=
  (Glob.parseAll patterns).mapError .invalidGlob

/-- A relative path as it is kept: a backslash in it counts as a slash. -/
def relativeText (p : Path) : Text := p.joined.map fun c => if c = '\\' then '/' else c

/-- The files of the messages; paths in the configuration are seen from `base`. -/
def scan (t : FileTree) (base : Path) (c : SourceConfig) :
    Except ScanError (List ScannedFile) := do
  let root := Path.resolve base c.root
  if !t.contains root then throw (.missingRoot c.root)
  let included ← globs c.includeGlobs
  let excluded ← globs c.excludeGlobs
  let all := (t.below root).map fun (p, bytes) => (⟨relativeText p, bytes⟩ : ScannedFile)
  let wanted := all.filter fun f =>
    !Glob.anyMatches excluded f.relativePath && Glob.anyMatches included f.relativePath
  return wanted.mergeSort fun a b => Text.le a.relativePath b.relativePath

end MailIndex.Ingest
