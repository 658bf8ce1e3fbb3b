import MailIndex.Check.Report
import MailIndex.CommandLine.World
import MailIndex.Config.Reader
import MailIndex.Ingest.Listing
import MailIndex.Reindex.Completion
import MailIndex.Reindex.Listing
import MailIndex.Search.Listing
import MailIndex.Store.Stats.Listing

/-!
# Actions

What the commands do to the world, and what they print. An action that fails keeps what it has done
and printed before.
-/

namespace MailIndex.CommandLine

open Reindex (ProgressMode)

inductive ActionError where
  | unreadableConfig (path : Text)
  | config (e : Config.Error)
  /-- Messages are needed, and the configuration does not say where they are. -/
  | noSource
  | noCommitInterval
  | connect (e : ConnectError)
  | lock (e : WriterLock.Error)
  | storage (f : Failure)
  | ingest (e : Ingest.Error)
  | search (e : SearchError)
  | reindex (e : Reindex.Error)
  deriving DecidableEq, Repr

def ActionError.message : ActionError → Text
  | .unreadableConfig path => "Failed to read config file: ".toList ++ path
  | .config e => e.message
  | .noSource => Config.missingSource
  | .noCommitInterval => "--commit-interval must be >= 1".toList
  | .connect e => e.message
  | .lock e => e.message
  | .storage f => f.message
  | .ingest e => e.message
  | .search e => e.message
  | .reindex e => e.message

structure Console where
  world : World
  out : Text
  err : Text

/-- An action gives a result or fails, and leaves a console behind. -/
abbrev Action (α : Type) := ExceptT ActionError (StateM Console) α

namespace Action

/-- What an action gives in a world in which nothing has been printed. -/
def inWorld {α : Type} (a : Action α) (w : World) : Except ActionError α × Console :=
  a.run.run ⟨w, [], []⟩

def world : Action World := return (← get).world

def setWorld (w : World) : Action Unit := modify fun c => { c with world := w }

def print (lines : List Text) : Action Unit :=
  modify fun c => { c with out := c.out ++ Text.ofLines lines }

def printProgress (lines : List Text) : Action Unit :=
  modify fun c => { c with err := c.err ++ Text.ofLines lines }

def demand {ε α : Type} (cause : ε → ActionError) (result : Except ε α) : Action α :=
  match result with
  | .ok a => pure a
  | .error e => throw (cause e)

def loadConfig (path : Text) : Action Config := do
  let w ← world
  match (w.files.read? (w.resolve path)).bind Text.ofBytes? with
  | none => throw (.unreadableConfig path)
  | some content => demand .config (Config.parse content)

def connect (c : Config) : Action Unit := do
  setWorld (← demand .connect ((← world).connect c.dbPath))

/-- Does something to the store, which keeps what is done to it even by a failure. -/
def onStore {ε α : Type} (c : Config) (cause : ε → ActionError)
    (f : Store → Except ε α × Store) : Action α := do
  let w ← world
  let (result, s) := f (w.store c.dbPath)
  setWorld (w.withStore c.dbPath s)
  demand cause result

def source (c : Config) : Action SourceConfig :=
  match c.source with
  | some source => pure source
  | none => throw .noSource

def lock (c : Config) : Action WriterLock := do
  let (lock, w) ← demand .lock ((← world).lock c.dbPath)
  setWorld w
  return lock

def init (c : Config) : Action Unit := do
  connect c
  onStore c .storage fun s => (.ok (), s.withSchema)

def reindex (c : Config) (o : Reindex.Options) (mode : ProgressMode) (cancelled : Bool) :
    Action Reindex.Report := do
  let source ← source c
  let _ ← lock c
  connect c
  let w ← world
  let surroundings : Reindex.Surroundings :=
    { load := Ingest.loadFrom w.files (w.resolve source.root)
      cancelled := fun _ => cancelled
      outside := fun _ => []
      now := w.now }
  let run := Reindex.Run.complete o surroundings (w.store c.dbPath)
  setWorld (w.withStore c.dbPath run.session.durable)
  printProgress (mode.lines run.events)
  let report ← demand .reindex
    (run.outcome?.get (Reindex.Run.isSome_outcome?_complete o surroundings (w.store c.dbPath)))
  print report.lines
  return report

def optionsFor (c : Config) (selector : Reindex.Selector) : Reindex.Options :=
  ⟨selector, false, c.index.commitInterval, c.index.snippetChars⟩

def ingest (c : Config) (index : Bool) (mode : ProgressMode) (cancelled : Bool) : Action Unit := do
  let source ← source c
  connect c
  let w ← world
  let summary ← onStore c .ingest (Ingest.ingest w.files w.workingDirectory source)
  print (summary.lines source.root)
  if index then
    let _ ← reindex c (optionsFor c .all) mode cancelled

def search (c : Config) (r : SearchRequest) (json : Bool) : Action Unit := do
  connect c
  let page ← onStore c .search fun s => (Search.run s c.search r, s)
  print (if json then [page.toJson.pretty] else page.lines r)

/-- Audits the index, repairs it before if there is anything to repair and that is asked for, and
prints the report. -/
def check (c : Config) (fix verbose json cancelled : Bool) : Action Check.Report := do
  connect c
  let first ← onStore c .storage Check.audit
  let report ←
    if fix && (!first.duplicates.isEmpty || !first.orphans.isEmpty) then do
      let _ ← lock c
      let summary ← onStore c .storage (Check.repair fun _ => cancelled)
      let after ← onStore c .storage Check.audit
      pure ⟨after, some summary⟩
    else pure ⟨first, none⟩
  print (if json then [report.toJson.pretty] else report.lines verbose)
  return report

def stats (c : Config) : Action Unit := do
  connect c
  let stats ← onStore c .storage Statement.stats
  let w ← world
  print (stats.lines c.dbPath (w.databaseSize c.dbPath) w.now)

end Action

end MailIndex.CommandLine
