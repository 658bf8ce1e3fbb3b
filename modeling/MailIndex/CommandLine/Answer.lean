import MailIndex.CommandLine.Action
import MailIndex.CommandLine.Arguments

/-!
# Answers

A whole invocation: the arguments are read, the configuration is loaded, the command is carried out,
and there is an exit code and what has been printed.
-/

namespace MailIndex.CommandLine

structure Answer where
  code : Nat
  out : Text
  err : Text
  deriving DecidableEq, Repr

/-- The progress that is shown: what is asked for, or else lines for a reader on a terminal. -/
def progressOr (asked : Option Reindex.ProgressMode) (terminal : Bool) : Reindex.ProgressMode :=
  asked.getD (if terminal then .human else .off)

def ReindexArguments.selector (a : ReindexArguments) : Reindex.Selector :=
  match a.id, a.pattern with
  | some id, _ => .single id
  | none, some p => .pattern p
  | none, none => .all

def ReindexArguments.options (c : Config) (a : ReindexArguments) : Reindex.Options :=
  { Action.optionsFor c a.selector with
    force := a.force
    commitInterval := a.commitInterval.getD c.index.commitInterval }

/-- Carries a command out. Gives the exit code: 2 for a run that was paused, 1 for an index that is
not healthy. -/
def Command.perform (c : Config) : Command → Action Nat
  | .init => do
    Action.init c
    Action.print ["Database initialized successfully.".toList]
    return 0
  | .ingest a => do
    let terminal := (← Action.world).terminal
    Action.ingest c a.index (progressOr a.progress terminal) false
    return 0
  | .search a => do
    Action.search c a.request a.json
    return 0
  | .reindex a => do
    if a.commitInterval = some 0 then throw .noCommitInterval
    let terminal := (← Action.world).terminal
    let report ← Action.reindex c (a.options c) (progressOr a.progress terminal) false
    return if report.status = .paused then 2 else 0
  | .check a => do
    let report ← Action.check c a.fix a.verbose a.json false
    return if report.isHealthy then 0 else 1
  | .stats => do
    Action.stats c
    return 0

def Invocation.answer (i : Invocation) (w : World) : Answer × World :=
  let perform : Action Nat := do
    let c ← Action.loadConfig i.config
    i.command.perform c
  match perform.inWorld w with
  | (.ok code, console) => (⟨code, console.out, console.err⟩, console.world)
  | (.error e, console) =>
    (⟨1, console.out, console.err ++ Text.ofLines ["Error: ".toList ++ e.message]⟩, console.world)

def helpLines : List Text := [
  about, [], "Usage: inboxdb [OPTIONS] <COMMAND>".toList, [], "Commands:".toList,
  "  init      Initialize the database schema".toList,
  "  ingest    Record envelope files from `source.root`".toList,
  "  search    Search indexed messages".toList,
  "  reindex   Bring the full-text index up to date".toList,
  "  db-check  Audit index consistency".toList,
  "  stats     Show document freshness and per-account counts".toList]

def versionLine : Text := "inboxdb 0.3.0".toList

/-- The answer when reading the arguments ends early. Of a usage error there is one line. -/
def Early.answer : Early → Answer
  | .refused e => ⟨2, [], Text.ofLines [Text.firstLine e.message]⟩
  | .help => ⟨0, Text.ofLines helpLines, []⟩
  | .version => ⟨0, Text.ofLines [versionLine], []⟩

def answer (args : List Text) (w : World) : Answer × World :=
  match Invocation.ofArguments args with
  | .ok i => i.answer w
  | .error e => (e.answer, w)

end MailIndex.CommandLine
