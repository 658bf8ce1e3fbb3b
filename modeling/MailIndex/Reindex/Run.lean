import MailIndex.Message.Identity
import MailIndex.Reindex.Progress
import MailIndex.Reindex.Selector
import MailIndex.Store.Session

/-!
# Runs of a reindex

A run brings the index in line with the documents that a selector picks. It resolves the selector,
notes who has been indexed before, makes everything in scope stale if that is asked for, and selects
the candidates. Each candidate is loaded and indexed in turn; at last superseded entries are taken
out. Between two documents the run may be cancelled: then it commits, cleans up and is paused.

A run is a machine that takes one step at a time. Whatever is durable changes only at the end of a
step, so a crash anywhere leaves what was durable after some number of steps.
-/

namespace MailIndex.Reindex

structure Options where
  selector : Selector
  /-- Whether everything in scope is indexed anew, fresh or not. -/
  force : Bool
  /-- After how many documents the run commits. -/
  commitInterval : Nat
  snippetChars : Nat
  deriving DecidableEq, Repr

/-- What a write from outside may do while no transaction is open. -/
inductive OutsideWrite where
  | upsert (r : Record)
  | delete (id : Text)

def OutsideWrite.apply (s : Store) : OutsideWrite → Store
  | .upsert r => (Statement.upsert r s).2
  | .delete id => (Statement.deleteDocument id s).2

structure Surroundings where
  /-- The message of a document, if it can be loaded. -/
  load : Document → Option Message
  /-- Whether the run is found cancelled when so many candidates have been dealt with. -/
  cancelled : Nat → Bool
  /-- What others write right before so many candidates, and one more, are loaded. -/
  outside : Nat → List OutsideWrite
  /-- The time of indexing. -/
  now : Int

inductive Status where
  | completed
  /-- Cancelled between documents. -/
  | paused
  /-- Nothing was stale and nothing superseded. -/
  | upToDate
  deriving DecidableEq, Repr

def Status.name : Status → Text
  | .completed => "completed".toList
  | .paused => "paused".toList
  | .upToDate => "up_to_date".toList

structure Report where
  status : Status
  candidates : Nat
  indexed : Nat
  /-- Candidates that could not be loaded, or whose documents had gone. -/
  failed : Nat
  /-- Candidates that were not reached. -/
  remaining : Nat
  prunedEntries : Nat
  commits : Nat
  deriving DecidableEq, Repr

structure Tally where
  /-- The number of candidates. -/
  total : Nat
  indexed : Nat
  failed : Nat
  deriving DecidableEq, Repr

def Tally.processed (t : Tally) : Nat := t.indexed + t.failed

inductive Stage where
  | beginning
  | scoped (scope : Scope)
  /-- It is noted who had been indexed before. -/
  | noted (scope : Scope) (hadIndexed : List Nat)
  /-- What was to be made stale is stale. -/
  | prepared (scope : Scope) (hadIndexed : List Nat)
  | selected (scope : Scope) (hadIndexed : List Nat) (candidates : List Document)
  | indexing (hadIndexed : List Nat) (left : List Document) (toPrune : SeqSet) (tally : Tally)
  | pruning (left : List Nat) (total : Nat) (paused : Bool) (tally : Tally) (pruned : Nat)
  | finished (report : Report)
  | failed (e : Error)

structure Run where
  session : Session
  stage : Stage
  /-- The candidates that the source was asked for, in order. -/
  asked : List Document
  /-- What has been reported, in order. -/
  events : List Event

namespace Run

def start (s : Store) : Run := ⟨.start s, .beginning, [], []⟩

/-- Ends a run that cannot go on; what was not committed is lost. -/
def fail (r : Run) (e : Error) : Run :=
  { r with session := r.session.rollback, stage := .failed e }

def report (r : Run) (e : Event) : Run := { r with events := r.events ++ [e] }

/-- Goes on to a stage with the result of a read, or ends the run. -/
def proceed {α : Type} (r : Run) (result : Except Failure α) (next : α → Stage) : Run :=
  match result with
  | .ok a => { r with stage := next a }
  | .error f => r.fail (.storage f)

def resolve (o : Options) (r : Run) : Run :=
  let r := r.report .selecting
  match o.selector.scope r.session.durable with
  | .ok scope => { r with stage := .scoped scope }
  | .error e => r.fail e

def note (r : Run) (scope : Scope) : Run :=
  let s := r.session.durable
  let had := (s.documents.filter fun d => d.indexedHash.isSome && scope.contains d.seq).map (·.seq)
  r.proceed (s.needing [.documents] had) (.noted scope)

def unindexed (s : Store) (scope : Scope) : Store :=
  s.change (fun d => scope.contains d.seq) fun d => { d with indexedHash := none }

/-- Makes everything in scope stale if that is asked for, in a transaction of its own. -/
def prepare (o : Options) (r : Run) (scope : Scope) (had : List Nat) : Run :=
  if o.force then
    match r.session.view.needing [.documents] (unindexed r.session.view scope) with
    | .ok s =>
      { r with session := (r.session.write s).commit, stage := .prepared scope had }
    | .error f => r.fail (.storage f)
  else { r with stage := .prepared scope had }

def select (o : Options) (r : Run) (scope : Scope) (had : List Nat) : Run :=
  let s := r.session.durable
  r.proceed (s.needing [.documents] (candidates s o.selector scope)) (.selected scope had)

def collect (r : Run) (scope : Scope) (had : List Nat) (found : List Document) : Run :=
  let s := r.session.durable
  let seqs := (s.duplicates.map (·.1)).filter scope.contains
  r.proceed (s.needing [.entries] seqs) fun toPrune =>
    .indexing had found toPrune ⟨found.length, 0, 0⟩

/-- The hash under which a candidate is indexed: its content hash when it was selected, else the
hash that the source knows, else the hash of its fields. -/
def hashFor (d : Document) (m : Message) : Text :=
  (d.contentHash <|> m.contentHash).getD m.fieldsHash

/-- What indexing a loaded candidate does to the store; none if its document has gone. -/
def indexed? (o : Options) (now : Int) (s : Store) (d : Document) (m : Message) : Option Store :=
  if (s.findSeq? d.seq).isSome then
    let derived := Derived.ofMessage m o.snippetChars
    some ((s.markIndexed d.seq derived (hashFor d m) now).addEntry d.seq (.ofMessage m)).1
  else none

def tablesFor (s : Store) (d : Document) : List Table :=
  [.entries, .documents] ++ if (s.findSeq? d.seq).isSome then [.fullText] else []

def dealtWith (r : Run) (session : Session) (had : List Nat) (left : List Document)
    (toPrune : SeqSet) (tally : Tally) : Run :=
  { r with session, stage := .indexing had left toPrune tally }.report
    (.indexing tally.processed tally.total)

def indexNext (o : Options) (env : Surroundings) (r : Run) (had : List Nat) (d : Document)
    (left : List Document) (toPrune : SeqSet) (tally : Tally) : Run :=
  let r := { r with asked := r.asked ++ [d] }
  match env.load d with
  | none => r.dealtWith r.session had left toPrune { tally with failed := tally.failed + 1 }
  | some m =>
    let s := r.session.view
    match s.needing (tablesFor s d) (indexed? o env.now s d m) with
    | .error f => r.fail (.storage f)
    | .ok none =>
      r.dealtWith (r.session.write s) had left toPrune { tally with failed := tally.failed + 1 }
    | .ok (some written) =>
      let toPrune :=
        if !(s.entriesOf d.seq).isEmpty || had.contains d.seq then toPrune.insert d.seq
        else toPrune
      r.dealtWith ((r.session.write written).finishOne o.commitInterval) had left toPrune
        { tally with indexed := tally.indexed + 1 }

def endIndexing (r : Run) (paused : Bool) (toPrune : SeqSet) (tally : Tally) : Run :=
  { r with
    session := r.session.commit
    stage := .pruning toPrune toPrune.length paused tally 0 }

def pruneNext (o : Options) (r : Run) (seq : Nat) (left : List Nat) (total : Nat) (paused : Bool)
    (tally : Tally) (pruned : Nat) : Run :=
  match Statement.prune seq r.session.view with
  | (.error f, _) => r.fail (.storage f)
  | (.ok count, s) =>
    { r with
      session := (r.session.write s).finishOne o.commitInterval
      stage := .pruning left total paused tally (pruned + count) }.report
        (.pruning (total - left.length) total)

def statusOf (paused : Bool) (tally : Tally) (pruned : Nat) : Status :=
  if paused then .paused
  else if tally.total = 0 ∧ pruned = 0 then .upToDate
  else .completed

def conclude (r : Run) (paused : Bool) (tally : Tally) (pruned : Nat) : Run :=
  let session := r.session.commit
  { r with
    session
    stage := .finished {
      status := statusOf paused tally pruned
      candidates := tally.total
      indexed := tally.indexed
      failed := tally.failed
      remaining := tally.total - tally.processed
      prunedEntries := pruned
      commits := session.commits } }

/-- One step of a run. A run that has ended stays as it is. -/
def step (o : Options) (env : Surroundings) (r : Run) : Run :=
  match r.stage with
  | .beginning => r.resolve o
  | .scoped scope => r.note scope
  | .noted scope had => r.prepare o scope had
  | .prepared scope had => r.select o scope had
  | .selected scope had found => r.collect scope had found
  | .indexing _ [] toPrune tally => r.endIndexing false toPrune tally
  | .indexing had (d :: left) toPrune tally =>
    if env.cancelled tally.processed then r.endIndexing true toPrune tally
    else r.indexNext o env had d left toPrune tally
  | .pruning [] _ paused tally pruned => r.conclude paused tally pruned
  | .pruning (seq :: left) total paused tally pruned =>
    r.pruneNext o seq left total paused tally pruned
  | .finished _ => r
  | .failed _ => r

/-- Lets others write; while a transaction is open they have to wait. -/
def interfere (r : Run) (writes : List OutsideWrite) : Run :=
  match r.session.uncommitted with
  | none =>
    let durable := writes.foldl OutsideWrite.apply r.session.durable
    { r with session := { r.session with durable } }
  | some _ => r

/-- What others write before the next step: something only before a candidate is loaded. -/
def outsideBefore (env : Surroundings) (r : Run) : List OutsideWrite :=
  match r.stage with
  | .indexing _ (_ :: _) _ tally =>
    if env.cancelled tally.processed then [] else env.outside tally.processed
  | _ => []

def advance (o : Options) (env : Surroundings) (r : Run) : Run :=
  (r.interfere (r.outsideBefore env)).step o env

def advances (o : Options) (env : Surroundings) : Nat → Run → Run
  | 0, r => r
  | n + 1, r => advances o env n (r.advance o env)

/-- How many steps are left in the loop in which a run is. -/
def loopLength (r : Run) : Nat :=
  match r.stage with
  | .indexing _ left _ _ => left.length + 1
  | .pruning left _ _ _ _ => left.length + 1
  | _ => 0

def throughLoop (o : Options) (env : Surroundings) (r : Run) : Run :=
  advances o env r.loopLength r

/-- A whole run: five steps up to the candidates, then the loop over the candidates, and the loop
over the documents with superseded entries. -/
def complete (o : Options) (env : Surroundings) (s : Store) : Run :=
  ((advances o env 5 (start s)).throughLoop o env).throughLoop o env

def outcome? (r : Run) : Option (Except Error Report) :=
  match r.stage with
  | .finished report => some (.ok report)
  | .failed e => some (.error e)
  | _ => none

end Run

end MailIndex.Reindex
