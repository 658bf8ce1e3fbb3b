import MailIndex.CommandLine.Grammar
import MailIndex.Reindex.Progress
import MailIndex.Search.Request
import MailIndex.Text.Decimal.Bounded

/-!
# The arguments of the program

The commands, with what each of them can be told, and how the arguments spell them. The option for
the configuration may stand before the command or after it.
-/

namespace MailIndex.CommandLine

open Reindex (ProgressMode)

structure IngestArguments where
  /-- Whether everything is indexed afterwards. -/
  index : Bool
  progress : Option ProgressMode
  deriving DecidableEq, Repr

structure SearchArguments where
  request : SearchRequest
  json : Bool
  deriving DecidableEq, Repr

structure ReindexArguments where
  pattern : Option Text
  id : Option Text
  force : Bool
  commitInterval : Option Nat
  progress : Option ProgressMode
  deriving DecidableEq, Repr

structure CheckArguments where
  fix : Bool
  verbose : Bool
  json : Bool
  deriving DecidableEq, Repr

inductive Command where
  /-- Make the store and its tables. -/
  | init
  | ingest (a : IngestArguments)
  | search (a : SearchArguments)
  | reindex (a : ReindexArguments)
  | check (a : CheckArguments)
  | stats
  deriving DecidableEq, Repr

structure Invocation where
  /-- The path of the configuration. -/
  config : Text
  command : Command
  deriving DecidableEq, Repr

/-! ### Options -/

section Switches

variable {κ : Type}

def flag (name : String) (f : κ → κ) : Switch κ := ⟨name.toList, .flag f⟩

/-- An option with a value that is read, or is refused with a reason. -/
def valued {α : Type} (name : String) (read : Text → Except Text α) (put : α → κ → κ) : Switch κ :=
  ⟨name.toList, .value fun t => ((read t).mapError .bad).map put⟩

def textual (name : String) (put : Text → κ → κ) : Switch κ := valued name .ok put

def chosen {α : Type} (name : String) (ofName? : Text → Option α) (unknown : Text → Text)
    (put : α → κ → κ) : Switch κ :=
  valued name (fun t => match ofName? t with
    | some a => .ok a
    | none => .error (unknown t)) put

def integer (name : String) (put : Int → κ → κ) : Switch κ :=
  valued name (fun t => (Text.Decimal.readInteger t).mapError (·.message)) put

def count (name : String) (put : Nat → κ → κ) : Switch κ :=
  valued name (fun t => (Text.Decimal.readCount t).mapError (·.message)) put

def progressSwitch (put : ProgressMode → κ → κ) : Switch κ :=
  chosen "progress" ProgressMode.ofName? ProgressMode.unknownMessage put

end Switches

structure Told (κ : Type) where
  config : Option Text
  own : κ

def Switch.owned {κ : Type} (a : Switch κ) : Switch (Told κ) :=
  let within (f : κ → κ) (t : Told κ) : Told κ := { t with own := f t.own }
  ⟨a.name, match a.effect with
    | .flag f => .flag (within f)
    | .value read => .value fun v => (read v).map within
    | .stop e => .stop e⟩

/-- The option for the configuration; a path is never empty. -/
def configSwitch {κ : Type} : Switch (Told κ) :=
  ⟨"config".toList, .value fun v =>
    if v.isEmpty then .error .absent else .ok fun t => { t with config := some v }⟩

def grammarOf {κ : Type} (own : List (Switch κ)) (positional : Option (Text → κ → κ))
    (conflicts : List (Text × Text)) : Grammar (Told κ) where
  switches := configSwitch :: ⟨"help".toList, .stop .help⟩ :: own.map Switch.owned
  letters := [('h', .help)]
  positional := positional.map fun f v t => { t with own := f v t.own }
  commands := []
  conflicts := conflicts

/-! ### The commands -/

def ingestGrammar : Grammar (Told IngestArguments) :=
  grammarOf [flag "index" fun a => { a with index := true },
    progressSwitch fun m a => { a with progress := some m }] none []

def searchGrammar : Grammar (Told SearchArguments) :=
  let onRequest (f : SearchRequest → SearchRequest) (a : SearchArguments) : SearchArguments :=
    { a with request := f a.request }
  grammarOf [textual "account" fun v => onRequest fun r => { r with account := some v },
    integer "limit" fun n => onRequest fun r => { r with limit := some n },
    integer "offset" fun n => onRequest fun r => { r with offset := n },
    chosen "sort" SortOrder.ofName? SortOrder.unknownMessage fun s =>
      onRequest fun r => { r with sort := some s },
    flag "json" fun a => { a with json := true }]
    (some fun v => onRequest fun r => { r with query := v }) []

def reindexGrammar : Grammar (Told ReindexArguments) :=
  grammarOf [textual "pattern" fun v a => { a with pattern := some v },
    textual "id" fun v a => { a with id := some v },
    flag "force" fun a => { a with force := true },
    count "commit-interval" fun n a => { a with commitInterval := some n },
    progressSwitch fun m a => { a with progress := some m }]
    none [("pattern".toList, "id".toList)]

def checkGrammar : Grammar (Told CheckArguments) :=
  grammarOf [flag "fix" fun a => { a with fix := true },
    flag "verbose" fun a => { a with verbose := true },
    flag "json" fun a => { a with json := true }] none []

def plainGrammar : Grammar (Told Unit) := grammarOf [] none []

def Grammar.tell {κ : Type} (g : Grammar (Told κ)) (empty : κ) (make : κ → Command)
    (args : List Text) : Except Early (Option Text × Command) := do
  let (r, _) ← (Reading.start (⟨none, empty⟩ : Told κ)).read g args
  let told ← r.finish g
  return (told.config, make told.own)

def commands : List (Text × (List Text → Except Early (Option Text × Command))) := [
  ("init".toList, plainGrammar.tell () fun _ => .init),
  ("ingest".toList, ingestGrammar.tell ⟨false, none⟩ .ingest),
  ("search".toList, searchGrammar.tell ⟨⟨[], none, none, 0, none, none⟩, false⟩ .search),
  ("reindex".toList, reindexGrammar.tell ⟨none, none, false, none, none⟩ .reindex),
  ("db-check".toList, checkGrammar.tell ⟨false, false, false⟩ .check),
  ("stats".toList, plainGrammar.tell () fun _ => .stats)]

/-- Help on commands, as far as there are commands of these names. -/
def help (args : List Text) : Early :=
  match args with
  | [] => .help
  | name :: rest =>
    if name = "help".toList ∨ (commands.lookup name).isSome then
      match rest with
      | [] => .help
      | more :: _ => .refused (.unknownCommand more)
    else .refused (.unknownCommand name)

def topGrammar : Grammar (Told Unit) where
  switches := [configSwitch, ⟨"help".toList, .stop .help⟩, ⟨"version".toList, .stop .version⟩]
  letters := [('h', .help), ('V', .version)]
  positional := none
  commands := commands.map (·.1) ++ ["help".toList]
  conflicts := []

def defaultConfig : Text := "./config/inboxdb.toml".toList

/-- What the arguments tell the program to do. The arguments after the command are read before the
last option in front of it is looked at. -/
def Invocation.ofArguments (args : List Text) : Except Early Invocation := do
  let (top, found) ← (Reading.start (⟨none, ()⟩ : Told Unit)).read topGrammar args
  match found with
  | none =>
    let top ← top.settle
    Reading.refuse (if top.given.isEmpty then .nothingGiven else .missingCommand)
  | some (name, rest) =>
    match commands.lookup name with
    | none => .error (help rest)
    | some tell =>
      let (config, command) ← tell rest
      let told ← top.finish topGrammar
      return ⟨(config <|> told.config).getD defaultConfig, command⟩

end MailIndex.CommandLine
