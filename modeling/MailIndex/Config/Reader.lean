import MailIndex.Config.Basic
import MailIndex.Json.Value
import MailIndex.Toml.Reader

/-!
# Reading a configuration

A configuration is a TOML document. A section may be a table, or a list that gives its settings in
their order. Settings that nobody knows are ignored; the values of the known ones are checked.
-/

namespace MailIndex.Config

open Toml

inductive Error where
  /-- It is no TOML document, or a setting is missing or of the wrong type. -/
  | malformed
  | noCommitInterval
  | noSnippetChars
  | noDefaultLimit
  | limitsCrossed (maxLimit defaultLimit : Int)
  | noIncludes
  deriving DecidableEq, Repr

def Error.message : Error → Text
  | .malformed => "Failed to parse config file".toList
  | .noCommitInterval => "index.commit_interval must be >= 1".toList
  | .noSnippetChars => "index.snippet_chars must be >= 1".toList
  | .noDefaultLimit => "search.default_limit must be >= 1".toList
  | .limitsCrossed maxLimit defaultLimit =>
    "search.max_limit (".toList ++ Json.Value.decimal maxLimit
      ++ ") must be >= search.default_limit (".toList ++ Json.Value.decimal defaultLimit
      ++ [')']
  | .noIncludes => "source.include_globs must not be empty".toList

/-! ### Values -/

def text? : Node → Option Text
  | .text t => some t
  | _ => none

def integer? : Node → Option Int
  | .integer n => some n
  | _ => none

def count? (node : Node) : Option Nat := do
  let n ← integer? node
  if n < 0 then none else some n.toNat

def flag? : Node → Option Bool
  | .boolean b => some b
  | _ => none

def texts? : Node → Option (List Text)
  | .list elements => elements.mapM text?
  | _ => none

def isVoid : Node → Bool
  | .list elements => elements.isEmpty
  | .table _ members => members.isEmpty
  | _ => false

/-- A sort order: its canonical name, or a table with that name as its only and empty member. -/
def sort? : Node → Option SortOrder
  | .text t => SortOrder.ofCanonicalName? t
  | .table _ [(key, node)] => if isVoid node then SortOrder.ofCanonicalName? key else none
  | _ => none

/-! ### Sections -/

/-- The settings of a section with given names. A date has members of its own, none of them
known here. -/
def settings? (names : List Text) : Node → Option (List (Option Node))
  | .table _ members => some (names.map fun name => members.lookup name)
  | .moment => some (names.map fun _ => none)
  | .list elements => some ((List.range names.length).map (elements[·]?))
  | .tables elements =>
    some ((List.range names.length).map fun i => elements.reverse[i]?.map (.table .header))
  | _ => none

def required {α : Type} (read : Node → Option α) (setting : Option Node) : Option α :=
  setting.bind read

def optional {α : Type} (read : Node → Option α) (standard : α) : Option Node → Option α
  | none => some standard
  | some node => read node

def readDbPath? (node : Node) : Option Text := do
  match ← settings? ["path".toList] node with
  | [path] => required text? path
  | _ => none

def readSource? (node : Node) : Option SourceConfig := do
  match ← settings? ["root".toList, "include_globs".toList, "exclude_globs".toList] node with
  | [root, includes, excludes] =>
    some ⟨← required text? root, ← optional texts? SourceConfig.defaultIncludes includes,
      ← optional texts? [] excludes⟩
  | _ => none

def readIndex? (node : Node) : Option IndexConfig := do
  match ← settings? ["commit_interval".toList, "snippet_chars".toList] node with
  | [interval, snippet] =>
    some ⟨← optional count? IndexConfig.standard.commitInterval interval,
      ← optional count? IndexConfig.standard.snippetChars snippet⟩
  | _ => none

def readSearch? (node : Node) : Option SearchConfig := do
  let names := ["default_limit".toList, "max_limit".toList, "default_sort".toList,
    "include_undated".toList]
  let standard := SearchConfig.standard
  match ← settings? names node with
  | [defaultLimit, maxLimit, sort, undated] =>
    some ⟨← optional integer? standard.defaultLimit defaultLimit,
      ← optional integer? standard.maxLimit maxLimit,
      ← optional sort? standard.defaultSort sort,
      ← optional flag? standard.includeUndated undated⟩
  | _ => none

def ofTable? (root : Toml.Table) : Option Config := do
  some ⟨← required readDbPath? (root.lookup "db".toList),
    ← optional (fun node => (readSource? node).map some) none (root.lookup "source".toList),
    ← optional readIndex? .standard (root.lookup "index".toList),
    ← optional readSearch? .standard (root.lookup "search".toList)⟩

def fault? (c : Config) : Option Error :=
  if c.index.commitInterval = 0 then some .noCommitInterval
  else if c.index.snippetChars = 0 then some .noSnippetChars
  else if c.search.defaultLimit < 1 then some .noDefaultLimit
  else if c.search.maxLimit < c.search.defaultLimit then
    some (.limitsCrossed c.search.maxLimit c.search.defaultLimit)
  else if c.source.any (·.includeGlobs.isEmpty) then some .noIncludes
  else none

def parse (document : Text) : Except Error Config :=
  match (Toml.parse? document).bind ofTable? with
  | none => .error .malformed
  | some c =>
    match c.fault? with
    | some e => .error e
    | none => .ok c

end MailIndex.Config
