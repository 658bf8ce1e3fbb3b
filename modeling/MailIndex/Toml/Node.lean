import MailIndex.Text.Range

/-!
# The tree of a TOML document

A document is a table of nodes. A table remembers how it came about, because that decides who may
still add to it: a header may open a table once, dotted keys may only extend tables that dotted
keys have made, and an inline table is closed.
-/

namespace MailIndex.Toml

inductive Origin where
  /-- Passed through by the path of a header, but not opened yet. -/
  | passed
  /-- Opened by a header of its own. -/
  | header
  /-- Made by a dotted key. -/
  | dotted
  /-- Written in braces. -/
  | inline
  deriving DecidableEq, Repr

inductive Node where
  | text (t : Text)
  | integer (n : Int)
  | boolean (b : Bool)
  /-- A number with a fraction or an exponent, whose value is not needed. -/
  | real
  /-- A date, a time or both. -/
  | moment
  | list (elements : List Node)
  | table (origin : Origin) (members : List (Text × Node))
  /-- The tables that headers in double brackets have opened, the last one first. -/
  | tables (elements : List (List (Text × Node)))

abbrev Table := List (Text × Node)

/-- Puts a node in the place of the one with the same key, or at the end. -/
def Table.put (key : Text) (node : Node) : Table → Table
  | [] => [(key, node)]
  | (k, old) :: rest => if k = key then (key, node) :: rest else (k, old) :: put key node rest

/-- Whether a path may lead through a table: that of a dotted key, or that of a header. -/
def Origin.allows (byDottedKey : Bool) : Origin → Bool
  | .passed => true
  | .dotted => true
  | .header => !byDottedKey
  | .inline => false

/-- Changes the table at the end of a path. Missing tables are made on the way; where a path meets
tables opened by double brackets it goes on in the last of them. -/
def Table.change (byDottedKey : Bool) (f : Origin → Table → Option Table) :
    List Text → Origin → Table → Option Table
  | [], origin, t => f origin t
  | key :: path, _, t =>
    match t.lookup key with
    | none => do
      let origin := if byDottedKey then .dotted else .passed
      let inner ← change byDottedKey f path origin []
      some (t.put key (.table origin inner))
    | some (.table origin inner) =>
      if origin.allows byDottedKey then do
        let inner ← change byDottedKey f path origin inner
        some (t.put key (.table origin inner))
      else none
    | some (.tables (last :: before)) => do
      let last ← change byDottedKey f path .header last
      some (t.put key (.tables (last :: before)))
    | some _ => none

/-- Adds a key with its value. A dotted key must end in a table made by dotted keys. -/
def Table.define (path : List Text) (node : Node) (t : Table) : Option Table :=
  match path.getLast? with
  | none => none
  | some key =>
    let dotted := 1 < path.length
    t.change true (fun origin inner =>
      if (dotted && origin != .dotted) || (inner.lookup key).isSome then none
      else some (inner.put key node)) path.dropLast .header

def Table.openHeader (path : List Text) (t : Table) : Option Table :=
  match path.getLast? with
  | none => none
  | some key =>
    t.change false (fun _ inner =>
      match inner.lookup key with
      | none => some (inner.put key (.table .header []))
      | some (.table .passed members) => some (inner.put key (.table .header members))
      | some _ => none) path.dropLast .header

def Table.openElement (path : List Text) (t : Table) : Option Table :=
  match path.getLast? with
  | none => none
  | some key =>
    t.change false (fun _ inner =>
      match inner.lookup key with
      | none => some (inner.put key (.tables [[]]))
      | some (.tables elements) => some (inner.put key (.tables ([] :: elements)))
      | some _ => none) path.dropLast .header

def Table.defineUnder (header path : List Text) (node : Node) (t : Table) : Option Table :=
  t.change false (fun _ inner => inner.define path node) header .header

end MailIndex.Toml
