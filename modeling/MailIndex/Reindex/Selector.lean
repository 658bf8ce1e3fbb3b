import MailIndex.Glob.Matching
import MailIndex.Store.Statement

/-!
# Selectors

Which documents a reindex considers: all of them, those whose path matches a pattern, or one. A
selector is resolved once, to a scope of sequence numbers.
-/

namespace MailIndex.Reindex

inductive Selector where
  | all
  /-- A pattern over paths, and over identifiers where there is no path. -/
  | pattern (p : Text)
  | single (id : Text)
  deriving DecidableEq, Repr

/-- A selector resolved against the store. -/
inductive Scope where
  | all
  | members (seqs : List Nat)
  deriving DecidableEq, Repr

def Scope.contains : Scope → Nat → Bool
  | .all, _ => true
  | .members seqs, seq => seqs.contains seq

inductive Error where
  | unknownDocument (id : Text)
  | invalidPattern (p : Text) (e : Glob.Error)
  | storage (f : Failure)
  deriving DecidableEq, Repr

def Error.message : Error → Text
  | .unknownDocument id => "No document with id '".toList ++ id ++ "'".toList
  | .invalidPattern p e =>
    "Invalid pattern '".toList ++ p ++ "': error parsing glob '".toList ++ p ++ "': ".toList
      ++ e.message
  | .storage f => f.message

def Selector.scope (s : Store) : Selector → Except Error Scope
  | .all => .ok .all
  | .single id =>
    match s.needing [.documents] (s.find? id) with
    | .error f => .error (.storage f)
    | .ok (some d) => .ok (.members [d.seq])
    | .ok none => .error (.unknownDocument id)
  | .pattern p =>
    match Glob.parse p with
    | .error e => .error (.invalidPattern p e)
    | .ok glob =>
      match s.needing [.documents] (s.documents.filter fun d => glob.matches d.target) with
      | .error f => .error (.storage f)
      | .ok documents => .ok (.members (documents.map (·.seq)))

/-- The documents that a run has to index: those in scope that are stale. -/
def candidates (s : Store) (selector : Selector) (scope : Scope) : List Document :=
  s.documents.filter fun d =>
    d.isStale && scope.contains d.seq &&
      match selector with
      | .single id => d.id = id
      | _ => true

end MailIndex.Reindex
