import MailIndex.Index.Entry

/-!
# Match expressions

An expression combines terms. Its leaves are runs of juxtaposed terms, all of which have to occur;
a term without tokens is left out of its run, and a run of such terms alone matches nothing.
-/

namespace MailIndex.Match

inductive Expression where
  /-- Juxtaposed terms. -/
  | run (terms : List Term)
  | without (left right : Expression)
  | both (left right : Expression)
  | either (left right : Expression)
  deriving DecidableEq, Repr

namespace Expression

/-- The value of an expression under an assignment to the terms; those that are not `present` are
left out of their runs. -/
def eval (present truth : Term → Bool) : Expression → Bool
  | .run terms => terms.any present && terms.all fun t => !present t || truth t
  | .without left right => left.eval present truth && !right.eval present truth
  | .both left right => left.eval present truth && right.eval present truth
  | .either left right => left.eval present truth || right.eval present truth

def holds (truth : Term → Bool) (e : Expression) : Bool := e.eval (fun _ => true) truth

def selects (e : Expression) (entry : EntryText) : Bool :=
  e.eval Term.isPresent fun t => t.occursIn entry

def terms : Expression → List Term
  | .run terms => terms
  | .without left right => left.terms ++ right.terms
  | .both left right => left.terms ++ right.terms
  | .either left right => left.terms ++ right.terms

end Expression

end MailIndex.Match
