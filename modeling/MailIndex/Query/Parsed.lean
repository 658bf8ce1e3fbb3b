import MailIndex.Query.Balance
import MailIndex.Query.Day
import MailIndex.Query.Grouping
import MailIndex.Query.Predicate
import MailIndex.Query.Token.Lexer

/-!
# Parsed searches

A search has two parts. Words, phrases and column filters become one match expression for the
full-text index; the structured filters become predicates on columns and apply to every result.
-/

namespace MailIndex

open Text

structure Query where
  /-- The match expression; empty if the search has no terms. -/
  expression : Text
  predicates : List Query.Predicate
  deriving DecidableEq, Repr

namespace Query

def everything : Query := ⟨[], []⟩

def hasTerms (q : Query) : Bool := !q.expression.isEmpty

def isEmpty (q : Query) : Bool := q.expression.isEmpty && q.predicates.isEmpty

inductive Contribution where
  | required (t : SearchTerm)
  | excluded (t : SearchTerm)
  | predicate (p : Predicate)
  | nothing

/-- A filter answered by the full-text index: its value is a word in one column. -/
def inColumn (column : Match.Column) (value : Text) (negated : Bool) : Contribution :=
  match SearchTerm.ofWord? (some column) value with
  | some t => if negated then .excluded t else .required t
  | none => .nothing

def onDate (field : Field) (op : DateOp) (value : Text) (negated : Bool) :
    Except Error Contribution :=
  match normalizeDay? value with
  | some date => .ok (.predicate (.dated (if negated then op.flipped else op) date))
  | none => .error (.invalidDate field value)

/-- What a filter contributes. Names of people go to the full-text index, addresses to the columns
of addresses. -/
def contribution (field : Field) (value : Text) (negated : Bool) : Except Error Contribution :=
  match field with
  | .sender =>
    if '@' ∈ value then .ok (.predicate (.senderIs (lower value) negated))
    else .ok (inColumn .sender value negated)
  | .recipient =>
    if '@' ∈ value then .ok (.predicate (.recipientIs (lower value) negated))
    else .ok (inColumn .recipients value negated)
  | .subject => .ok (inColumn .subject value negated)
  | .attachment => .ok (inColumn .attachments value negated)
  | .label => .ok (.predicate (.labelled value negated))
  | .before => onDate field .before value negated
  | .after => onDate field .onOrAfter value negated
  | .has =>
    if asciiLower value = "attachment".toList ∨ asciiLower value = "attachments".toList then
      .ok (.predicate (.hasAttachments !negated))
    else .error (.unsupportedHas value)

structure Reading where
  /-- The innermost open group. -/
  inner : Group
  /-- The groups around it, the nearest first. -/
  outer : List Group
  predicates : List Predicate
  /-- Whether the last token gave a predicate. -/
  afterPredicate : Bool

def Reading.initial : Reading := ⟨Group.empty, [], [], false⟩

def Reading.update (r : Reading) (change : Group → Group) : Reading :=
  { r with inner := change r.inner, afterPredicate := false }

/-- Ends the innermost group. A group without terms leaves nothing behind. -/
def Reading.closeGroup (r : Reading) : Except Error Reading :=
  match r.outer with
  | [] => .error .unmatchedClosing
  | parent :: outer =>
    match r.inner.close with
    | .error e => .error e
    | .ok none => .ok { r with inner := parent, outer, afterPredicate := false }
    | .ok (some expression) =>
      .ok { r with
        inner := parent.require (parenthesized expression), outer, afterPredicate := false }

/-- Takes up one contribution of a filter. A predicate must not stand right of an OR. -/
def Reading.contribute (r : Reading) : Contribution → Except Error Reading
  | .required t => .ok (r.update (·.require t.render))
  | .excluded t => .ok (r.update (·.exclude t.render))
  | .nothing => .ok { r with afterPredicate := false }
  | .predicate p =>
    if r.inner.awaiting then .error .orWithFilter
    else .ok { r with predicates := r.predicates ++ [p], afterPredicate := true }

def Reading.step (r : Reading) : Token → Except Error Reading
  | .opening =>
    .ok { r with inner := Group.empty, outer := r.inner :: r.outer, afterPredicate := false }
  | .closing => r.closeGroup
  | .word value =>
    .ok (r.update fun g => ((SearchTerm.ofWord? none value).map (g.require ·.render)).getD g)
  | .phrase value =>
    .ok (r.update fun g => ((SearchTerm.ofPhrase? value).map (g.require ·.render)).getD g)
  | .exclusion value =>
    .ok (r.update fun g => ((SearchTerm.ofWord? none value).map (g.exclude ·.render)).getD g)
  | .or =>
    if r.afterPredicate then .error .orWithFilter
    else r.inner.openAlternative.map fun inner => { r with inner, afterPredicate := false }
  | .filter field value negated => contribution field value negated >>= r.contribute

def Reading.finish (r : Reading) : Except Error Query :=
  if r.outer.isEmpty then r.inner.close.map fun expression => ⟨expression.getD [], r.predicates⟩
  else .error .unclosedGroup

def ofTokens? (tokens : List Token) : Except Error Query :=
  tokens.foldlM Reading.step Reading.initial >>= Reading.finish

def parse (text : Text) : Except Error Query :=
  if (trim text).isEmpty then .ok everything
  else do
    let tokens ← tokenize text
    checkShape tokens
    ofTokens? tokens

theorem parse_nil : parse [] = .ok everything := rfl

end Query

end MailIndex
