import MailIndex.Match.Expression
import MailIndex.Match.Lexeme

/-!
# Reading match expressions

Juxtaposition binds tightest, then NOT, AND and OR, each grouping to the left; parentheses group.
The reader takes one symbol at a time. What waits for a right side is kept on a stack, and an
operator first closes everything on it that binds at least as tightly.
-/

namespace MailIndex.Match

def Operator.strength : Operator → Nat
  | .or => 1
  | .and => 2
  | .not => 3

def Operator.combine : Operator → Expression → Expression → Expression
  | .or => .either
  | .and => .both
  | .not => .without

inductive Frame where
  | opening
  | operator (left : Expression) (op : Operator)

inductive Operand where
  | missing
  /-- Juxtaposed terms, to which another may be added. -/
  | run (terms : List Term)
  | grouped (e : Expression)

def Operand.expression? : Operand → Option Expression
  | .missing => none
  | .run terms => some (.run terms)
  | .grouped e => some e

/-- An expression while it is read; the innermost frame comes first. -/
structure Reading where
  frames : List Frame
  operand : Operand

namespace Reading

def start : Reading := ⟨[], .missing⟩

/-- Gives the operators on the stack that bind at least as tightly as `least` their right side. -/
def close (least : Nat) (e : Expression) : List Frame → Expression × List Frame
  | .operator left op :: frames =>
    if least ≤ op.strength then close least (op.combine left e) frames
    else (e, .operator left op :: frames)
  | frames => (e, frames)

/-- Takes one symbol; none if it cannot stand there. -/
def step (r : Reading) : Symbol → Option Reading
  | .term t =>
    match r.operand with
    | .missing => some { r with operand := .run [t] }
    | .run terms => some { r with operand := .run (terms ++ [t]) }
    | .grouped _ => none
  | .opening =>
    match r.operand with
    | .missing => some ⟨.opening :: r.frames, .missing⟩
    | _ => none
  | .operator op => do
    let e ← r.operand.expression?
    let (left, frames) := close op.strength e r.frames
    some ⟨.operator left op :: frames, .missing⟩
  | .closing => do
    let e ← r.operand.expression?
    match close 0 e r.frames with
    | (e, .opening :: frames) => some ⟨frames, .grouped e⟩
    | _ => none

def steps (r : Reading) : List Symbol → Option Reading
  | [] => some r
  | s :: rest => do (← r.step s).steps rest

theorem steps_append (r : Reading) (a b : List Symbol) :
    r.steps (a ++ b) = (r.steps a).bind (·.steps b) := by
  induction a generalizing r with
  | nil => rfl
  | cons s rest ih =>
    simp only [List.cons_append, steps]
    cases r.step s with
    | none => rfl
    | some r' => exact ih r'

/-- The expression that has been read, if nothing is missing. -/
def finish? (r : Reading) : Option Expression := do
  let e ← r.operand.expression?
  match close 0 e r.frames with
  | (e, []) => some e
  | _ => none

/-- How many grammar symbols are held at once when a symbol is taken. -/
def load (r : Reading) (s : Symbol) : Nat :=
  let waiting := total (r.frames.map fun
    | .opening => 1
    | .operator .. => 2)
  let before := match r.operand with
    | .missing => 0
    | _ => 1
  match s with
  | .term t => waiting + before + (if t.column.isSome then 4 else 2)
  | _ => waiting + before + 1

def peak (r : Reading) : List Symbol → Nat
  | [] => 0
  | s :: rest =>
    max (r.load s) (match r.step s with
      | some r => r.peak rest
      | none => 0)

end Reading

namespace Expression

def ofSymbols? (symbols : List Symbol) : Option Expression :=
  (Reading.start.steps symbols).bind Reading.finish?

def ofWritten? (t : Text) : Option Expression := Symbol.ofWritten? t >>= ofSymbols?

def ofText? (t : Text) : Option Expression := ofWritten? (upToNull t)

def isConjunction : Expression → Bool
  | .run terms => 1 < (terms.filter Term.isPresent).length
  | .both .. => true
  | _ => false

def isDisjunction : Expression → Bool
  | .either .. => true
  | _ => false

/-- The depth of an expression, a chain of one operator counting once. An exclusion is no chain. -/
def depth : Expression → Nat
  | .run terms => if 1 < (terms.filter Term.isPresent).length then 1 else 0
  | .without left right => max left.depth right.depth + 1
  | .both left right =>
    max (max 1 (left.depth + if left.isConjunction then 0 else 1))
      (right.depth + if right.isConjunction then 0 else 1)
  | .either left right =>
    max (max 1 (left.depth + if left.isDisjunction then 0 else 1))
      (right.depth + if right.isDisjunction then 0 else 1)

def symbolLimit : Nat := 99

def depthLimit : Nat := 256

/-- The expression that the index makes of a text: it has to be well formed and within the limits
of nesting. -/
def accepted? (t : Text) : Option Expression := do
  let symbols ← Symbol.ofWritten? (upToNull t)
  let e ← ofSymbols? symbols
  if Reading.start.peak symbols ≤ symbolLimit ∧ e.depth ≤ depthLimit then some e else none

end Expression

end MailIndex.Match
