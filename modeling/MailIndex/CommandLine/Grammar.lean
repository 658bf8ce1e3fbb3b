import MailIndex.CommandLine.Usage

/-!
# Reading arguments

A grammar says which options a command takes, and whether it takes an argument without a name. The
arguments are read from left to right. The value of an option is looked at when the next option or
argument turns up, so an argument that nobody expects is complained about before a bad value in
front of it.
-/

namespace MailIndex.CommandLine

inductive ValueFault where
  /-- There is nothing where a value has to be. -/
  | absent
  | bad (reason : Text)
  deriving DecidableEq, Repr

inductive Effect (σ : Type) where
  | flag (f : σ → σ)
  | value (read : Text → Except ValueFault (σ → σ))
  /-- The option ends the reading. -/
  | stop (e : Early)

/-- An option, named without its two hyphens. -/
structure Switch (σ : Type) where
  name : Text
  effect : Effect σ

def Switch.shown {σ : Type} (a : Switch σ) : Text :=
  let written := '-' :: '-' :: a.name
  match a.effect with
  | .value _ =>
    let holder := a.name.map fun c => if c = '-' then '_' else c.toUpper
    written ++ " <".toList ++ holder ++ ['>']
  | _ => written

structure Grammar (σ : Type) where
  switches : List (Switch σ)
  /-- What single letters do after one hyphen. -/
  letters : List (Char × Early)
  /-- What the argument without a name does, if there is one. It may start with a hyphen, and it
  has to be there. -/
  positional : Option (Text → σ → σ)
  /-- The words at which the reading ends. -/
  commands : List Text
  /-- Options that exclude each other. -/
  conflicts : List (Text × Text)

structure Reading (σ : Type) where
  made : σ
  /-- The names of the options that have taken effect, in order. -/
  given : List Text
  /-- An option with a value that has not been looked at, or is still to come. -/
  pending : Option (Switch σ × Option Text)
  /-- Whether the argument without a name is there. -/
  filled : Bool
  /-- Whether two hyphens by themselves have ended the options. -/
  optionsOver : Bool

inductive Form where
  /-- Two hyphens. -/
  | separator
  | long (name : Text) (value : Option Text)
  /-- One hyphen and at least one letter. -/
  | short (first : Char) (more : Text)
  | plain
  deriving DecidableEq, Repr

def Form.of : Text → Form
  | ['-', '-'] => .separator
  | '-' :: '-' :: rest =>
    match rest.span (· ≠ '=') with
    | (name, _ :: value) => .long name (some value)
    | (name, []) => .long name none
  | '-' :: c :: more => .short c more
  | _ => .plain

namespace Reading

variable {σ : Type}

def start (empty : σ) : Reading σ := ⟨empty, [], none, false, false⟩

def refuse {α : Type} (e : UsageError) : Except Early α := .error (.refused e)

def awaiting (r : Reading σ) : Bool :=
  match r.pending with
  | some (_, none) => true
  | _ => false

def isOpen (g : Grammar σ) (r : Reading σ) : Bool := g.positional.isSome && !r.filled

def put (r : Reading σ) (a : Switch σ) (f : σ → σ) : Except Early (Reading σ) :=
  .ok { r with made := f r.made, given := r.given ++ [a.name] }

def take (r : Reading σ) (a : Switch σ) (v : Text) : Except Early (Reading σ) :=
  match a.effect with
  | .stop e => .error e
  | .flag _ => refuse (.unexpectedValue a.shown v)
  | .value read =>
    if r.given.contains a.name then refuse (.repeated a.shown)
    else
      match read v with
      | .ok f => r.put a f
      | .error .absent => refuse (.missingValue a.shown)
      | .error (.bad reason) => refuse (.invalidValue a.shown v reason)

def settle (r : Reading σ) : Except Early (Reading σ) :=
  match r.pending with
  | none => .ok r
  | some (a, none) => refuse (.missingValue a.shown)
  | some (a, some v) => { r with pending := none }.take a v

/-- Goes on with an option that has no value attached to it. -/
def name (r : Reading σ) (a : Switch σ) : Except Early (Reading σ) := do
  let r ← r.settle
  match a.effect with
  | .stop e => .error e
  | .value _ => return { r with pending := some (a, none) }
  | .flag f => if r.given.contains a.name then refuse (.repeated a.shown) else r.put a f

/-- Goes on with an option that has a value attached to it. -/
def attach (r : Reading σ) (a : Switch σ) (v : Text) : Except Early (Reading σ) :=
  match a.effect with
  | .value _ => do
    let r ← r.settle
    r.take a v
  | _ => refuse (.unexpectedValue a.shown v)

/-- Goes on with an argument that belongs to no option. -/
def place (g : Grammar σ) (r : Reading σ) (arg : Text) : Except Early (Reading σ) :=
  match g.positional with
  | some f =>
    if r.filled then refuse (.unexpected arg)
    else do
      let r ← r.settle
      return { r with made := f arg r.made, filled := true }
  | none =>
    if g.commands.isEmpty ∨ (r.optionsOver ∧ g.commands.contains arg) then
      refuse (.unexpected arg)
    else refuse (.unknownCommand arg)

/-- Goes on with an argument that is no option: a value, if one is awaited. -/
def fill (g : Grammar σ) (r : Reading σ) (arg : Text) : Except Early (Reading σ) :=
  match r.pending with
  | some (a, none) => .ok { r with pending := some (a, some arg) }
  | _ => r.place g arg

/-- Goes on with an argument of any form. As long as the argument without a name may come, unknown
options pass for it, or for the value that is awaited. -/
def next (g : Grammar σ) (r : Reading σ) (arg : Text) : Except Early (Reading σ) :=
  if r.optionsOver then r.place g arg
  else
    match Form.of arg with
    | .separator => .ok { r with optionsOver := true }
    | .plain => r.fill g arg
    | .long name value =>
      match g.switches.find? (·.name = name), value with
      | some a, none => r.name a
      | some a, some v => r.attach a v
      | none, _ => if r.isOpen g then r.fill g arg else refuse (.unexpected ('-' :: '-' :: name))
    | .short first more =>
      let known (c : Char) : Bool := (g.letters.lookup c).isSome
      if r.isOpen g ∧ !(first :: more).all known then r.fill g arg
      else
        match g.letters.lookup first with
        | some e => do
          let _ ← r.settle
          .error e
        | none => refuse (.unexpected ['-', first])

/-- Reads arguments up to the first word that names a command. Gives that word and the arguments
after it, if there is one. -/
def read (g : Grammar σ) (r : Reading σ) :
    List Text → Except Early (Reading σ × Option (Text × List Text))
  | [] => .ok (r, none)
  | arg :: rest =>
    if !r.optionsOver && !r.awaiting && g.commands.contains arg then .ok (r, some (arg, rest))
    else
      match r.next g arg with
      | .ok r => read g r rest
      | .error e => .error e

/-- The first option given that another one excludes, with that other one. -/
def conflict? (g : Grammar σ) (r : Reading σ) : Option (Text × Text) :=
  r.given.findSome? fun one =>
    (g.conflicts.findSome? fun (a, b) =>
      if one = a ∧ r.given.contains b then some b
      else if one = b ∧ r.given.contains a then some a
      else none).map (one, ·)

def shownName (g : Grammar σ) (name : Text) : Text :=
  ((g.switches.find? (·.name = name)).map (·.shown)).getD name

def finish (g : Grammar σ) (r : Reading σ) : Except Early σ := do
  let r ← r.settle
  match r.conflict? g with
  | some (one, other) => refuse (.conflict (shownName g one) (shownName g other))
  | none => if r.isOpen g then refuse .missingArguments else return r.made

end Reading

end MailIndex.CommandLine
