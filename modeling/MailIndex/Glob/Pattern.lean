import MailIndex.Text.Utf8

/-!
# Glob patterns

Patterns over paths. A star matches any text, slashes included; two stars are special only as a
whole component, where they stand for any number of directories. Brackets choose among characters,
braces among alternatives, and a backslash takes the next character as it is. Paths are matched as
bytes, so a character beyond ASCII counts as several.
-/

namespace MailIndex.Glob

open Text

inductive Piece where
  | literal (c : Char)
  /-- Any one byte. -/
  | any
  /-- Any bytes. -/
  | many
  /-- Two stars at the start: nothing, a slash, or anything up to a slash. -/
  | leading
  /-- A slash and whatever follows, even nothing. -/
  | trailing
  /-- A slash, or directories between two slashes. -/
  | between
  /-- One byte that lies, or does not lie, in one of the ranges. -/
  | oneOf (negated : Bool) (ranges : List (Char × Char))
  /-- One of the branches; an empty branch is left out of account. -/
  | branches (alternatives : List (List Piece))

inductive Error where
  | unclosedClass
  | invalidRange (first last : Char)
  | unopenedBranches
  | unclosedBranches
  | danglingEscape
  deriving DecidableEq, Repr

def Error.message : Error → Text
  | .unclosedClass => "unclosed character class; missing ']'".toList
  | .invalidRange first last => "invalid range; '".toList ++ first :: "' > '".toList ++ [last, '\'']
  | .unopenedBranches =>
    "unopened alternate group; missing '\x7b' (maybe escape '\x7d' with '[\x7d]'?)".toList
  | .unclosedBranches =>
    "unclosed alternate group; missing '\x7d' (maybe escape '\x7b' with '[\x7b]'?)".toList
  | .danglingEscape => "dangling '\\'".toList

/-- The ranges of a bracket while it is read, the last one first. -/
structure ClassReading where
  ranges : List (Char × Char)
  /-- Whether a hyphen waits for the end of the last range. -/
  pending : Bool

def ClassReading.take (r : ClassReading) (c : Char) : Except Error ClassReading :=
  match r.pending, r.ranges with
  | true, (first, _) :: ranges =>
    if c < first then .error (.invalidRange first c) else .ok ⟨(first, c) :: ranges, false⟩
  | _, ranges => .ok ⟨(c, c) :: ranges, false⟩

/-- The ranges of a bracket up to its closing one, and the text after it. A closing bracket or a
hyphen that comes first stands for itself, and so does a hyphen that comes last. -/
def readClass (isFirst : Bool) (r : ClassReading) :
    Text → Except Error (List (Char × Char) × Text)
  | [] => .error .unclosedClass
  | c :: rest =>
    if c = ']' ∧ !isFirst then
      .ok ((if r.pending then ('-', '-') :: r.ranges else r.ranges).reverse, rest)
    else if c = '-' ∧ !isFirst ∧ !r.pending then readClass false { r with pending := true } rest
    else
      match r.take c with
      | .error e => .error e
      | .ok r => readClass false r rest

theorem readClass_length {isFirst : Bool} {r : ClassReading} {t : Text}
    {result : List (Char × Char) × Text} (h : readClass isFirst r t = .ok result) :
    result.2.length < t.length := by
  induction t generalizing isFirst r with
  | nil => cases h
  | cons c rest ih =>
    unfold readClass at h
    split at h
    · cases h; exact Nat.lt_succ_self _
    split at h
    · exact Nat.lt_succ_of_lt (ih h)
    split at h
    · cases h
    · exact Nat.lt_succ_of_lt (ih h)

def readBracket (t : Text) : Except Error (Piece × Text) :=
  match t with
  | '!' :: rest | '^' :: rest => (readClass true ⟨[], false⟩ rest).map fun r => (.oneOf true r.1, r.2)
  | _ => (readClass true ⟨[], false⟩ t).map fun r => (.oneOf false r.1, r.2)

theorem readBracket_length {t : Text} {result : Piece × Text}
    (h : readBracket t = .ok result) : result.2.length < t.length := by
  have mapped {negated : Bool} {s : Text}
      (h : (readClass true ⟨[], false⟩ s).map (fun r => (Piece.oneOf negated r.1, r.2))
        = .ok result) : result.2.length < s.length := by
    cases e : readClass true ⟨[], false⟩ s with
    | error => simp [e, Except.map] at h
    | ok pair =>
      simp only [e, Except.map, Except.ok.injEq] at h
      exact h ▸ readClass_length e
  unfold readBracket at h
  split at h
  · exact Nat.lt_succ_of_lt (mapped h)
  · exact Nat.lt_succ_of_lt (mapped h)
  · exact mapped h

/-- A pattern while it is read. Pieces and branches are kept with the last one first. -/
structure Reading where
  pieces : List Piece
  /-- The open braces, the innermost first: the branches before the current one, and the pieces
  before the brace. -/
  braces : List (List (List Piece) × List Piece)

def Reading.push (r : Reading) (p : Piece) : Reading := { r with pieces := p :: r.pieces }

/-- Two stars that are no whole component. -/
def Reading.pushStars (r : Reading) : Reading := { r with pieces := .many :: .many :: r.pieces }

/-- Two stars that end a component take the place of the slash before them. -/
def Reading.replaceLast (r : Reading) (p : Piece) : Reading :=
  match r.pieces with
  | .leading :: _ | .trailing :: _ => r
  | _ :: pieces => { r with pieces := p :: pieces }
  | [] => { r with pieces := [p] }

/-- Two stars, `previous` standing before them; gives the text after them and after a slash that
belongs to them. -/
def Reading.twoStars (r : Reading) (previous : Option Char) (rest : Text) : Reading × Text :=
  if r.pieces.isEmpty then
    match rest with
    | [] => (r.push .leading, [])
    | '/' :: after => (r.push .leading, after)
    | _ => (r.pushStars, rest)
  else if previous ≠ some '/'
      ∧ (r.braces.isEmpty ∨ (previous ≠ some ',' ∧ previous ≠ some '{')) then
    (r.pushStars, rest)
  else
    match rest with
    | [] => (r.replaceLast .trailing, [])
    | '/' :: after => (r.replaceLast .between, after)
    | c :: _ =>
      if !r.braces.isEmpty ∧ (c = ',' ∨ c = '}') then (r.replaceLast .trailing, rest)
      else (r.pushStars, rest)

theorem Reading.twoStars_length (r : Reading) (previous : Option Char) (rest : Text) :
    (r.twoStars previous rest).2.length ≤ rest.length := by
  unfold twoStars
  split
  · split <;> simp
  · split
    · simp
    · split
      · simp
      · simp
      · split <;> simp

/-- What was read last once two stars have been read: a slash if they took one. -/
def lastRead (before after : Text) : Option Char :=
  if after.length < before.length then some '/' else some '*'

/-- Reads a pattern from left to right, `previous` being the character before. -/
def read (r : Reading) (previous : Option Char) (t : Text) : Except Error Reading :=
  match t with
  | [] => .ok r
  | '?' :: rest => read (r.push .any) (some '?') rest
  | '*' :: '*' :: rest =>
    have : (r.twoStars previous rest).2.length ≤ rest.length := r.twoStars_length previous rest
    read (r.twoStars previous rest).1 (lastRead rest (r.twoStars previous rest).2)
      (r.twoStars previous rest).2
  | '*' :: rest => read (r.push .many) (some '*') rest
  | '[' :: rest =>
    match h : readBracket rest with
    | .error e => .error e
    | .ok result =>
      have : result.2.length < rest.length := readBracket_length h
      read (r.push result.1) (some ']') result.2
  | '{' :: rest => read ⟨[], ([], r.pieces) :: r.braces⟩ (some '{') rest
  | '}' :: rest =>
    match r.braces with
    | [] => .error .unopenedBranches
    | (branches, pieces) :: braces =>
      let alternatives := (r.pieces.reverse :: branches).reverse
      read ⟨.branches alternatives :: pieces, braces⟩ (some '}') rest
  | ',' :: rest =>
    match r.braces with
    | [] => read (r.push (.literal ',')) (some ',') rest
    | (branches, pieces) :: braces =>
      read ⟨[], (r.pieces.reverse :: branches, pieces) :: braces⟩ (some ',') rest
  | ['\\'] => .error .danglingEscape
  | '\\' :: c :: rest => read (r.push (.literal c)) (some c) rest
  | c :: rest => read (r.push (.literal c)) (some c) rest
termination_by t.length
decreasing_by all_goals simp_wf; try omega

end MailIndex.Glob

namespace MailIndex

structure Glob where
  pieces : List Glob.Piece

def Glob.parse (t : Text) : Except Glob.Error Glob :=
  match Glob.read ⟨[], []⟩ none t with
  | .error e => .error e
  | .ok r => if r.braces.isEmpty then .ok ⟨r.pieces.reverse⟩ else .error .unclosedBranches

end MailIndex
