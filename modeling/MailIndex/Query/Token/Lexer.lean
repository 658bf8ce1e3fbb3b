import MailIndex.Query.Error
import MailIndex.Query.Token
import MailIndex.Text.Blank
import MailIndex.Text.LowerCase

/-!
# Reading tokens

A search is read from left to right. White space separates, parentheses and quotes stand for
themselves, a minus sign before anything but white space excludes what follows it, and every other
run of characters is a word, a filter, or one of the operators OR and AND.
-/

namespace MailIndex.Query

open Text

def endsTerm (c : Char) : Bool := isBlank c || c == '(' || c == ')'

/-- A term that is not excluded also ends before a quote. -/
def endsSegment (c : Char) : Bool := endsTerm c || c == '"'

def readQuoted (rest : Text) : Except Error (Text × Text) :=
  match rest.dropWhile (· ≠ '"') with
  | [] => .error (.unclosedQuote rest)
  | _ :: after => .ok (rest.takeWhile (· ≠ '"'), after)

/-- A segment read as a filter: a known field name before the first colon, in any letter case. -/
def readFilter (segment : Text) (negated : Bool) : Except Error (Option Token) :=
  match segment.takeWhile (· ≠ ':'), segment.dropWhile (· ≠ ':') with
  | [], _ | _, [] => .ok none
  | name, _ :: value =>
    match Field.ofName? (lower name) with
    | none => .ok none
    | some field =>
      if value.isEmpty then .error (.emptyValue (lower name) negated)
      else .ok (some (.filter field value negated))

/-- A segment read as an operator, a filter or a word. AND says nothing that its neighbours do not
say already, so it gives no token. -/
def readSegment (segment : Text) : Except Error (Option Token) :=
  if asciiLower segment = "or".toList then .ok (some .or)
  else if asciiLower segment = "and".toList then .ok none
  else
    match readFilter segment false with
    | .error e => .error e
    | .ok (some token) => .ok (some token)
    | .ok none => .ok (some (.word segment))

/-- A quoted token: `make` says which kind, `rest` is the text after the opening quote. -/
def quotedToken (make : Text → Token) (rest : Text) : Except Error (Option Token × Text) :=
  (readQuoted rest).map fun pair => (some (make pair.1), pair.2)

/-- An excluded term. Nothing is excluded when a parenthesis follows at once. -/
def readTerm (term : Text) : Except Error (Option Token) :=
  if term.isEmpty then .ok none
  else
    match readFilter term true with
    | .error e => .error e
    | .ok (some token) => .ok (some token)
    | .ok none => .ok (some (.exclusion term))

/-- What a minus sign excludes: a quoted text, or the term up to white space or a parenthesis. -/
def readExclusion (rest : Text) : Except Error (Option Token × Text) :=
  match rest with
  | '(' :: _ => .error .excludedGroup
  | '"' :: quoted => quotedToken .exclusion quoted
  | _ =>
    (readTerm (rest.takeWhile (!endsTerm ·))).map fun token =>
      (token, rest.dropWhile (!endsTerm ·))

def goesOn : Text → Bool
  | [] => false
  | c :: _ => !isBlank c

/-- The token that starts with the character `c`, which is not white space, and the text after it. -/
def readToken (c : Char) (rest : Text) : Except Error (Option Token × Text) :=
  if c = '"' then quotedToken .phrase rest
  else if c = '(' then .ok (some .opening, rest)
  else if c = ')' then .ok (some .closing, rest)
  else if c = '-' ∧ goesOn rest then readExclusion rest
  else
    (readSegment (c :: rest.takeWhile (!endsSegment ·))).map fun token =>
      (token, rest.dropWhile (!endsSegment ·))

theorem readQuoted_length {rest : Text} {pair : Text × Text} (h : readQuoted rest = .ok pair) :
    pair.2.length ≤ rest.length := by
  unfold readQuoted at h
  split at h
  · cases h
  · rename_i tail eq
    have le : (rest.dropWhile (· ≠ '"')).length ≤ rest.length :=
      (List.dropWhile_suffix _).length_le
    cases h
    simp only [eq, List.length_cons] at le
    simp only
    omega

theorem quotedToken_length {make : Text → Token} {rest : Text} {result : Option Token × Text}
    (h : quotedToken make rest = .ok result) : result.2.length ≤ rest.length := by
  unfold quotedToken at h
  cases e : readQuoted rest with
  | error => simp [e, Except.map] at h
  | ok pair =>
    simp only [e, Except.map, Except.ok.injEq] at h
    exact h ▸ readQuoted_length e

theorem snd_of_map_pair {r : Except Error (Option Token)} {s : Text}
    {result : Option Token × Text} (h : r.map (fun token => (token, s)) = .ok result) :
    result.2 = s := by
  cases r with
  | error => simp [Except.map] at h
  | ok => simp only [Except.map, Except.ok.injEq] at h; simp [← h]

theorem readExclusion_length {rest : Text} {result : Option Token × Text}
    (h : readExclusion rest = .ok result) : result.2.length ≤ rest.length := by
  unfold readExclusion at h
  split at h
  · cases h
  · have := quotedToken_length h
    simp only [List.length_cons]
    omega
  · rw [snd_of_map_pair h]
    exact (List.dropWhile_suffix _).length_le

/-- A token takes at least its first character. -/
theorem readToken_length {c : Char} {rest : Text} {result : Option Token × Text}
    (h : readToken c rest = .ok result) : result.2.length ≤ rest.length := by
  unfold readToken at h
  split at h
  · exact quotedToken_length h
  split at h
  · cases h; exact Nat.le_refl _
  split at h
  · cases h; exact Nat.le_refl _
  split at h
  · exact readExclusion_length h
  · rw [snd_of_map_pair h]
    exact (List.dropWhile_suffix _).length_le

/-- The tokens of a text, from left to right; the first error ends the reading. -/
def scan : Text → Except Error (List Token)
  | [] => .ok []
  | c :: rest =>
    if isBlank c then scan rest
    else
      match h : readToken c rest with
      | .error e => .error e
      | .ok result =>
        have : result.2.length ≤ rest.length := readToken_length h
        (scan result.2).map (result.1.toList ++ ·)
termination_by text => text.length

def tokenize (text : Text) : Except Error (List Token) := scan (trim text)

end MailIndex.Query
