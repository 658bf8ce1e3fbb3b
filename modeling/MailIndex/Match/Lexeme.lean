import MailIndex.Match.Term

/-!
# Lexemes of match expressions

The written form of a match expression falls into words, texts in quotes, parentheses, colons and
stars. Four words in capitals are reserved; in quotes they are ordinary texts. The scanner is an
automaton that takes one character at a time.
-/

namespace MailIndex.Match

inductive Operator where
  | or
  | and
  | not
  deriving DecidableEq, Repr

inductive Lexeme where
  | text (t : Text)
  /-- The word NEAR, which may begin a list of phrases. -/
  | near
  | operator (op : Operator)
  | opening
  | closing
  | colon
  | star
  deriving DecidableEq, Repr

namespace Lexeme

def ofWord (word : Text) : Lexeme :=
  if word = "OR".toList then .operator .or
  else if word = "AND".toList then .operator .and
  else if word = "NOT".toList then .operator .not
  else if word = "NEAR".toList then .near
  else .text word

/-- What the scanner is in the middle of; the characters read are kept in reverse. -/
inductive Mode where
  | between
  | word (read : Text)
  | quoted (read : Text)
  /-- After a quote inside a quoted text, which ends it unless another quote follows. -/
  | quoteSeen (read : Text)

def isSpace (c : Char) : Bool := c = ' ' || c = '\t' || c = '\n' || c = '\r'

def start (c : Char) : Option (List Lexeme × Mode) :=
  if isSpace c then some ([], .between)
  else if c = '(' then some ([.opening], .between)
  else if c = ')' then some ([.closing], .between)
  else if c = ':' then some ([.colon], .between)
  else if c = '*' then some ([.star], .between)
  else if c = '"' then some ([], .quoted [])
  else if isBareword c then some ([], .word [c])
  else none

/-- What is complete when the text ends, or something new begins, in a given mode. -/
def Mode.finish : Mode → Option (List Lexeme)
  | .between => some []
  | .word read => some [ofWord read.reverse]
  | .quoted _ => none
  | .quoteSeen read => some [.text read.reverse]

def step (mode : Mode) (c : Char) : Option (List Lexeme × Mode) :=
  match mode with
  | .quoted read => some ([], if c = '"' then .quoteSeen read else .quoted (c :: read))
  | .word read => if isBareword c then some ([], .word (c :: read)) else finishThen c
  | .quoteSeen read => if c = '"' then some ([], .quoted (c :: read)) else finishThen c
  | .between => start c
where
  /-- Ends what is being read and begins something new. -/
  finishThen (c : Char) : Option (List Lexeme × Mode) := do
    let done ← mode.finish
    let (more, next) ← start c
    some (done ++ more, next)

def scan (mode : Mode) : Text → Option (List Lexeme)
  | [] => mode.finish
  | c :: rest => do
    let (done, next) ← step mode c
    let more ← scan next rest
    some (done ++ more)

def ofWritten? (t : Text) : Option (List Lexeme) := scan .between t

/-- The lexeme where lists of phrases are not looked for: the word NEAR is an ordinary text. -/
def plain : Lexeme → Lexeme
  | .near => .text "NEAR".toList
  | l => l

end Lexeme

inductive Symbol where
  | term (t : Term)
  | operator (op : Operator)
  | opening
  | closing
  deriving DecidableEq, Repr

/-- Joins lexemes to terms: a column with its colon before a text, and a star after it. -/
def Symbol.ofLexemes? : List Lexeme → Option (List Symbol)
  | [] => some []
  | .text name :: .colon :: .text t :: .star :: rest => do
    some (.term ⟨some (← Column.ofName? name), t, true⟩ :: (← ofLexemes? rest))
  | .text name :: .colon :: .text t :: rest => do
    some (.term ⟨some (← Column.ofName? name), t, false⟩ :: (← ofLexemes? rest))
  | .text t :: .star :: rest => do some (.term ⟨none, t, true⟩ :: (← ofLexemes? rest))
  | .text t :: rest => do some (.term ⟨none, t, false⟩ :: (← ofLexemes? rest))
  | .operator op :: rest => do some (.operator op :: (← ofLexemes? rest))
  | .opening :: rest => do some (.opening :: (← ofLexemes? rest))
  | .closing :: rest => do some (.closing :: (← ofLexemes? rest))
  | .near :: _ => none
  | .colon :: _ => none
  | .star :: _ => none

def Symbol.ofWritten? (t : Text) : Option (List Symbol) := do
  ofLexemes? ((← Lexeme.ofWritten? t).map Lexeme.plain)

/-- What the index sees of a text: a null character ends it. -/
def upToNull (t : Text) : Text := t.takeWhile (· ≠ '\x00')

end MailIndex.Match
