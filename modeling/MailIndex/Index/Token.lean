import MailIndex.Index.Character
import MailIndex.Index.Stem
import MailIndex.Text.Utf8

/-!
# Tokens

The index sees a text as a sequence of tokens. A token is made from a run of word characters: each
is brought to its kept form, combining diacritics are passed over, and the word is stemmed.
-/

namespace MailIndex.Index

open Text

abbrev Token := List UInt8

def withWord (current : Text) (further : List Text) : List Text :=
  if current.isEmpty then further else current.reverse :: further

/-- The words of a text in their kept form; `current` holds, in reverse, the word that is being
read. -/
def foldedWordsFrom (current : Text) : Text → List Text
  | [] => withWord current []
  | c :: rest =>
    if isWordChar c then foldedWordsFrom (fold c :: current) rest
    else if isMark c && !current.isEmpty then foldedWordsFrom current rest
    else withWord current (foldedWordsFrom [] rest)

def foldedWords (t : Text) : List Text := foldedWordsFrom [] t

def longestToken : Nat := 32768

def tokenOf (word : Text) : Token := (Stem.stem (toBytes word)).take longestToken

def tokens (t : Text) : List Token := (foldedWords t).map tokenOf

theorem tokens_nil : tokens [] = [] := rfl

/-- Whether a phrase stands at the front of a sequence of tokens. With an open end, its last token
need only begin the token there. -/
def startsWith (openEnd : Bool) : List Token → List Token → Bool
  | [], _ => true
  | _ :: _, [] => false
  | [p], t :: _ => if openEnd then p.isPrefixOf t else p == t
  | p :: phrase, t :: rest => p == t && startsWith openEnd phrase rest

def occurrences (openEnd : Bool) (phrase : List Token) : List Token → Nat
  | [] => 0
  | t :: rest =>
    (if startsWith openEnd phrase (t :: rest) then 1 else 0) + occurrences openEnd phrase rest

end MailIndex.Index
