/-!
# Stems

Endings are taken off words in five steps, so that the forms of a word meet in one stem. A word is
a list of bytes; a byte beyond ASCII counts as a consonant. In each step the longest listed ending
that the word goes beyond decides, whether its condition is met or not.
-/

namespace MailIndex.Index.Stem

abbrev Bytes := List UInt8

def ascii (s : String) : Bytes := s.toList.map fun c => UInt8.ofNat c.toNat

def isPlainVowel (b : UInt8) : Bool := (ascii "aeiou").contains b

def letterY : UInt8 := 0x79

/-- For every byte whether it is a consonant. The letter y is one at the start and after a
vowel. -/
def consonants (before : Bool) : Bytes → List Bool
  | [] => []
  | b :: rest =>
    let consonant := !(isPlainVowel b || (before && b == letterY))
    consonant :: consonants consonant rest

def turns : List Bool → Nat
  | false :: true :: rest => turns (true :: rest) + 1
  | _ :: rest => turns rest
  | [] => 0

/-- The measure of a word: the number of its runs of vowels that consonants follow. -/
def measure (word : Bytes) : Nat := turns (consonants false word)

/-- Whether a word has a vowel; here y is one everywhere but at the start. -/
def hasVowel : Bytes → Bool
  | [] => false
  | b :: rest => isPlainVowel b || rest.any fun c => isPlainVowel c || c == letterY

/-- Whether a word ends in consonant, vowel, consonant, the last not being w, x or y. -/
def endsShort (word : Bytes) : Bool :=
  match (consonants false word).reverse with
  | true :: false :: true :: _ => !(word.getLast?.any (ascii "wxy").contains)
  | _ => false

/-- An ending, what takes its place, and the bytes one of which has to stand before it; any byte
may if there are none. -/
structure Rule where
  ending : Bytes
  replacement : Bytes
  after : Bytes

def rule (ending replacement : String) : Rule := ⟨ascii ending, ascii replacement, []⟩

def removal (ending : String) : Rule := rule ending ""

def before? (ending word : Bytes) : Option Bytes :=
  if ending.length < word.length && ending.isSuffixOf word then
    some (word.take (word.length - ending.length))
  else none

def firstFit (rules : List Rule) (word : Bytes) : Option (Bytes × Rule) :=
  rules.findSome? fun r => (before? r.ending word).map (·, r)

/-- One step: the rule that fits is applied if what stands before its ending is long enough. -/
def apply (rules : List Rule) (allowed : Bytes → Bool) (word : Bytes) : Bytes :=
  match firstFit rules word with
  | some (stem, r) =>
    if allowed stem && (r.after.isEmpty || stem.getLast?.any r.after.contains) then
      stem ++ r.replacement
    else word
  | none => word

def pluralRules : List Rule :=
  [rule "sses" "ss", rule "ies" "i", rule "ss" "ss", removal "s"]

def withoutPlural (word : Bytes) : Bytes := apply pluralRules (fun _ => true) word

/-- What is put right after an ending of the past or the gerund is gone. -/
def mended (stem : Bytes) : Bytes :=
  let completed := apply [rule "at" "ate", rule "bl" "ble", rule "iz" "ize"] (fun _ => true) stem
  if completed ≠ stem then completed
  else
    match stem.reverse with
    | a :: b :: _ =>
      if a == b && !isPlainVowel a && !(ascii "lsz").contains a then stem.dropLast
      else if measure stem = 1 && endsShort stem then stem ++ ascii "e"
      else stem
    | _ => stem

def withoutTense (word : Bytes) : Bytes :=
  match before? (ascii "eed") word with
  | some stem => if 0 < measure stem then stem ++ ascii "ee" else word
  | none =>
    match firstFit [removal "ed", removal "ing"] word with
    | some (stem, _) => if hasVowel stem then mended stem else word
    | none => word

/-- A final y becomes an i if there is a vowel before it. -/
def withPlainY (word : Bytes) : Bytes :=
  if word.getLast? = some letterY && hasVowel word.dropLast then word.dropLast ++ ascii "i"
  else word

def doubleEndings : List Rule := [
  rule "ational" "ate", rule "tional" "tion", rule "enci" "ence", rule "anci" "ance",
  rule "izer" "ize", rule "logi" "log", rule "bli" "ble", rule "alli" "al", rule "entli" "ent",
  rule "eli" "e", rule "ousli" "ous", rule "ization" "ize", rule "ation" "ate", rule "ator" "ate",
  rule "alism" "al", rule "iveness" "ive", rule "fulness" "ful", rule "ousness" "ous",
  rule "aliti" "al", rule "iviti" "ive", rule "biliti" "ble"]

def simpleEndings : List Rule := [
  rule "icate" "ic", removal "ative", rule "alize" "al", rule "iciti" "ic", rule "ical" "ic",
  removal "ful", removal "ness"]

def lastEndings : List Rule := [
  removal "al", removal "ance", removal "ence", removal "er", removal "ic", removal "able",
  removal "ible", removal "ant", removal "ement", removal "ment", removal "ent",
  ⟨ascii "ion", [], ascii "st"⟩, removal "ou", removal "ism", removal "ate", removal "iti",
  removal "ous", removal "ive", removal "ize"]

def withoutFinalE (word : Bytes) : Bytes :=
  let stem := word.dropLast
  if word.getLast? = some 0x65 && (1 < measure stem || (measure stem = 1 && !endsShort stem)) then
    stem
  else word

def withoutDoubleL (word : Bytes) : Bytes :=
  if (ascii "ll").isSuffixOf word && 1 < measure word.dropLast then word.dropLast else word

/-- The lengths of the words that are stemmed; others are kept as they are. -/
def isStemmed (word : Bytes) : Bool := 3 ≤ word.length && word.length ≤ 64

def stem (word : Bytes) : Bytes :=
  if isStemmed word then
    let word := withPlainY (withoutTense (withoutPlural word))
    let word := apply doubleEndings (fun stem => 0 < measure stem) word
    let word := apply simpleEndings (fun stem => 0 < measure stem) word
    let word := apply lastEndings (fun stem => 1 < measure stem) word
    withoutDoubleL (withoutFinalE word)
  else word

theorem stem_of_not_isStemmed (word : Bytes) (h : isStemmed word = false) : stem word = word := by
  simp [stem, h]

end MailIndex.Index.Stem
