import MailIndex.Text.Layout
import MailIndex.Text.Split

/-!
# Rows

A row of fields is written on one line, with tabs between the fields. Tabs, line breaks and
backslashes inside a field are escaped by a backslash, and a field without a value is a form that no
text has.
-/

namespace MailIndex.Archive

abbrev Row := List (Option Text)

def escaped (c : Char) : Text :=
  match c with
  | '\t' => ['\\', 't']
  | '\n' => ['\\', 'n']
  | '\\' => ['\\', '\\']
  | c => [c]

/-- The field of a written form; `done` holds, in reverse, what has been read. -/
def unescapeOnto (done : Text) : Text → Option Text
  | [] => some done.reverse
  | '\\' :: 't' :: rest => unescapeOnto ('\t' :: done) rest
  | '\\' :: 'n' :: rest => unescapeOnto ('\n' :: done) rest
  | '\\' :: '\\' :: rest => unescapeOnto ('\\' :: done) rest
  | '\\' :: _ => none
  | c :: rest => unescapeOnto (c :: done) rest

def absent : Text := ['\\', 'N']

def encodeField : Option Text → Text
  | some t => t.flatMap escaped
  | none => absent

def decodeField? (written : Text) : Option (Option Text) :=
  if written = absent then some none else (unescapeOnto [] written).map some

theorem unescapeOnto_flatMap_escaped (t done : Text) :
    unescapeOnto done (t.flatMap escaped) = some (done.reverse ++ t) := by
  induction t generalizing done with
  | nil => simp [unescapeOnto]
  | cons c rest ih =>
    rw [List.flatMap_cons]
    by_cases ht : c = '\t'
    · subst ht
      simp [escaped, unescapeOnto, ih]
    by_cases hn : c = '\n'
    · subst hn
      simp [escaped, unescapeOnto, ih]
    by_cases hb : c = '\\'
    · subst hb
      simp [escaped, unescapeOnto, ih]
    have hc : escaped c = [c] := by
      unfold escaped
      split <;> simp_all
    rw [hc, List.singleton_append, unescapeOnto]
    · simp [ih]
    all_goals simp [hb]

def Row.encode (row : Row) : Text := ['\t'].intercalate (row.map encodeField)

def Row.decode? (line : Text) : Option Row := (Text.split '\t' line).mapM decodeField?

end MailIndex.Archive
