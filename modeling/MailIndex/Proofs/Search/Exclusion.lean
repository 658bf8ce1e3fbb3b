import MailIndex.Index.Rank
import MailIndex.Proofs.Search.Literal
import Mathlib.Data.List.Perm.Basic

/-!
# Requiring and excluding

A word and its exclusion travel through different parts of the reader and become the same term, so
they divide what the rest of a search finds. A phrase and its exclusion do so too unless a star ends
the phrase: in the phrase it is text, in the exclusion it leaves the last token open, and what the
exclusion takes away is more than what the phrase asks for.
-/

namespace MailIndex.Search

open Match Query Index Text

/-! ## What is found -/

def Reads (search : Text) (e : Expression) : Prop :=
  ∃ q, parse search = .ok q ∧ expression? q = .ok (some e)

def found (e : Expression) (rows : List IndexRow) : List IndexRow :=
  rows.filter fun row => e.selects row.text

/-- Two searches find different parts of what a third one finds. -/
structure Separates (whole one other : Expression) : Prop where
  disjoint : ∀ rows, (found one rows).Disjoint (found other rows)
  subset : ∀ rows, found one rows ++ found other rows ⊆ found whole rows

/-- Two searches divide what a third one finds. -/
structure Divides (whole one other : Expression) : Prop where
  disjoint : ∀ rows, (found one rows).Disjoint (found other rows)
  together : ∀ rows, (found one rows ++ found other rows).Perm (found whole rows)

theorem selects_pair {s t : Term} (hs : s.isPresent = true) (ht : t.isPresent = true)
    (entry : EntryText) :
    (Expression.run [s, t]).selects entry = (s.occursIn entry && t.occursIn entry) := by
  simp [Expression.selects, Expression.eval, hs, ht]

theorem selects_without (s t : Term) (entry : EntryText) :
    (Expression.without (.run [s]) (.run [t])).selects entry =
      (s.occursIn entry && !t.occursIn entry) := by
  rw [← selects_run s, ← selects_run t]
  rfl

theorem separates_of_present {s t t' : Term} (hs : s.isPresent = true) (ht : t.isPresent = true)
    (h : ∀ entry, t.occursIn entry = true → t'.occursIn entry = true) :
    Separates (.run [s]) (.run [s, t]) (.without (.run [s]) (.run [t'])) where
  disjoint rows := by
    intro row hone hother
    have hboth := (List.mem_filter.mp hone).2
    have hnot := (List.mem_filter.mp hother).2
    rw [selects_pair hs ht, Bool.and_eq_true] at hboth
    rw [selects_without, h row.text hboth.2, Bool.not_true, Bool.and_false] at hnot
    cases hnot
  subset rows := by
    intro row hrow
    have hselects : s.occursIn row.text = true ∧ row ∈ rows := by
      cases List.mem_append.mp hrow with
      | inl hone =>
          obtain ⟨hmem, hboth⟩ := List.mem_filter.mp hone
          rw [selects_pair hs ht, Bool.and_eq_true] at hboth
          exact ⟨hboth.1, hmem⟩
      | inr hother =>
          obtain ⟨hmem, hnot⟩ := List.mem_filter.mp hother
          rw [selects_without, Bool.and_eq_true] at hnot
          exact ⟨hnot.1, hmem⟩
    exact List.mem_filter.mpr ⟨hselects.2, by rw [selects_run]; exact hselects.1⟩

theorem divides_of_present {s t : Term} (hs : s.isPresent = true) (ht : t.isPresent = true) :
    Divides (.run [s]) (.run [s, t]) (.without (.run [s]) (.run [t])) where
  disjoint := (separates_of_present hs ht fun _ h => h).disjoint
  together rows := by
    have hone : found (.run [s, t]) rows =
        (found (.run [s]) rows).filter fun row => t.occursIn row.text := by
      unfold found
      rw [List.filter_filter]
      refine List.filter_congr fun row _ => ?_
      rw [selects_pair hs ht, selects_run, Bool.and_comm]
    have hother : found (.without (.run [s]) (.run [t])) rows =
        (found (.run [s]) rows).filter fun row => !t.occursIn row.text := by
      unfold found
      rw [List.filter_filter]
      refine List.filter_congr fun row _ => ?_
      rw [selects_without, selects_run, Bool.and_comm]
    rw [hone, hother]
    exact List.filter_append_perm _ _

/-! ## Searches of two terms -/

/-- A text that the index can be asked for: a letter or digit and a token, and no null character. -/
structure Sought (text : Text) : Prop where
  isSearchable : Query.isSearchable text = true
  indexed : Index.tokens text ≠ []
  null_not_mem : '\x00' ∉ text

theorem Sought.of_looksFor {text : Text} (h : Sought text) {t : SearchTerm} {column : Option Column}
    (ht : LooksFor t column text) : t.isPresent = true ∧ '\x00' ∉ t.text := by
  refine ⟨?_, fun hnull => h.null_not_mem (ht.null_mem_iff.mp hnull)⟩
  simp [Term.isPresent, ht.tokens_eq, h.indexed]

theorem Sought.exists_word {text : Text} (h : Sought text) (column : Option Column) :
    ∃ t, SearchTerm.ofWord? column text = some t := by
  have hsearchable : Query.isSearchable (splitStar text).1 = true := by
    rw [isSearchable_splitStar, h.isSearchable]
  simp [SearchTerm.ofWord?, hsearchable]

theorem Sought.exists_phrase {text : Text} (h : Sought text) :
    ∃ t, SearchTerm.ofPhrase? text = some t := by
  simp [SearchTerm.ofPhrase?, h.isSearchable]

theorem reads_requires {search : Text} {tokens : List Query.Token} {terms : List SearchTerm}
    (h : tokenize search = .ok tokens) (hrequires : List.Forall₂ Token.Requires tokens terms)
    (hne : terms ≠ []) (hmark : ∀ token ∈ tokens, token.isMark = false)
    (hnull : ∀ t ∈ terms, '\x00' ∉ t.text) : Reads search (.run (terms.map (·.toTerm))) := by
  have htokens : tokens ≠ [] := by
    rintro rfl
    cases hrequires
    exact hne rfl
  refine ⟨⟨juxtaposed terms, []⟩, ?_, expression?_juxtaposed hne hnull⟩
  rw [parse_of_tokenize h htokens hmark, ofTokens?_requires hrequires hne]

theorem reads_excludes {search : Text} {token excluded : Query.Token} {s t : SearchTerm}
    (h : tokenize search = .ok [token, excluded]) (hs : token.Requires s) (ht : excluded.Excludes t)
    (hmark : token.isMark = false) (hmark' : excluded.isMark = false) (hsnull : '\x00' ∉ s.text)
    (htnull : '\x00' ∉ t.text) :
    Reads search (.without (.run [s.toTerm]) (.run [t.toTerm])) := by
  have hne : [s] ≠ [] := List.cons_ne_nil s []
  refine ⟨⟨lessened [s] t, []⟩, ?_, ?_⟩
  · rw [parse_of_tokenize h (List.cons_ne_nil token _) (by simp [hmark, hmark'])]
    exact ofTokens?_excludes (.cons hs .nil) hne ht
  · exact expression?_of_accepted? (accepted?_lessened hne (by simpa using hsnull) htnull)

theorem isWord_of_tokenize {word : Text} (h : tokenize word = .ok [.word word]) : IsWord word :=
  wellFormed_of_tokenize h _ (List.mem_singleton.mpr rfl)

theorem tokenize_phrase {x p : Text} (hx : IsWord x) (hp : '"' ∉ p) :
    tokenize (x ++ " \"".toList ++ p ++ "\"".toList) = .ok [.word x, .phrase p] := by
  have hwell : ∀ token ∈ [.word x, .phrase p], Token.WellFormed token := by
    simpa [Token.WellFormed] using ⟨hx, hp⟩
  simpa [Token.writtenAll_cons, Token.writtenAll, Token.written] using tokenize_writtenAll hwell

theorem tokenize_excluded_phrase {x p : Text} (hx : IsWord x) (hp : '"' ∉ p) :
    tokenize (x ++ " -\"".toList ++ p ++ "\"".toList) = .ok [.word x, .exclusion p] := by
  have hwell : ∀ token ∈ [.word x, .exclusion p], Token.WellFormed token := by
    simpa [Token.WellFormed] using ⟨hx, Or.inl hp⟩
  simpa [Token.writtenAll_cons, Token.writtenAll, Token.written, hp] using tokenize_writtenAll hwell

theorem tokenize_word {x w : Text} (hx : IsWord x) (hw : IsWord w) :
    tokenize (x ++ " ".toList ++ w) = .ok [.word x, .word w] := by
  have hwell : ∀ token ∈ [.word x, .word w], Token.WellFormed token := by
    simpa [Token.WellFormed] using ⟨hx, hw⟩
  simpa [Token.writtenAll_cons, Token.writtenAll, Token.written] using tokenize_writtenAll hwell

/-- A word after a minus sign is not the written form of its exclusion, which has quotes. -/
theorem tokenize_excluded_word {x w : Text} (hx : IsWord x) (hw : IsWord w) :
    tokenize (x ++ " -".toList ++ w) = .ok [.word x, .exclusion w] := by
  have hblank : isBlank ' ' = true := by decide
  have hread : scan ('-' :: w) = .ok [.exclusion w] := by
    have htoken := readToken_excluded hw.ne_nil hw.unbroken
      (fun hhead => hw.unquoted (List.mem_of_head? hhead)) parted_nil
      (readTerm_plain hw.plain hw.ne_nil)
    rw [List.append_nil] at htoken
    rw [scan_token (by decide) htoken, scan]
    rfl
  have htrimmed : IsTrimmed (x ++ ' ' :: '-' :: w) := by
    have hminus : IsTrimmed ('-' :: w) :=
      ⟨by simp; decide, (Unbroken.cons (by decide) hw.unbroken).isBlank_getLast?⟩
    have hword : (Token.word x).WellFormed := hx
    exact (isTrimmed_written hword).beside hminus hx.ne_nil (List.cons_ne_nil _ _)
  have hscan : scan (x ++ ' ' :: '-' :: w) = .ok [.word x, .exclusion w] := by
    have hword : (Token.word x).WellFormed := hx
    rw [show x = (Token.word x).written from rfl, scan_written hword (parted_cons hblank),
      scan_blank hblank, hread]
    rfl
  have hsearch : x ++ " -".toList ++ w = x ++ ' ' :: '-' :: w := by simp
  rw [hsearch, tokenize, trim_eq_self htrimmed, hscan]

/-! ## Complements -/

/-- Requiring and excluding a word divide what a search finds, and so do requiring and excluding a
phrase that no star ends. With a star at its end they still find different entries. -/
theorem exclusion_divides {x : Text} (hx : tokenize x = .ok [.word x]) (hsought : Sought x) :
    (∀ p, '"' ∉ p → Sought p → ∃ whole required excluded, Reads x whole ∧
        Reads (x ++ " \"".toList ++ p ++ "\"".toList) required ∧
        Reads (x ++ " -\"".toList ++ p ++ "\"".toList) excluded ∧
        Separates whole required excluded ∧
        (p.getLast? ≠ some '*' → Divides whole required excluded)) ∧
      ∀ w, tokenize w = .ok [.word w] → Sought w → ∃ whole required excluded, Reads x whole ∧
        Reads (x ++ " ".toList ++ w) required ∧ Reads (x ++ " -".toList ++ w) excluded ∧
        Divides whole required excluded := by
  have hword := isWord_of_tokenize hx
  obtain ⟨s, hs⟩ := hsought.exists_word none
  obtain ⟨hspresent, hsnull⟩ := hsought.of_looksFor (looksFor_word hs)
  have hwhole : Reads x (.run [s.toTerm]) :=
    reads_requires hx (.cons (requires_word hs) .nil) (by simp) (by simp [Token.isMark])
      (by simpa using hsnull)
  constructor
  · intro p hp hpsought
    obtain ⟨t, ht⟩ := hpsought.exists_phrase
    obtain ⟨t', ht'⟩ := hpsought.exists_word none
    obtain ⟨htpresent, htnull⟩ := hpsought.of_looksFor (looksFor_phrase ht)
    obtain ⟨htpresent', htnull'⟩ := hpsought.of_looksFor (looksFor_word ht')
    have hphrase := of_ofPhrase?_eq_some ht
    have htokens : t'.tokens = t.tokens :=
      (looksFor_word ht').tokens_eq.trans (looksFor_phrase ht).tokens_eq.symm
    have hcolumn : t'.column = t.column :=
      (looksFor_word ht').column_eq.trans (looksFor_phrase ht).column_eq.symm
    refine ⟨_, _, _, hwhole,
      reads_requires (tokenize_phrase hword hp) (.cons (requires_word hs) (.cons
        (requires_phrase ht) .nil)) (by simp) (by simp [Token.isMark]) (by simp [hsnull, htnull]),
      reads_excludes (tokenize_excluded_phrase hword hp) (requires_word hs)
        (excludes_exclusion ht') rfl rfl hsnull htnull', ?_, fun hstar => ?_⟩
    · exact separates_of_present hspresent htpresent fun entry =>
        Term.occursIn_of_occursIn hcolumn htokens (congrArg Term.starred hphrase)
    · have hsplit : splitStar p = (p, false) := by rw [splitStar, if_neg hstar]
      have hsame : t'.toTerm = t.toTerm := by
        rw [of_ofWord?_eq_some ht', hsplit, hphrase]
      rw [hsame]
      exact divides_of_present hspresent htpresent
  · intro w hw hwsought
    have hword' := isWord_of_tokenize hw
    obtain ⟨t, ht⟩ := hwsought.exists_word none
    obtain ⟨htpresent, htnull⟩ := hwsought.of_looksFor (looksFor_word ht)
    exact ⟨_, _, _, hwhole,
      reads_requires (tokenize_word hword hword') (.cons (requires_word hs) (.cons
        (requires_word ht) .nil)) (by simp) (by simp [Token.isMark]) (by simp [hsnull, htnull]),
      reads_excludes (tokenize_excluded_word hword hword') (requires_word hs)
        (excludes_exclusion ht) rfl rfl hsnull htnull,
      divides_of_present hspresent htpresent⟩

/-- A phrase with a word that is reserved in expressions, and a word with a star. -/
theorem exclusion_divides_of_syntax :
    (∃ whole required excluded, Reads "a.b".toList whole ∧
        Reads "a.b \"NOT c*d\"".toList required ∧ Reads "a.b -\"NOT c*d\"".toList excluded ∧
        Divides whole required excluded) ∧
      ∃ whole required excluded, Reads "a.b".toList whole ∧ Reads "a.b AND:e*".toList required ∧
        Reads "a.b -AND:e*".toList excluded ∧ Divides whole required excluded := by
  obtain ⟨hphrases, hwords⟩ := exclusion_divides (x := "a.b".toList) (by decide +kernel)
    ⟨by decide +kernel, by decide +kernel, by decide⟩
  obtain ⟨whole, required, excluded, hwhole, hrequired, hexcluded, -, hdivides⟩ :=
    hphrases "NOT c*d".toList (by decide) ⟨by decide +kernel, by decide +kernel, by decide⟩
  exact ⟨⟨whole, required, excluded, hwhole, hrequired, hexcluded, hdivides (by decide)⟩,
    hwords "AND:e*".toList (by decide +kernel)
      ⟨by decide +kernel, by decide +kernel, by decide⟩⟩

end MailIndex.Search
