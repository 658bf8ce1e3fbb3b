import MailIndex.Proofs.Index.Boundaries
import MailIndex.Proofs.Query.Terms
import MailIndex.Search.Results

/-!
# Literal text

Whatever characters a word, a phrase or the value of a column filter is made of, an entry in which
they stand is found: what is written for the index has the same tokens as the text, in or out of
quotes and with or without a star. Only a null character keeps the index from reading it.
-/

namespace MailIndex

open Match

/-! ## Texts and their stars -/

namespace Query

theorem splitStar_append (text : Text) :
    (splitStar text).1 ++ (if (splitStar text).2 then ['*'] else []) = text := by
  unfold splitStar
  split
  · rename_i hstar
    obtain ⟨front, rfl⟩ := List.getLast?_eq_some_iff.mp hstar
    simp
  · simp

theorem tokens_splitStar (text : Text) : Index.tokens (splitStar text).1 = Index.tokens text := by
  have hwhole := splitStar_append text
  by_cases hstar : (splitStar text).2 = true
  · rw [if_pos hstar] at hwhole
    rw [← Index.tokens_star, hwhole]
  · rw [if_neg hstar, List.append_nil] at hwhole
    rw [hwhole]

theorem null_mem_splitStar (text : Text) : '\x00' ∈ (splitStar text).1 ↔ '\x00' ∈ text := by
  have hstar : '\x00' ∉ (if (splitStar text).2 then ['*'] else []) := by split <;> simp
  conv_rhs => rw [← splitStar_append text, List.mem_append]
  exact ⟨.inl, fun h => h.resolve_right hstar⟩

theorem isSearchable_splitStar (text : Text) :
    isSearchable (splitStar text).1 = isSearchable text := by
  have hstar : isSearchable (if (splitStar text).2 then ['*'] else []) = false := by
    split <;> decide +kernel
  conv_rhs => rw [← splitStar_append text]
  unfold isSearchable at hstar ⊢
  rw [List.any_append, hstar, Bool.or_false]

theorem of_ofWord?_eq_some {column : Option Column} {word : Text} {t : SearchTerm}
    (h : SearchTerm.ofWord? column word = some t) :
    t.toTerm = ⟨column, (splitStar word).1, (splitStar word).2⟩ := by
  have hterm : some t.toTerm = if isSearchable (splitStar word).1 = true then
      some ⟨column, (splitStar word).1, (splitStar word).2⟩ else none := by
    rw [← Option.map_some, ← h, toTerm_ofWord?]
    rfl
  split at hterm
  · exact Option.some.inj hterm
  · cases hterm

theorem of_ofPhrase?_eq_some {phrase : Text} {t : SearchTerm}
    (h : SearchTerm.ofPhrase? phrase = some t) : t.toTerm = ⟨none, phrase, false⟩ := by
  have hterm := toTerm_ofPhrase? phrase
  rw [h, Token.term?] at hterm
  split at hterm
  · exact Option.some.inj hterm
  · cases hterm

/-! ## Tokens that look for a text -/

/-- What a token looks for as it stands: a text, in one column if there is one. -/
def Token.literal? : Token → Option (Option Column × Text)
  | .word value => some (none, value)
  | .phrase value => some (none, value)
  | .filter .subject value false => some (some .subject, value)
  | .filter .attachment value false => some (some .attachments, value)
  | _ => none

/-- A term that looks for a text: it has the tokens of the text. -/
structure LooksFor (t : SearchTerm) (column : Option Column) (text : Text) : Prop where
  column_eq : t.column = column
  null_mem_iff : '\x00' ∈ t.text ↔ '\x00' ∈ text
  tokens_eq : t.tokens = Index.tokens text

theorem looksFor_word {column : Option Column} {word : Text} {t : SearchTerm}
    (h : SearchTerm.ofWord? column word = some t) : LooksFor t column word := by
  have hterm := of_ofWord?_eq_some h
  have htext : t.text = (splitStar word).1 := congrArg Term.text hterm
  refine ⟨congrArg Term.column hterm, ?_, ?_⟩
  · rw [htext, null_mem_splitStar]
  · rw [Term.tokens, htext, tokens_splitStar]

theorem looksFor_phrase {phrase : Text} {t : SearchTerm}
    (h : SearchTerm.ofPhrase? phrase = some t) : LooksFor t none phrase := by
  have hterm := of_ofPhrase?_eq_some h
  have htext : t.text = phrase := congrArg Term.text hterm
  exact ⟨congrArg Term.column hterm, by rw [htext], by rw [Term.tokens, htext]⟩

/-- A token that looks for a text requires a term that does, or it is dropped. -/
theorem requires_of_literal? {token : Token} {column : Option Column} {text : Text}
    (h : token.literal? = some (column, text)) :
    (∃ t, token.Requires t ∧ LooksFor t column text) ∨ token.AddsNothing := by
  have hfilter {field : Field} {c : Column} {value : Text}
      (hin : contribution field value false = .ok (inColumn c value false)) :
      (∃ t, (Token.filter field value false).Requires t ∧ LooksFor t (some c) value) ∨
        (Token.filter field value false).AddsNothing := by
    have hstep := step_filter hin
    cases hfound : SearchTerm.ofWord? (some c) value with
    | none =>
        rw [hfound] at hstep
        exact .inr hstep
    | some t =>
        rw [hfound] at hstep
        exact .inl ⟨t, hstep, looksFor_word hfound⟩
  unfold Token.literal? at h
  split at h
  · cases h
    cases hfound : SearchTerm.ofWord? none text with
    | none => exact .inr (addsNothing_word hfound)
    | some t => exact .inl ⟨t, requires_word hfound, looksFor_word hfound⟩
  · cases h
    cases hfound : SearchTerm.ofPhrase? text with
    | none => exact .inr (addsNothing_phrase hfound)
    | some t => exact .inl ⟨t, requires_phrase hfound, looksFor_phrase hfound⟩
  · cases h
    exact hfilter rfl
  · cases h
    exact hfilter rfl
  · cases h

theorem parse_written {token : Token} (h : token.WellFormed) (hmark : token.isMark = false) :
    parse token.written = ofTokens? [token] := by
  have htokens : tokenize (Token.writtenAll [token]) = .ok [token] :=
    tokenize_writtenAll (by simpa using h)
  have hwritten : Token.writtenAll [token] = token.written := by simp [Token.writtenAll]
  rw [hwritten] at htokens
  exact parse_of_tokenize htokens (List.cons_ne_nil token []) (by simpa using hmark)

end Query

/-! ## Searches for a text -/

namespace Search

open Query Index

theorem selects_run (t : Term) (entry : EntryText) :
    (Expression.run [t]).selects entry = t.occursIn entry := by
  have hpresent : t.occursIn entry = true → t.isPresent = true := by
    intro h
    exact (by simpa [Term.occursIn] using h : t.isPresent = true ∧ 0 < t.count entry).1
  cases hoccurs : t.occursIn entry with
  | true => simp [Expression.selects, Expression.eval, hoccurs, hpresent hoccurs]
  | false =>
      cases ht : t.isPresent <;> simp [Expression.selects, Expression.eval, hoccurs, ht]

theorem expression?_of_accepted? {expression : Text} {predicates : List Predicate} {e : Expression}
    (h : Expression.accepted? expression = some e) :
    expression? ⟨expression, predicates⟩ = .ok (some e) := by
  have hne : expression ≠ [] := by
    rintro rfl
    cases h
  simp [expression?, hasTerms, hne, h]

theorem juxtaposed_ne_nil {terms : List SearchTerm} (hne : terms ≠ []) : juxtaposed terms ≠ [] := by
  obtain ⟨t, terms, rfl⟩ := List.exists_cons_of_ne_nil hne
  simp [juxtaposed, joinParts, t.render_ne_nil]

theorem expression?_juxtaposed {terms : List SearchTerm} (hne : terms ≠ [])
    (hnull : ∀ t ∈ terms, '\x00' ∉ t.text) :
    expression? ⟨juxtaposed terms, []⟩ = .ok (some (.run (terms.map (·.toTerm)))) :=
  expression?_of_accepted? (accepted?_juxtaposed hne hnull)

theorem expression?_juxtaposed_of_null {terms : List SearchTerm} (hne : terms ≠ [])
    {t : SearchTerm} (ht : t ∈ terms) (hnull : '\x00' ∈ t.text) :
    expression? ⟨juxtaposed terms, []⟩ = .error .badExpression := by
  have hnone := accepted?_juxtaposed_of_null hne ht hnull
  simp [expression?, hasTerms, juxtaposed_ne_nil hne, hnone]

/-- A token that looks for a text, searched for alone. The search can always be parsed; the index
reads its expression, if it has one, unless there is a null character in the text; and then every
entry is found in which the text stands between white space or the ends of a column. -/
theorem finds_literal_text {search : Text} {tokens : List Query.Token} {token : Query.Token}
    {column : Option Column} {text : Text} (h : tokenize search = .ok tokens)
    (hmem : token ∈ tokens) (hliteral : token.literal? = some (column, text))
    (hindexed : Index.tokens text ≠ []) :
    ∃ q, parse token.written = .ok q ∧
      ((∃ found, expression? q = .ok found) ↔ (q.expression = [] ∨ '\x00' ∉ text)) ∧
      ∀ found, expression? q = .ok found → ∀ (entry : EntryText) (c : Column),
        column.all (· = c) = true → StandsIn text (entry.column c) →
          found.all (·.selects entry) = true := by
  have hmark : token.isMark = false := by
    cases token with
    | or => cases hliteral
    | opening => cases hliteral
    | closing => cases hliteral
    | _ => rfl
  have hparse := parse_written (wellFormed_of_tokenize h token hmem) hmark
  cases requires_of_literal? hliteral with
  | inr hnothing =>
      rw [ofTokens?_addsNothing hnothing] at hparse
      refine ⟨Query.everything, hparse, ⟨fun _ => .inl rfl, fun _ => ⟨none, rfl⟩⟩, ?_⟩
      intro found hfound
      cases hfound
      exact fun _ _ _ _ => rfl
  | inl hrequired =>
      obtain ⟨t, hrequires, hlooks⟩ := hrequired
      have hne : [t] ≠ [] := List.cons_ne_nil t []
      have hfull : juxtaposed [t] ≠ [] := juxtaposed_ne_nil hne
      rw [ofTokens?_requires (.cons hrequires .nil) hne] at hparse
      by_cases hnull : '\x00' ∈ text
      · have hrefused := expression?_juxtaposed_of_null hne List.mem_cons_self
          (hlooks.null_mem_iff.mpr hnull)
        refine ⟨_, hparse, by simp [hrefused, hfull, hnull], fun found hfound => ?_⟩
        rw [hrefused] at hfound
        cases hfound
      · have hread := expression?_juxtaposed hne
          (by simpa using fun hin => hnull (hlooks.null_mem_iff.mp hin))
        refine ⟨_, hparse, by simp [hread, hnull], fun found hfound entry c hcolumn hstands => ?_⟩
        rw [hread] at hfound
        cases hfound
        have hc : c ∈ t.columns := by
          unfold Term.columns
          rw [hlooks.column_eq]
          cases column with
          | none => cases c <;> decide
          | some own => simpa using (of_decide_eq_true hcolumn).symm
        obtain ⟨before, after, htokens⟩ := hstands.tokens
        rw [← hlooks.tokens_eq] at htokens hindexed
        show (Expression.run [t.toTerm]).selects entry = true
        rw [selects_run]
        exact Term.occursIn_of_tokens hc hindexed htokens

/-- A value with a colon, stars and what would be an operator, beside other tokens. -/
theorem finds_literal_text_of_syntax :
    let q : Query := ⟨"subject:\"NOT:c++*\"*".toList, []⟩
    parse "subject:NOT:c++**".toList = .ok q ∧ ∃ found, expression? q = .ok found ∧
      found.all (·.selects ⟨"use NOT:c++** here".toList, [], [], [], []⟩) = true := by
  intro q
  have hq : parse "subject:NOT:c++**".toList = .ok q := by decide +kernel
  have htokens : tokenize "a -b (Subject:NOT:c++**)".toList =
      .ok [.word "a".toList, .exclusion "b".toList, .opening,
        .filter .subject "NOT:c++**".toList false, .closing] := by decide +kernel
  obtain ⟨q', hparse, hread, hfinds⟩ := finds_literal_text htokens
    (List.mem_append_right [_, _, _] List.mem_cons_self) rfl (by decide +kernel)
  cases hq.symm.trans hparse
  obtain ⟨found, hfound⟩ := hread.mpr (.inr (by decide))
  have hstands : StandsIn "NOT:c++**".toList "use NOT:c++** here".toList := by
    refine ⟨"use ".toList, " here".toList, rfl, ?_, ?_⟩
    · rintro c ⟨⟩
      rfl
    · rintro c ⟨⟩
      rfl
  exact ⟨hq, found, hfound, hfinds found hfound _ .subject rfl hstands⟩

end Search

end MailIndex
