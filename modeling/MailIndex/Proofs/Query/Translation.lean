import MailIndex.Proofs.Query.Following
import MailIndex.Proofs.Query.Reading

/-!
# What translated searches mean

A reading and an outlining take the same tokens side by side, and every open group shows what its
sketch holds. So the expression of an accepted search is a written form of the outline of its
tokens: no term is lost, none is taken for an operator, and the value is that of the outline.
-/

namespace MailIndex.Query

open Text Match

/-! ## One token -/

/-- Every open group shows what its sketch holds. -/
structure Tracks (r : Reading) (o : Outlining) : Prop where
  inner : Shows r.inner o.inner
  outer : List.Forall₂ Shows r.outer o.outer

theorem tracks_initial : Tracks Reading.initial Outlining.start := ⟨shows_empty, .nil⟩

theorem Tracks.vanishing {r : Reading} {o : Outlining} (h : Tracks r o) {parent : Group}
    {outer : List Group} (houter : r.outer = parent :: outer) (hclose : r.inner.close = .ok none) :
    ∃ o', o.step .closing = some o' ∧ Tracks ⟨parent, outer, r.predicates, false⟩ o' := by
  obtain ⟨inner, sketches⟩ := o
  obtain ⟨hinner, hall⟩ := h
  rw [houter] at hall
  cases hall with
  | @cons _ sketch _ rest hparent hrest =>
      -- A group that vanishes leaves the group around it as it was.
      have hnone : sketch.addGroup inner = sketch := by
        simp [Sketch.addGroup, hinner.close_none hclose]
      refine ⟨⟨sketch.addGroup inner, rest⟩, rfl, ?_, hrest⟩
      rw [hnone]
      exact hparent

theorem Tracks.closing {r : Reading} {o : Outlining} (h : Tracks r o) {parent : Group}
    {outer : List Group} {expression : Text} (houter : r.outer = parent :: outer)
    (hclose : r.inner.close = .ok (some expression)) :
    ∃ o', o.step .closing = some o' ∧
      Tracks ⟨parent.require (parenthesized expression), outer, r.predicates, false⟩ o' := by
  obtain ⟨inner, sketches⟩ := o
  obtain ⟨hinner, hall⟩ := h
  rw [houter] at hall
  cases hall with
  | @cons _ sketch _ rest hparent hrest =>
      obtain ⟨hkept, symbols, e, htranslates⟩ := hinner.close_some hclose
      exact ⟨⟨sketch.addGroup inner, rest⟩, rfl, hparent.addGroup htranslates hkept, hrest⟩

theorem Tracks.step {r r' : Reading} {o : Outlining} (h : Tracks r o) {token : Token}
    (hstep : r.step token = .ok r') :
    ∃ o', o.step token = some o' ∧ Tracks r' o' ∧
      r'.predicates = r.predicates ++ token.structured?.toList := by
  have hnone {item : Item} (hitem : token.item? = some item) : token.structured? = none :=
    Token.structured?_of_not_isStructured (Token.isStructured_of_item? hitem)
  cases takes_of_step hstep with
  | opening => exact ⟨_, rfl, ⟨shows_empty, .cons h.inner h.outer⟩, by simp [Token.structured?]⟩
  | vanishing houter hclose =>
      obtain ⟨o', ho, htracks⟩ := h.vanishing houter hclose
      exact ⟨o', ho, htracks, by simp [Token.structured?]⟩
  | closing houter hclose =>
      obtain ⟨o', ho, htracks⟩ := h.closing houter hclose
      exact ⟨o', ho, htracks, by simp [Token.structured?]⟩
  | required t hitem =>
      refine ⟨_, o.step_of_item? hitem, ⟨?_, h.outer⟩, by simp [Reading.update, hnone hitem]⟩
      exact h.inner.require (isPart_term t) (means_term t.toTerm) rfl
  | excluded t hitem =>
      refine ⟨_, o.step_of_item? hitem, ⟨?_, h.outer⟩, by simp [Reading.update, hnone hitem]⟩
      exact h.inner.exclude t
  | dropped hmark hitem hstructured =>
      exact ⟨o, o.step_of_silent hmark hitem, ⟨h.inner, h.outer⟩,
        by simp [Reading.update, Token.structured?_of_not_isStructured hstructured]⟩
  | structured hstructured hitem hpredicate hawaiting =>
      exact ⟨o, o.step_of_silent (Token.isMark_of_isStructured hstructured) hitem,
        ⟨h.inner, h.outer⟩, by simp [hpredicate]⟩
  | or hafter hopen =>
      exact ⟨_, rfl, ⟨h.inner.openAlternative hopen, h.outer⟩, by simp [Token.structured?]⟩

/-! ## All tokens -/

theorem Tracks.run {tokens : List Token} {r r' : Reading} {o : Outlining} (h : Tracks r o)
    (hrun : tokens.foldlM Reading.step r = .ok r') :
    ∃ o', tokens.foldlM Outlining.step o = some o' ∧ Tracks r' o' ∧
      r'.predicates = r.predicates ++ tokens.filterMap Token.structured? := by
  induction tokens generalizing r o with
  | nil =>
      cases hrun
      exact ⟨o, rfl, h, by simp⟩
  | cons token tokens ih =>
      obtain ⟨next, hstep, hrest⟩ := exists_taken hrun
      obtain ⟨middle, hmiddle, htracks, hpredicates⟩ := h.step hstep
      obtain ⟨o', ho', htracks', hpredicates'⟩ := ih htracks hrest
      refine ⟨o', ?_, htracks', ?_⟩
      · simp [hmiddle, ho']
      · rw [hpredicates', hpredicates]
        cases hterm : token.structured? <;> simp [hterm]

/-- An accepted search is read to its end, with no group open and the last one closed. -/
theorem exists_read {tokens : List Token} {q : Query} (h : ofTokens? tokens = .ok q) :
    ∃ r, tokens.foldlM Reading.step Reading.initial = .ok r ∧ r.outer = [] ∧
      ∃ result, r.inner.close = .ok result ∧ q = ⟨result.getD [], r.predicates⟩ := by
  unfold ofTokens? at h
  cases hrun : tokens.foldlM Reading.step Reading.initial with
  | error e =>
      rw [hrun] at h
      cases h
  | ok r =>
      rw [hrun] at h
      have hfinish : r.finish = .ok q := h
      unfold Reading.finish at hfinish
      cases houter : r.outer with
      | cons g outer => simp [houter] at hfinish
      | nil =>
          cases hclose : r.inner.close with
          | error e => simp [houter, hclose, Except.map] at hfinish
          | ok result =>
              simp only [houter, hclose, Except.map, List.isEmpty_nil, if_true,
                Except.ok.injEq] at hfinish
              exact ⟨r, rfl, houter, result, hclose, hfinish.symm⟩

/-- A rejected search is refused at one of its tokens, or comes to its end in a group. -/
theorem exists_rejected {tokens : List Token} {e : Error} (h : ofTokens? tokens = .error e) :
    (∃ before token after r, tokens = before ++ token :: after ∧
        before.foldlM Reading.step Reading.initial = .ok r ∧ Refuses r token e) ∨
      ∃ r, tokens.foldlM Reading.step Reading.initial = .ok r ∧
        (r.outer ≠ [] ∧ e = .unclosedGroup ∨ r.outer = [] ∧ r.inner.close = .error e) := by
  unfold ofTokens? at h
  cases hrun : tokens.foldlM Reading.step Reading.initial with
  | error reason =>
      rw [hrun] at h
      cases h
      exact .inl (exists_refused hrun)
  | ok r =>
      rw [hrun] at h
      have hfinish : r.finish = .error e := h
      refine .inr ⟨r, rfl, ?_⟩
      unfold Reading.finish at hfinish
      cases houter : r.outer with
      | cons g outer =>
          simp only [houter, List.isEmpty_cons, Bool.false_eq_true, if_false,
            Except.error.injEq] at hfinish
          exact .inl ⟨by simp, hfinish.symm⟩
      | nil =>
          cases hclose : r.inner.close with
          | ok result => simp [houter, hclose, Except.map] at hfinish
          | error reason =>
              simp only [houter, hclose, Except.map, List.isEmpty_nil, if_true,
                Except.error.injEq] at hfinish
              exact .inr ⟨rfl, by rw [hfinish]⟩

theorem Tracks.outer_eq_nil {r : Reading} {o : Outlining} (h : Tracks r o) (houter : r.outer = []) :
    o.outer = [] := by
  have hall := h.outer
  rw [houter] at hall
  exact List.forall₂_nil_left_iff.mp hall

/-- An accepted search and the outline of its tokens: both are empty, or one translates the
other. -/
theorem ofTokens?_spec {tokens : List Token} {q : Query} (h : ofTokens? tokens = .ok q) :
    q.predicates = tokens.filterMap Token.structured? ∧
      ∃ alternatives, outline? tokens = some alternatives ∧
        (q.expression = [] ∧ alternatives = [] ∨
          ∃ symbols e, Translates q.expression symbols e alternatives) := by
  obtain ⟨r, hrun, houter, result, hclose, rfl⟩ := exists_read h
  obtain ⟨o, ho, htracks, hpredicates⟩ := tracks_initial.run hrun
  have houtline : outline? tokens = some o.inner.alternatives := by
    simp [outline?, ho, htracks.outer_eq_nil houter]
  refine ⟨hpredicates, _, houtline, ?_⟩
  cases result with
  | none => exact .inl ⟨rfl, htracks.inner.close_none hclose⟩
  | some expression =>
      obtain ⟨-, symbols, e, htranslates⟩ := htracks.inner.close_some hclose
      exact .inr ⟨symbols, e, htranslates⟩

theorem Translates.ofReserved? {expression : Text} {symbols : List Symbol} {e : Expression}
    {alternatives : List (List Item)} (h : Translates expression symbols e alternatives) :
    Expression.ofReserved? expression = some e := by
  rw [h.writes.ofReserved?, h.spells.ofSymbols?]

theorem Translates.ofWritten? {expression : Text} {symbols : List Symbol} {e : Expression}
    {alternatives : List (List Item)} (h : Translates expression symbols e alternatives) :
    Expression.ofWritten? expression = some e := by
  rw [h.writes.ofWritten?, h.spells.ofSymbols?]

theorem Translates.ne_nil {expression : Text} {symbols : List Symbol} {e : Expression}
    {alternatives : List (List Item)} (h : Translates expression symbols e alternatives) :
    expression ≠ [] := by
  rintro rfl
  have hread := h.ofReserved?
  cases hread

theorem Translates.ofText?_iff {expression : Text} {symbols : List Symbol} {e : Expression}
    {alternatives : List (List Item)} (h : Translates expression symbols e alternatives) :
    Expression.ofText? expression = some e ↔ '\x00' ∉ expression := by
  by_cases hnull : '\x00' ∈ expression
  · simp [h.writes.ofText?_of_mem hnull, hnull]
  · simp [ofText?_of_not_mem hnull, h.ofWritten?, hnull]

theorem Translates.alternatives_ne_nil {expression : Text} {symbols : List Symbol} {e : Expression}
    {alternatives : List (List Item)} (h : Translates expression symbols e alternatives) :
    alternativesTerms alternatives ≠ [] := by
  intro hnil
  have hterms := h.terms
  rw [hnil] at hterms
  exact h.terms_ne_nil hterms.eq_nil

/-- Translation preserves meaning. The structured filters are kept, an expression is written if and
only if there is a term, and if every alternative has something positive in it the expression has
the value of the outline of the tokens under every assignment to the terms. -/
theorem ofTokens?_preserves_meaning {tokens : List Token} {q : Query}
    (h : ofTokens? tokens = .ok q) :
    q.predicates = tokens.filterMap Token.structured? ∧
      (q.expression = [] ↔ tokens.filterMap Token.term? = []) ∧
      ∃ alternatives, outline? tokens = some alternatives ∧
        (areRegular alternatives = true → q.expression ≠ [] →
          ∃ e, Expression.ofReserved? q.expression = some e ∧
            Expression.ofWritten? q.expression = some e ∧
            ∀ truth, e.holds truth = anyHolds truth alternatives) := by
  obtain ⟨hpredicates, alternatives, houtline, hwritten⟩ := ofTokens?_spec h
  refine ⟨hpredicates, ?_, alternatives, houtline, fun hregular hne => ?_⟩
  · rw [← terms_outline houtline]
    rcases hwritten with ⟨hempty, hnone⟩ | ⟨symbols, e, htranslates⟩
    · simp [hempty, hnone, alternativesTerms]
    · simp [htranslates.ne_nil, htranslates.alternatives_ne_nil]
  · rcases hwritten with ⟨hempty, -⟩ | ⟨symbols, e, htranslates⟩
    · exact absurd hempty hne
    · exact ⟨e, htranslates.ofReserved?, htranslates.ofWritten?, htranslates.holds hregular⟩

/-- Exclusions before and after what they are taken from, and a group that vanishes. -/
theorem ofTokens?_preserves_meaning_of_exclusions :
    let tokens : List Token := [.exclusion "b".toList, .word "a".toList, .opening, .word "!".toList,
      .closing, .or, .opening, .phrase "c d".toList, .or, .word "e*".toList,
      .filter .subject "f".toList true, .closing, .filter .label "x".toList false]
    let q : Query := ⟨"a NOT b OR (\"c d\" OR e* NOT subject:f)".toList,
      [.labelled "x".toList false]⟩
    ofTokens? tokens = .ok q ∧ ∃ e, Expression.ofReserved? q.expression = some e ∧
      ∀ truth, e.holds truth = anyHolds truth
        [[.excluded ⟨none, "b".toList, false⟩, .required ⟨none, "a".toList, false⟩],
          [.group [[.required ⟨none, "c d".toList, false⟩],
            [.required ⟨none, "e".toList, true⟩,
              .excluded ⟨some .subject, "f".toList, false⟩]]]] := by
  intro tokens q
  have haccepted : ofTokens? tokens = .ok q := by decide
  obtain ⟨-, -, alternatives, houtline, hmeaning⟩ := ofTokens?_preserves_meaning haccepted
  cases houtline
  obtain ⟨e, hread, -, hholds⟩ := hmeaning (by decide) (by decide)
  exact ⟨haccepted, e, hread, hholds⟩

/-- What is written for an accepted search is well formed, and its terms are those that the tokens
stand for: no character of a value is read as anything else. The index, for which a null character
ends a text, sees the whole of it unless there is one. -/
theorem ofTokens?_wellFormed {tokens : List Token} {q : Query} (h : ofTokens? tokens = .ok q)
    (hne : q.expression ≠ []) :
    ∃ e, Expression.ofReserved? q.expression = some e ∧
      Expression.ofWritten? q.expression = some e ∧
      e.terms.Perm (tokens.filterMap Token.term?) ∧
      (Expression.ofText? q.expression = some e ↔ '\x00' ∉ q.expression) := by
  obtain ⟨-, alternatives, houtline, hwritten⟩ := ofTokens?_spec h
  rcases hwritten with ⟨hempty, -⟩ | ⟨symbols, e, htranslates⟩
  · exact absurd hempty hne
  · have hterms := htranslates.terms
    rw [terms_outline houtline] at hterms
    exact ⟨e, htranslates.ofReserved?, htranslates.ofWritten?, hterms, htranslates.ofText?_iff⟩

/-- Values that look like the syntax of an expression. -/
theorem ofTokens?_wellFormed_of_syntax :
    let tokens : List Token := [.exclusion "AND".toList, .word "\"x) OR (y".toList,
      .filter .subject "body:z**".toList false, .or, .phrase "NEAR".toList]
    let q : Query :=
      ⟨"\"\"\"x) OR (y\" NOT \"AND\" AND subject:\"body:z*\"* OR \"NEAR\"".toList, []⟩
    ofTokens? tokens = .ok q ∧ q.expression ≠ [] ∧
      ∃ e, Expression.ofReserved? q.expression = some e ∧
        e.terms.Perm [⟨none, "AND".toList, false⟩, ⟨none, "\"x) OR (y".toList, false⟩,
          ⟨some .subject, "body:z*".toList, true⟩, ⟨none, "NEAR".toList, false⟩] := by
  intro tokens q
  have haccepted : ofTokens? tokens = .ok q := by decide
  have hne : q.expression ≠ [] := by decide
  obtain ⟨e, hread, -, hterms, -⟩ := ofTokens?_wellFormed haccepted hne
  exact ⟨haccepted, hne, e, hread, hterms⟩

end MailIndex.Query
