import MailIndex.Proofs.Query.Disjunction

/-!
# Structured filters beside an OR

A structured filter applies to every result, so it must not stand beside an OR. What is refused is
an OR right after a structured filter, and a structured filter in a group where an OR waits. Between
a filter and an OR after it any other token hides the one from the other; between an OR and a filter
after it only an open parenthesis does.
-/

namespace MailIndex.Query

open Text

/-- Whether a token is left when parentheses, and terms without anything to look for, are
deleted. -/
def Token.isKept (token : Token) : Bool :=
  token == .or || token.isStructured || token.item?.isSome

def Token.Clash (left right : Token) : Prop :=
  left = .or ∧ right.isStructured = true ∨ left.isStructured = true ∧ right = .or

/-- A structured filter is followed by an OR, or stands in a group where an OR waits. -/
def FilterBesideOr (tokens : List Token) : Prop :=
  ∃ before filter after, tokens = before ++ filter :: after ∧ filter.isStructured = true ∧
    (after.head? = some .or ∨
      ∃ o, before.foldlM Outlining.step .start = some o ∧ o.inner.waits = true)

/-! ## What is refused -/

theorem Group.close_error {g : Group} {e : Error} (h : g.close = .error e) :
    e = .orNeedsTerms ∨ e = .exclusionNeedsTerm := by
  unfold Group.close at h
  split at h
  · cases h
    exact .inl rfl
  · split at h
    · cases h
      exact .inr rfl
    · split at h <;> cases h

/-- A reading is after a structured filter only if that was its last token. -/
theorem exists_structured {tokens : List Token} {r : Reading}
    (h : tokens.foldlM Reading.step Reading.initial = .ok r) (hafter : r.afterPredicate = true) :
    ∃ before filter, tokens = before ++ [filter] ∧ filter.isStructured = true := by
  rcases List.eq_nil_or_concat tokens with rfl | ⟨before, filter, rfl⟩
  · cases h
    cases hafter
  · rw [List.concat_eq_append] at h
    obtain ⟨middle, -, hlast⟩ := exists_middle h
    obtain ⟨r', hstep, hend⟩ := exists_taken hlast
    cases hend
    refine ⟨before, filter, by simp, ?_⟩
    cases takes_of_step hstep with
    | structured hstructured => exact hstructured
    | _ => cases hafter

theorem besideOr_of_orWithFilter {tokens : List Token}
    (h : ofTokens? tokens = .error .orWithFilter) : FilterBesideOr tokens := by
  rcases exists_rejected h with ⟨before, token, after, r, htokens, hbefore, hrefused⟩ |
    ⟨r, -, ⟨-, hreason⟩ | ⟨-, hclose⟩⟩
  · cases hrefused with
    | unfinished houter hclose =>
        rcases Group.close_error hclose with hreason | hreason <;> cases hreason
    | afterStructured hafter =>
        obtain ⟨front, filter, hfront, hstructured⟩ := exists_structured hbefore hafter
        refine ⟨front, filter, .or :: after, ?_, hstructured, .inl rfl⟩
        rw [htokens, hfront]
        simp
    | beforeStructured hstructured hawaiting =>
        obtain ⟨o, ho, hwatches⟩ := watches_initial.run hbefore
        have hwaits : o.inner.waits = true := hwatches.mindsInner.awaiting.symm.trans hawaiting
        exact ⟨before, token, after, htokens, hstructured, .inr ⟨o, ho, hwaits⟩⟩
    | value hvalue => cases hvalue
  · cases hreason
  · rcases Group.close_error hclose with hreason | hreason <;> cases hreason

theorem exists_read_at {before after : List Token} {token : Token} {q : Query}
    (h : ofTokens? (before ++ token :: after) = .ok q) :
    ∃ r r' o, before.foldlM Reading.step Reading.initial = .ok r ∧ Takes r token r' ∧
      (∃ last, after.foldlM Reading.step r' = .ok last) ∧
      before.foldlM Outlining.step .start = some o ∧ Watches r o := by
  obtain ⟨last, hrun, -⟩ := exists_read h
  obtain ⟨r, hbefore, hrest⟩ := exists_middle hrun
  obtain ⟨r', hstep, hafter⟩ := exists_taken hrest
  obtain ⟨o, ho, hwatches⟩ := watches_initial.run hbefore
  exact ⟨r, r', o, hbefore, takes_of_step hstep, ⟨last, hafter⟩, ho, hwatches⟩

theorem Takes.of_isStructured {r r' : Reading} {token : Token} (h : Takes r token r')
    (hstructured : token.isStructured = true) :
    r.inner.awaiting = false ∧ r'.afterPredicate = true := by
  cases h with
  | opening => cases hstructured
  | vanishing => cases hstructured
  | closing => cases hstructured
  | required t hitem =>
      rw [Token.isStructured_of_item? hitem] at hstructured
      cases hstructured
  | excluded t hitem =>
      rw [Token.isStructured_of_item? hitem] at hstructured
      cases hstructured
  | dropped hmark hitem hnot =>
      rw [hnot] at hstructured
      cases hstructured
  | structured hyes hitem hpredicate hawaiting => exact ⟨hawaiting, rfl⟩
  | or => cases hstructured

theorem not_besideOr_of_accepted {tokens : List Token} {q : Query} (h : ofTokens? tokens = .ok q) :
    ¬ FilterBesideOr tokens := by
  rintro ⟨before, filter, after, rfl, hstructured, hbeside⟩
  obtain ⟨r, r', o, -, htakes, ⟨last, hafter⟩, ho, hwatches⟩ := exists_read_at h
  obtain ⟨hawaiting, hafterPredicate⟩ := htakes.of_isStructured hstructured
  rcases hbeside with hhead | ⟨o', ho', hwaits⟩
  · cases after with
    | nil => cases hhead
    | cons token rest =>
        have htoken : token = .or := by simpa using hhead
        subst htoken
        rw [List.foldlM_cons] at hafter
        simp [Reading.step, hafterPredicate] at hafter
        cases hafter
  · rw [ho] at ho'
    cases ho'
    rw [hwatches.mindsInner.awaiting, hwaits] at hawaiting
    cases hawaiting

/-! ## What stands between -/

def Outlining.deepen (o : Outlining) : Nat → Outlining
  | 0 => o
  | depth + 1 => ⟨.empty, (o.deepen depth).inner :: (o.deepen depth).outer⟩

theorem Token.of_isKept_eq_false {token : Token} (h : token.isKept = false) :
    token ≠ .or ∧ token.isStructured = false ∧ token.item? = none := by
  have hparts : (¬ token = .or ∧ token.isStructured = false) ∧ token.item? = none := by
    simpa [Token.isKept] using h
  exact ⟨hparts.1.1, hparts.1.2, hparts.2⟩

/-- A deleted token opens an empty group, ends one, or changes nothing. A group in which an OR waits
is not ended. -/
theorem Watches.deepen_step {r r' : Reading} {o : Outlining} {depth : Nat}
    (h : Watches r (o.deepen depth)) (hwaits : o.inner.waits = true) {token : Token}
    (hdeleted : token.isKept = false) (hstep : r.step token = .ok r') :
    ∃ depth', Watches r' (o.deepen depth') ∧
      depth + [token].count .opening = depth' + [token].count .closing := by
  obtain ⟨hor, hstructured, hitem⟩ := Token.of_isKept_eq_false hdeleted
  obtain ⟨o', ho', hwatches⟩ := h.step hstep
  have hends {result : Option Text} (hclose : r.inner.close = .ok result)
      (hclosing : (o.deepen depth).step .closing = some o') :
      ∃ depth', Watches r' (o.deepen depth') ∧
        depth + [Token.closing].count .opening = depth' + [Token.closing].count .closing := by
    cases depth with
    | zero =>
        have hnot : o.inner.waits = false := h.mindsInner.waits_of_close hclose
        rw [hwaits] at hnot
        cases hnot
    | succ depth =>
        cases hclosing
        exact ⟨depth, hwatches, by simp⟩
  cases takes_of_step hstep with
  | opening =>
      cases ho'
      exact ⟨depth + 1, hwatches, by simp⟩
  | vanishing houter hclose => exact hends hclose ho'
  | closing houter hclose => exact hends hclose ho'
  | required t hsome => rw [hitem] at hsome; cases hsome
  | excluded t hsome => rw [hitem] at hsome; cases hsome
  | dropped hmark =>
      rw [Outlining.step_of_silent _ hmark hitem] at ho'
      cases ho'
      have hopening : token ≠ .opening := by
        rintro rfl
        cases hmark
      have hclosing : token ≠ .closing := by
        rintro rfl
        cases hmark
      exact ⟨depth, hwatches, by rw [Token.count_of_ne hopening, Token.count_of_ne hclosing]⟩
  | structured hyes => rw [hstructured] at hyes; cases hyes
  | or => exact absurd rfl hor

theorem Watches.deepen_run {gap : List Token} {r r' : Reading} {o : Outlining} {depth : Nat}
    (h : Watches r (o.deepen depth)) (hwaits : o.inner.waits = true)
    (hdeleted : ∀ token ∈ gap, token.isKept = false)
    (hrun : gap.foldlM Reading.step r = .ok r') :
    ∃ depth', Watches r' (o.deepen depth') ∧
      depth + gap.count .opening = depth' + gap.count .closing := by
  induction gap generalizing r depth with
  | nil =>
      cases hrun
      exact ⟨depth, h, rfl⟩
  | cons token gap ih =>
      obtain ⟨hfirst, hrest⟩ := List.forall_mem_cons.mp hdeleted
      obtain ⟨next, hstep, hafter⟩ := exists_taken hrun
      obtain ⟨middle, hmiddle, hcount⟩ := h.deepen_step hwaits hfirst hstep
      obtain ⟨depth', hwatches, hcount'⟩ := ih hmiddle hrest hafter
      refine ⟨depth', hwatches, ?_⟩
      rw [Token.count_cons .opening, Token.count_cons .closing]
      omega

/-- In an accepted list of tokens a filter with nothing between it and an OR to its left stands
deeper than that OR. -/
theorem deeper_of_accepted {before gap after : List Token} {filter : Token} {q : Query}
    (h : ofTokens? (before ++ .or :: (gap ++ filter :: after)) = .ok q)
    (hstructured : filter.isStructured = true)
    (hdeleted : ∀ token ∈ gap, token.isKept = false) :
    gap.count .closing < gap.count .opening := by
  obtain ⟨last, hrun, -⟩ := exists_read h
  obtain ⟨r, hbefore, hrest⟩ := exists_middle hrun
  obtain ⟨waiting, hor, hrest'⟩ := exists_taken hrest
  obtain ⟨r', hgap, hfilter⟩ := exists_middle hrest'
  obtain ⟨r'', hstep, -⟩ := exists_taken hfilter
  obtain ⟨o, -, hwatches⟩ := watches_initial.run hbefore
  obtain ⟨o', ho', hwatches'⟩ := hwatches.step hor
  cases ho'
  have hwaits : o.inner.next.waits = true := by simp [Sketch.waits, Sketch.next, isLed]
  have hstart : Watches waiting (Outlining.deepen ⟨o.inner.next, o.outer⟩ 0) := hwatches'
  obtain ⟨depth, hend, hcount⟩ := hstart.deepen_run hwaits hdeleted hgap
  cases depth with
  | zero =>
      have hawaiting : r'.inner.awaiting = false :=
        ((takes_of_step hstep).of_isStructured hstructured).1
      rw [hend.mindsInner.awaiting] at hawaiting
      cases hwaits.symm.trans hawaiting
  | succ depth => omega

theorem exists_gap {tokens : List Token} {left right : Token}
    (h : [left, right] <:+: tokens.filter Token.isKept) :
    ∃ before gap after, tokens = before ++ left :: (gap ++ right :: after) ∧
      ∀ token ∈ gap, token.isKept = false := by
  obtain ⟨front, back, hfilter⟩ := h
  rw [List.append_assoc] at hfilter
  obtain ⟨skipped, rest, rfl, -, hrest⟩ := List.filter_eq_append_iff.mp hfilter.symm
  obtain ⟨before, rest, rfl, -, -, hrest⟩ := List.filter_eq_cons_iff.mp hrest
  obtain ⟨gap, after, rfl, hgap, -, -⟩ := List.filter_eq_cons_iff.mp hrest
  refine ⟨skipped ++ before, gap, after, by simp, fun token htoken => ?_⟩
  simpa using hgap token htoken

/-- Where structured filters may stand. When parentheses and terms without anything to look for are
deleted and an OR and a structured filter are neighbours, the search is refused, unless something
stood between a filter and the OR after it, or the filter after an OR stands deeper than the OR.
What is refused for this reason is exactly a filter that an OR follows, or that stands in a group
where an OR waits. -/
theorem ofTokens?_filter_placement (tokens : List Token) :
    (∀ left right, Token.Clash left right → [left, right] <:+: tokens.filter Token.isKept →
      (∃ e, ofTokens? tokens = .error e) ∨
        ∃ before gap after, tokens = before ++ left :: (gap ++ right :: after) ∧
          (∀ token ∈ gap, token.isKept = false) ∧
          (left = .or → gap.count .closing < gap.count .opening) ∧
          (right = .or → gap ≠ [])) ∧
      (FilterBesideOr tokens → ∃ e, ofTokens? tokens = .error e) ∧
      (ofTokens? tokens = .error .orWithFilter → FilterBesideOr tokens) := by
  refine ⟨fun left right hclash hneighbours => ?_, fun hbeside => ?_, besideOr_of_orWithFilter⟩
  · cases hresult : ofTokens? tokens with
    | error e => exact .inl ⟨e, rfl⟩
    | ok q =>
        obtain ⟨before, gap, after, rfl, hdeleted⟩ := exists_gap hneighbours
        refine .inr ⟨before, gap, after, rfl, hdeleted, ?_, ?_⟩
        · rintro rfl
          rcases hclash with ⟨-, hstructured⟩ | ⟨hstructured, -⟩
          · exact deeper_of_accepted hresult hstructured hdeleted
          · cases hstructured
        · rintro rfl rfl
          rcases hclash with ⟨-, hstructured⟩ | ⟨hstructured, -⟩
          · cases hstructured
          · exact not_besideOr_of_accepted hresult
              ⟨before, left, .or :: after, rfl, hstructured, .inl rfl⟩
  · cases hresult : ofTokens? tokens with
    | error e => exact ⟨e, rfl⟩
    | ok q => exact absurd hbeside (not_besideOr_of_accepted hresult)

/-- Between an OR and a filter after it a term without anything to look for makes no difference; one
between a filter and the OR after it hides the filter. -/
theorem ofTokens?_filter_placement_of_dropped :
    let x : Token := .word "x".toList
    let mark : Token := .word "!".toList
    let label : Token := .filter .label "a".toList false
    (∃ e, ofTokens? [x, .or, mark, label] = .error e) ∧
      (∃ e, ofTokens? [x, label, .or, x] = .error e) ∧
      ofTokens? [x, label, mark, .or, x] = .ok ⟨"x OR x".toList, [.labelled "a".toList false]⟩ ∧
      ∃ before gap after, [x, label, mark, .or, x] = before ++ label :: (gap ++ .or :: after) ∧
        gap ≠ [] := by
  intro x mark label
  have hright : FilterBesideOr [x, .or, mark, label] :=
    ⟨[x, .or, mark], label, [], rfl, rfl, .inr ⟨_, rfl, rfl⟩⟩
  have hleft : FilterBesideOr [x, label, .or, x] := ⟨[x], label, [.or, x], rfl, rfl, .inl rfl⟩
  have haccepted : ofTokens? [x, label, mark, .or, x] =
      .ok ⟨"x OR x".toList, [.labelled "a".toList false]⟩ := by decide
  refine ⟨(ofTokens?_filter_placement _).2.1 hright, (ofTokens?_filter_placement _).2.1 hleft,
    haccepted, ?_⟩
  have hneighbours : [label, .or] <:+: [x, label, mark, .or, x].filter Token.isKept :=
    ⟨[x], [x], by decide⟩
  rcases (ofTokens?_filter_placement _).1 label .or (.inr ⟨rfl, rfl⟩) hneighbours with
    ⟨e, herror⟩ | ⟨before, gap, after, htokens, -, -, hgap⟩
  · rw [haccepted] at herror
    cases herror
  · exact ⟨before, gap, after, htokens, hgap rfl⟩

end MailIndex.Query
