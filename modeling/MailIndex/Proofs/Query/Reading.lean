import MailIndex.Proofs.Query.Meaning
import MailIndex.Query.Parsed

/-!
# What a token does to a reading

A token opens or closes a group, begins an alternative, adds a required or an excluded term, adds a
structured filter, or leaves nothing. All that is known of a step is said here once: what it found
and what it made of it, or why it was refused.
-/

namespace MailIndex.Query

open Text Match

/-! ## Tokens -/

def Token.isMark : Token → Bool
  | .or => true
  | .opening => true
  | .closing => true
  | _ => false

def Token.isStructured : Token → Bool
  | .filter .sender value _ => '@' ∈ value
  | .filter .recipient value _ => '@' ∈ value
  | .filter .subject _ _ => false
  | .filter .attachment _ _ => false
  | .filter .. => true
  | _ => false

theorem Token.isMark_of_item? {token : Token} {item : Item} (h : token.item? = some item) :
    token.isMark = false := by
  cases token with
  | or => cases h
  | opening => cases h
  | closing => cases h
  | _ => rfl

theorem Token.structured?_of_not_isStructured {token : Token} (h : token.isStructured = false) :
    token.structured? = none := by
  cases token with
  | filter field value negated =>
      cases field with
      | sender => simpa [Token.isStructured, Token.structured?] using h
      | recipient => simpa [Token.isStructured, Token.structured?] using h
      | subject => rfl
      | attachment => rfl
      | _ => cases h
  | _ => rfl

theorem Token.isStructured_of_item? {token : Token} {item : Item} (h : token.item? = some item) :
    token.isStructured = false := by
  cases token with
  | filter field value negated =>
      cases field with
      | sender =>
          by_cases hat : '@' ∈ value
          · simp [Token.item?, Token.term?, hat] at h
          · simpa [Token.isStructured] using hat
      | recipient =>
          by_cases hat : '@' ∈ value
          · simp [Token.item?, Token.term?, hat] at h
          · simpa [Token.isStructured] using hat
      | subject => rfl
      | attachment => rfl
      | _ => cases h
  | _ => rfl

theorem Token.isMark_of_isStructured {token : Token} (h : token.isStructured = true) :
    token.isMark = false := by
  cases token with
  | filter => rfl
  | _ => cases h

/-! ## Contributions -/

theorem toTerm_ofWord? (column : Option Column) (word : Text) :
    (SearchTerm.ofWord? column word).map (·.toTerm) = wordTerm? column word := by
  unfold SearchTerm.ofWord? wordTerm?
  by_cases hsearchable : isSearchable (splitStar word).1 = true
  · simp [hsearchable]
  · simp [hsearchable]

theorem toTerm_ofPhrase? (phrase : Text) :
    (SearchTerm.ofPhrase? phrase).map (·.toTerm) = (Token.phrase phrase).term? := by
  unfold SearchTerm.ofPhrase? Token.term?
  by_cases hsearchable : isSearchable phrase = true
  · simp [hsearchable]
  · simp [hsearchable]

def Contribution.item? : Contribution → Option Item
  | .required t => some (.required t.toTerm)
  | .excluded t => some (.excluded t.toTerm)
  | _ => none

def Contribution.predicate? : Contribution → Option Predicate
  | .predicate p => some p
  | _ => none

structure Contribution.Fits (c : Contribution) (token : Token) : Prop where
  item : c.item? = token.item?
  predicate : c.predicate? = token.structured?
  structured : c.predicate?.isSome = token.isStructured

theorem fits_predicate {p : Predicate} {token : Token} (hitem : token.item? = none)
    (hpredicate : token.structured? = some p) (hstructured : token.isStructured = true) :
    (Contribution.predicate p).Fits token :=
  ⟨hitem.symm, hpredicate.symm, hstructured.symm⟩

theorem fits_inColumn {column : Column} {value : Text} {negated : Bool} {token : Token}
    (hitem : token.item? = (wordTerm? (some column) value).map (Item.ofTerm negated))
    (hstructured : token.isStructured = false) : (inColumn column value negated).Fits token := by
  have hpredicate := Token.structured?_of_not_isStructured hstructured
  rw [← toTerm_ofWord?] at hitem
  unfold inColumn
  cases hfound : SearchTerm.ofWord? (some column) value with
  | none =>
      rw [hfound] at hitem
      exact ⟨hitem.symm, hpredicate.symm, hstructured.symm⟩
  | some t =>
      rw [hfound] at hitem
      cases negated <;> exact ⟨hitem.symm, hpredicate.symm, hstructured.symm⟩

theorem fits_onDate {field : Field} {op : DateOp} {value : Text} {negated : Bool} {c : Contribution}
    {token : Token} (h : onDate field op value negated = .ok c) (hitem : token.item? = none)
    (hpredicate : token.structured? =
      (normalizeDay? value).map (.dated (if negated then op.flipped else op)))
    (hstructured : token.isStructured = true) : c.Fits token := by
  unfold onDate at h
  cases hday : normalizeDay? value with
  | none => simp [hday] at h
  | some day =>
      simp only [hday, Except.ok.injEq] at h
      subst h
      rw [hday] at hpredicate
      exact fits_predicate hitem hpredicate hstructured

theorem fits_contribution {field : Field} {value : Text} {negated : Bool} {c : Contribution}
    (h : contribution field value negated = .ok c) : c.Fits (.filter field value negated) := by
  unfold contribution at h
  cases field with
  | sender =>
      by_cases hat : '@' ∈ value
      · simp only [hat, if_true, Except.ok.injEq] at h
        subst h
        exact fits_predicate (by simp [Token.item?, Token.term?, hat])
          (by simp [Token.structured?, hat]) (by simp [Token.isStructured, hat])
      · simp only [hat, if_false, Except.ok.injEq] at h
        subst h
        exact fits_inColumn (by simp [Token.item?, Token.term?, Token.isNegated, hat])
          (by simp [Token.isStructured, hat])
  | recipient =>
      by_cases hat : '@' ∈ value
      · simp only [hat, if_true, Except.ok.injEq] at h
        subst h
        exact fits_predicate (by simp [Token.item?, Token.term?, hat])
          (by simp [Token.structured?, hat]) (by simp [Token.isStructured, hat])
      · simp only [hat, if_false, Except.ok.injEq] at h
        subst h
        exact fits_inColumn (by simp [Token.item?, Token.term?, Token.isNegated, hat])
          (by simp [Token.isStructured, hat])
  | subject =>
      cases h
      exact fits_inColumn rfl rfl
  | attachment =>
      cases h
      exact fits_inColumn rfl rfl
  | label =>
      cases h
      exact fits_predicate rfl rfl rfl
  | before => exact fits_onDate h rfl (by cases negated <;> rfl) rfl
  | after => exact fits_onDate h rfl (by cases negated <;> rfl) rfl
  | has =>
      simp only at h
      split at h
      · cases h
        exact fits_predicate rfl rfl rfl
      · cases h

/-- A value is refused for its own sake. -/
theorem kind_of_contribution_error {field : Field} {value : Text} {negated : Bool} {e : Error}
    (h : contribution field value negated = .error e) : e.kind = .filterValue := by
  have hdate {op : DateOp} (h : onDate field op value negated = .error e) :
      e.kind = .filterValue := by
    unfold onDate at h
    split at h
    · cases h
    · cases h
      rfl
  unfold contribution at h
  cases field with
  | sender =>
      simp only at h
      split at h <;> cases h
  | recipient =>
      simp only at h
      split at h <;> cases h
  | subject => cases h
  | attachment => cases h
  | label => cases h
  | before => exact hdate h
  | after => exact hdate h
  | has =>
      simp only at h
      split at h
      · cases h
      · cases h
        rfl

/-! ## Steps -/

theorem Outlining.step_of_not_isMark (o : Outlining) {token : Token} (h : token.isMark = false) :
    o.step token = some { o with inner := o.inner.take token.item? } := by
  cases token with
  | or => cases h
  | opening => cases h
  | closing => cases h
  | _ => rfl

theorem Outlining.step_of_item? (o : Outlining) {token : Token} {item : Item}
    (h : token.item? = some item) : o.step token = some { o with inner := o.inner.add item } := by
  rw [o.step_of_not_isMark (Token.isMark_of_item? h), h]
  rfl

theorem Outlining.step_of_silent (o : Outlining) {token : Token} (hmark : token.isMark = false)
    (h : token.item? = none) : o.step token = some o := by
  rw [o.step_of_not_isMark hmark, h]
  rfl

/-- What is known when a reading has taken up a token. -/
inductive Takes (r : Reading) : Token → Reading → Prop
  | opening :
    Takes r .opening ⟨.empty, r.inner :: r.outer, r.predicates, false⟩
  /-- A group without terms is left out. -/
  | vanishing {parent : Group} {outer : List Group} (houter : r.outer = parent :: outer)
    (hclose : r.inner.close = .ok none) :
    Takes r .closing ⟨parent, outer, r.predicates, false⟩
  | closing {parent : Group} {outer : List Group} {expression : Text}
    (houter : r.outer = parent :: outer) (hclose : r.inner.close = .ok (some expression)) :
    Takes r .closing ⟨parent.require (parenthesized expression), outer, r.predicates, false⟩
  | required {token : Token} (t : SearchTerm) (hitem : token.item? = some (.required t.toTerm)) :
    Takes r token (r.update (·.require t.render))
  | excluded {token : Token} (t : SearchTerm) (hitem : token.item? = some (.excluded t.toTerm)) :
    Takes r token (r.update (·.exclude t.render))
  /-- A term without anything to look for. -/
  | dropped {token : Token} (hmark : token.isMark = false) (hitem : token.item? = none)
    (hstructured : token.isStructured = false) :
    Takes r token (r.update id)
  | structured {token : Token} {p : Predicate} (hstructured : token.isStructured = true)
    (hitem : token.item? = none) (hpredicate : token.structured? = some p)
    (hawaiting : r.inner.awaiting = false) :
    Takes r token { r with predicates := r.predicates ++ [p], afterPredicate := true }
  | or {g : Group} (hafter : r.afterPredicate = false)
    (hopen : r.inner.openAlternative = .ok g) :
    Takes r .or { r with inner := g, afterPredicate := false }

/-- Why a reading refuses a token. -/
inductive Refuses (r : Reading) : Token → Error → Prop
  | unmatched (houter : r.outer = []) : Refuses r .closing .unmatchedClosing
  | unfinished {e : Error} (houter : r.outer ≠ []) (hclose : r.inner.close = .error e) :
    Refuses r .closing e
  | afterStructured (hafter : r.afterPredicate = true) : Refuses r .or .orWithFilter
  | missing (hterm : r.inner.hasTerm = false) : Refuses r .or .orNeedsTerms
  | beforeStructured {token : Token} (hstructured : token.isStructured = true)
    (hawaiting : r.inner.awaiting = true) : Refuses r token .orWithFilter
  | value {token : Token} {e : Error} (hvalue : e.kind = .filterValue) : Refuses r token e

theorem takes_required {r : Reading} {token : Token} (found : Option SearchTerm)
    (hmark : token.isMark = false) (hstructured : token.isStructured = false)
    (hitem : token.item? = (found.map (·.toTerm)).map (Item.ofTerm false)) :
    Takes r token (r.update fun g => (found.map (g.require ·.render)).getD g) := by
  cases found with
  | none => exact .dropped hmark hitem hstructured
  | some t => exact .required t hitem

theorem takes_contribute {r r' : Reading} {token : Token} {c : Contribution} (hfits : c.Fits token)
    (hmark : token.isMark = false) (h : r.contribute c = .ok r') : Takes r token r' := by
  obtain ⟨hitem, hpredicate, hstructured⟩ := hfits
  unfold Reading.contribute at h
  cases c with
  | required t =>
      cases h
      exact .required t hitem.symm
  | excluded t =>
      cases h
      exact .excluded t hitem.symm
  | nothing =>
      cases h
      exact .dropped hmark hitem.symm hstructured.symm
  | predicate p =>
      cases hawaiting : r.inner.awaiting with
      | true => simp [hawaiting] at h
      | false =>
          simp only [hawaiting, Bool.false_eq_true, if_false, Except.ok.injEq] at h
          subst h
          exact .structured hstructured.symm hitem.symm hpredicate.symm hawaiting

theorem refuses_contribute {r : Reading} {token : Token} {c : Contribution} {e : Error}
    (hfits : c.Fits token) (h : r.contribute c = .error e) : Refuses r token e := by
  unfold Reading.contribute at h
  cases c with
  | required t => cases h
  | excluded t => cases h
  | nothing => cases h
  | predicate p =>
      cases hawaiting : r.inner.awaiting with
      | false => simp [hawaiting] at h
      | true =>
          simp only [hawaiting, if_true] at h
          cases h
          exact .beforeStructured hfits.structured.symm hawaiting

theorem takes_of_step {r r' : Reading} {token : Token} (h : r.step token = .ok r') :
    Takes r token r' := by
  unfold Reading.step at h
  cases token with
  | opening =>
      cases h
      exact .opening
  | closing =>
      simp only at h
      unfold Reading.closeGroup at h
      cases houter : r.outer with
      | nil => simp [houter] at h
      | cons parent outer =>
          cases hclose : r.inner.close with
          | error e => simp [houter, hclose] at h
          | ok result =>
              simp only [houter, hclose] at h
              cases result with
              | none =>
                  cases h
                  exact .vanishing houter hclose
              | some expression =>
                  cases h
                  exact .closing houter hclose
  | word value =>
      cases h
      exact takes_required _ rfl rfl (by rw [toTerm_ofWord?]; rfl)
  | phrase value =>
      cases h
      exact takes_required _ rfl rfl (by rw [toTerm_ofPhrase?]; rfl)
  | exclusion value =>
      cases h
      have hitem : (Token.exclusion value).item? =
          ((SearchTerm.ofWord? none value).map (·.toTerm)).map (Item.ofTerm true) := by
        rw [toTerm_ofWord?]
        rfl
      cases hfound : SearchTerm.ofWord? none value with
      | none =>
          rw [hfound] at hitem
          exact .dropped rfl hitem rfl
      | some t =>
          rw [hfound] at hitem
          exact .excluded t hitem
  | or =>
      cases hafter : r.afterPredicate with
      | true => simp [hafter] at h
      | false =>
          cases hopen : r.inner.openAlternative with
          | error e => simp [hafter, hopen, Except.map] at h
          | ok g =>
              simp only [hafter, hopen, Except.map, Bool.false_eq_true, if_false,
                Except.ok.injEq] at h
              subst h
              exact .or hafter hopen
  | filter field value negated =>
      cases hc : contribution field value negated with
      | error e =>
          simp only [hc] at h
          cases h
      | ok c =>
          simp only [hc] at h
          exact takes_contribute (fits_contribution hc) rfl h

theorem refuses_of_step {r : Reading} {token : Token} {e : Error} (h : r.step token = .error e) :
    Refuses r token e := by
  unfold Reading.step at h
  cases token with
  | opening => cases h
  | closing =>
      simp only at h
      unfold Reading.closeGroup at h
      cases houter : r.outer with
      | nil =>
          simp only [houter] at h
          cases h
          exact .unmatched houter
      | cons parent outer =>
          have hopen : r.outer ≠ [] := by simp [houter]
          cases hclose : r.inner.close with
          | error reason =>
              simp only [houter, hclose] at h
              cases h
              exact .unfinished hopen hclose
          | ok result => cases result <;> simp [houter, hclose] at h
  | word value => cases h
  | phrase value => cases h
  | exclusion value => cases h
  | or =>
      cases hafter : r.afterPredicate with
      | true =>
          simp only [hafter, if_true] at h
          cases h
          exact .afterStructured hafter
      | false =>
          cases hterm : r.inner.hasTerm with
          | true => simp [hafter, Group.openAlternative, hterm, Except.map] at h
          | false =>
              simp only [hafter, Group.openAlternative, hterm, Except.map, Bool.false_eq_true,
                if_false] at h
              cases h
              exact .missing hterm
  | filter field value negated =>
      cases hc : contribution field value negated with
      | error reason =>
          simp only [hc] at h
          cases h
          exact .value (kind_of_contribution_error hc)
      | ok c =>
          simp only [hc] at h
          exact refuses_contribute (fits_contribution hc) h

/-! ## Several tokens -/

theorem exists_middle {before after : List Token} {r last : Reading}
    (h : (before ++ after).foldlM Reading.step r = .ok last) :
    ∃ r', before.foldlM Reading.step r = .ok r' ∧ after.foldlM Reading.step r' = .ok last := by
  rw [List.foldlM_append] at h
  cases hbefore : before.foldlM Reading.step r with
  | error e =>
      rw [hbefore] at h
      cases h
  | ok r' =>
      rw [hbefore] at h
      exact ⟨r', rfl, h⟩

theorem exists_taken {token : Token} {tokens : List Token} {r last : Reading}
    (h : (token :: tokens).foldlM Reading.step r = .ok last) :
    ∃ r', r.step token = .ok r' ∧ tokens.foldlM Reading.step r' = .ok last := by
  rw [List.foldlM_cons] at h
  cases hstep : r.step token with
  | error e =>
      rw [hstep] at h
      cases h
  | ok r' =>
      rw [hstep] at h
      exact ⟨r', rfl, h⟩

theorem exists_refused {tokens : List Token} {r : Reading} {e : Error}
    (h : tokens.foldlM Reading.step r = .error e) :
    ∃ before token after r', tokens = before ++ token :: after ∧
      before.foldlM Reading.step r = .ok r' ∧ Refuses r' token e := by
  induction tokens generalizing r with
  | nil => cases h
  | cons token tokens ih =>
      rw [List.foldlM_cons] at h
      cases hstep : r.step token with
      | error reason =>
          rw [hstep] at h
          cases h
          exact ⟨[], token, tokens, r, rfl, rfl, refuses_of_step hstep⟩
      | ok next =>
          rw [hstep] at h
          obtain ⟨before, refused, after, r', htokens, hrun, hrefused⟩ := ih h
          refine ⟨token :: before, refused, after, r', by rw [htokens]; rfl, ?_, hrefused⟩
          rw [List.foldlM_cons, hstep]
          exact hrun

end MailIndex.Query
