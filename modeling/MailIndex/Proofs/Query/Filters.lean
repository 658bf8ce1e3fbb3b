import MailIndex.Proofs.Query.Terms
import MailIndex.Proofs.Query.Translation

/-!
# Searches of one filter

A structured filter asks for one predicate, and with a minus sign for the opposite one. Alone it makes
a search without terms, however often it stands there; among other tokens its predicate is one of those
that apply to every result.
-/

namespace MailIndex.Query

open Text

/-! ## What a structured filter asks for -/

/-- A filter for a value asks for a predicate, and with a minus sign for its negation. -/
def AsksFor (field : Field) (value : Text) (p : Predicate) : Prop :=
  ∀ negated, contribution field value negated =
    .ok (.predicate (if negated then p.negation else p))

def Field.isDate : Field → Bool
  | .before => true
  | .after => true
  | _ => false

def Predicate.isDated : Predicate → Bool
  | .dated .. => true
  | _ => false

theorem Predicate.isDated_negation (p : Predicate) : p.negation.isDated = p.isDated := by
  cases p <;> rfl

theorem asksFor_sender {value : Text} (h : '@' ∈ value) :
    AsksFor .sender value (.senderIs (lower value) false) := by
  intro negated
  cases negated <;> exact if_pos h

theorem asksFor_recipient {value : Text} (h : '@' ∈ value) :
    AsksFor .recipient value (.recipientIs (lower value) false) := by
  intro negated
  cases negated <;> exact if_pos h

theorem asksFor_label (value : Text) : AsksFor .label value (.labelled value false) := by
  intro negated
  cases negated <;> rfl

theorem asksFor_has {value : Text}
    (h : asciiLower value = "attachment".toList ∨ asciiLower value = "attachments".toList) :
    AsksFor .has value (.hasAttachments true) := by
  intro negated
  cases negated <;> exact if_pos h

theorem onDate_of_normalizeDay? {value day : Text} (h : normalizeDay? value = some day)
    (field : Field) (op : DateOp) (negated : Bool) :
    onDate field op value negated =
      .ok (.predicate (if negated then (Predicate.dated op day).negation else .dated op day)) := by
  unfold onDate
  rw [h]
  cases negated <;> rfl

theorem asksFor_before {value day : Text} (h : normalizeDay? value = some day) :
    AsksFor .before value (.dated .before day) := onDate_of_normalizeDay? h .before .before

theorem asksFor_after {value day : Text} (h : normalizeDay? value = some day) :
    AsksFor .after value (.dated .onOrAfter day) := onDate_of_normalizeDay? h .after .onOrAfter

theorem exists_normalizeDay?_of_onDate {field : Field} {op : DateOp} {value : Text}
    {negated : Bool} {c : Contribution} (h : onDate field op value negated = .ok c) :
    ∃ day, normalizeDay? value = some day := by
  unfold onDate at h
  cases hday : normalizeDay? value with
  | none =>
      rw [hday] at h
      cases h
  | some day => exact ⟨day, rfl⟩

/-- A structured filter that is not refused asks for some predicate, about dates if its field does. -/
theorem exists_asksFor {field : Field} {value : Text} {negated : Bool} {c : Contribution}
    (h : contribution field value negated = .ok c)
    (hstructured : (Token.filter field value negated).isStructured = true) :
    ∃ p, AsksFor field value p ∧ p.isDated = field.isDate := by
  cases field with
  | sender =>
      have hat : '@' ∈ value := by simpa [Token.isStructured] using hstructured
      exact ⟨_, asksFor_sender hat, rfl⟩
  | recipient =>
      have hat : '@' ∈ value := by simpa [Token.isStructured] using hstructured
      exact ⟨_, asksFor_recipient hat, rfl⟩
  | subject => cases hstructured
  | attachment => cases hstructured
  | label => exact ⟨_, asksFor_label value, rfl⟩
  | before =>
      obtain ⟨day, hday⟩ := exists_normalizeDay?_of_onDate h
      exact ⟨_, asksFor_before hday, rfl⟩
  | after =>
      obtain ⟨day, hday⟩ := exists_normalizeDay?_of_onDate h
      exact ⟨_, asksFor_after hday, rfl⟩
  | has =>
      unfold contribution at h
      dsimp only at h
      split at h
      · next hname => exact ⟨_, asksFor_has hname, rfl⟩
      · cases h

section

variable {field : Field} {value : Text} {p : Predicate}

theorem AsksFor.structured? (h : AsksFor field value p) (negated : Bool) :
    (Token.filter field value negated).structured? = some (if negated then p.negation else p) :=
  (fits_contribution (h negated)).predicate.symm

/-! ## Nothing but the filter -/

def Reading.adding (r : Reading) (p : Predicate) : Reading :=
  { r with predicates := r.predicates ++ [p], afterPredicate := true }

theorem AsksFor.step (h : AsksFor field value p) (negated : Bool) {r : Reading}
    (hr : r.inner.awaiting = false) :
    r.step (.filter field value negated) =
      .ok (r.adding (if negated then p.negation else p)) := by
  unfold Reading.step
  dsimp only
  rw [h negated]
  exact if_neg (by simp [hr])

/-- The filter again and again, wherever it may stand: every time its predicate is added. -/
theorem AsksFor.run (h : AsksFor field value p) (negated : Bool) (count : Nat) {r : Reading}
    (hr : r.inner.awaiting = false) :
    ∃ last, (List.replicate count (Token.filter field value negated)).foldlM Reading.step r =
        .ok last ∧ last.inner = r.inner ∧ last.outer = r.outer ∧
      last.predicates =
        r.predicates ++ List.replicate count (if negated then p.negation else p) := by
  induction count generalizing r with
  | zero => exact ⟨r, rfl, rfl, rfl, (List.append_nil _).symm⟩
  | succ count ih =>
      rw [List.replicate_succ, List.foldlM_cons, h.step negated hr]
      obtain ⟨last, hlast, hinner, houter, hpredicates⟩ :=
        ih (r := r.adding (if negated then p.negation else p)) hr
      refine ⟨last, hlast, hinner, houter, ?_⟩
      rw [hpredicates, Reading.adding, List.append_assoc, List.replicate_succ,
        List.singleton_append]

theorem AsksFor.ofTokens? (h : AsksFor field value p) (negated : Bool) (count : Nat) :
    ofTokens? (List.replicate count (.filter field value negated)) =
      .ok ⟨[], List.replicate count (if negated then p.negation else p)⟩ := by
  obtain ⟨last, hlast, hinner, houter, hpredicates⟩ :=
    h.run negated count (r := Reading.initial) rfl
  unfold Query.ofTokens?
  rw [hlast]
  show last.finish = _
  unfold Reading.finish
  rw [houter, hinner, hpredicates]
  rfl

theorem AsksFor.parse_writtenAll (h : AsksFor field value p) {negated : Bool}
    (hvalue : IsFilterValue value negated) (count : Nat) :
    Query.parse (Token.writtenAll (List.replicate count (.filter field value negated))) =
      .ok ⟨[], List.replicate count (if negated then p.negation else p)⟩ := by
  cases count with
  | zero => rfl
  | succ count =>
      have hformed : ∀ token ∈ List.replicate (count + 1) (Token.filter field value negated),
          token.WellFormed := by
        intro token htoken
        rw [List.eq_of_mem_replicate htoken]
        exact hvalue
      have hmark : ∀ token ∈ List.replicate (count + 1) (Token.filter field value negated),
          token.isMark = false := by
        intro token htoken
        rw [List.eq_of_mem_replicate htoken]
        rfl
      rw [parse_of_tokenize (tokenize_writtenAll hformed) (List.cons_ne_nil _ _) hmark]
      exact h.ofTokens? negated (count + 1)

theorem AsksFor.parse (h : AsksFor field value p) {negated : Bool}
    (hvalue : IsFilterValue value negated) {text : Text}
    (htext : text = Token.written (.filter field value negated)) :
    parse text = .ok ⟨[], [if negated then p.negation else p]⟩ := by
  have hwritten : text = Token.writtenAll (List.replicate 1 (.filter field value negated)) := by
    simp [htext, Token.writtenAll]
  rw [hwritten]
  exact h.parse_writtenAll hvalue 1

/-! ## The filter among other tokens -/

theorem exists_contribution {r r' : Reading} {negated : Bool}
    (h : r.step (.filter field value negated) = .ok r') :
    ∃ c, contribution field value negated = .ok c := by
  unfold Reading.step at h
  dsimp only at h
  cases hcontribution : contribution field value negated with
  | error e =>
      rw [hcontribution] at h
      cases h
  | ok c => exact ⟨c, rfl⟩

/-- In an accepted search every structured filter asks for something, and what it asks for applies to
every result. -/
theorem asksFor_of_mem {tokens : List Token} {q : Query} {negated : Bool}
    (h : Query.ofTokens? tokens = .ok q) (hmem : .filter field value negated ∈ tokens)
    (hstructured : (Token.filter field value negated).isStructured = true) :
    ∃ p, AsksFor field value p ∧ p.isDated = field.isDate ∧
      (if negated then p.negation else p) ∈ q.predicates := by
  obtain ⟨before, after, rfl⟩ := List.append_of_mem hmem
  obtain ⟨last, hrun, -⟩ := exists_read h
  obtain ⟨r, -, hrest⟩ := exists_middle hrun
  obtain ⟨r', hstep, -⟩ := exists_taken hrest
  obtain ⟨c, hc⟩ := exists_contribution hstep
  obtain ⟨p, hp, hdated⟩ := exists_asksFor hc hstructured
  refine ⟨p, hp, hdated, ?_⟩
  rw [(ofTokens?_spec h).1]
  exact List.mem_filterMap.mpr ⟨_, hmem, hp.structured? negated⟩

end

end MailIndex.Query
