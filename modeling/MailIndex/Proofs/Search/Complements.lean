import MailIndex.Proofs.Query.Filters
import MailIndex.Proofs.Search.Conditions

/-!
# Filters and their negations

Every column that may be null has its own treatment in a negated condition, so that a document without
a value is among those that the filter does not select. Only the two sides of a day both leave out the
documents without a date.
-/

namespace MailIndex

open Condition

def Condition.Row.document (r : Row) : Document where
  seq := 0
  id := []
  account := none
  sourcePath := none
  contentHash := none
  indexedHash := none
  eventDate := r.eventDate
  derived := some ⟨[], [], r.senderEmail, [], r.recipientEmails, r.labels, r.hasAttachments, []⟩
  indexedAt := none

namespace Query

namespace Predicate

variable {p : Predicate} {d : Document}

/-- Whatever the columns of a document are, a filter and its negation divide the documents, unless
they ask for a date that is not there. -/
theorem accepts_negation_iff (h : p.isDated = true → d.eventDate ≠ none) :
    p.negation.Accepts d ↔ ¬p.Accepts d := by
  cases p with
  | senderIs email negated => cases negated <;> simp [negation, Accepts]
  | recipientIs email negated => cases negated <;> simp [negation, Accepts]
  | labelled text negated => cases negated <;> simp [negation, Accepts]
  | dated op day =>
      obtain ⟨date, hdate⟩ := Option.ne_none_iff_exists'.mp (h rfl)
      cases op <;> simp [negation, DateOp.flipped, Accepts, hdate]
  | hasAttachments wanted => cases wanted <;> simp [negation, Accepts]

theorem not_accepts_of_undated (hdated : p.isDated = true) (hnone : d.eventDate = none) :
    ¬p.Accepts d := by
  cases p with
  | dated op day => cases op <;> simp [Accepts, hnone]
  | _ => cases hdated

/-- A filter selects a row if its condition is true for it, not if it is undecided. -/
def TrueFor (p : Predicate) (r : Row) : Prop := p.formula.truth r p.value? = some true

instance (p : Predicate) (r : Row) : Decidable (p.TrueFor r) := inferInstanceAs (Decidable (_ = _))

theorem trueFor_ofDocument_iff : p.TrueFor (.ofDocument d) ↔ p.selects d = true := by
  unfold TrueFor selects
  rw [truth_formula, beq_iff_eq]

theorem trueFor_iff (r : Row) : p.TrueFor r ↔ p.Accepts r.document :=
  (trueFor_ofDocument_iff (d := r.document)).trans selects_iff

end Predicate

/-- In an accepted search every structured filter asks for a predicate, and the same filter with the
minus sign changed for its negation. Every row, whichever of its columns are null, satisfies the
condition of exactly one of the two, except that a row without a date satisfies neither side of a
filter for dates. The conditions are those that the store is asked, and what they select of the
documents is what the filters do. -/
theorem filter_and_negation_divide {tokens : List Token} {q : Query} {field : Field} {value : Text}
    {negated : Bool} (h : ofTokens? tokens = .ok q) (hmem : .filter field value negated ∈ tokens)
    (hstructured : (Token.filter field value negated).isStructured = true) :
    ∃ p : Predicate,
      (∀ minus, ofTokens? [.filter field value minus] =
        .ok ⟨[], [if minus then p.negation else p]⟩) ∧
      (if negated then p.negation else p) ∈ q.predicates ∧
      (∀ r : Row, ¬(field.isDate = true ∧ r.eventDate = none) →
        (p.negation.TrueFor r ↔ ¬p.TrueFor r)) ∧
      (∀ r : Row, field.isDate = true → r.eventDate = none →
        ¬p.TrueFor r ∧ ¬p.negation.TrueFor r) ∧
      ∀ side ∈ [p, p.negation], side.formula.written = side.condition ∧
        ∀ d, side.selects d = true ↔ side.TrueFor (.ofDocument d) := by
  obtain ⟨p, hasks, hdated, hpredicate⟩ := asksFor_of_mem h hmem hstructured
  refine ⟨p, fun minus => hasks.ofTokens? minus 1, hpredicate, fun r hvalue => ?_, fun r hdate hnone => ?_,
    fun side _ => ⟨side.written_formula, fun d => Predicate.trueFor_ofDocument_iff.symm⟩⟩
  · rw [Predicate.trueFor_iff, Predicate.trueFor_iff]
    exact Predicate.accepts_negation_iff fun hp hnone => hvalue ⟨hdated ▸ hp, hnone⟩
  · have hp : p.isDated = true := hdated.trans hdate
    rw [Predicate.trueFor_iff, Predicate.trueFor_iff]
    exact ⟨Predicate.not_accepts_of_undated hp hnone,
      Predicate.not_accepts_of_undated (p.isDated_negation.trans hp) hnone⟩

/-- A row of nulls satisfies the excluded label and neither side of the day. -/
theorem filter_and_negation_divide_of_nulls :
    let tokens : List Token := [.word ['a'], .filter .label ['b'] true,
      .filter .before "20240231".toList false]
    let q : Query := ⟨['a'], [.labelled ['b'] true, .dated .before "2024-02-31".toList]⟩
    let nulls : Row := ⟨none, none, none, none, false⟩
    ofTokens? tokens = .ok q ∧
    (Predicate.labelled ['b'] true).TrueFor nulls ∧
    ¬(Predicate.dated .before "2024-02-31".toList).TrueFor nulls ∧
    ¬(Predicate.dated .onOrAfter "2024-02-31".toList).TrueFor nulls := by
  intro tokens q nulls
  have haccepted : ofTokens? tokens = .ok q := by decide
  have hlabel : Token.filter .label ['b'] true ∈ tokens := by decide
  have hday : Token.filter .before "20240231".toList false ∈ tokens := by decide
  have halone : ofTokens? [.filter .label ['b'] false] = .ok ⟨[], [.labelled ['b'] false]⟩ := by
    decide
  have hdayAlone : ofTokens? [.filter .before "20240231".toList false] =
      .ok ⟨[], [.dated .before "2024-02-31".toList]⟩ := by decide
  obtain ⟨p, hp, -, hdivides, -⟩ := filter_and_negation_divide haccepted hlabel rfl
  obtain ⟨p', hp', -, -, hneither, -⟩ := filter_and_negation_divide haccepted hday rfl
  cases (hp false).symm.trans halone
  cases (hp' false).symm.trans hdayAlone
  exact ⟨haccepted, (hdivides nulls (by decide)).mpr (by decide), hneither nulls rfl rfl⟩

end Query

end MailIndex
