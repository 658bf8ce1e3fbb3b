import MailIndex.Proofs.Query.Days
import MailIndex.Proofs.Query.Filters
import MailIndex.Proofs.Search.Reference

/-!
# Days before and after

A filter for dates compares texts: the form YYYY-MM-DD of its value with what is stored, which may go
on with a time of day. A day with something behind it comes after the bare day and before the next
one, so the filter compares days, with all of the day itself on its later side.
-/

namespace MailIndex.Search

open Text Query

/-! ## Documents -/

section

variable {d : Document} {date : Text}

theorem selects_before_iff (h : d.eventDate = some date) (day : Text) :
    (Predicate.dated .before day).selects d = true ↔ date < day := by
  rw [Predicate.selects_iff]
  simp [Predicate.Accepts, h]

theorem selects_onOrAfter_iff (h : d.eventDate = some date) (day : Text) :
    (Predicate.dated .onOrAfter day).selects d = true ↔ ¬date < day := by
  rw [Predicate.selects_iff]
  simp [Predicate.Accepts, h]

/-- A document without a date lies on neither side of a day. -/
theorem selects_dated_of_none (h : d.eventDate = none) (op : DateOp) (day : Text) :
    (Predicate.dated op day).selects d = false := by
  unfold Predicate.selects
  cases op <;> simp [Predicate.truth, h]

/-- A time of day moves nothing before its day. -/
theorem written_append_lt_written_iff (own day : DayDigits) (clock : Text) :
    own.written ++ clock < day.written ↔ own.date.Before day.date := by
  have hlt := DayDigits.written_append_lt_iff own day clock []
  rw [List.append_nil] at hlt
  rw [hlt]
  exact or_iff_left fun h => List.not_lt_nil _ h.2

end

/-! ## Filters -/

/-- A filter for dates is read for every spelling of a day. It selects the documents whose day comes
before that day, or those whose day is that day or comes after it, whatever time of day is stored
behind the day; with a minus sign it is the search for the other side. A document with a date is on
exactly one of the two sides, and one without a date on neither. -/
theorem date_filters_compare_days {value bound : Text} (h : normalizeDay? value = some bound) :
    ∃ s : DaySpelling, s.text = value ∧ s.written = bound ∧
    parse ("before:".toList ++ value) = .ok ⟨[], [.dated .before bound]⟩ ∧
    parse ("-after:".toList ++ value) = .ok ⟨[], [.dated .before bound]⟩ ∧
    parse ("after:".toList ++ value) = .ok ⟨[], [.dated .onOrAfter bound]⟩ ∧
    parse ("-before:".toList ++ value) = .ok ⟨[], [.dated .onOrAfter bound]⟩ ∧
    ∀ d : Document,
      (∀ (own : DayDigits) clock, d.eventDate = some (own.written ++ clock) →
        ((Predicate.dated .before bound).selects d = true ↔ own.date.Before s.date) ∧
        ((Predicate.dated .onOrAfter bound).selects d = true ↔
          own.date = s.date ∨ s.date.Before own.date)) ∧
      (d.eventDate ≠ none → ((Predicate.dated .before bound).selects d = true ↔
        ¬(Predicate.dated .onOrAfter bound).selects d = true)) ∧
      (d.eventDate = none → (Predicate.dated .before bound).selects d = false ∧
        (Predicate.dated .onOrAfter bound).selects d = false) := by
  have hbefore := asksFor_before h
  have hafter := asksFor_after h
  obtain ⟨s, rfl, rfl⟩ := exists_spelling h
  have hvalue := DaySpelling.isFilterValue s
  refine ⟨s, rfl, rfl, hbefore.parse (hvalue false) rfl, hafter.parse (hvalue true) rfl,
    hafter.parse (hvalue false) rfl, hbefore.parse (hvalue true) rfl, fun d => ⟨?_, ?_, ?_⟩⟩
  · intro own clock hdate
    rw [selects_before_iff hdate, selects_onOrAfter_iff hdate, written_append_lt_written_iff]
    exact ⟨.rfl, Calendar.Date.not_before_iff _ _⟩
  · intro hdated
    obtain ⟨date, hdate⟩ := Option.ne_none_iff_exists'.mp hdated
    rw [selects_before_iff hdate, selects_onOrAfter_iff hdate, Classical.not_not]
  · intro hnone
    exact ⟨selects_dated_of_none hnone _ _, selects_dated_of_none hnone _ _⟩

/-- The last second of a day before one that no calendar has. -/
theorem date_filters_compare_days_of_last_second :
    let own : DayDigits :=
      ⟨"2024".toList, "02".toList, "29".toList, rfl, rfl, rfl, List.all_eq_true.mp rfl⟩
    let bound := "2024-02-31".toList
    let d : Document :=
      ⟨1, ['d'], none, none, none, none, some (own.written ++ "T23:59:59".toList), none, none⟩
    ∃ s : DaySpelling, s.text = "202402-31".toList ∧ own.date.Before s.date ∧
      parse "-after:202402-31".toList = .ok ⟨[], [.dated .before bound]⟩ ∧
      parse "-before:202402-31".toList = .ok ⟨[], [.dated .onOrAfter bound]⟩ ∧
      (Predicate.dated .before bound).selects d = true ∧
      ¬(Predicate.dated .onOrAfter bound).selects d = true := by
  intro own bound d
  have hday : normalizeDay? "202402-31".toList = some bound := by decide
  have hbefore : (Predicate.dated .before bound).selects d = true := by decide
  obtain ⟨s, hs, -, -, hnotAfter, -, hnotBefore, hselects⟩ := date_filters_compare_days hday
  obtain ⟨hcompares, hdivides, -⟩ := hselects d
  exact ⟨s, hs, (hcompares own _ rfl).1.mp hbefore, hnotAfter, hnotBefore, hbefore,
    (hdivides (by decide)).mp hbefore⟩

end MailIndex.Search
