import MailIndex.Proofs.Calendar.Written
import MailIndex.Proofs.Query.Wording
import MailIndex.Query.Day

/-!
# Days and their digits

A day is spelled by the digits of its year, its month and its day, with a hyphen or without one in two
places. All spellings with a month and a day in their ranges are read, no other text is, and what is
made of them has both hyphens. In that form days are in their order as texts, whatever follows them.
-/

namespace MailIndex.Query

open Text Calendar

/-! ## Digits -/

structure DayDigits where
  year : Text
  month : Text
  day : Text
  length_year : year.length = 4
  length_month : month.length = 2
  length_day : day.length = 2
  isDigit : ∀ c ∈ year ++ month ++ day, c.isDigit = true

namespace DayDigits

def written (n : DayDigits) : Text := n.year ++ '-' :: (n.month ++ '-' :: n.day)

/-- The day that is meant. It need not be one of the calendar. -/
def date (n : DayDigits) : Date :=
  ⟨decimalValue n.year, decimalValue n.month, decimalValue n.day⟩

theorem isDigit_parts (n : DayDigits) :
    (∀ c ∈ n.year, c.isDigit = true) ∧ (∀ c ∈ n.month, c.isDigit = true) ∧
      ∀ c ∈ n.day, c.isDigit = true := by
  obtain ⟨hfront, hday⟩ := List.forall_mem_append.mp n.isDigit
  obtain ⟨hyear, hmonth⟩ := List.forall_mem_append.mp hfront
  exact ⟨hyear, hmonth, hday⟩

theorem decimalValue_parts_lt (n : DayDigits) :
    decimalValue n.year < 10000 ∧ decimalValue n.month < 100 ∧ decimalValue n.day < 100 := by
  obtain ⟨hyear, hmonth, hday⟩ := n.isDigit_parts
  have hyear := decimalValue_lt hyear
  have hmonth := decimalValue_lt hmonth
  have hday := decimalValue_lt hday
  rw [n.length_year] at hyear
  rw [n.length_month] at hmonth
  rw [n.length_day] at hday
  exact ⟨hyear, hmonth, hday⟩

theorem written_append_eq (n : DayDigits) (s : Text) :
    n.written ++ s = padded 4 (decimalValue n.year) ++
      '-' :: (padded 2 (decimalValue n.month) ++ '-' :: (padded 2 (decimalValue n.day) ++ s)) := by
  obtain ⟨hyear, hmonth, hday⟩ := n.isDigit_parts
  rw [padded_decimalValue n.length_year hyear, padded_decimalValue n.length_month hmonth,
    padded_decimalValue n.length_day hday]
  simp [written]

/-- Days are in the order of their numbers, and only where they are the same does it matter what
follows them. -/
theorem written_append_lt_iff (a b : DayDigits) (s t : Text) :
    a.written ++ s < b.written ++ t ↔ a.date.Before b.date ∨ a.date = b.date ∧ s < t := by
  obtain ⟨hyear, hrest⟩ := a.decimalValue_parts_lt
  obtain ⟨hyear', hrest'⟩ := b.decimalValue_parts_lt
  rw [written_append_eq, written_append_eq, padded_append_lt_iff hyear hyear',
    List.cons_lt_cons_self, padded_month_day_lt_iff hrest hrest']
  unfold date Date.Before
  simp only [Date.mk.injEq, Int.ofNat_lt, Int.natCast_inj, and_or_left, or_assoc, and_assoc]

theorem written_lt_iff (a b : DayDigits) : a.written < b.written ↔ a.date.Before b.date := by
  have hlt := written_append_lt_iff a b [] []
  simpa using hlt

end DayDigits

/-! ## Spellings -/

def hyphen (present : Bool) : Text := if present then ['-'] else []

/-- A text that is read as a day: its digits, each of the hyphens there or not, with a month and a day
that some calendar might have. -/
structure DaySpelling extends DayDigits where
  first : Bool
  second : Bool
  month_range : 1 ≤ decimalValue month ∧ decimalValue month ≤ 12
  day_range : 1 ≤ decimalValue day ∧ decimalValue day ≤ 31

def DaySpelling.text (s : DaySpelling) : Text :=
  s.year ++ (hyphen s.first ++ (s.month ++ (hyphen s.second ++ s.day)))

theorem decimalValue_pair (tens ones : Char) : decimalValue [tens, ones] = twoDigits tens ones := by
  simp [decimalValue, twoDigits]

theorem dropHyphen_hyphen {c : Char} (h : c.isDigit = true) (present : Bool) (rest : Text) :
    dropHyphen (hyphen present ++ c :: rest) = c :: rest := by
  cases present with
  | true => rfl
  | false =>
      have hne : c ≠ '-' := by
        rintro rfl
        cases h
      unfold hyphen dropHyphen
      split
      · next heq => exact absurd (List.cons.inj heq).1 hne
      · rfl

theorem exists_hyphen (t : Text) : ∃ present, t = hyphen present ++ dropHyphen t := by
  unfold dropHyphen
  split
  · exact ⟨true, rfl⟩
  · exact ⟨false, rfl⟩

theorem exists_of_length_two {t : Text} (h : t.length = 2) : ∃ a b, t = [a, b] :=
  match t, h with
  | [a, b], _ => ⟨a, b, rfl⟩

theorem exists_of_length_four {t : Text} (h : t.length = 4) : ∃ a b c d, t = [a, b, c, d] :=
  match t, h with
  | [a, b, c, d], _ => ⟨a, b, c, d, rfl⟩

theorem normalizeDay?_text (s : DaySpelling) : normalizeDay? s.text = some s.written := by
  obtain ⟨⟨year, month, day, hyear, hmonth, hday, hdigits⟩, first, second, hmonths, hdays⟩ := s
  obtain ⟨y₁, y₂, y₃, y₄, rfl⟩ := exists_of_length_four hyear
  obtain ⟨m₁, m₂, rfl⟩ := exists_of_length_two hmonth
  obtain ⟨d₁, d₂, rfl⟩ := exists_of_length_two hday
  have hm : m₁.isDigit = true := hdigits m₁ (by simp)
  have hd : d₁.isDigit = true := hdigits d₁ (by simp)
  rw [decimalValue_pair] at hmonths hdays
  unfold DaySpelling.text normalizeDay?
  simp only [List.cons_append, List.nil_append, dropHyphen_hyphen hm, dropHyphen_hyphen hd]
  exact if_pos ⟨List.all_eq_true.mpr hdigits, hmonths.1, hmonths.2, hdays.1, hdays.2⟩

theorem exists_spelling {value day : Text} (h : normalizeDay? value = some day) :
    ∃ s : DaySpelling, s.text = value ∧ s.written = day := by
  unfold normalizeDay? at h
  split at h
  · next y₁ y₂ y₃ y₄ afterYear =>
      split at h
      · next m₁ m₂ afterMonth hmonth =>
          split at h
          · next d₁ d₂ hday =>
              split at h
              · next hreads =>
                  cases h
                  obtain ⟨hdigits, hmonths⟩ := hreads
                  obtain ⟨first, hfirst⟩ := exists_hyphen afterYear
                  obtain ⟨second, hsecond⟩ := exists_hyphen afterMonth
                  rw [hmonth] at hfirst
                  rw [hday] at hsecond
                  refine ⟨⟨⟨[y₁, y₂, y₃, y₄], [m₁, m₂], [d₁, d₂], rfl, rfl, rfl,
                    List.all_eq_true.mp hdigits⟩, first, second, ?_, ?_⟩, ?_, rfl⟩
                  · rw [decimalValue_pair]
                    exact ⟨hmonths.1, hmonths.2.1⟩
                  · rw [decimalValue_pair]
                    exact hmonths.2.2
                  · rw [hfirst, hsecond]
                    rfl
              · cases h
          · cases h
      · cases h
  · cases h

theorem normalizeDay?_eq_some_iff {value day : Text} :
    normalizeDay? value = some day ↔ ∃ s : DaySpelling, s.text = value ∧ s.written = day := by
  constructor
  · exact exists_spelling
  · rintro ⟨s, rfl, rfl⟩
    exact normalizeDay?_text s

theorem normalizeDay?_written (s : DaySpelling) : normalizeDay? s.written = some s.written :=
  normalizeDay?_text { s with first := true, second := true }

/-! ## Values of filters -/

theorem DaySpelling.mem_text {s : DaySpelling} {c : Char} (h : c ∈ s.text) :
    c.isDigit = true ∨ c = '-' := by
  have hhyphen {present : Bool} (hc : c ∈ hyphen present) : c = '-' := by
    cases present with
    | false => cases hc
    | true => exact List.mem_singleton.mp hc
  obtain ⟨hyear, hmonth, hday⟩ := s.isDigit_parts
  unfold DaySpelling.text at h
  simp only [List.mem_append] at h
  rcases h with h | h | h | h | h
  · exact .inl (hyear c h)
  · exact .inr (hhyphen h)
  · exact .inl (hmonth c h)
  · exact .inr (hhyphen h)
  · exact .inl (hday c h)

theorem DaySpelling.ne_of_mem_text {s : DaySpelling} {c d : Char} (h : c ∈ s.text)
    (hdigit : d.isDigit = false) (hhyphen : d ≠ '-') : c ≠ d := by
  rintro rfl
  rcases mem_text h with hc | hc
  · rw [hdigit] at hc
    cases hc
  · exact hhyphen hc

theorem isBlank_of_isDigit {c : Char} (h : c.isDigit = true) : isBlank c = false := by
  obtain ⟨hlt, hc⟩ := of_isDigit h
  generalize c.toNat - '0'.toNat = n at *
  rw [← hc]
  have hall : (List.range 10).all (fun n => !isBlank n.digitChar) = true := by decide
  simpa using List.all_eq_true.mp hall n (List.mem_range.mpr hlt)

theorem DaySpelling.isFilterValue (s : DaySpelling) (negated : Bool) :
    IsFilterValue s.text negated where
  ne_nil hnil := by
    have hyear : s.year = [] := (List.append_eq_nil_iff.mp hnil).1
    have hlength := s.length_year
    rw [hyear] at hlength
    cases hlength
  unbroken c hc := by
    refine ⟨?_, ne_of_mem_text hc rfl (by decide), ne_of_mem_text hc rfl (by decide)⟩
    rcases mem_text hc with hdigit | rfl
    · exact isBlank_of_isDigit hdigit
    · decide
  unquoted _ hquote := ne_of_mem_text hquote rfl (by decide) rfl

/-! ## What is read -/

/-- A text is read as a day exactly if it is a spelling of one. Its form with both hyphens is read
again as itself, and in this form the bytes of two days are in the order of year, month and day. -/
theorem normalizeDay?_reads_spellings (value day : Text) :
    (normalizeDay? value = some day ↔ ∃ s : DaySpelling, s.text = value ∧ s.written = day) ∧
    (normalizeDay? value = some day → normalizeDay? day = some day) ∧
    ∀ other otherDay, normalizeDay? value = some day → normalizeDay? other = some otherDay →
      ∃ s t : DaySpelling, s.text = value ∧ s.written = day ∧ t.text = other ∧
        t.written = otherDay ∧ (toBytes day < toBytes otherDay ↔ s.date.Before t.date) := by
  refine ⟨normalizeDay?_eq_some_iff, fun h => ?_, fun other otherDay h hother => ?_⟩
  · obtain ⟨s, -, rfl⟩ := exists_spelling h
    exact normalizeDay?_written s
  · obtain ⟨s, hs, rfl⟩ := exists_spelling h
    obtain ⟨t, ht, rfl⟩ := exists_spelling hother
    exact ⟨s, t, hs, rfl, ht, rfl, (toBytes_lt_iff _ _).trans (DayDigits.written_lt_iff _ _)⟩

/-- A day that no calendar has, with one hyphen, and the day after it, with none. -/
theorem normalizeDay?_reads_spellings_of_impossible_day :
    normalizeDay? "2024-0231".toList = some "2024-02-31".toList ∧
    normalizeDay? "2024-02-31".toList = some "2024-02-31".toList ∧
    ∃ s t : DaySpelling, s.text = "2024-0231".toList ∧ t.text = "20240301".toList ∧
      s.date.Before t.date := by
  have hday : normalizeDay? "2024-0231".toList = some "2024-02-31".toList := by decide
  have hnext : normalizeDay? "20240301".toList = some "2024-03-01".toList := by decide
  obtain ⟨-, hagain, horder⟩ :=
    normalizeDay?_reads_spellings "2024-0231".toList "2024-02-31".toList
  obtain ⟨s, t, hs, -, ht, -, hbytes⟩ := horder _ _ hday hnext
  exact ⟨hday, hagain hday, s, t, hs, ht, hbytes.mp (by decide +kernel)⟩

end MailIndex.Query
