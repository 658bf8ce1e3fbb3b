import MailIndex.Calendar.Date
import MailIndex.Proofs.Text.Order
import MailIndex.Text.Scan
import Mathlib.Algebra.Group.Nat.Defs
import Mathlib.Data.List.Induction

/-!
# The order of written dates

Numbers of a fixed width are in their order as texts, and so are the written dates of one year and the
written times of day. Between two years the written years decide. Those from 0 to 9999 are in order;
a sign puts the others out of place.
-/

namespace MailIndex.Calendar

open Text

/-! ## Numbers of a fixed width -/

theorem value_padded (width n : Nat) : Nat.ofDigitChars 10 (padded width n) 0 = n := by
  simp [padded, Decimal.digits, Nat.ofDigitChars_append]

theorem padded_injective {width m n : Nat} (h : padded width m = padded width n) : m = n := by
  rw [← value_padded width m, h, value_padded]

theorem length_padded {width n : Nat} (hn : n < 10 ^ (width + 1)) :
    (padded (width + 1) n).length = width + 1 := by
  have hle : (Decimal.digits n).length ≤ width + 1 :=
    (Nat.length_toDigits_le_iff (by decide) (Nat.succ_pos width)).mpr hn
  unfold padded
  dsimp only
  rw [List.length_append, List.length_replicate]
  omega

theorem isDigit_of_mem_padded {width n : Nat} {c : Char} (h : c ∈ padded width n) :
    c.isDigit = true := by
  rcases List.mem_append.mp h with hzero | hdigit
  · rw [List.eq_of_mem_replicate hzero]
    rfl
  · exact Nat.isDigit_of_mem_toDigits (by decide) (by decide) hdigit

theorem padded_of_lt_ten {width n : Nat} (hn : n < 10) :
    padded (width + 1) n = List.replicate width '0' ++ [n.digitChar] := by
  unfold padded Decimal.digits
  rw [Nat.toDigits_of_lt_base hn]
  rfl

theorem padded_succ (width n : Nat) :
    padded (width + 2) n = padded (width + 1) (n / 10) ++ [(n % 10).digitChar] := by
  by_cases hn : n < 10
  · rw [padded_of_lt_ten hn, Nat.div_eq_of_lt hn, Nat.mod_eq_of_lt hn,
      padded_of_lt_ten (by decide : 0 < 10)]
    rw [List.replicate_succ']
    rfl
  · unfold padded Decimal.digits
    dsimp only
    rw [Nat.toDigits_of_base_le (by decide) (Nat.le_of_not_lt hn), List.length_append,
      List.length_singleton, Nat.add_sub_add_right (width + 1) 1, List.append_assoc]

theorem digitChar_lt_iff {m n : Nat} (hm : m < 10) (hn : n < 10) :
    m.digitChar < n.digitChar ↔ m < n := by
  change m.digitChar.toNat < n.digitChar.toNat ↔ m < n
  rw [Nat.toNat_digitChar_of_lt_ten hm, Nat.toNat_digitChar_of_lt_ten hn]
  exact Nat.add_lt_add_iff_left

theorem singleton_digitChar_lt_iff {m n : Nat} (hm : m < 10) (hn : n < 10) :
    [m.digitChar] < [n.digitChar] ↔ m < n := by
  rw [List.cons_lt_cons_iff, digitChar_lt_iff hm hn]
  exact or_iff_left fun h => List.not_lt_nil _ h.2

theorem padded_lt_iff {width m n : Nat} (hm : m < 10 ^ (width + 1)) (hn : n < 10 ^ (width + 1)) :
    padded (width + 1) m < padded (width + 1) n ↔ m < n := by
  induction width generalizing m n with
  | zero =>
      rw [padded_of_lt_ten hm, padded_of_lt_ten hn]
      exact singleton_digitChar_lt_iff hm hn
  | succ width ih =>
      have hfront {k : Nat} (hk : k < 10 ^ (width + 2)) : k / 10 < 10 ^ (width + 1) := by
        rw [Nat.pow_succ] at hk
        exact Nat.div_lt_of_lt_mul (Nat.mul_comm _ _ ▸ hk)
      have hlength : (padded (width + 1) (m / 10)).length = (padded (width + 1) (n / 10)).length :=
        (length_padded (hfront hm)).trans (length_padded (hfront hn)).symm
      have hsame : padded (width + 1) (m / 10) = padded (width + 1) (n / 10) ↔ m / 10 = n / 10 :=
        ⟨padded_injective, congrArg _⟩
      rw [padded_succ, padded_succ, append_lt_append_iff hlength, ih (hfront hm) (hfront hn), hsame,
        singleton_digitChar_lt_iff (Nat.mod_lt _ (by decide)) (Nat.mod_lt _ (by decide))]
      omega

theorem padded_append_lt_iff {width m n : Nat} (hm : m < 10 ^ (width + 1))
    (hn : n < 10 ^ (width + 1)) (s t : Text) :
    padded (width + 1) m ++ s < padded (width + 1) n ++ t ↔ m < n ∨ m = n ∧ s < t := by
  have hlength : (padded (width + 1) m).length = (padded (width + 1) n).length :=
    (length_padded hm).trans (length_padded hn).symm
  have hsame : padded (width + 1) m = padded (width + 1) n ↔ m = n :=
    ⟨padded_injective, congrArg _⟩
  rw [append_lt_append_iff hlength, padded_lt_iff hm hn, hsame]

/-! ## Numbers read from digits -/

theorem of_isDigit {c : Char} (h : c.isDigit = true) :
    c.toNat - '0'.toNat < 10 ∧ (c.toNat - '0'.toNat).digitChar = c := by
  have hbounds : 48 ≤ c.toNat ∧ c.toNat ≤ 57 := by
    simpa [Char.isDigit, UInt32.le_iff_toNat_le] using h
  have hlt : c.toNat - '0'.toNat < 10 := by
    change c.toNat - 48 < 10
    omega
  refine ⟨hlt, Char.toNat_inj.mp ?_⟩
  rw [Nat.toNat_digitChar_of_lt_ten hlt]
  exact Nat.add_sub_of_le hbounds.1

theorem decimalValue_concat (front : Text) (c : Char) :
    decimalValue (front ++ [c]) = decimalValue front * 10 + (c.toNat - '0'.toNat) :=
  List.foldl_append

theorem decimalValue_lt {t : Text} (h : ∀ c ∈ t, c.isDigit = true) :
    decimalValue t < 10 ^ t.length := by
  induction t using List.reverseRecOn with
  | nil => decide
  | append_singleton front c ih =>
      obtain ⟨hfront, hc⟩ := List.forall_mem_append.mp h
      have hvalue := ih hfront
      have hdigit := (of_isDigit (hc c List.mem_cons_self)).1
      rw [decimalValue_concat, List.length_append, List.length_singleton, Nat.pow_succ]
      omega

theorem padded_decimalValue {width : Nat} {t : Text} (hlength : t.length = width + 1)
    (h : ∀ c ∈ t, c.isDigit = true) : padded (width + 1) (decimalValue t) = t := by
  induction width generalizing t with
  | zero =>
      obtain ⟨c, rfl⟩ := List.length_eq_one_iff.mp hlength
      obtain ⟨hdigit, hc⟩ := of_isDigit (h c List.mem_cons_self)
      have hvalue : decimalValue [c] = c.toNat - '0'.toNat := by simp [decimalValue]
      rw [hvalue, padded_of_lt_ten hdigit, hc]
      rfl
  | succ width ih =>
      obtain ⟨front, c, rfl⟩ : ∃ front c, t = front ++ [c] :=
        ⟨_, _, (List.dropLast_concat_getLast (List.ne_nil_of_length_eq_add_one hlength)).symm⟩
      obtain ⟨hfront, hlast⟩ := List.forall_mem_append.mp h
      obtain ⟨hdigit, hc⟩ := of_isDigit (hlast c List.mem_cons_self)
      have hwidth : front.length = width + 1 := by simpa using hlength
      have hothers : (decimalValue front * 10 + (c.toNat - '0'.toNat)) / 10 = decimalValue front := by
        omega
      have hown : (decimalValue front * 10 + (c.toNat - '0'.toNat)) % 10 = c.toNat - '0'.toNat := by
        omega
      rw [decimalValue_concat, padded_succ, hothers, ih hwidth hfront, hown, hc]

/-! ## Years -/

theorem writtenYear_of_neg {y : Int} (h : y < 0) : writtenYear y = '-' :: padded 4 y.natAbs :=
  if_pos h

theorem writtenYear_of_large {y : Int} (h : 9999 < y) : writtenYear y = '+' :: padded 4 y.natAbs := by
  rw [writtenYear, if_neg (by omega), if_pos h]

theorem writtenYear_of_four {y : Int} (hfirst : 0 ≤ y) (hlast : y ≤ 9999) :
    writtenYear y = padded 4 y.natAbs := by
  rw [writtenYear, if_neg (by omega), if_neg (by omega)]

theorem hyphen_lt_of_isDigit {c : Char} (h : c.isDigit = true) : '-' < c := by
  simp only [Char.isDigit, Bool.and_eq_true, decide_eq_true_eq] at h
  exact UInt32.lt_of_lt_of_le (by decide) h.1

theorem padded_ne_nil (width n : Nat) : padded width n ≠ [] :=
  List.append_ne_nil_of_right_ne_nil _ Nat.toDigits_ne_nil

theorem exists_padded (width n : Nat) :
    ∃ c rest, padded width n = c :: rest ∧ '-' < c ∧ ∀ d ∈ rest, '-' < d := by
  obtain ⟨c, rest, hpadded⟩ := List.exists_cons_of_ne_nil (padded_ne_nil width n)
  have hdigits : ∀ d ∈ c :: rest, '-' < d := fun d hd =>
    hyphen_lt_of_isDigit (isDigit_of_mem_padded (hpadded.symm ▸ hd))
  exact ⟨c, rest, hpadded, List.forall_mem_cons.mp hdigits⟩

theorem padded_ne_cons {width n : Nat} {c : Char} (hc : c.isDigit = false) (rest : Text) :
    padded width n ≠ c :: rest := by
  intro h
  rw [isDigit_of_mem_padded (h ▸ List.mem_cons_self)] at hc
  cases hc

/-- After its first character, which may be a sign, a year has digits only. -/
theorem exists_writtenYear (y : Int) :
    ∃ c rest, writtenYear y = c :: rest ∧ ∀ d ∈ rest, '-' < d := by
  obtain ⟨c, rest, hpadded, hc, hrest⟩ := exists_padded 4 y.natAbs
  have hall : ∀ d ∈ padded 4 y.natAbs, '-' < d := hpadded ▸ List.forall_mem_cons.mpr ⟨hc, hrest⟩
  unfold writtenYear
  split_ifs
  · exact ⟨_, _, rfl, hall⟩
  · exact ⟨_, _, rfl, hall⟩
  · exact ⟨c, rest, hpadded, hrest⟩

theorem writtenYear_injective {y z : Int} (h : writtenYear y = writtenYear z) : y = z := by
  have hnatAbs : ∀ {c : Char}, c :: padded 4 y.natAbs = c :: padded 4 z.natAbs →
      y.natAbs = z.natAbs := fun hcons => padded_injective (List.cons.inj hcons).2
  unfold writtenYear at h
  split_ifs at h
  · have habs := hnatAbs h
    omega
  · exact absurd (List.cons.inj h).1 (by decide)
  · exact absurd h.symm (padded_ne_cons rfl _)
  · exact absurd (List.cons.inj h).1 (by decide)
  · have habs := hnatAbs h
    omega
  · exact absurd h.symm (padded_ne_cons rfl _)
  · exact absurd h (padded_ne_cons rfl _)
  · exact absurd h (padded_ne_cons rfl _)
  · have habs := padded_injective h
    omega

/-- What follows two different years does not matter, as a hyphen comes before all digits. -/
theorem writtenYear_append_lt_iff {y z : Int} (h : y ≠ z) (s t : Text) :
    writtenYear y ++ '-' :: s < writtenYear z ++ '-' :: t ↔ writtenYear y < writtenYear z := by
  obtain ⟨c, a, hy, ha⟩ := exists_writtenYear y
  obtain ⟨d, b, hz, hb⟩ := exists_writtenYear z
  have hne : c = d → a ≠ b := fun hcd hab =>
    h (writtenYear_injective (by rw [hy, hz, hcd, hab]))
  rw [hy, hz, List.cons_append, List.cons_append, List.cons_lt_cons_iff, List.cons_lt_cons_iff]
  exact or_congr_right (and_congr_right fun hcd =>
    append_cons_lt_append_cons_iff ha hb (hne hcd) s t)

theorem writtenYear_lt_of_four {y z : Int} (h : y < z) (hfirst : 0 ≤ z) (hlast : z ≤ 9999) :
    writtenYear y < writtenYear z := by
  rw [writtenYear_of_four hfirst hlast]
  by_cases hneg : y < 0
  · obtain ⟨c, rest, hpadded, hc, -⟩ := exists_padded 4 z.natAbs
    rw [writtenYear_of_neg hneg, hpadded]
    exact List.cons_lt_cons_iff.mpr (.inl hc)
  · rw [writtenYear_of_four (by omega) (by omega)]
    exact (padded_lt_iff (by omega) (by omega)).mpr (by omega)

/-- A plus sign comes before a minus sign and before all digits. -/
theorem writtenYear_lt_of_large {y z : Int} (hy : y ≤ 9999) (hz : 9999 < z) :
    writtenYear z < writtenYear y := by
  rw [writtenYear_of_large hz]
  by_cases hneg : y < 0
  · rw [writtenYear_of_neg hneg]
    exact List.cons_lt_cons_iff.mpr (.inl (by decide))
  · obtain ⟨c, rest, hpadded, hc, -⟩ := exists_padded 4 y.natAbs
    rw [writtenYear_of_four (by omega) hy, hpadded]
    exact List.cons_lt_cons_iff.mpr (.inl (Char.lt_trans (by decide) hc))

/-- The years before 0 are in the order of their distance from it. -/
theorem writtenYear_lt_of_neg {y z : Int} (h : y < z) (hfirst : -9999 ≤ y) (hz : z < 0) :
    writtenYear z < writtenYear y := by
  rw [writtenYear_of_neg hz, writtenYear_of_neg (by omega), List.cons_lt_cons_self]
  exact (padded_lt_iff (by omega) (by omega)).mpr (by omega)

/-! ## Dates and times of day -/

def Date.Before (d e : Date) : Prop :=
  d.year < e.year ∨ d.year = e.year ∧ (d.month < e.month ∨ d.month = e.month ∧ d.day < e.day)

theorem Date.not_before_iff (d e : Date) : ¬d.Before e ↔ d = e ∨ e.Before d := by
  cases d
  cases e
  simp only [Before, Date.mk.injEq]
  omega

def Time.Before (t u : Time) : Prop :=
  t.hour < u.hour ∨ t.hour = u.hour ∧ (t.minute < u.minute ∨ t.minute = u.minute ∧
    t.second < u.second)

structure Time.OnClock (t : Time) : Prop where
  hour : t.hour < 24
  minute : t.minute < 60
  second : t.second ≤ 60

theorem Date.of_exists {d : Date} (h : d.exists = true) :
    1 ≤ d.month ∧ d.month ≤ 12 ∧ 1 ≤ d.day ∧ d.day ≤ daysInMonth d.year d.month := by
  simpa [Date.exists, and_assoc] using h

theorem daysInMonth_le (year : Int) (month : Nat) : daysInMonth year month ≤ 31 := by
  unfold daysInMonth
  split_ifs <;> omega

theorem Date.lt_hundred_of_exists {d : Date} (h : d.exists = true) : d.month < 100 ∧ d.day < 100 := by
  obtain ⟨-, hmonth, -, hday⟩ := of_exists h
  have hdays := daysInMonth_le d.year d.month
  omega

theorem Date.written_append (d : Date) (s : Text) :
    d.written ++ s =
      writtenYear d.year ++ '-' :: (padded 2 d.month ++ '-' :: (padded 2 d.day ++ s)) := by
  simp [Date.written]

theorem padded_month_day_lt_iff {month day month' day' : Nat} (hmonth : month < 100 ∧ day < 100)
    (hmonth' : month' < 100 ∧ day' < 100) (s t : Text) :
    padded 2 month ++ '-' :: (padded 2 day ++ s) < padded 2 month' ++ '-' :: (padded 2 day' ++ t) ↔
      month < month' ∨ month = month' ∧ (day < day' ∨ day = day' ∧ s < t) := by
  rw [padded_append_lt_iff (by omega) (by omega), List.cons_lt_cons_self,
    padded_append_lt_iff (by omega) (by omega)]

theorem Date.written_append_lt_iff {d e : Date} (hd : d.exists = true) (he : e.exists = true)
    (hyear : d.year = e.year) (s t : Text) :
    d.written ++ s < e.written ++ t ↔ d.Before e ∨ d = e ∧ s < t := by
  have hsame : d = e ↔ d.month = e.month ∧ d.day = e.day := by
    cases d
    cases e
    rw [Date.mk.injEq]
    exact and_iff_right hyear
  rw [written_append, written_append, hyear, append_left_lt_iff, List.cons_lt_cons_self,
    padded_month_day_lt_iff (lt_hundred_of_exists hd) (lt_hundred_of_exists he), hsame]
  unfold Before
  simp only [hyear, Int.lt_irrefl, true_and, false_or, and_or_left, or_assoc, and_assoc]

theorem Date.written_append_lt_iff_of_year {d e : Date} (hyear : d.year ≠ e.year) (s t : Text) :
    d.written ++ s < e.written ++ t ↔ writtenYear d.year < writtenYear e.year := by
  rw [Date.written_append, Date.written_append]
  exact writtenYear_append_lt_iff hyear _ _

theorem Time.written_lt_iff {t u : Time} (ht : t.OnClock) (hu : u.OnClock) :
    t.written < u.written ↔ t.Before u := by
  obtain ⟨hhour, hminute, hsecond⟩ := ht
  obtain ⟨huhour, huminute, husecond⟩ := hu
  unfold written Before
  rw [List.append_assoc, List.append_assoc, List.cons_append, List.cons_append,
    padded_append_lt_iff (by omega) (by omega), List.cons_lt_cons_self,
    padded_append_lt_iff (by omega) (by omega), List.cons_lt_cons_self,
    padded_lt_iff (by omega) (by omega)]

end MailIndex.Calendar
