import MailIndex.Calendar.EventDate
import MailIndex.Proofs.Calendar.Written

/-!
# Instants

Every event date denotes an instant, to the second; a whole day denotes its start. Instants are
counted in minutes from the start of the year 1, with the second apart, so that a leap second lies
between its neighbours. A local time and its distance from UTC give the instant that they denote.
-/

namespace MailIndex.Calendar

open Text

/-! ## Day numbers -/

def daysBeforeYear (year : Int) : Int :=
  (year - 1) * 365 + (year - 1) / 4 - (year - 1) / 100 + (year - 1) / 400

def daysInYear (year : Int) : Nat := if isLeapYear year then 366 else 365

theorem Date.dayNumber_eq (d : Date) :
    d.dayNumber = daysBeforeYear d.year + daysBeforeMonth d.year d.month + d.day - 1 := rfl

theorem daysBeforeYear_succ (year : Int) :
    daysBeforeYear (year + 1) = daysBeforeYear year + daysInYear year := by
  unfold daysBeforeYear daysInYear isLeapYear
  rw [Int.add_sub_cancel]
  simp only [Bool.and_eq_true, Bool.or_eq_true, decide_eq_true_eq]
  split_ifs <;> omega

theorem daysBeforeYear_le {year later : Int} (h : year ≤ later) :
    daysBeforeYear year ≤ daysBeforeYear later := by
  unfold daysBeforeYear
  omega

theorem daysBeforeMonth_succ (year : Int) {month : Nat} (h : 1 ≤ month) :
    daysBeforeMonth year (month + 1) = daysBeforeMonth year month + daysInMonth year month := by
  rw [daysBeforeMonth, if_neg (by omega)]

theorem daysBeforeMonth_le (year : Int) {month later : Nat} (h : month ≤ later) :
    daysBeforeMonth year month ≤ daysBeforeMonth year later := by
  induction h with
  | refl => exact Nat.le_refl _
  | step _ ih => exact Nat.le_trans ih (Nat.le_add_right _ _)

theorem daysBeforeMonth_thirteen (year : Int) : daysBeforeMonth year 13 = daysInYear year := by
  cases hleap : isLeapYear year <;> simp [daysBeforeMonth, daysInMonth, daysInYear, hleap]

theorem one_le_daysInMonth (year : Int) (month : Nat) : 1 ≤ daysInMonth year month := by
  unfold daysInMonth
  split_ifs <;> omega

namespace Date

variable {d e : Date}

theorem daysBeforeMonth_le_dayNumber (hd : d.exists = true) :
    daysBeforeYear d.year + daysBeforeMonth d.year d.month ≤ d.dayNumber := by
  have hday := of_exists hd
  rw [dayNumber_eq]
  omega

theorem dayNumber_lt_daysBeforeMonth (hd : d.exists = true) :
    d.dayNumber < daysBeforeYear d.year + daysBeforeMonth d.year (d.month + 1) := by
  have hday := of_exists hd
  rw [dayNumber_eq, daysBeforeMonth_succ d.year hday.1]
  omega

theorem daysBeforeYear_le_dayNumber (hd : d.exists = true) :
    daysBeforeYear d.year ≤ d.dayNumber := by
  have hmonth := daysBeforeMonth_le_dayNumber hd
  omega

theorem dayNumber_lt_daysBeforeYear (hd : d.exists = true) :
    d.dayNumber < daysBeforeYear (d.year + 1) := by
  have hmonth := dayNumber_lt_daysBeforeMonth hd
  have hyear : daysBeforeMonth d.year (d.month + 1) ≤ daysBeforeMonth d.year 13 :=
    daysBeforeMonth_le d.year (Nat.succ_le_succ (of_exists hd).2.1)
  rw [daysBeforeYear_succ, ← daysBeforeMonth_thirteen]
  omega

theorem dayNumber_lt (hd : d.exists = true) (he : e.exists = true) (h : d.Before e) :
    d.dayNumber < e.dayNumber := by
  rcases h with hyear | ⟨hyear, hmonth | ⟨hmonth, hday⟩⟩
  · calc d.dayNumber < daysBeforeYear (d.year + 1) := dayNumber_lt_daysBeforeYear hd
      _ ≤ daysBeforeYear e.year := daysBeforeYear_le hyear
      _ ≤ e.dayNumber := daysBeforeYear_le_dayNumber he
  · have hmonths : daysBeforeMonth d.year (d.month + 1) ≤ daysBeforeMonth d.year e.month :=
      daysBeforeMonth_le d.year hmonth
    have hfirst := dayNumber_lt_daysBeforeMonth hd
    have hlast := daysBeforeMonth_le_dayNumber he
    rw [← hyear] at hlast
    omega
  · rw [dayNumber_eq, dayNumber_eq, hyear, hmonth]
    omega

theorem before_trichotomy (d e : Date) : d.Before e ∨ d = e ∨ e.Before d :=
  Classical.or_iff_not_imp_left.mpr (not_before_iff d e).mp

theorem exists_of (year : Int) {month day : Nat} (hmonth : 1 ≤ month) (hlast : month ≤ 12)
    (hday : 1 ≤ day) (hend : day ≤ daysInMonth year month) : (Date.mk year month day).exists = true := by
  simp [Date.exists, *]

theorem next_exists (hd : d.exists = true) : d.next.exists = true := by
  obtain ⟨hmonth, hlast, hday, hend⟩ := of_exists hd
  unfold next
  split_ifs
  · exact exists_of d.year hmonth hlast (by omega) (by omega)
  · exact exists_of d.year (by omega) (by omega) (Nat.le_refl 1) (one_le_daysInMonth _ _)
  · exact exists_of (d.year + 1) (by omega) (by omega) (Nat.le_refl 1) (one_le_daysInMonth _ _)

theorem dayNumber_next (hd : d.exists = true) : d.next.dayNumber = d.dayNumber + 1 := by
  obtain ⟨hmonth, hlast, hday, hend⟩ := of_exists hd
  unfold next
  split_ifs with hwithin hlater
  · rw [dayNumber_eq, dayNumber_eq]
    dsimp only
    omega
  · rw [dayNumber_eq, dayNumber_eq]
    dsimp only
    rw [daysBeforeMonth_succ d.year hmonth]
    omega
  · have hdecember : d.month = 12 := by omega
    have hyear : daysInYear d.year = daysBeforeMonth d.year 12 + daysInMonth d.year 12 := by
      rw [← daysBeforeMonth_thirteen, daysBeforeMonth_succ d.year (by decide)]
    have hjanuary : daysBeforeMonth (d.year + 1) 1 = 0 := rfl
    rw [hdecember] at hend hwithin
    rw [dayNumber_eq, dayNumber_eq]
    dsimp only
    rw [daysBeforeYear_succ, hjanuary, hyear, hdecember]
    omega

theorem previous_exists (hd : d.exists = true) : d.previous.exists = true := by
  obtain ⟨hmonth, hlast, hday, hend⟩ := of_exists hd
  unfold previous
  split_ifs
  · exact exists_of d.year hmonth hlast (by omega) (by omega)
  · exact exists_of d.year (by omega) (by omega) (one_le_daysInMonth _ _) (Nat.le_refl _)
  · exact exists_of (d.year - 1) (by decide) (by decide) (by decide) (Nat.le_refl 31)

theorem next_previous (hd : d.exists = true) : d.previous.next = d := by
  obtain ⟨hmonth, hlast, hday, hend⟩ := of_exists hd
  obtain ⟨year, month, day⟩ := d
  dsimp only at hmonth hlast hday hend
  unfold previous
  dsimp only
  split_ifs with hwithin hlater
  · unfold next
    dsimp only
    rw [if_pos (by omega), Nat.sub_add_cancel hday]
  · unfold next
    dsimp only
    rw [if_neg (Nat.lt_irrefl _), if_pos (by omega), Nat.sub_add_cancel hmonth,
      Nat.le_antisymm hday (Nat.le_of_not_lt hwithin)]
  · have hnewYear : ¬31 < daysInMonth (year - 1) 12 := Nat.lt_irrefl 31
    obtain rfl : month = 1 := by omega
    obtain rfl : day = 1 := by omega
    unfold next
    dsimp only
    rw [if_neg hnewYear, if_neg (Nat.lt_irrefl 12), Int.sub_add_cancel]

theorem dayNumber_previous (hd : d.exists = true) : d.previous.dayNumber = d.dayNumber - 1 := by
  have hnext := dayNumber_next (previous_exists hd)
  rw [next_previous hd] at hnext
  omega

end Date

/-! ## Instants -/

/-- The minutes from the start of the year 1 to a time of day. -/
def minuteAt (date : Date) (time : Time) : Int :=
  date.dayNumber * 1440 + time.hour * 60 + time.minute

namespace EventDate

def date : EventDate → Date
  | .moment date _ => date
  | .day date => date

/-- The time of day. That of a whole day is its start. -/
def time : EventDate → Time
  | .moment _ time => time
  | .day _ => ⟨0, 0, 0⟩

def minute (e : EventDate) : Int := minuteAt e.date e.time

def Earlier (e f : EventDate) : Prop :=
  e.minute < f.minute ∨ e.minute = f.minute ∧ e.time.second < f.time.second

instance (e f : EventDate) : Decidable (e.Earlier f) :=
  inferInstanceAs (Decidable (_ ∨ _ ∧ _))

/-- The event dates of the calendar and the clock. -/
structure Proper (e : EventDate) : Prop where
  date : e.date.exists = true
  time : e.time.OnClock

variable {e f : EventDate}

theorem before_of_earlier (he : e.Proper) (hf : f.Proper) (h : e.Earlier f) :
    e.date.Before f.date ∨ e.date = f.date ∧ e.time.Before f.time := by
  have hehour := he.time.hour
  have heminute := he.time.minute
  have hfhour := hf.time.hour
  have hfminute := hf.time.minute
  unfold Earlier minute minuteAt at h
  rcases Date.before_trichotomy e.date f.date with hbefore | hsame | hafter
  · exact .inl hbefore
  · refine .inr ⟨hsame, ?_⟩
    rw [hsame] at h
    unfold Time.Before
    omega
  · have hday := Date.dayNumber_lt hf.date he.date hafter
    omega

/-! ## Local times -/

/-- The date that a local date becomes when it is some minutes past its start in UTC. -/
def carried (date : Date) (minutes : Int) : Date :=
  if minutes < 0 then date.previous else if minutes < 1440 then date else date.next

theorem exists_carried {date : Date} (h : date.exists = true) (minutes : Int) :
    (carried date minutes).exists = true := by
  unfold carried
  split_ifs
  · exact Date.previous_exists h
  · exact h
  · exact Date.next_exists h

theorem dayNumber_carried {date : Date} {minutes : Int} (h : date.exists = true)
    (hfirst : -1440 ≤ minutes) (hlast : minutes < 2880) :
    (carried date minutes).dayNumber = date.dayNumber + minutes / 1440 := by
  unfold carried
  split_ifs
  · rw [Date.dayNumber_previous h]
    omega
  · omega
  · rw [Date.dayNumber_next h]
    omega

theorem eq_of_ofLocal? {date : Date} {time : Time} {offset : Int}
    (h : ofLocal? date time offset = some e) :
    ∃ minutes : Int, minutes = time.hour * 60 + time.minute - offset ∧
      (-1440 < offset ∧ offset < 1440) ∧
      e = .moment (carried date minutes)
        ⟨(minutes % 1440).toNat / 60, (minutes % 1440).toNat % 60, time.second⟩ := by
  refine ⟨_, rfl, ?_⟩
  unfold ofLocal? at h
  by_cases hbound : offset ≤ -1440 ∨ 1440 ≤ offset
  · rw [if_pos hbound] at h
    cases h
  · rw [if_neg hbound] at h
    change (if (carried date _).inRange = true then some (moment (carried date _) _) else none) =
      some e at h
    split at h
    · exact ⟨by omega, (Option.some.inj h).symm⟩
    · cases h

/-- The instant of a local time is that far before it as the local time is ahead of UTC. -/
theorem of_ofLocal? {date : Date} {time : Time} {offset : Int} (hdate : date.exists = true)
    (htime : time.OnClock) (h : ofLocal? date time offset = some e) :
    e.Proper ∧ e.minute = minuteAt date time - offset ∧ e.time.second = time.second := by
  obtain ⟨hhour, hminute, hsecond⟩ := htime
  obtain ⟨minutes, hminutes, hoffset, rfl⟩ := eq_of_ofLocal? h
  have hday : (carried date minutes).dayNumber = date.dayNumber + minutes / 1440 :=
    dayNumber_carried hdate (by omega) (by omega)
  refine ⟨⟨exists_carried hdate minutes, ⟨?_, ?_, hsecond⟩⟩, ?_, rfl⟩
  · change (minutes % 1440).toNat / 60 < 24
    omega
  · exact Nat.mod_lt _ (by decide)
  · unfold minute minuteAt EventDate.date EventDate.time
    dsimp only
    rw [hday]
    omega

end EventDate

end MailIndex.Calendar
