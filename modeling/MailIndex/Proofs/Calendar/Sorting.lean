import MailIndex.Proofs.Calendar.Instant

/-!
# Event dates as texts

Event dates are written so that their texts, and the bytes of these, can stand for the instants that
they denote. The texts are in the order of the instants as long as the later year is one of 0 to 9999
or the two years are the same. A year after 9999 is written with a plus sign, which puts it before all
of these, and the years before 0 are in the order of their distance from it.
-/

namespace MailIndex.Calendar

open Text

/-! ## Event dates that are read -/

theorem Date.exists_of_of? {year : Int} {month day : Nat} {d : Date}
    (h : Date.of? year month day = some d) : d.exists = true := by
  unfold Date.of? at h
  dsimp only at h
  split at h
  · next hd =>
      cases h
      exact (Bool.and_eq_true_iff.mp hd).1
  · cases h

theorem Time.onClock_of_of? {hour minute second : Nat} {t : Time}
    (h : Time.of? hour minute second = some t) : t.OnClock := by
  unfold Time.of? at h
  split at h
  · next ht =>
      cases h
      exact ⟨ht.1, ht.2.1, ht.2.2⟩
  · cases h

theorem exists_of_readDate? {t rest : Text} {d : Date} (h : readDate? t = some (d, rest)) :
    d.exists = true := by
  unfold readDate? at h
  simp only [Option.bind_eq_bind, Option.bind_eq_some_iff] at h
  obtain ⟨_, _, _, _, _, _, _, _, _, _, _, hdate, heq⟩ := h
  cases heq
  exact Date.exists_of_of? hdate

/-- A reading that gives event dates of the calendar and the clock, if it gives any. -/
def Sound (reading : Option EventDate) : Prop := ∀ e ∈ reading, e.Proper

theorem sound_none : Sound none := nofun

theorem sound_bind {α : Type} {first : Option α} {next : α → Option EventDate}
    (h : ∀ a ∈ first, Sound (next a)) : Sound (first.bind next) := by
  intro e he
  obtain ⟨a, ha, hnext⟩ := Option.bind_eq_some_iff.mp he
  exact h a ha e hnext

theorem sound_ite {p : Prop} [Decidable p] {a b : Option EventDate} (ha : Sound a) (hb : Sound b) :
    Sound (if p then a else b) := by
  split
  · exact ha
  · exact hb

theorem sound_orElse {a b : Option EventDate} (ha : Sound a) (hb : Sound b) : Sound (a <|> b) := by
  cases a with
  | none => exact hb
  | some e => exact ha

theorem sound_ofLocal? {date : Date} (hdate : date.exists = true) (hour minute second : Nat)
    (offset : Int) :
    Sound ((Time.of? hour minute second).bind fun time => EventDate.ofLocal? date time offset) :=
  sound_bind fun _ htime _ he =>
    (EventDate.of_ofLocal? hdate (Time.onClock_of_of? htime) he).1

theorem sound_ofInternet? (t : Text) : Sound (ofInternet? t) := by
  unfold ofInternet?
  -- The numbers of the date and of the time, each after what parts it from the one before.
  iterate 6 refine sound_bind fun _ _ => ?_
  refine sound_ite sound_none ?_
  iterate 6 refine sound_bind fun _ _ => ?_
  dsimp only
  split
  all_goals
    refine sound_bind fun _ _ => sound_ite sound_none (sound_bind fun _ hdate => ?_)
    exact sound_ofLocal? (Date.exists_of_of? hdate) _ _ _ _

theorem sound_ofMail? (t : Text) : Sound (ofMail? t) := by
  unfold ofMail?
  iterate 10 refine sound_bind fun _ _ => ?_
  dsimp only
  -- With seconds and without them.
  split
  all_goals
    iterate 3 refine sound_bind fun _ _ => ?_
    refine sound_ite sound_none (sound_bind fun _ hdate => sound_ite sound_none ?_)
    exact sound_ofLocal? (Date.exists_of_of? hdate) _ _ _ _

theorem sound_ofDateTime? (t : Text) : Sound (ofDateTime? t) := by
  unfold ofDateTime?
  refine sound_bind fun _ hdate => ?_
  iterate 5 refine sound_bind fun _ _ => ?_
  refine sound_ite (sound_bind fun _ htime => ?_) sound_none
  rintro e ⟨⟩
  exact ⟨exists_of_readDate? hdate, Time.onClock_of_of? htime⟩

theorem sound_ofDay? (t : Text) : Sound (ofDay? t) := by
  unfold ofDay?
  refine sound_bind fun _ hdate => sound_ite ?_ sound_none
  rintro e ⟨⟩
  have hstart : (Time.mk 0 0 0).OnClock := ⟨by decide, by decide, by decide⟩
  exact ⟨exists_of_readDate? hdate, hstart⟩

/-! ## The order of written event dates -/

namespace EventDate

variable {e f : EventDate}

def clock : EventDate → Text
  | .moment _ time => 'T' :: time.written
  | .day _ => []

theorem written_eq (e : EventDate) : e.written = e.date.written ++ e.clock := by
  cases e with
  | moment date time => rfl
  | day date => exact (List.append_nil _).symm

theorem clock_lt (he : e.Proper) (hf : f.Proper) (h : e.time.Before f.time) : e.clock < f.clock := by
  cases f with
  | day date =>
      simp [time, Time.Before] at h
  | moment date later =>
      cases e with
      | day _ => exact List.nil_lt_cons _ _
      | moment _ earlier =>
          exact List.cons_lt_cons_self.mpr ((Time.written_lt_iff he.time hf.time).mpr h)

/-- Within a year event dates are in their order as texts. -/
theorem written_lt_of_earlier (he : e.Proper) (hf : f.Proper) (h : e.Earlier f)
    (hyear : e.date.year = f.date.year) : e.written < f.written := by
  rw [written_eq, written_eq, Date.written_append_lt_iff he.date hf.date hyear]
  exact (before_of_earlier he hf h).imp_right fun hsame =>
    ⟨hsame.1, clock_lt he hf hsame.2⟩

/-- Between two years it is the written years that decide. -/
theorem written_lt_iff_of_year (hyear : e.date.year ≠ f.date.year) :
    e.written < f.written ↔ writtenYear e.date.year < writtenYear f.date.year := by
  rw [written_eq, written_eq, Date.written_append_lt_iff_of_year hyear]

theorem year_le_of_earlier (he : e.Proper) (hf : f.Proper) (h : e.Earlier f) :
    e.date.year ≤ f.date.year := by
  rcases before_of_earlier he hf h with hbefore | ⟨hsame, -⟩
  · unfold Date.Before at hbefore
    omega
  · exact Int.le_of_eq (congrArg Date.year hsame)

theorem sound_ofText? (raw : Text) : Sound (ofText? raw) :=
  sound_orElse (sound_ofInternet? _)
    (sound_orElse (sound_ofMail? _) (sound_orElse (sound_ofDateTime? _) (sound_ofDay? _)))

end EventDate

/-! ## Normalized texts -/

/-- How the normalized texts of two dates are ordered, byte by byte, when the first denotes the
earlier instant. They are in the order of the instants if the later year is one of 0 to 9999, and
otherwise exactly if the years are the same or are written in their order, which they are not where
only the later one needs a plus sign or where both need a minus sign. What a local time denotes lies
before it by as much as it is ahead of UTC. -/
theorem normalized_in_order {earlier later : Text} {e f : EventDate}
    (he : EventDate.ofText? earlier = some e) (hf : EventDate.ofText? later = some f)
    (h : e.Earlier f) :
    (∃ s t, normalizeEventDate? earlier = some s ∧ normalizeEventDate? later = some t ∧
        (0 ≤ f.date.year → f.date.year ≤ 9999 → toBytes s < toBytes t) ∧
        (toBytes s < toBytes t ↔
          e.date.year = f.date.year ∨ writtenYear e.date.year < writtenYear f.date.year) ∧
        (e.date.year ≤ 9999 → 9999 < f.date.year → toBytes t < toBytes s) ∧
        (-9999 ≤ e.date.year → e.date.year < f.date.year → f.date.year < 0 →
          toBytes t < toBytes s)) ∧
      ∀ date time offset made, date.exists = true → time.OnClock →
        EventDate.ofLocal? date time offset = some made →
        made.minute = minuteAt date time - offset ∧ made.time.second = time.second := by
  have hesound := EventDate.sound_ofText? earlier e he
  have hfsound := EventDate.sound_ofText? later f hf
  have hsame := EventDate.written_lt_of_earlier hesound hfsound h
  have hyears := EventDate.year_le_of_earlier hesound hfsound h
  refine ⟨⟨e.written, f.written, by rw [normalizeEventDate?, he]; rfl,
    by rw [normalizeEventDate?, hf]; rfl, ?_⟩, fun date time offset made hdate htime hmade =>
      (EventDate.of_ofLocal? hdate htime hmade).2⟩
  rw [toBytes_lt_iff, toBytes_lt_iff]
  have hcriterion : e.written < f.written ↔
      e.date.year = f.date.year ∨ writtenYear e.date.year < writtenYear f.date.year := by
    by_cases hyear : e.date.year = f.date.year
    · exact iff_of_true (hsame hyear) (.inl hyear)
    · rw [EventDate.written_lt_iff_of_year hyear, or_iff_right hyear]
  refine ⟨fun hfirst hlast => ?_, hcriterion, fun hold hnew => ?_, fun hfirst hlt hneg => ?_⟩
  · rw [hcriterion]
    rcases Int.lt_or_eq_of_le hyears with hlt | heq
    · exact .inr (writtenYear_lt_of_four hlt hfirst hlast)
    · exact .inl heq
  · rw [EventDate.written_lt_iff_of_year (by omega)]
    exact writtenYear_lt_of_large hold hnew
  · rw [EventDate.written_lt_iff_of_year (by omega)]
    exact writtenYear_lt_of_neg hlt hfirst hneg

/-- The same half hour after the end of a year, by a clock that is an hour behind UTC: in order at the
start of 2024, and out of order at the start of 10000. -/
theorem normalized_in_order_of_new_years :
    (∃ s t, normalizeEventDate? "2024-01-01".toList = some s ∧
        normalizeEventDate? "2023-12-31T23:30:00-01:00".toList = some t ∧
        toBytes s < toBytes t) ∧
      ∃ s t, normalizeEventDate? "2024-01-01".toList = some s ∧
        normalizeEventDate? "9999-12-31T23:30:00-01:00".toList = some t ∧
        toBytes t < toBytes s := by
  have hday : EventDate.ofText? "2024-01-01".toList = some (.day ⟨2024, 1, 1⟩) := by
    decide +kernel
  have hsoon : EventDate.ofText? "2023-12-31T23:30:00-01:00".toList =
      some (.moment ⟨2024, 1, 1⟩ ⟨0, 30, 0⟩) := by decide +kernel
  have hlate : EventDate.ofText? "9999-12-31T23:30:00-01:00".toList =
      some (.moment ⟨10000, 1, 1⟩ ⟨0, 30, 0⟩) := by decide +kernel
  obtain ⟨⟨s, t, hs, ht, hinOrder, -⟩, -⟩ := normalized_in_order hday hsoon (by decide)
  obtain ⟨⟨u, v, hu, hv, -, -, houtOfOrder, -⟩, -⟩ := normalized_in_order hday hlate (by decide)
  exact ⟨⟨s, t, hs, ht, hinOrder (by decide) (by decide)⟩,
    u, v, hu, hv, houtOfOrder (by decide) (by decide)⟩

end MailIndex.Calendar
