import MailIndex.Text.Decimal.Grouped

/-!
# Groups of three digits

Commas part the digits of a number into groups: a first one of one to three digits, and groups of
exactly three after it. Without the commas they are the decimal digits of the number.
-/

namespace MailIndex.Text.Decimal

/-- A first group of one to three characters, and groups of three after it. -/
structure InThrees (lead : Text) (groups : List Text) : Prop where
  nonempty : 1 ≤ lead.length
  atMostThree : lead.length ≤ 3
  following : ∀ group ∈ groups, group.length = 3

section

variable {lead : Text} {groups : List Text}

theorem InThrees.isFull_iff (h : InThrees lead groups) :
    (lead :: groups).flatten.length % 3 = 0 ↔ lead.length = 3 := by
  have hsame : groups.map List.length = groups.map fun _ => 3 := List.map_congr_left h.following
  have hlength : (lead :: groups).flatten.length = lead.length + groups.length * 3 := by
    rw [List.flatten_cons, List.length_append, List.length_flatten, hsame, List.map_const',
      List.sum_replicate_nat]
  have hnonempty := h.nonempty
  have hatMost := h.atMostThree
  omega

theorem InThrees.joinFirst (h : InThrees lead groups) (hroom : lead.length ≠ 3) (d : Char) :
    InThrees (d :: lead) groups := by
  refine ⟨Nat.le_add_left 1 _, ?_, h.following⟩
  exact Nat.lt_of_le_of_ne h.atMostThree hroom

theorem InThrees.newGroup (h : InThrees lead groups) (hfull : lead.length = 3) (d : Char) :
    InThrees [d] (lead :: groups) :=
  ⟨Nat.le_refl 1, Nat.le_add_left 1 2, List.forall_mem_cons.mpr ⟨hfull, h.following⟩⟩

end

theorem intercalate_cons (d : Char) (separator lead : Text) (groups : List Text) :
    separator.intercalate ((d :: lead) :: groups) =
      d :: separator.intercalate (lead :: groups) := by
  cases groups with
  | nil => simp
  | cons group groups => simp [List.intercalate_cons_cons]

/-- The digits are taken one by one from the right. A comma stands before the ones that are there
already just where they fill their groups, and their number is then a multiple of three. -/
theorem exists_groups {ds : Text} (h : ds ≠ []) :
    ∃ lead groups, InThrees lead groups ∧ (lead :: groups).flatten = ds ∧
      grouped ds = [','].intercalate (lead :: groups) := by
  induction ds with
  | nil => exact absurd rfl h
  | cons d rest ih =>
      by_cases hrest : rest = []
      · subst hrest
        refine ⟨[d], [], ⟨Nat.le_refl 1, Nat.le_add_left 1 2, List.forall_mem_nil _⟩, rfl, ?_⟩
        rw [grouped, if_neg fun hboth => hboth.2 rfl, grouped, List.intercalate_singleton]
      · obtain ⟨lead, groups, hthrees, hflatten, hgrouped⟩ := ih hrest
        have hisFull := hthrees.isFull_iff
        rw [hflatten] at hisFull
        by_cases hfull : rest.length % 3 = 0
        · refine ⟨[d], lead :: groups, hthrees.newGroup (hisFull.mp hfull) d, ?_, ?_⟩
          · rw [List.flatten_cons, hflatten, List.singleton_append]
          · rw [grouped, if_pos ⟨hfull, hrest⟩, hgrouped, List.intercalate_cons_cons]
            rfl
        · refine ⟨d :: lead, groups, hthrees.joinFirst (mt hisFull.mpr hfull) d, ?_, ?_⟩
          · rw [← hflatten]
            rfl
          · rw [grouped, if_neg fun hboth => hfull hboth.1, hgrouped, intercalate_cons]

theorem isDigit_of_mem_digits {n : Nat} {c : Char} (h : c ∈ digits n) : c.isDigit = true :=
  Nat.isDigit_of_mem_toDigits (by decide) (by decide) h

/-- A number is written in groups of three digits from the right, the first of which may have fewer,
with commas between them. -/
theorem withCommas_in_threes (n : Nat) :
    (withCommas n).filter (· ≠ ',') = Nat.toDigits 10 n ∧
      ∃ lead groups, withCommas n = [','].intercalate (lead :: groups) ∧ InThrees lead groups ∧
        ∀ group ∈ lead :: groups, ∀ c ∈ group, c.isDigit = true := by
  have hcomma : ',' ∉ digits n := fun hmem => absurd (isDigit_of_mem_digits hmem) (by decide)
  obtain ⟨lead, groups, hthrees, hflatten, hgrouped⟩ := exists_groups Nat.toDigits_ne_nil
  refine ⟨filter_grouped _ hcomma, lead, groups, hgrouped, hthrees, fun group hgroup c hc => ?_⟩
  have hdigit : c ∈ digits n := by
    rw [digits, ← hflatten]
    exact List.mem_flatten_of_mem hgroup hc
  exact isDigit_of_mem_digits hdigit

example : withCommas 1234567 = "1,234,567".toList := by decide

end MailIndex.Text.Decimal
