import MailIndex.Message.Address
import MailIndex.Proofs.Query.Wording
import MailIndex.Proofs.Text.LowerCase

/-!
# Addresses that stand for themselves

What is read from a displayed sender or recipient has no white space, no capitals, and no angle
brackets that would be taken off again. Such a text is its own address.
-/

namespace MailIndex.Text

theorem mem_of_mem_trim {c : Char} {t : Text} (h : c ∈ trim t) : c ∈ t := by
  unfold trim trimEnd at h
  rw [List.mem_reverse] at h
  have hstart : c ∈ trimStart t := List.mem_reverse.mp ((List.dropWhile_suffix _).subset h)
  exact (List.dropWhile_suffix _).subset hstart

theorem filter_dropWhile_isBlank {p : Char → Bool} (hp : ∀ c, isBlank c = true → p c = false)
    (t : Text) : (t.dropWhile isBlank).filter p = t.filter p := by
  induction t with
  | nil => rfl
  | cons c t ih =>
      by_cases hc : isBlank c = true
      · rw [List.dropWhile_cons_of_pos hc, ih, List.filter_cons_of_neg (by simp [hp c hc])]
      · rw [List.dropWhile_cons_of_neg hc]

theorem filter_trim {p : Char → Bool} (hp : ∀ c, isBlank c = true → p c = false) (t : Text) :
    (trim t).filter p = t.filter p := by
  unfold trim trimEnd trimStart
  rw [List.filter_reverse, filter_dropWhile_isBlank hp, List.filter_reverse, List.reverse_reverse,
    filter_dropWhile_isBlank hp]

end MailIndex.Text

namespace MailIndex.Address

open Text

/-! ## Angle brackets -/

def isBracket (c : Char) : Bool := c == '<' || c == '>'

theorem isCaseless_of_isBracket {c : Char} (h : isBracket c = true) : isCaseless c = true := by
  have hbracket : c = '<' ∨ c = '>' := by simpa [isBracket] using h
  rcases hbracket with rfl | rfl <;> exact isCaseless_of_lt (by decide)

theorem isBracket_of_isBlank {c : Char} (h : isBlank c = true) : isBracket c = false := by
  refine Bool.eq_false_iff.mpr fun hbracket => ?_
  have hbracket : c = '<' ∨ c = '>' := by simpa [isBracket] using hbracket
  rcases hbracket with rfl | rfl <;> exact absurd h (by decide)

/-- Read from the end, a closing bracket comes first and an opening one after it. -/
def ClosesFirst (backward : Text) : Prop :=
  '<' ∉ backward.takeWhile (· ≠ '>') ∧ '<' ∈ (backward.dropWhile (· ≠ '>')).drop 1

theorem bracketed?_eq_none_iff {value : Text} :
    bracketed? value = none ↔ ¬ClosesFirst value.reverse := by
  unfold bracketed? ClosesFirst
  dsimp only
  split
  · next hcloses => exact iff_of_false (Option.some_ne_none _) (not_not_intro hcloses)
  · next hstays => exact iff_of_true rfl hstays

/-- Only the brackets of a text matter. -/
theorem closesFirst_filter (backward : Text) :
    ClosesFirst (backward.filter isBracket) ↔ ClosesFirst backward := by
  induction backward with
  | nil => rfl
  | cons c rest ih =>
      by_cases hclosing : c = '>'
      · subst hclosing
        rw [List.filter_cons_of_pos rfl]
        simp [ClosesFirst, isBracket]
      · by_cases hopening : c = '<'
        · subst hopening
          rw [List.filter_cons_of_pos rfl]
          simp [ClosesFirst]
        · rw [List.filter_cons_of_neg (by simp [isBracket, hopening, hclosing]), ih]
          simp [ClosesFirst, hclosing, Ne.symm hopening]

theorem bracketed?_eq_none_of_filter {value other : Text}
    (h : value.filter isBracket = other.filter isBracket) (hnone : bracketed? other = none) :
    bracketed? value = none := by
  rw [bracketed?_eq_none_iff, ← closesFirst_filter, List.filter_reverse] at hnone ⊢
  rwa [h]

theorem bracketed?_of_not_mem {value : Text} (h : '<' ∉ value) : bracketed? value = none := by
  refine bracketed?_eq_none_iff.mpr fun hcloses => h ?_
  have hmem := (List.dropWhile_suffix _).subset (List.mem_of_mem_drop hcloses.2)
  exact List.mem_reverse.mp hmem

theorem mem_of_mem_bracketed? {c : Char} {value address : Text}
    (h : bracketed? value = some address) (hc : c ∈ address) : c ∈ value := by
  unfold bracketed? at h
  dsimp only at h
  split at h
  · cases h
    have hinner := (List.takeWhile_prefix _).subset (List.mem_reverse.mp hc)
    exact List.mem_reverse.mp ((List.dropWhile_suffix _).subset (List.mem_of_mem_drop hinner))
  · cases h

theorem not_mem_of_bracketed? {value inner : Text} (h : bracketed? value = some inner) :
    '<' ∉ inner := by
  unfold bracketed? at h
  dsimp only at h
  split at h
  · cases h
    intro hopening
    simpa using List.mem_takeWhile_imp (List.mem_reverse.mp hopening)
  · cases h

/-! ## Addresses -/

/-- The texts that are their own addresses. -/
structure IsAddress (t : Text) : Prop where
  at_mem : '@' ∈ t
  unblank : ∀ c ∈ t, isBlank c = false
  unbracketed : bracketed? t = none
  lowered : lower t = t

theorem trim_of_unblank {t : Text} (h : ∀ c ∈ t, isBlank c = false) : trim t = t :=
  Query.trim_eq_self
    ⟨fun c hc => h c (List.mem_of_mem_head? hc), fun c hc => h c (List.mem_of_getLast? hc)⟩

/-- What is looked at in a displayed value, once it is trimmed, has no brackets to be taken off. -/
theorem bracketed?_candidate (value : Text) :
    bracketed? (trim ((bracketed? value).getD value)) = none := by
  cases hinner : bracketed? value with
  | none => exact bracketed?_eq_none_of_filter (filter_trim (fun _ => isBracket_of_isBlank) _) hinner
  | some inner =>
      exact bracketed?_of_not_mem fun hopening =>
        not_mem_of_bracketed? hinner (mem_of_mem_trim hopening)

theorem isAddress_of_ofDisplay? {display address : Text} (h : ofDisplay? display = some address) :
    IsAddress address := by
  unfold ofDisplay? at h
  dsimp only at h
  split at h
  · next hcandidate =>
      cases h
      obtain ⟨hat, hblank⟩ := hcandidate
      have hbrackets := bracketed?_candidate (trim display)
      generalize trim ((bracketed? (trim display)).getD (trim display)) = candidate at *
      refine ⟨(mem_lower_iff (isCaseless_of_lt (by decide)) candidate).mpr hat, fun c hc => ?_, ?_,
        lower_lower candidate⟩
      · refine Bool.eq_false_iff.mpr fun hgap => ?_
        have hkept := (mem_lower_iff (isCaseless_of_isBlank hgap) candidate).mp hc
        have hany : candidate.any isBlank = true := List.any_eq_true.mpr ⟨c, hkept, hgap⟩
        rw [hany] at hblank
        cases hblank
      · exact bracketed?_eq_none_of_filter
          (filter_lower (fun _ => isCaseless_of_isBracket) candidate) hbrackets
  · cases h

theorem IsAddress.ofDisplay? {t : Text} (h : IsAddress t) : ofDisplay? t = some t := by
  have htrim : trim t = t := trim_of_unblank h.unblank
  have hblank : t.any isBlank = false := List.any_eq_false.mpr fun c hc => by simp [h.unblank c hc]
  unfold Address.ofDisplay?
  dsimp only
  rw [htrim, h.unbracketed, Option.getD_none, htrim, h.lowered, hblank]
  exact if_pos ⟨h.at_mem, rfl⟩

end MailIndex.Address
