import MailIndex.Proofs.Query.Scanning
import MailIndex.Proofs.Text.LowerCase

/-!
# Filters with a minus sign

A filter is read alike with a minus sign before it and without one, as long as its value has no
quote. The value of an excluded filter may have one, while one that is not excluded ends before it,
and what is quoted from there on is a token of its own.
-/

namespace MailIndex.Query

open Text

/-! ## Names of fields in any letter case -/

theorem Field.isLower_of_ofName? {name : Text} {field : Field} (h : ofName? name = some field) :
    ∀ c ∈ name, c.isLower = true := by
  obtain ⟨front, back, hnames, -⟩ := List.lookup_eq_some_iff.mp h
  have hmem : (name, field) ∈ Field.names := by
    rw [hnames]
    exact List.mem_append_right front List.mem_cons_self
  have hall : Field.names.all (fun entry => entry.1.all Char.isLower) = true := by decide
  exact List.all_eq_true.mp (List.all_eq_true.mp hall _ hmem)

section

variable {name : Text} {field : Field} (hfield : Field.ofName? (lower name) = some field)

include hfield

/-- A name of a field has no character that is its own lower-case form, small letters apart. -/
theorem Field.not_mem_of_lowerChar {c : Char} (hsame : lowerChar c = [c])
    (hother : c.isLower = false) : c ∉ name := by
  intro hc
  rw [isLower_of_ofName? hfield c (mem_lowerFrom_of_lowerChar hc hsame)] at hother
  cases hother

theorem Field.unbroken_of_ofName? : Unbroken name := by
  have hblanks : (Index.charactersOf blankRanges).all (!·.isLower) = true := by decide +kernel
  intro c hc
  refine ⟨Bool.eq_false_iff.mpr fun hblank => ?_, ?_, ?_⟩
  · have hother : c.isLower = false := by
      simpa using List.all_eq_true.mp hblanks c (Index.mem_charactersOf hblank)
    have hsame := lowerChar_of_isCaseless (isCaseless_of_isBlank hblank)
    exact not_mem_of_lowerChar hfield hsame hother hc
  · rintro rfl
    exact not_mem_of_lowerChar hfield (by decide) (by decide) hc
  · rintro rfl
    exact not_mem_of_lowerChar hfield (by decide) (by decide) hc

/-! ## Reading one filter -/

theorem readTerm_field (value : Text) :
    readTerm (name ++ ':' :: value) =
      if value = [] then .error (.emptyValue (lower name) true)
      else .ok (some (.filter field value true)) := by
  have hcolon : ':' ∉ name := Field.not_mem_of_lowerChar hfield (by decide) (by decide)
  unfold readTerm
  rw [if_neg (by simp), readFilter_field value true hcolon hfield]
  by_cases hempty : value = []
  · rw [if_pos hempty]
  · rw [if_neg hempty]

theorem readSegment_field (value : Text) :
    readSegment (name ++ ':' :: value) =
      if value = [] then .error (.emptyValue (lower name) false)
      else .ok (some (.filter field value false)) := by
  have hcolon : ':' ∉ name := Field.not_mem_of_lowerChar hfield (by decide) (by decide)
  have hmem : ':' ∈ name ++ ':' :: value := by simp
  unfold readSegment
  rw [if_neg (asciiLower_ne_of_colon hmem (by decide)),
    if_neg (asciiLower_ne_of_colon hmem (by decide)), readFilter_field value false hcolon hfield]
  by_cases hempty : value = []
  · rw [if_pos hempty]
  · rw [if_neg hempty]

theorem unbroken_filter {value : Text} (hvalue : Unbroken value) : Unbroken (name ++ ':' :: value) :=
  List.forall_mem_append.mpr
    ⟨Field.unbroken_of_ofName? hfield, Unbroken.cons (by decide) hvalue⟩

theorem tokenize_excluded_filter {value : Text} (hvalue : Unbroken value) :
    tokenize ('-' :: (name ++ ':' :: value)) =
      if value = [] then .error (.emptyValue (lower name) true)
      else .ok [.filter field value true] := by
  have hunbroken := unbroken_filter hfield hvalue
  have hquote : (name ++ ':' :: value).head? ≠ some '"' := by
    cases name with
    | nil => simp
    | cons c name =>
        intro hhead
        refine Field.not_mem_of_lowerChar hfield (c := '"') (by decide) (by decide) ?_
        exact List.mem_of_mem_head? hhead
  have hread := readToken_minus (by simp) hunbroken hquote parted_nil
  rw [List.append_nil, readTerm_field hfield] at hread
  rw [tokenize, trim_eq_self (Unbroken.cons (by decide) hunbroken).isTrimmed]
  by_cases hempty : value = []
  · rw [if_pos hempty] at hread ⊢
    exact scan_error (by decide) hread
  · rw [if_neg hempty] at hread ⊢
    rw [scan_token (by decide) hread, scan]
    rfl

/-- The value of a filter that is not excluded ends before the first quote. -/
theorem tokenize_filter {front back : Text} (hvalue : Unbroken (front ++ back))
    (hfront : '"' ∉ front) (hback : ∀ c ∈ back.head?, c = '"') :
    tokenize (name ++ ':' :: (front ++ back)) =
      if front = [] then .error (.emptyValue (lower name) false)
      else (tokenize back).map (.filter field front false :: ·) := by
  obtain ⟨hfirst, hlast⟩ : Unbroken front ∧ Unbroken back := List.forall_mem_append.mp hvalue
  have hquote : '"' ∉ name := Field.not_mem_of_lowerChar hfield (by decide) (by decide)
  have hminus : '-' ∉ name := Field.not_mem_of_lowerChar hfield (by decide) (by decide)
  have hunbroken := unbroken_filter hfield hvalue
  have hrun := unbroken_filter hfield hfirst
  have hsegment := readSegment_field hfield front
  rw [tokenize, tokenize, trim_eq_self hunbroken.isTrimmed, trim_eq_self hlast.isTrimmed]
  obtain ⟨c, more, rfl⟩ : ∃ c more, name = c :: more := by
    cases name with
    | nil => cases hfield
    | cons c more => exact ⟨c, more, rfl⟩
  rw [List.cons_append] at hrun hsegment
  have hc : isBlank c = false := (hrun c List.mem_cons_self).1
  have hunquoted : '"' ∉ c :: (more ++ ':' :: front) := by simp_all
  have hends : ∀ d ∈ back.head?, endsSegment d = true := fun d hd => by
    simp [endsSegment, hback d hd]
  have hread := readToken_run hrun hunquoted hends fun hstays =>
    hminus (hstays.1 ▸ List.mem_cons_self)
  rw [hsegment] at hread
  have htext : c :: more ++ ':' :: (front ++ back) = c :: (more ++ ':' :: front ++ back) := by simp
  rw [htext]
  by_cases hempty : front = []
  · rw [if_pos hempty] at hread ⊢
    exact scan_error hc hread
  · rw [if_neg hempty] at hread ⊢
    exact scan_token hc hread

/-! ## With a minus sign and without one -/

/-- A filter with a minus sign is read as one token, whatever its value, and without one its value
ends before the first quote. So the two are read alike, with the same field and the same value,
exactly if the value has no quote. -/
theorem minus_negates_filter {value : Text} (hvalue : Unbroken value) :
    tokenize ('-' :: (name ++ ':' :: value)) =
        (if value = [] then .error (.emptyValue (lower name) true)
          else .ok [.filter field value true]) ∧
      tokenize (name ++ ':' :: value) =
        (if value.takeWhile (· ≠ '"') = [] then .error (.emptyValue (lower name) false)
          else (tokenize (value.dropWhile (· ≠ '"'))).map
            (.filter field (value.takeWhile (· ≠ '"')) false :: ·)) ∧
      ((∀ f v, tokenize ('-' :: (name ++ ':' :: value)) = .ok [.filter f v true] ↔
          tokenize (name ++ ':' :: value) = .ok [.filter f v false]) ↔ '"' ∉ value) := by
  have hexcluded := tokenize_excluded_filter hfield hvalue
  have hsplit : value.takeWhile (· ≠ '"') ++ value.dropWhile (· ≠ '"') = value :=
    List.takeWhile_append_dropWhile
  have hfront : '"' ∉ value.takeWhile (· ≠ '"') := fun hmem => by
    simpa using List.mem_takeWhile_imp hmem
  have hback : ∀ c ∈ (value.dropWhile (· ≠ '"')).head?, c = '"' := by
    intro c hc
    have hhead := List.head?_dropWhile_not (· ≠ '"') value
    rw [hc] at hhead
    simpa using hhead
  have hplain := tokenize_filter hfield (hsplit.symm ▸ hvalue) hfront hback
  rw [hsplit] at hplain
  refine ⟨hexcluded, hplain, fun halike hquote => ?_, fun hquote f v => ?_⟩
  · rw [if_neg (List.ne_nil_of_mem hquote)] at hexcluded
    -- A filter that is not excluded never has a quote in its value.
    have hfilter := wellFormed_of_tokenize ((halike field value).mp hexcluded) _ List.mem_cons_self
    exact IsFilterValue.unquoted hfilter rfl hquote
  · have hwhole : Unbroken (value ++ []) := by simpa using hvalue
    have hplain := tokenize_filter hfield hwhole hquote (by simp)
    rw [List.append_nil] at hplain
    rw [hexcluded, hplain]
    by_cases hempty : value = []
    · simp [hempty]
    · simp [hempty, tokenize, trim_nil, scan, Except.map]

end

/-- With a minus sign the quotes belong to the value, without one they begin a phrase. -/
theorem minus_negates_filter_of_quotes :
    tokenize "-From:a\"b\"".toList = .ok [.filter .sender "a\"b\"".toList true] ∧
      tokenize "From:a\"b\"".toList =
        .ok [.filter .sender ['a'] false, .phrase ['b']] ∧
      (∀ f v, tokenize "-From:a".toList = .ok [.filter f v true] ↔
        tokenize "From:a".toList = .ok [.filter f v false]) := by
  have hfield : Field.ofName? (lower "From".toList) = some .sender := by decide +kernel
  have hquoted : Unbroken "a\"b\"".toList := by decide +kernel
  have hbare : Unbroken ['a'] := by decide +kernel
  obtain ⟨hexcluded, hplain, -⟩ := minus_negates_filter hfield hquoted
  obtain ⟨-, -, halike⟩ := minus_negates_filter hfield hbare
  have hphrase : tokenize "\"b\"".toList = .ok [.phrase ['b']] := by decide +kernel
  refine ⟨hexcluded, hplain.trans ?_, halike.mpr (by decide)⟩
  change (tokenize "\"b\"".toList).map _ = _
  rw [hphrase]
  rfl

end MailIndex.Query
