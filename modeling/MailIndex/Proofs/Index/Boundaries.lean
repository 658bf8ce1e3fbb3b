import MailIndex.Index.Entry
import MailIndex.Text.Blank

/-!
# Texts within texts

A character that neither belongs to a word nor is passed over inside one ends the word before it.
White space is of that kind, so the tokens of a text that stands between white space are a run of
the tokens of the whole, and a term made from it occurs there.
-/

namespace MailIndex.Index

open Text

/-! ## Boundaries -/

def isBoundary (c : Char) : Bool := !isWordChar c && !isMark c

def charactersOf (ranges : List (Nat × Nat)) : List Char :=
  ranges.flatMap fun r => (List.range' r.1 (r.2 + 1 - r.1)).map Char.ofNat

theorem mem_charactersOf {ranges : List (Nat × Nat)} {c : Char} (h : inRanges ranges c = true) :
    c ∈ charactersOf ranges := by
  obtain ⟨r, hr, hc⟩ := List.any_eq_true.mp h
  obtain ⟨hfirst, hlast⟩ : r.1 ≤ c.toNat ∧ c.toNat ≤ r.2 := by simpa using hc
  refine List.mem_flatMap.mpr ⟨r, hr, List.mem_map.mpr ⟨c.toNat, ?_, Char.ofNat_toNat c⟩⟩
  exact List.mem_range'_1.mpr (by omega)

theorem isBoundary_of_isBlank {c : Char} (h : isBlank c = true) : isBoundary c = true := by
  have hall : (charactersOf blankRanges).all isBoundary = true := by decide +kernel
  exact List.all_eq_true.mp hall c (mem_charactersOf h)

theorem isBoundary_star : isBoundary '*' = true := by decide +kernel

theorem withWord_append (current : Text) (a b : List Text) :
    withWord current (a ++ b) = withWord current a ++ b := by
  unfold withWord
  split <;> rfl

theorem foldedWordsFrom_append {c : Char} (hc : isBoundary c = true) (current a b : Text) :
    foldedWordsFrom current (a ++ c :: b) = foldedWordsFrom current a ++ foldedWords b := by
  obtain ⟨hword, hmark⟩ : isWordChar c = false ∧ isMark c = false := by
    simpa [isBoundary] using hc
  induction a generalizing current with
  | nil =>
      show foldedWordsFrom current (c :: b) = withWord current [] ++ foldedWords b
      rw [← withWord_append, foldedWordsFrom]
      simp [hword, hmark, foldedWords]
  | cons d a ih =>
      rw [List.cons_append, foldedWordsFrom, foldedWordsFrom]
      by_cases hd : isWordChar d = true
      · rw [if_pos hd, if_pos hd, ih]
      · rw [if_neg hd, if_neg hd]
        by_cases hpass : (isMark d && !current.isEmpty) = true
        · rw [if_pos hpass, if_pos hpass, ih]
        · rw [if_neg hpass, if_neg hpass, ih, withWord_append]

theorem tokens_append {c : Char} (hc : isBoundary c = true) (a b : Text) :
    tokens (a ++ c :: b) = tokens a ++ tokens b := by
  rw [tokens, foldedWords, foldedWordsFrom_append hc, List.map_append]
  rfl

theorem tokens_star (text : Text) : tokens (text ++ ['*']) = tokens text := by
  rw [tokens_append isBoundary_star, tokens_nil, List.append_nil]

/-- `part` stands in a text with white space, or nothing, on each side. -/
def StandsIn (part text : Text) : Prop :=
  ∃ before after, text = before ++ part ++ after ∧
    (∀ c ∈ before.getLast?, isBlank c = true) ∧ ∀ c ∈ after.head?, isBlank c = true

theorem StandsIn.tokens {part text : Text} (h : StandsIn part text) :
    ∃ before after, Index.tokens text = before ++ Index.tokens part ++ after := by
  obtain ⟨before, after, rfl, hbefore, hafter⟩ := h
  have hright : ∃ later, Index.tokens (part ++ after) = Index.tokens part ++ later := by
    cases after with
    | nil => exact ⟨[], by simp⟩
    | cons c after => exact ⟨_, tokens_append (isBoundary_of_isBlank (hafter c rfl)) part after⟩
  obtain ⟨later, hlater⟩ := hright
  rw [List.append_assoc]
  cases List.eq_nil_or_concat before with
  | inl hnil =>
      refine ⟨[], later, ?_⟩
      rw [hnil, List.nil_append, hlater, List.nil_append]
  | inr hconcat =>
      obtain ⟨front, c, rfl⟩ := hconcat
      have hc : isBlank c = true := hbefore c (by simp)
      refine ⟨Index.tokens front, later, ?_⟩
      rw [List.concat_eq_append, List.append_assoc, List.singleton_append,
        tokens_append (isBoundary_of_isBlank hc), hlater, List.append_assoc]

/-! ## Phrases in sequences of tokens -/

theorem startsWith_append (openEnd : Bool) (phrase after : List Token) :
    startsWith openEnd phrase (phrase ++ after) = true := by
  induction phrase with
  | nil => simp [startsWith]
  | cons p phrase ih =>
      cases phrase with
      | nil => cases openEnd <;> simp [startsWith]
      | cons next phrase =>
          show (p == p && startsWith openEnd (next :: phrase) (next :: phrase ++ after)) = true
          rw [ih, beq_self_eq_true]
          rfl

theorem startsWith_open {phrase found : List Token} (h : startsWith false phrase found = true) :
    startsWith true phrase found = true := by
  induction phrase generalizing found with
  | nil => simp [startsWith]
  | cons p phrase ih =>
      cases found with
      | nil => simp [startsWith] at h
      | cons t found =>
          cases phrase with
          | nil =>
              have heq : p = t := by simpa [startsWith] using h
              simp [startsWith, heq]
          | cons next phrase =>
              obtain ⟨heq, hrest⟩ : p = t ∧ startsWith false (next :: phrase) found = true := by
                simpa [startsWith] using h
              simpa [startsWith, heq] using ih hrest

theorem occurrences_pos {openEnd : Bool} {phrase : List Token} (hne : phrase ≠ [])
    (before after : List Token) : 0 < occurrences openEnd phrase (before ++ phrase ++ after) := by
  induction before with
  | nil =>
      obtain ⟨p, more, rfl⟩ := List.exists_cons_of_ne_nil hne
      have hstarts := startsWith_append openEnd (p :: more) after
      rw [List.cons_append] at hstarts
      simp only [List.nil_append, List.cons_append, occurrences]
      rw [if_pos hstarts]
      omega
  | cons t before ih =>
      simp only [List.cons_append, occurrences]
      omega

theorem occurrences_le_open (phrase found : List Token) :
    occurrences false phrase found ≤ occurrences true phrase found := by
  induction found with
  | nil => exact Nat.le_refl _
  | cons t found ih =>
      simp only [occurrences]
      by_cases hstarts : startsWith false phrase (t :: found) = true
      · rw [if_pos hstarts, if_pos (startsWith_open hstarts)]
        omega
      · rw [if_neg hstarts]
        omega

end MailIndex.Index

namespace MailIndex.Match.Term

open Index

/-! ## Terms in entries -/

theorem occursIn_of_tokens {t : Term} {entry : EntryText} {c : Column} (hc : c ∈ t.columns)
    (hpresent : t.tokens ≠ []) {before after : List Token}
    (h : Index.tokens (entry.column c) = before ++ t.tokens ++ after) :
    t.occursIn entry = true := by
  have hpos : 0 < occurrences t.starred t.tokens (Index.tokens (entry.column c)) := by
    rw [h]
    exact occurrences_pos hpresent before after
  have hle : occurrences t.starred t.tokens (Index.tokens (entry.column c)) ≤ t.count entry :=
    le_total_of_mem (List.mem_map.mpr ⟨c, hc, rfl⟩)
  have hcount : 0 < t.count entry := by omega
  simp [occursIn, isPresent, hpresent, hcount]

/-- What occurs as it is also occurs where its end is left open. -/
theorem occursIn_of_occursIn {t t' : Term} {entry : EntryText} (hcolumn : t'.column = t.column)
    (htokens : t'.tokens = t.tokens) (hstarred : t.starred = false)
    (h : t.occursIn entry = true) : t'.occursIn entry = true := by
  obtain ⟨hpresent, hcount⟩ : t.isPresent = true ∧ 0 < t.count entry := by
    simpa [occursIn] using h
  have hsame : t'.isPresent = true := by
    rw [isPresent, htokens]
    exact hpresent
  have hle : t.count entry ≤ t'.count entry := by
    have hcolumns : t'.columns = t.columns := by rw [columns, columns, hcolumn]
    rw [count, count, hcolumns, htokens, hstarred]
    refine total_map_le fun c _ => ?_
    cases t'.starred with
    | false => exact Nat.le_refl _
    | true => exact occurrences_le_open _ _
  have hmore : 0 < t'.count entry := by omega
  simp [occursIn, hsame, hmore]

end MailIndex.Match.Term
