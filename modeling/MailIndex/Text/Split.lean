import MailIndex.Text.Range

/-!
# Splitting

The parts of a text between separators. There is one part more than there are separators, and the
parts with separators between them are the text again.
-/

namespace MailIndex.Text

/-- The parts of a text; `current` holds, in reverse, the part that is being read. -/
def splitFrom (separator : Char) (current : Text) : Text → List Text
  | [] => [current.reverse]
  | c :: rest =>
    if c = separator then current.reverse :: splitFrom separator [] rest
    else splitFrom separator (c :: current) rest

def split (separator : Char) (t : Text) : List Text := splitFrom separator [] t

theorem splitFrom_ne_nil (separator : Char) (current t : Text) :
    splitFrom separator current t ≠ [] := by
  induction t generalizing current with
  | nil => simp [splitFrom]
  | cons c rest ih =>
    unfold splitFrom
    split
    · simp
    · exact ih _

theorem intercalate_splitFrom (separator : Char) (current t : Text) :
    [separator].intercalate (splitFrom separator current t) = current.reverse ++ t := by
  induction t generalizing current with
  | nil => simp [splitFrom]
  | cons c rest ih =>
    unfold splitFrom
    split
    · rename_i h
      obtain ⟨part, parts, hparts⟩ := List.exists_cons_of_ne_nil (splitFrom_ne_nil separator [] rest)
      have := ih []
      rw [hparts] at this ⊢
      simp only [List.reverse_nil, List.nil_append] at this
      rw [List.intercalate_cons_cons, this]
      simp [h]
    · rw [ih]
      simp

theorem intercalate_split (separator : Char) (t : Text) :
    [separator].intercalate (split separator t) = t :=
  intercalate_splitFrom separator [] t

theorem split_ne_nil (separator : Char) (t : Text) : split separator t ≠ [] :=
  splitFrom_ne_nil separator [] t

theorem splitFrom_append_cons (separator : Char) (current front rest : Text) :
    splitFrom separator current (front ++ separator :: rest) =
      splitFrom separator current front ++ split separator rest := by
  induction front generalizing current with
  | nil => simp [splitFrom, split]
  | cons c front ih =>
    simp only [List.cons_append, splitFrom]
    split
    · rw [ih []]
      rfl
    · exact ih _

theorem split_append_cons (separator : Char) (front rest : Text) :
    split separator (front ++ separator :: rest) = split separator front ++ split separator rest :=
  splitFrom_append_cons separator [] front rest

theorem splitFrom_of_not_mem {separator : Char} {t : Text} (current : Text) (h : separator ∉ t) :
    splitFrom separator current t = [current.reverse ++ t] := by
  induction t generalizing current with
  | nil => simp [splitFrom]
  | cons c t ih =>
    simp only [List.mem_cons, not_or] at h
    simp [splitFrom, Ne.symm h.1, ih _ h.2]

theorem split_of_not_mem {separator : Char} {t : Text} (h : separator ∉ t) :
    split separator t = [t] := splitFrom_of_not_mem [] h

theorem split_inj {separator : Char} {s t : Text} :
    split separator s = split separator t ↔ s = t := by
  constructor
  · intro h
    rw [← intercalate_split separator s, h, intercalate_split]
  · rintro rfl
    rfl

/-- Texts with separators between them are split there and at the separators of their own. -/
theorem split_intercalate {separator : Char} {parts : List Text} (h : parts ≠ []) :
    split separator ([separator].intercalate parts) = parts.flatMap (split separator) := by
  induction parts with
  | nil => exact absurd rfl h
  | cons part parts ih =>
      cases parts with
      | nil => simp
      | cons next parts =>
          rw [List.intercalate_cons_cons, List.append_assoc, List.singleton_append,
            split_append_cons, ih (List.cons_ne_nil _ _)]
          rfl

theorem flatMap_split_of_not_mem {separator : Char} {parts : List Text}
    (h : ∀ part ∈ parts, separator ∉ part) : parts.flatMap (split separator) = parts := by
  have hparts : parts.map (split separator) = parts.map ([·]) :=
    List.map_congr_left fun part hpart => split_of_not_mem (h part hpart)
  rw [List.flatMap_def, hparts, ← List.flatMap_def]
  simp

end MailIndex.Text
