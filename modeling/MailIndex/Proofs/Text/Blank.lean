import MailIndex.Text.Blank
import Mathlib.Data.List.TakeWhile

/-!
# White space and words

Trimming takes nothing but white space off the end of a text. The words of a text are the parts
between its white space, without the empty ones; put together with one space between neighbours they
make a text whose only white space are spaces that stand alone between other characters.
-/

namespace MailIndex.Text

/-! ## The end of a text -/

def EndsTrimmed (t : Text) : Prop := ∀ c ∈ t.getLast?, isBlank c = false

theorem trimEnd_append_blanks {blanks : Text} (h : ∀ c ∈ blanks, isBlank c = true) (t : Text) :
    trimEnd (t ++ blanks) = trimEnd t := by
  have hreverse : ∀ c ∈ blanks.reverse, isBlank c = true := by simpa using h
  rw [trimEnd, List.reverse_append, List.dropWhile_append_of_pos hreverse, trimEnd]

theorem trimEnd_append {back : Text} (h : trimEnd back ≠ []) (t : Text) :
    trimEnd (t ++ back) = t ++ trimEnd back := by
  have hleft : (back.reverse.dropWhile isBlank).isEmpty = false := by simpa [trimEnd] using h
  rw [trimEnd, List.reverse_append, List.dropWhile_append, hleft, trimEnd]
  simp

theorem exists_trimEnd (t : Text) :
    ∃ blanks, t = trimEnd t ++ blanks ∧ ∀ c ∈ blanks, isBlank c = true := by
  refine ⟨(t.reverse.takeWhile isBlank).reverse, ?_, fun c hc => ?_⟩
  · rw [trimEnd, ← List.reverse_append, List.takeWhile_append_dropWhile, List.reverse_reverse]
  · exact List.mem_takeWhile_imp (List.mem_reverse.mp hc)

theorem endsTrimmed_trimEnd (t : Text) : EndsTrimmed (trimEnd t) := by
  intro c hc
  rw [trimEnd, List.getLast?_reverse] at hc
  have hhead := List.head?_dropWhile_not isBlank t.reverse
  rw [Option.mem_def.mp hc] at hhead
  exact hhead

/-! ## Words -/

structure Solid (w : Text) : Prop where
  ne_nil : w ≠ []
  unblank : ∀ c ∈ w, isBlank c = false

/-- The word that is being read is the start of the first part. -/
theorem wordsFrom_eq (current t : Text) :
    wordsFrom current t =
      ((t.splitOnP isBlank).modifyHead (current.reverse ++ ·)).filter (!·.isEmpty) := by
  induction t generalizing current with
  | nil =>
      rw [wordsFrom, List.splitOnP_nil]
      cases current <;> simp
  | cons c t ih =>
      obtain ⟨part, parts, hparts⟩ :=
        List.exists_cons_of_ne_nil (List.splitOnP_ne_nil isBlank t)
      rw [wordsFrom, List.splitOnP_cons_eq_if_modifyHead]
      cases isBlank c with
      | true =>
          have hnext := ih []
          rw [hparts] at hnext ⊢
          cases current <;> simp [hnext]
      | false =>
          have hnext := ih (c :: current)
          rw [hparts] at hnext ⊢
          simp [hnext]

/-- The words are the parts between white space, without the empty ones. -/
theorem words_eq (t : Text) : words t = (t.splitOnP isBlank).filter (!·.isEmpty) := by
  obtain ⟨part, parts, hparts⟩ := List.exists_cons_of_ne_nil (List.splitOnP_ne_nil isBlank t)
  rw [words, wordsFrom_eq, hparts]
  rfl

theorem unblank_of_mem_splitOnP (t : Text) :
    ∀ part ∈ t.splitOnP isBlank, ∀ c ∈ part, isBlank c = false := by
  induction t with
  | nil => simp [List.splitOnP_nil]
  | cons c t ih =>
      obtain ⟨part, parts, hparts⟩ :=
        List.exists_cons_of_ne_nil (List.splitOnP_ne_nil isBlank t)
      rw [hparts] at ih
      rw [List.splitOnP_cons_eq_if_modifyHead, hparts]
      cases hc : isBlank c with
      | true => exact List.forall_mem_cons.mpr ⟨List.forall_mem_nil _, ih⟩
      | false =>
          obtain ⟨hpart, hrest⟩ := List.forall_mem_cons.mp ih
          exact List.forall_mem_cons.mpr ⟨List.forall_mem_cons.mpr ⟨hc, hpart⟩, hrest⟩

theorem solid_of_mem_words {t w : Text} (h : w ∈ words t) : Solid w := by
  rw [words_eq, List.mem_filter] at h
  obtain ⟨hpart, hne⟩ := h
  exact ⟨by simpa using hne, unblank_of_mem_splitOnP t w hpart⟩

/-! ## Single spaces -/

/-- All white space is a space that has other characters next to it on both sides. -/
def SingleSpaced (t : Text) : Prop :=
  ∀ front c back, t = front ++ c :: back → isBlank c = true →
    c = ' ' ∧ (∃ a ∈ front.getLast?, isBlank a = false) ∧ ∃ b ∈ back.head?, isBlank b = false

theorem place_in_append {a b front back : Text} {c : Char} (h : a ++ b = front ++ c :: back) :
    (∃ more, a = front ++ c :: more ∧ back = more ++ b) ∨
      ∃ more, front = a ++ more ∧ b = more ++ c :: back := by
  rcases List.append_eq_append_iff.mp h with ⟨more, hfront, hb⟩ | ⟨more, ha, hback⟩
  · exact .inr ⟨more, hfront, hb⟩
  · rcases List.cons_eq_append_iff.mp hback with ⟨rfl, hb⟩ | ⟨rest, rfl, hback⟩
    · exact .inr ⟨[], by simpa using ha.symm, hb⟩
    · exact .inl ⟨rest, ha, (List.cons.inj hback).2⟩

theorem singleSpaced_of_unblank {t : Text} (h : ∀ c ∈ t, isBlank c = false) : SingleSpaced t := by
  rintro front c back rfl hc
  have hnot := h c (List.mem_append_right front List.mem_cons_self)
  exact absurd hc (Bool.eq_false_iff.mp hnot)

namespace SingleSpaced

variable {t : Text}

/-- Characters that are no white space, after a text with single spaces. -/
theorem append (ht : SingleSpaced t) {more : Text} (h : ∀ c ∈ more, isBlank c = false) :
    SingleSpaced (t ++ more) := by
  intro front c back heq hc
  rcases place_in_append heq with ⟨between, rfl, rfl⟩ | ⟨between, rfl, rfl⟩
  · obtain ⟨hspace, hfront, b, hb, hunblank⟩ := ht front c between rfl hc
    refine ⟨hspace, hfront, b, ?_, hunblank⟩
    rw [List.head?_append, Option.mem_def.mp hb]
    rfl
  · have hnot := h c (List.mem_append_right between List.mem_cons_self)
    exact absurd hc (Bool.eq_false_iff.mp hnot)

theorem start (ht : SingleSpaced t) {p : Text} (hp : p <+: t) (hend : EndsTrimmed p) :
    SingleSpaced p := by
  rintro front c back rfl hc
  obtain ⟨rest, rfl⟩ := hp
  obtain ⟨hspace, hfront, b, hb, hunblank⟩ := ht front c (back ++ rest) (by simp) hc
  refine ⟨hspace, hfront, ?_⟩
  cases back with
  | nil => exact absurd hc (Bool.eq_false_iff.mp (hend c (by simp)))
  | cons d back => exact ⟨b, hb, hunblank⟩

theorem unblank_head? (ht : SingleSpaced t) : ∀ c ∈ t.head?, isBlank c = false := by
  intro c hc
  cases t with
  | nil => cases hc
  | cons d back =>
      cases hc
      by_contra hblank
      obtain ⟨-, ⟨a, ha, -⟩, -⟩ := ht [] c back rfl (by simpa using hblank)
      cases ha

theorem word (ht : SingleSpaced t) (hne : t ≠ []) {w : Text} (hw : Solid w) :
    SingleSpaced (w ++ ' ' :: t) := by
  intro front c back heq hc
  rcases place_in_append heq with ⟨more, rfl, rfl⟩ | ⟨more, rfl, hmore⟩
  · have hnot := hw.unblank c (List.mem_append_right front List.mem_cons_self)
    exact absurd hc (Bool.eq_false_iff.mp hnot)
  · cases more with
    | nil =>
        -- the space itself
        obtain ⟨rfl, rfl⟩ := List.cons.inj hmore
        obtain ⟨a, ha⟩ := Option.ne_none_iff_exists'.mp (mt List.getLast?_eq_none_iff.mp hw.ne_nil)
        obtain ⟨d, rest, rfl⟩ := List.exists_cons_of_ne_nil hne
        refine ⟨rfl, ⟨a, by simpa using ha, hw.unblank a (List.mem_of_getLast? ha)⟩, d, rfl, ?_⟩
        exact ht.unblank_head? d rfl
    | cons s between =>
        obtain ⟨rfl, rfl⟩ := List.cons.inj hmore
        obtain ⟨hspace, ⟨a, ha, hunblank⟩, hback⟩ := ht between c back rfl hc
        refine ⟨hspace, ⟨a, ?_, hunblank⟩, hback⟩
        rw [List.getLast?_append, List.getLast?_cons, Option.mem_def.mp ha]
        rfl

end SingleSpaced

theorem joined_ne_nil {w : Text} (h : w ≠ []) (separator : Text) (ws : List Text) :
    joined separator (w :: ws) ≠ [] := by
  cases ws with
  | nil => simpa [joined] using h
  | cons next ws =>
      rw [joined, List.intercalate_cons_cons, List.append_assoc]
      exact List.append_ne_nil_of_left_ne_nil h _

theorem singleSpaced_joined {ws : List Text} (h : ∀ w ∈ ws, Solid w) :
    SingleSpaced (joined [' '] ws) := by
  induction ws with
  | nil => exact singleSpaced_of_unblank (List.forall_mem_nil _)
  | cons w ws ih =>
      obtain ⟨hw, hws⟩ := List.forall_mem_cons.mp h
      cases ws with
      | nil => simpa [joined] using singleSpaced_of_unblank hw.unblank
      | cons next ws =>
          have hnext := joined_ne_nil (hws next List.mem_cons_self).ne_nil [' '] ws
          have hspaced := (ih hws).word hnext hw
          rw [joined, List.intercalate_cons_cons, List.append_assoc]
          exact hspaced

end MailIndex.Text
