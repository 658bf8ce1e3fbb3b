import MailIndex.Message.Snippet
import MailIndex.Proofs.Text.Blank
import MailIndex.Text.Utf8

/-!
# Previews

A body that fits is its own preview, white space apart. One that is too long is cut as late as can
be without white space at the end, and three dots follow. White space is trimmed off by a number of
bytes, but the cut never falls inside a character. So a preview has single spaces only, and it is
the body itself if this fits, or if the dots put back what the cut took off.
-/

namespace MailIndex

open Text

/-! ## Cutting after a number of bytes -/

/-- The characters in the first bytes of a text, all of them if it has no more bytes than that.
There is no such text if a character is only in part within these bytes. -/
def Text.truncated? : Text → Nat → Option Text
  | _, 0 => some []
  | [], _ + 1 => some []
  | c :: rest, size + 1 =>
    if c.utf8Size ≤ size + 1 then (truncated? rest (size + 1 - c.utf8Size)).map (c :: ·) else none

theorem Text.truncated?_cons (c : Char) (rest : Text) (size : Nat) :
    truncated? (c :: rest) (c.utf8Size + size) = (truncated? rest size).map (c :: ·) := by
  have hpos := c.utf8Size_pos
  cases hsum : c.utf8Size + size with
  | zero => omega
  | succ total =>
      have hleft : total + 1 - c.utf8Size = size := by omega
      rw [truncated?, if_pos (by omega), hleft]

/-- The bytes of a start of a text end where one of its characters ends. -/
theorem Text.truncated?_of_start {t whole : Text} (h : t <+: whole) :
    truncated? whole (toBytes t).length = some t := by
  obtain ⟨rest, rfl⟩ := h
  induction t with
  | nil => rw [toBytes, List.flatMap_nil, List.length_nil, truncated?]
  | cons c t ih =>
      have hsize : (toBytes (c :: t)).length = c.utf8Size + (toBytes t).length := by
        simp [toBytes, String.length_utf8EncodeChar]
      rw [hsize, List.cons_append, truncated?_cons, ih]
      rfl

namespace Snippet

/-! ## The longest cut -/

structure IsCut (whole : Text) (limit : Nat) (p : Text) : Prop where
  starts : p <+: whole
  fits : p.length ≤ limit
  trimmed : EndsTrimmed p

structure IsLongestCut (whole : Text) (limit : Nat) (p : Text) : Prop
    extends IsCut whole limit p where
  longest : ∀ other, IsCut whole limit other → other <+: p

theorem isBlank_dot : isBlank '.' = false := by decide

theorem unblank_dots : ∀ c ∈ "...".toList, isBlank c = false := by simp [isBlank_dot]

variable {whole p : Text} {limit : Nat}

/-- Only white space is between the end of the longest cut and the last character that fits, so a
longer start that fits would end in white space. -/
theorem isLongestCut_trimEnd (whole : Text) (limit : Nat) :
    IsLongestCut whole limit (trimEnd (whole.take limit)) := by
  obtain ⟨blanks, htake, hblanks⟩ := exists_trimEnd (whole.take limit)
  have hstart : trimEnd (whole.take limit) <+: whole.take limit := ⟨blanks, htake.symm⟩
  obtain ⟨hstarts, hfits⟩ := List.prefix_take_iff.mp hstart
  refine ⟨⟨hstarts, hfits, endsTrimmed_trimEnd _⟩, fun other hother => ?_⟩
  have htaken : other <+: trimEnd (whole.take limit) ++ blanks := by
    rw [← htake]
    exact List.prefix_take_iff.mpr ⟨hother.starts, hother.fits⟩
  rcases List.prefix_or_prefix_of_prefix htaken (List.prefix_append _ _) with hshorter | ⟨more, rfl⟩
  · exact hshorter
  · have hmore : more <+: blanks := (List.prefix_append_right_inj _).mp htaken
    rcases List.eq_nil_or_concat more with rfl | ⟨between, c, rfl⟩
    · exact ⟨[], by simp⟩
    · have hblank := hblanks c (hmore.subset (by simp))
      exact absurd hblank (Bool.eq_false_iff.mp (hother.trimmed c (by simp)))

/-- Where the dots put back what was cut off, the cut is as long as can be: if not, the first dot
would have fitted too. -/
theorem IsLongestCut.length_eq (h : IsLongestCut whole limit p)
    (hdots : p ++ "...".toList = whole) : p.length = limit := by
  by_contra hne
  have hless : p.length < limit := Nat.lt_of_le_of_ne h.fits hne
  have hcut : IsCut whole limit (p ++ ['.']) := by
    refine ⟨⟨"..".toList, ?_⟩, ?_, ?_⟩
    · rw [← hdots, List.append_assoc]
      rfl
    · rw [List.length_append]
      exact hless
    · simp [EndsTrimmed, isBlank_dot]
  have hlonger := (h.longest _ hcut).length_le
  rw [List.length_append] at hlonger
  exact absurd hlonger (Nat.not_succ_le_self p.length)

theorem IsLongestCut.eq_of_length (h : IsLongestCut whole limit p) {other : Text}
    (hother : IsCut whole limit other) (hlength : other.length = limit) : other = p := by
  refine (h.longest other hother).eq_of_length_le ?_
  rw [hlength]
  exact h.fits

theorem IsLongestCut.restores_iff (h : IsLongestCut whole limit p) :
    p ++ "...".toList = whole ↔
      ∃ start, start.length = limit ∧ EndsTrimmed start ∧ whole = start ++ "...".toList := by
  constructor
  · intro hdots
    exact ⟨p, h.length_eq hdots, h.trimmed, hdots.symm⟩
  · rintro ⟨start, hlength, htrimmed, hwhole⟩
    have hcut : IsCut whole limit start := ⟨⟨_, hwhole.symm⟩, Nat.le_of_eq hlength, htrimmed⟩
    rw [← h.eq_of_length hcut hlength, ← hwhole]

/-! ## Previews -/

theorem singleSpaced_collapsed (body : Text) : SingleSpaced (collapsed body) :=
  singleSpaced_joined fun _ => solid_of_mem_words

/-- What a preview is made of are the words of the body with single spaces between them. If they
fit, they are the preview. If not, it is their longest start that fits and does not end in white
space, with three dots after it; the bytes of this start end where a character ends. In both cases
the preview has no more than three characters above the limit, and single spaces only. It is the
words themselves if they fit, and also if they are just as many characters as fit and three dots. -/
theorem ofBody_previews (body : Text) (limit : Nat) :
    collapsed body = [' '].intercalate ((body.splitOnP isBlank).filter (!·.isEmpty)) ∧
      ((collapsed body).length ≤ limit ∧ ofBody body limit = collapsed body ∨
        limit < (collapsed body).length ∧ ∃ p, IsLongestCut (collapsed body) limit p ∧
          truncated? ((collapsed body).take limit) (toBytes p).length = some p ∧
          ofBody body limit = p ++ "...".toList) ∧
      (ofBody body limit = collapsed body ↔ (collapsed body).length ≤ limit ∨
        ∃ start, start.length = limit ∧ EndsTrimmed start ∧
          collapsed body = start ++ "...".toList) ∧
      (ofBody body limit).length ≤ limit + 3 ∧ SingleSpaced (ofBody body limit) := by
  have hwords : collapsed body =
      [' '].intercalate ((body.splitOnP isBlank).filter (!·.isEmpty)) := by
    rw [collapsed, joined, words_eq]
  have hspaced := singleSpaced_collapsed body
  refine ⟨hwords, ?_⟩
  rcases Nat.lt_or_ge limit (collapsed body).length with hlong | hfits
  · have hcut := isLongestCut_trimEnd (collapsed body) limit
    have hstart : trimEnd ((collapsed body).take limit) <+: (collapsed body).take limit :=
      List.prefix_take_iff.mpr ⟨hcut.starts, hcut.fits⟩
    have hpreview : ofBody body limit =
        trimEnd ((collapsed body).take limit) ++ "...".toList := if_neg (Nat.not_le_of_gt hlong)
    rw [hpreview]
    refine ⟨.inr ⟨hlong, _, hcut, truncated?_of_start hstart, rfl⟩, ?_, ?_, ?_⟩
    · rw [hcut.restores_iff, or_iff_right (Nat.not_le_of_gt hlong)]
    · have hdots : "...".toList.length = 3 := rfl
      rw [List.length_append, hdots]
      exact Nat.add_le_add_right hcut.fits 3
    · exact (hspaced.start hcut.starts hcut.trimmed).append unblank_dots
  · have hpreview : ofBody body limit = collapsed body := if_pos hfits
    rw [hpreview]
    exact ⟨.inl ⟨hfits, rfl⟩, iff_of_true rfl (.inl hfits), Nat.le_add_right_of_le hfits, hspaced⟩

/-- A body that ends in three dots: they are cut off and put back. -/
theorem ofBody_restores_dots :
    let body := "abc...".toList
    ¬(ofBody body 3 = collapsed body ↔ (collapsed body).length ≤ 3) := by
  decide

example : ofBody "h\u00e9llo\t\n w\u00f6rld".toList 6 = "h\u00e9llo...".toList := by decide

end Snippet

end MailIndex
