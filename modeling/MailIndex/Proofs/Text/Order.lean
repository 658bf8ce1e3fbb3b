import MailIndex.Text.Order
import MailIndex.Text.Utf8
import Mathlib.Tactic.SplitIfs

/-!
# The order of texts

Lists of a common length are compared part by part. UTF-8 keeps the order of the characters, so texts
are in the same order as their bytes.
-/

namespace MailIndex.Text

/-! ## Lists in parts -/

theorem append_lt_append_iff {α : Type} [LT α] {a b : List α} (h : a.length = b.length)
    (s t : List α) : a ++ s < b ++ t ↔ a < b ∨ a = b ∧ s < t := by
  induction a generalizing b with
  | nil =>
      obtain rfl := List.eq_nil_of_length_eq_zero h.symm
      simp
  | cons x a ih =>
      cases b with
      | nil => cases h
      | cons y b =>
          have hparts := ih (Nat.succ.inj h)
          simp only [List.cons_append, List.cons_lt_cons_iff, hparts, List.cons.injEq, and_or_left,
            or_assoc, and_assoc]

theorem append_left_lt_iff (a s t : Text) : a ++ s < a ++ t ↔ s < t := by
  rw [append_lt_append_iff rfl]
  exact ⟨fun h => (h.resolve_left (List.lt_irrefl a)).2, fun h => .inr ⟨rfl, h⟩⟩

/-- A mark between the parts that comes before all that may stand in the first ones. -/
theorem append_cons_lt_append_cons_iff {mark : Char} {a b : Text} (ha : ∀ c ∈ a, mark < c)
    (hb : ∀ c ∈ b, mark < c) (h : a ≠ b) (s t : Text) :
    a ++ mark :: s < b ++ mark :: t ↔ a < b := by
  induction a generalizing b with
  | nil =>
      cases b with
      | nil => exact absurd rfl h
      | cons d b =>
          have hfirst : mark :: s < d :: (b ++ mark :: t) :=
            List.cons_lt_cons_iff.mpr (.inl (hb d List.mem_cons_self))
          exact iff_of_true hfirst (List.nil_lt_cons d b)
  | cons c a ih =>
      obtain ⟨hc, ha⟩ := List.forall_mem_cons.mp ha
      cases b with
      | nil =>
          have hlast : mark :: t < c :: (a ++ mark :: s) := List.cons_lt_cons_iff.mpr (.inl hc)
          exact iff_of_false (List.lt_asymm hlast) (List.not_lt_nil _)
      | cons d b =>
          obtain ⟨-, hb⟩ := List.forall_mem_cons.mp hb
          rw [List.cons_append, List.cons_append, List.cons_lt_cons_iff, List.cons_lt_cons_iff]
          refine or_congr_right (and_congr_right fun hcd => ih ha hb fun hab => h ?_)
          rw [hcd, hab]

/-! ## Bytes -/

/-- The encodings of two different characters are in the order of the characters, and differ before
either of them ends. -/
theorem utf8EncodeChar_lt {c d : Char} (h : c < d) (s t : List UInt8) :
    String.utf8EncodeChar c ++ s < String.utf8EncodeChar d ++ t := by
  have hlt : c.val.toNat < d.val.toNat := h
  have hbound : d.val.toNat < 0x110000 := by
    have hvalid : d.val.toNat.isValidChar := d.valid
    unfold Nat.isValidChar at hvalid
    omega
  unfold String.utf8EncodeChar
  dsimp only
  generalize c.val.toNat = m at *
  generalize d.val.toNat = n at *
  -- The digits to the base 64, from the last one on.
  have htwo (k : Nat) : k / 4096 = k / 64 / 64 := by omega
  have hthree (k : Nat) : k / 262144 = k / 64 / 64 / 64 := by omega
  split_ifs <;>
    simp only [List.cons_append, List.nil_append, List.cons_lt_cons_iff, UInt8.lt_iff_toNat_lt,
      ← UInt8.toNat_inj, UInt8.toNat_ofNat', htwo, hthree] <;> omega

theorem toBytes_cons (c : Char) (t : Text) :
    toBytes (c :: t) = String.utf8EncodeChar c ++ toBytes t := rfl

theorem nil_lt_toBytes_cons (c : Char) (t : Text) : [] < toBytes (c :: t) := by
  obtain ⟨byte, bytes, hbytes⟩ :=
    List.exists_cons_of_ne_nil (String.utf8EncodeChar_ne_nil : String.utf8EncodeChar c ≠ [])
  rw [toBytes_cons, hbytes, List.cons_append]
  exact List.nil_lt_cons byte _

theorem toBytes_lt_iff (a b : Text) : toBytes a < toBytes b ↔ a < b := by
  induction a generalizing b with
  | nil =>
      cases b with
      | nil => exact iff_of_false (List.not_lt_nil _) (List.not_lt_nil _)
      | cons d b => exact iff_of_true (nil_lt_toBytes_cons d b) (List.nil_lt_cons d b)
  | cons c a ih =>
      cases b with
      | nil => exact iff_of_false (List.not_lt_nil _) (List.not_lt_nil _)
      | cons d b =>
          rw [toBytes_cons, toBytes_cons, List.cons_lt_cons_iff]
          rcases Std.lt_trichotomy c d with hlt | rfl | hgt
          · exact iff_of_true (utf8EncodeChar_lt hlt _ _) (.inl hlt)
          · have hirrefl : ¬String.utf8EncodeChar c < String.utf8EncodeChar c := List.lt_irrefl _
            simp [append_lt_append_iff, hirrefl, ih]
          · have hne : c ≠ d := fun heq => Char.lt_irrefl d (heq ▸ hgt)
            refine iff_of_false (List.lt_asymm (utf8EncodeChar_lt hgt _ _)) ?_
            simp [hne, Char.lt_asymm hgt]

theorem toBytes_inj {a b : Text} : toBytes a = toBytes b ↔ a = b := by
  constructor
  · intro h
    rcases Std.lt_trichotomy a b with hlt | heq | hgt
    · have hbytes := (toBytes_lt_iff a b).mpr hlt
      rw [h] at hbytes
      exact absurd hbytes (List.lt_irrefl _)
    · exact heq
    · have hbytes := (toBytes_lt_iff b a).mpr hgt
      rw [h] at hbytes
      exact absurd hbytes (List.lt_irrefl _)
  · rintro rfl
    rfl

end MailIndex.Text
