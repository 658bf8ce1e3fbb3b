import MailIndex.Proofs.Index.Boundaries
import MailIndex.Text.LowerCase
import Mathlib.Tactic.SplitIfs

/-!
# What lower-casing keeps

No capital is the lower-case form of anything, so what is in lower case stays as it is. Most signs,
and white space, are the lower-case forms of nothing but themselves: they are found in a text after
it has been brought to lower case exactly where they were before.
-/

namespace MailIndex.Text

/-! ## Characters that change -/

/-- The characters that lower-casing changes. Of the two characters that a dotted capital I becomes
only the first one is told here. -/
def capitalBlocks : List CaseBlock :=
  ⟨0x41, 0x5a, 1, 0x61⟩ :: ⟨0x130, 0x130, 1, 0x69⟩ :: lowerBlocks

theorem CaseBlock.le_of_map? {b : CaseBlock} {n m : Nat} (h : b.map? n = some m) :
    b.image ≤ m ∧ m ≤ b.image + (b.last - b.first) := by
  unfold map? at h
  split at h
  · cases h
    omega
  · cases h

theorem toNat_ofNat_of_map? {b : CaseBlock} (hb : b ∈ capitalBlocks) {n m : Nat}
    (hm : b.map? n = some m) : (Char.ofNat m).toNat = m := by
  have hall : capitalBlocks.all (fun b => b.image + (b.last - b.first) < 0xd800
      || 0xdfff < b.image && b.image + (b.last - b.first) < 0x110000) = true := by decide +kernel
  have himages := List.all_eq_true.mp hall b hb
  simp only [Bool.or_eq_true, Bool.and_eq_true, decide_eq_true_eq] at himages
  have hbounds := CaseBlock.le_of_map? hm
  have hvalid : m.isValidChar := by
    unfold Nat.isValidChar
    omega
  rw [Char.ofNat, dif_pos hvalid]
  rfl

/-! ## Single characters -/

theorem toLower_of_not_capital {c : Char} (h : ¬(0x41 ≤ c.toNat ∧ c.toNat ≤ 0x5a)) :
    c.toLower = c := dif_neg h

theorem map?_of_capital {c : Char} (h : 0x41 ≤ c.toNat ∧ c.toNat ≤ 0x5a) :
    (CaseBlock.mk 0x41 0x5a 1 0x61).map? c.toNat = some c.toLower.toNat := by
  have hall : (Index.charactersOf [(0x41, 0x5a)]).all (fun c =>
      (CaseBlock.mk 0x41 0x5a 1 0x61).map? c.toNat == some c.toLower.toNat) = true := by
    decide +kernel
  have hmem : c ∈ Index.charactersOf [(0x41, 0x5a)] :=
    Index.mem_charactersOf (by simpa [inRanges] using h)
  simpa using List.all_eq_true.mp hall c hmem

theorem mapBlocks_of_none {blocks : List CaseBlock} {c : Char}
    (h : ∀ b ∈ blocks, b.map? c.toNat = none) : mapBlocks blocks c = c := by
  have hnone : blocks.findSome? (·.map? c.toNat) = none := List.findSome?_eq_none_iff.mpr h
  unfold mapBlocks
  rw [hnone]

theorem lowerChar_of_none {c : Char} (h : ∀ b ∈ capitalBlocks, b.map? c.toNat = none) :
    lowerChar c = [c] := by
  obtain ⟨hascii, hdotted, hblocks⟩ : (CaseBlock.mk 0x41 0x5a 1 0x61).map? c.toNat = none ∧
      (CaseBlock.mk 0x130 0x130 1 0x69).map? c.toNat = none ∧
      ∀ b ∈ lowerBlocks, b.map? c.toNat = none := by
    simpa [capitalBlocks] using h
  unfold lowerChar
  split_ifs with hsmall hcapital
  · rw [toLower_of_not_capital]
    intro hletter
    rw [map?_of_capital hletter] at hascii
    cases hascii
  · subst hcapital
    cases hdotted
  · rw [mapBlocks_of_none hblocks]

theorem of_mem_lowerChar {c d : Char} (h : d ∈ lowerChar c) :
    d = c ∧ lowerChar c = [c] ∨ d = '\u0307' ∨
      ∃ b ∈ capitalBlocks, ∃ n, b.map? c.toNat = some n ∧ d = Char.ofNat n := by
  have hself (hsame : lowerChar c = [c]) : d = c ∧ lowerChar c = [c] :=
    ⟨List.mem_singleton.mp (hsame ▸ h), hsame⟩
  unfold lowerChar at h
  split_ifs at h with hsmall hcapital
  · by_cases hletter : 0x41 ≤ c.toNat ∧ c.toNat ≤ 0x5a
    · refine .inr (.inr ⟨_, .head _, _, map?_of_capital hletter, ?_⟩)
      rw [Char.ofNat_toNat, List.mem_singleton.mp h]
    · refine .inl (hself ?_)
      rw [lowerChar, if_pos hsmall, toLower_of_not_capital hletter]
  · subst hcapital
    rcases List.mem_cons.mp h with rfl | hdot
    · exact .inr (.inr ⟨⟨0x130, 0x130, 1, 0x69⟩, .tail _ (.head _), 0x69, by decide, by decide⟩)
    · exact .inr (.inl (List.mem_singleton.mp hdot))
  · cases hfound : lowerBlocks.findSome? (·.map? c.toNat) with
    | none =>
        have hblocks := List.findSome?_eq_none_iff.mp hfound
        refine .inl (hself ?_)
        rw [lowerChar, if_neg hsmall, if_neg hcapital, mapBlocks_of_none hblocks]
    | some n =>
        obtain ⟨b, hb, hmap⟩ := List.exists_of_findSome?_eq_some hfound
        rw [mapBlocks, hfound] at h
        exact .inr (.inr ⟨b, .tail _ (.tail _ hb), n, hmap, List.mem_singleton.mp h⟩)

/-- The combining dot and the final sigma stay, and apart from its surroundings a capital sigma
becomes a small one. -/
theorem lowerChar_special : lowerChar '\u0307' = ['\u0307'] ∧ lowerChar '\u03c2' = ['\u03c2'] ∧
    lowerChar '\u03a3' = ['\u03c3'] := by
  decide +kernel

/-- A character that lower-casing leaves alone and makes of no other one. -/
def isCaseless (c : Char) : Bool :=
  lowerChar c == [c] && c != '\u0307' && c != '\u03c2'
    && capitalBlocks.all fun b => c.toNat < b.image || b.image + (b.last - b.first) < c.toNat

theorem lowerChar_capital_sigma : lowerChar '\u03a3' ≠ ['\u03a3'] := by
  rw [lowerChar_special.2.2]
  decide

theorem lowerChar_of_isCaseless {c : Char} (h : isCaseless c = true) : lowerChar c = [c] := by
  simp only [isCaseless, Bool.and_eq_true, beq_iff_eq] at h
  exact h.1.1.1

theorem ne_of_isCaseless {c : Char} (h : isCaseless c = true) : c ≠ '\u0307' ∧ c ≠ '\u03c2' := by
  simp only [isCaseless, Bool.and_eq_true, bne_iff_ne] at h
  exact ⟨h.1.1.2, h.1.2⟩

theorem eq_of_isCaseless {c d : Char} (hc : isCaseless c = true) (h : c ∈ lowerChar d) : c = d := by
  have hdot := (ne_of_isCaseless hc).1
  simp only [isCaseless, Bool.and_eq_true, List.all_eq_true, Bool.or_eq_true,
    decide_eq_true_eq] at hc
  rcases of_mem_lowerChar h with ⟨hsame, -⟩ | hcombining | ⟨b, hb, n, hmap, hn⟩
  · exact hsame
  · exact absurd hcombining hdot
  · have hbounds := CaseBlock.le_of_map? hmap
    have houtside := hc.2 b hb
    rw [hn, toNat_ofNat_of_map? hb hmap] at houtside
    omega

/-- White space, and all that stands before the capital letters. -/
def caselessRanges : List (Nat × Nat) := (0, 0x40) :: blankRanges

def CaseBlock.misses (b : CaseBlock) (r : Nat × Nat) : Bool :=
  (Nat.blt r.2 b.first || Nat.blt b.last r.1)
    && (Nat.blt r.2 b.image || Nat.blt (b.image + (b.last - b.first)) r.1)

theorem isCaseless_of_inRanges {c : Char} (h : inRanges caselessRanges c = true) :
    isCaseless c = true := by
  have hall : caselessRanges.all (fun r =>
      (r.2 < 0x307 || 0x3c2 < r.1) && capitalBlocks.all (·.misses r)) = true := by decide +kernel
  obtain ⟨r, hr, hin⟩ := List.any_eq_true.mp h
  have hrange := List.all_eq_true.mp hall r hr
  simp only [Bool.and_eq_true, Bool.or_eq_true, decide_eq_true_eq, List.all_eq_true,
    CaseBlock.misses, Nat.blt_eq] at hin hrange
  obtain ⟨hspecial, hblocks⟩ := hrange
  have hsame : lowerChar c = [c] := by
    refine lowerChar_of_none fun b hb => if_neg ?_
    have hsource := (hblocks b hb).1
    omega
  have hother (d : Char) (hd : 0x307 ≤ d.toNat ∧ d.toNat ≤ 0x3c2) : c ≠ d := by
    rintro rfl
    omega
  simp only [isCaseless, hsame, BEq.rfl, Bool.true_and, Bool.and_eq_true, bne_iff_ne,
    List.all_eq_true, Bool.or_eq_true, decide_eq_true_eq]
  refine ⟨⟨hother _ (by decide), hother _ (by decide)⟩, fun b hb => ?_⟩
  have himage := (hblocks b hb).2
  omega

theorem isCaseless_of_isBlank {c : Char} (h : isBlank c = true) : isCaseless c = true := by
  refine isCaseless_of_inRanges ?_
  rw [caselessRanges, inRanges_cons, show inRanges blankRanges c = true from h, Bool.or_true]

theorem isCaseless_of_lt {c : Char} (h : c.toNat < 0x41) : isCaseless c = true := by
  refine isCaseless_of_inRanges ?_
  have hfirst : c.toNat ≤ 0x40 := Nat.le_of_lt_succ h
  simp [caselessRanges, inRanges_cons, hfirst]

/-! ## What is in lower case -/

/-- The images of a block lie before the other one, behind it, or between the characters that it
maps. -/
def CaseBlock.avoids (b other : CaseBlock) : Bool :=
  Nat.blt (b.image + (b.last - b.first)) other.first || Nat.blt other.last b.image
    || (other.step == 2 && (b.step == 2 || b.first == b.last) && (b.image + other.first) % 2 == 1)

theorem CaseBlock.map?_of_avoids {b other : CaseBlock} (h : b.avoids other = true) {n m : Nat}
    (hm : b.map? n = some m) : other.map? m = none := by
  have hbounds := le_of_map? hm
  refine if_neg ?_
  rintro ⟨hfirst, hlast, hstep⟩
  simp only [avoids, Bool.or_eq_true, Bool.and_eq_true, Nat.blt_eq, beq_iff_eq] at h
  rcases h with (hbefore | hbehind) | ⟨⟨htwo, hown⟩, hparity⟩
  · omega
  · omega
  · unfold map? at hm
    split at hm
    · next hn =>
        obtain ⟨hnfirst, hnlast, hnstep⟩ := hn
        cases hm
        rw [htwo] at hstep
        rcases hown with hsame | hsingle
        · rw [hsame] at hnstep
          omega
        · omega
    · cases hm

theorem avoids_of_mem {b other : CaseBlock} (hb : b ∈ capitalBlocks) (hother : other ∈ capitalBlocks) :
    b.avoids other = true := by
  have hall : capitalBlocks.all (fun b => capitalBlocks.all b.avoids) = true := by decide +kernel
  exact List.all_eq_true.mp (List.all_eq_true.mp hall b hb) other hother

theorem lowerChar_of_mem_lowerChar {c d : Char} (h : d ∈ lowerChar c) : lowerChar d = [d] := by
  rcases of_mem_lowerChar h with ⟨rfl, hsame⟩ | rfl | ⟨b, hb, n, hmap, rfl⟩
  · exact hsame
  · exact lowerChar_special.1
  · refine lowerChar_of_none fun other hother => ?_
    rw [toNat_ofNat_of_map? hb hmap]
    exact CaseBlock.map?_of_avoids (avoids_of_mem hb hother) hmap

/-! ## Texts -/

/-- What is put in the place of a character. Only a capital sigma depends on where it stands. -/
theorem lowerFrom_cons (before : Text) (c : Char) (rest : Text) :
    ∃ image, lowerFrom before (c :: rest) = image ++ lowerFrom (c :: before) rest ∧
      (image = lowerChar c ∨ c = '\u03a3' ∧ image = ['\u03c2']) := by
  refine ⟨_, rfl, ?_⟩
  split_ifs with hsigma
  · exact .inr ⟨hsigma, rfl⟩
  · subst hsigma
    exact .inl lowerChar_special.2.2.symm
  · exact .inl rfl

theorem lowerChar_of_mem_lowerFrom {before t : Text} {d : Char} (h : d ∈ lowerFrom before t) :
    lowerChar d = [d] := by
  induction t generalizing before with
  | nil => cases h
  | cons c t ih =>
      obtain ⟨image, himage, hwhich⟩ := lowerFrom_cons before c t
      rw [himage, List.mem_append] at h
      rcases h with hfirst | hrest
      · rcases hwhich with rfl | ⟨-, rfl⟩
        · exact lowerChar_of_mem_lowerChar hfirst
        · rw [List.mem_singleton.mp hfirst]
          exact lowerChar_special.2.1
      · exact ih hrest

theorem lowerFrom_eq_self {t : Text} (h : ∀ c ∈ t, lowerChar c = [c]) (before : Text) :
    lowerFrom before t = t := by
  induction t generalizing before with
  | nil => rfl
  | cons c t ih =>
      obtain ⟨hc, ht⟩ := List.forall_mem_cons.mp h
      obtain ⟨image, himage, hwhich⟩ := lowerFrom_cons before c t
      have hsame : image = [c] := by
        rcases hwhich with rfl | ⟨rfl, -⟩
        · exact hc
        · exact absurd hc lowerChar_capital_sigma
      rw [himage, hsame, ih ht]
      rfl

theorem lower_lower (t : Text) : lower (lower t) = lower t :=
  lowerFrom_eq_self (fun _ hc => lowerChar_of_mem_lowerFrom hc) []

theorem mem_lowerFrom_of_lowerChar {before t : Text} {c : Char} (h : c ∈ t)
    (hsame : lowerChar c = [c]) : c ∈ lowerFrom before t := by
  induction t generalizing before with
  | nil => cases h
  | cons d t ih =>
      obtain ⟨image, himage, hwhich⟩ := lowerFrom_cons before d t
      rw [himage]
      refine List.mem_append.mpr ?_
      rcases List.mem_cons.mp h with rfl | hlater
      · rcases hwhich with rfl | ⟨rfl, -⟩
        · simp [hsame]
        · exact absurd hsame lowerChar_capital_sigma
      · exact .inr (ih hlater)

/-- Characters without case are, all of them together, where they were before. -/
theorem filter_lowerFrom {p : Char → Bool} (hp : ∀ c, p c = true → isCaseless c = true)
    (before t : Text) : (lowerFrom before t).filter p = t.filter p := by
  induction t generalizing before with
  | nil => rfl
  | cons c t ih =>
      obtain ⟨image, himage, hwhich⟩ := lowerFrom_cons before c t
      have hfirst : image.filter p = [c].filter p := by
        by_cases hc : p c = true
        · rcases hwhich with rfl | ⟨rfl, -⟩
          · rw [lowerChar_of_isCaseless (hp c hc)]
          · exact absurd (lowerChar_of_isCaseless (hp _ hc)) lowerChar_capital_sigma
        · have hnone : ∀ d ∈ image, ¬p d = true := by
            intro d hd hkept
            rcases hwhich with rfl | ⟨-, rfl⟩
            · exact hc (eq_of_isCaseless (hp d hkept) hd ▸ hkept)
            · rw [List.mem_singleton.mp hd] at hkept
              exact absurd rfl (ne_of_isCaseless (hp _ hkept)).2
          rw [List.filter_eq_nil_iff.mpr hnone, List.filter_cons_of_neg hc, List.filter_nil]
      rw [himage, List.filter_append, ih, hfirst, ← List.filter_append]
      rfl

theorem filter_lower {p : Char → Bool} (hp : ∀ c, p c = true → isCaseless c = true) (t : Text) :
    (lower t).filter p = t.filter p :=
  filter_lowerFrom hp [] t

theorem mem_lower_iff {c : Char} (hc : isCaseless c = true) (t : Text) : c ∈ lower t ↔ c ∈ t := by
  have hsame := filter_lower (p := (· == c)) (fun d hd => by rwa [eq_of_beq hd]) t
  have hmem (s : Text) : c ∈ s ↔ c ∈ s.filter (· == c) := by simp
  rw [hmem, hsame, ← hmem]

end MailIndex.Text
