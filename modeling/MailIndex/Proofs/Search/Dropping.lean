import MailIndex.Proofs.Search.Literal

/-!
# Terms that are dropped

A term is dropped if its text holds no letter or digit, which is meant to say that the index would
make no token of it. But the two classes of characters come from two tables. They are the same for
most characters of the scripts in use; where they are not, a text that the index has words for may
be dropped, and one that it has none for may be kept.
-/

namespace MailIndex

open Text

/-! ## Comparing tables -/

namespace Text

def Ascending (ranges : List (Nat × Nat)) : Prop := (ranges.map (·.1)).Pairwise (· ≤ ·)

theorem Ascending.sublist {ranges part : List (Nat × Nat)} (h : Ascending ranges)
    (hpart : part.Sublist ranges) : Ascending part := List.Pairwise.sublist (hpart.map _) h

/-- The part of an ascending table that lies in a block. -/
def clipped (block : Nat × Nat) (ranges : List (Nat × Nat)) : List (Nat × Nat) :=
  (ranges.takeWhile (·.1 ≤ block.2)).map fun r => (max r.1 block.1, min r.2 block.2)

def fusedFrom (r : Nat × Nat) : List (Nat × Nat) → List (Nat × Nat)
  | [] => [r]
  | next :: rest =>
    if next.1 = r.2 + 1 ∧ r.1 ≤ next.1 ∧ r.2 ≤ next.2 then fusedFrom (r.1, next.2) rest
    else r :: fusedFrom next rest

/-- A table without the borders between ranges that touch. -/
def fused : List (Nat × Nat) → List (Nat × Nat)
  | [] => []
  | r :: rest => fusedFrom r rest

/-- Whether two tables look the same in each of some blocks. What ends before a block is left
behind, as the blocks ascend. -/
def agreeIn : List (Nat × Nat) → List (Nat × Nat) → List (Nat × Nat) → Bool
  | [], _, _ => true
  | block :: blocks, ranges, others =>
    let ranges := ranges.dropWhile (·.2 < block.1)
    let others := others.dropWhile (·.2 < block.1)
    fused (clipped block ranges) == fused (clipped block others) && agreeIn blocks ranges others

variable {c : Char}

theorem inRanges_dropWhile {first : Nat} (hfirst : first ≤ c.toNat) (ranges : List (Nat × Nat)) :
    inRanges (ranges.dropWhile (·.2 < first)) c = inRanges ranges c := by
  induction ranges with
  | nil => rfl
  | cons r rest ih =>
      rw [List.dropWhile_cons]
      by_cases hbefore : r.2 < first
      · have hout : ¬ c.toNat ≤ r.2 := by omega
        rw [if_pos (by simpa using hbefore), ih, inRanges_cons, decide_eq_false hout,
          Bool.and_false, Bool.false_or]
      · rw [if_neg (by simpa using hbefore)]

theorem inRanges_clipped {block : Nat × Nat} (hfirst : block.1 ≤ c.toNat)
    (hlast : c.toNat ≤ block.2) {ranges : List (Nat × Nat)} (h : Ascending ranges) :
    inRanges (clipped block ranges) c = inRanges ranges c := by
  unfold clipped
  induction ranges with
  | nil => rfl
  | cons r rest ih =>
      obtain ⟨hle, hrest⟩ := List.pairwise_cons.mp h
      by_cases hstart : r.1 ≤ block.2
      · have hsame : (decide (max r.1 block.1 ≤ c.toNat) && decide (c.toNat ≤ min r.2 block.2)) =
            (decide (r.1 ≤ c.toNat) && decide (c.toNat ≤ r.2)) := by
          rw [Bool.eq_iff_iff]
          simp only [Bool.and_eq_true, decide_eq_true_eq]
          omega
        rw [List.takeWhile_cons_of_pos (by simpa using hstart), List.map_cons, inRanges_cons,
          inRanges_cons, ih hrest, hsame]
      · -- the ranges ascend, so what follows starts behind the block as well
        rw [List.takeWhile_cons_of_neg (by simpa using hstart), List.map_nil, inRanges_nil]
        symm
        refine List.any_eq_false.mpr fun q hq => ?_
        have hlater : r.1 ≤ q.1 := by
          rcases List.mem_cons.mp hq with rfl | hq
          · exact Nat.le_refl _
          · exact hle q.1 (List.mem_map_of_mem hq)
        simp only [Bool.and_eq_true, decide_eq_true_eq]
        omega

theorem inRanges_fusedFrom (r : Nat × Nat) (rest : List (Nat × Nat)) (c : Char) :
    inRanges (fusedFrom r rest) c = inRanges (r :: rest) c := by
  induction rest generalizing r with
  | nil => rfl
  | cons next rest ih =>
      rw [fusedFrom]
      by_cases htouch : next.1 = r.2 + 1 ∧ r.1 ≤ next.1 ∧ r.2 ≤ next.2
      · have hunion : (decide (r.1 ≤ c.toNat) && decide (c.toNat ≤ next.2)) =
            ((decide (r.1 ≤ c.toNat) && decide (c.toNat ≤ r.2)) ||
              (decide (next.1 ≤ c.toNat) && decide (c.toNat ≤ next.2))) := by
          rw [Bool.eq_iff_iff]
          simp only [Bool.or_eq_true, Bool.and_eq_true, decide_eq_true_eq]
          omega
        rw [if_pos htouch, ih, inRanges_cons, inRanges_cons, inRanges_cons, ← Bool.or_assoc, hunion]
      · rw [if_neg htouch, inRanges_cons, ih, inRanges_cons r]

theorem inRanges_fused (ranges : List (Nat × Nat)) (c : Char) :
    inRanges (fused ranges) c = inRanges ranges c := by
  cases ranges with
  | nil => rfl
  | cons r rest => exact inRanges_fusedFrom r rest c

theorem inRanges_congr {blocks ranges others : List (Nat × Nat)} (hranges : Ascending ranges)
    (hothers : Ascending others) (hblocks : Ascending blocks)
    (hagree : agreeIn blocks ranges others = true) (hc : inRanges blocks c = true) :
    inRanges ranges c = inRanges others c := by
  induction blocks generalizing ranges others with
  | nil => cases hc
  | cons block blocks ih =>
      obtain ⟨hle, hascending⟩ := List.pairwise_cons.mp hblocks
      simp only [agreeIn, Bool.and_eq_true, beq_iff_eq] at hagree
      obtain ⟨hsame, hagree⟩ := hagree
      have hleft : Ascending (ranges.dropWhile (·.2 < block.1)) :=
        hranges.sublist (List.dropWhile_sublist _)
      have hright : Ascending (others.dropWhile (·.2 < block.1)) :=
        hothers.sublist (List.dropWhile_sublist _)
      have hstart : block.1 ≤ c.toNat ∧
          inRanges (ranges.dropWhile (·.2 < block.1)) c =
            inRanges (others.dropWhile (·.2 < block.1)) c := by
        rw [inRanges_cons, Bool.or_eq_true] at hc
        rcases hc with hin | hlater
        · simp only [Bool.and_eq_true, decide_eq_true_eq] at hin
          refine ⟨hin.1, ?_⟩
          rw [← inRanges_clipped hin.1 hin.2 hleft, ← inRanges_fused, hsame, inRanges_fused,
            inRanges_clipped hin.1 hin.2 hright]
        · obtain ⟨q, hq, hin⟩ := List.any_eq_true.mp hlater
          simp only [Bool.and_eq_true, decide_eq_true_eq] at hin
          have hfirst : block.1 ≤ q.1 := hle q.1 (List.mem_map_of_mem hq)
          exact ⟨by omega, ih hleft hright hascending hagree hlater⟩
      rw [← inRanges_dropWhile hstart.1 ranges, ← inRanges_dropWhile hstart.1 others, hstart.2]

end Text

/-! ## The two classes -/

namespace Index

/-- Blocks in which letters and digits are the word characters of the index: those of at least 24
characters in the scripts that come before the ideographs, and of at least 150 from there on. -/
def sharedBlocks : List (Nat × Nat) := [
  (0x0, 0x344), (0x346, 0x377), (0x3a3, 0x52f), (0x531, 0x556), (0x559, 0x58a), (0x591, 0x5af),
  (0x5d0, 0x5ea), (0x61e, 0x64a), (0x671, 0x6d5), (0x6ee, 0x70d), (0x712, 0x72f), (0x74d, 0x7a5),
  (0x7c0, 0x7fa), (0x840, 0x85b), (0x870, 0x887), (0x8a0, 0x8c9), (0x904, 0x939), (0x964, 0x980),
  (0xd12, 0xd3a), (0xd66, 0xd7f), (0xd9a, 0xdb1), (0xe01, 0xe30), (0xe8c, 0xea3), (0xf00, 0xf47),
  (0xf49, 0xf6c), (0x1000, 0x102a), (0x109e, 0x10c5), (0x10d0, 0x1248), (0x1260, 0x1288),
  (0x1290, 0x12b0), (0x12d8, 0x1310), (0x1318, 0x135a), (0x135d, 0x137c), (0x1380, 0x1399),
  (0x13a0, 0x13f5), (0x1400, 0x169c), (0x16a0, 0x16f8), (0x1780, 0x17b5), (0x1820, 0x1878),
  (0x1880, 0x18a8), (0x18b0, 0x18f5), (0x1900, 0x191e), (0x1944, 0x196d), (0x1980, 0x19ab),
  (0x19de, 0x1a16), (0x1a1e, 0x1a54), (0x1b05, 0x1b34), (0x1b50, 0x1b7c), (0x1b83, 0x1ba0),
  (0x1bae, 0x1be6), (0x1bfc, 0x1c23), (0x1c4d, 0x1c88), (0x1c90, 0x1cba), (0x1cd0, 0x1cf1),
  (0x1d00, 0x1df4), (0x1dfc, 0x1f15), (0x1f20, 0x1f45), (0x1f5f, 0x1f7d), (0x1f80, 0x1fb4),
  (0x2000, 0x2064), (0x2074, 0x208e), (0x20a0, 0x20b9), (0x20d0, 0x20f0), (0x2100, 0x2189),
  (0x2190, 0x23f3), (0x2400, 0x2426), (0x2460, 0x24b5), (0x24ea, 0x26ff), (0x2701, 0x2b4c),
  (0x2c00, 0x2cf3), (0x2cf9, 0x2d25), (0x2d30, 0x2d67), (0x2d7f, 0x2d96), (0x2e00, 0x2e3b),
  (0x2e80, 0x2e99), (0x2e9b, 0x2ef3), (0x2f00, 0x2fd5), (0x3000, 0x303f), (0x3041, 0x3096),
  (0x3099, 0x30ff), (0x3105, 0x312f), (0x3131, 0x318e), (0x3190, 0x31e3), (0x31f0, 0x321e),
  (0x3220, 0x32fe), (0x3300, 0xa48c), (0xa4d0, 0xa62b), (0xa700, 0xa7ca), (0xac00, 0xd7a3),
  (0xf900, 0xfa6d), (0xfbd3, 0xfd3f), (0xff01, 0xffbe), (0x10400, 0x1049d), (0x10600, 0x10736),
  (0x12000, 0x12399), (0x12480, 0x12543), (0x13000, 0x1342f), (0x14400, 0x14646),
  (0x16800, 0x16a38), (0x17000, 0x187f7), (0x18800, 0x18cd5), (0x1b000, 0x1b122),
  (0x1b170, 0x1b2fb), (0x1d000, 0x1d0f5), (0x1d129, 0x1d1dd), (0x1d552, 0x1d6a5),
  (0x1d6a8, 0x1d7cb), (0x1e800, 0x1e8c4), (0x1f442, 0x1f4f7), (0x20000, 0x2a6df),
  (0x2a700, 0x2b739), (0x2b740, 0x2b81d), (0x2b820, 0x2cea1), (0x2ceb0, 0x2ebe0),
  (0x2f800, 0x2fa1d), (0x30000, 0x3134a), (0x31350, 0x323af), (0xe0100, 0xe01ef)]

theorem ascending_tables :
    Ascending sharedBlocks ∧ Ascending wordRanges ∧ Ascending alphanumericRanges := by
  unfold Ascending
  rw [← List.isChain_iff_pairwise, ← List.isChain_iff_pairwise, ← List.isChain_iff_pairwise]
  decide +kernel

theorem isWordChar_eq_isAlphanumeric {c : Char} (h : inRanges sharedBlocks c = true) :
    isWordChar c = isAlphanumeric c := by
  have hagree : agreeIn sharedBlocks wordRanges alphanumericRanges = true := by decide +kernel
  obtain ⟨hblocks, hwords, hletters⟩ := ascending_tables
  unfold isWordChar isAlphanumeric
  split
  · rfl
  · exact inRanges_congr hwords hletters hblocks hagree h

theorem withWord_eq_nil {current : Text} {further : List Text} :
    withWord current further = [] ↔ current = [] ∧ further = [] := by
  cases current <;> simp [withWord]

theorem foldedWordsFrom_eq_nil {current t : Text} :
    foldedWordsFrom current t = [] ↔ current = [] ∧ ∀ c ∈ t, isWordChar c = false := by
  induction t generalizing current with
  | nil =>
      rw [foldedWordsFrom, withWord_eq_nil]
      simp
  | cons c rest ih =>
      rw [foldedWordsFrom, List.forall_mem_cons]
      by_cases hc : isWordChar c = true
      · rw [if_pos hc, ih]
        constructor
        · rintro ⟨hnil, -⟩
          cases hnil
        · rintro ⟨-, hother, -⟩
          rw [hc] at hother
          cases hother
      · rw [if_neg hc]
        have hword : isWordChar c = false := by simpa using hc
        by_cases hpass : (isMark c && !current.isEmpty) = true
        · rw [if_pos hpass, ih]
          simp only [hword, true_and]
        · rw [if_neg hpass, withWord_eq_nil, ih]
          simp only [hword, true_and]

theorem tokens_eq_nil {t : Text} : tokens t = [] ↔ ∀ c ∈ t, isWordChar c = false := by
  rw [tokens, List.map_eq_nil_iff, foldedWords, foldedWordsFrom_eq_nil]
  simp only [true_and]

end Index

/-! ## What is dropped -/

namespace Query

open Index

theorem isSearchable_eq_false {t : Text} :
    isSearchable t = false ↔ ∀ c ∈ t, isAlphanumeric c = false := by
  unfold isSearchable
  simp only [List.any_eq_false, Bool.not_eq_true]

theorem ofWord?_eq_none {column : Option Match.Column} {v : Text} :
    SearchTerm.ofWord? column v = none ↔ isSearchable v = false := by
  rw [← isSearchable_splitStar v, ← Bool.not_eq_true]
  unfold SearchTerm.ofWord?
  dsimp only
  split
  · next h => simp [h]
  · next h => simp [h]

theorem ofPhrase?_eq_none {v : Text} :
    SearchTerm.ofPhrase? v = none ↔ isSearchable v = false := by
  rw [← Bool.not_eq_true]
  unfold SearchTerm.ofPhrase?
  split
  · next h => simp [h]
  · next h => simp [h]

/-- A text that the index has words for, though no letter or digit is in it. -/
def Overlooked (t : Text) : Prop :=
  (∃ c ∈ t, isWordChar c = true) ∧ ∀ c ∈ t, isAlphanumeric c = false

/-- A text that has letters or digits, none of them in a word of the index. -/
def Hollow (t : Text) : Prop :=
  (∃ c ∈ t, isAlphanumeric c = true) ∧ ∀ c ∈ t, isWordChar c = false

theorem overlooked_iff {t : Text} :
    isSearchable t = false ∧ tokens t ≠ [] ↔ Overlooked t := by
  rw [isSearchable_eq_false, Ne, tokens_eq_nil]
  unfold Overlooked
  constructor
  · rintro ⟨hnone, hword⟩
    push Not at hword
    obtain ⟨c, hc, hword⟩ := hword
    exact ⟨⟨c, hc, by simpa using hword⟩, hnone⟩
  · rintro ⟨⟨c, hc, hword⟩, hnone⟩
    refine ⟨hnone, fun hall => ?_⟩
    rw [hall c hc] at hword
    cases hword

theorem hollow_iff {t : Text} : isSearchable t ≠ false ∧ tokens t = [] ↔ Hollow t := by
  rw [Ne, isSearchable_eq_false, tokens_eq_nil]
  unfold Hollow
  constructor
  · rintro ⟨hletter, hnone⟩
    push Not at hletter
    obtain ⟨c, hc, hletter⟩ := hletter
    exact ⟨⟨c, hc, by simpa using hletter⟩, hnone⟩
  · rintro ⟨⟨c, hc, hletter⟩, hnone⟩
    refine ⟨fun hall => ?_, hnone⟩
    rw [hall c hc] at hletter
    cases hletter

theorem isSearchable_eq_false_iff_of_shared {t : Text}
    (h : ∀ c ∈ t, inRanges sharedBlocks c = true) :
    isSearchable t = false ↔ tokens t = [] := by
  rw [isSearchable_eq_false, tokens_eq_nil]
  refine forall₂_congr fun c hc => ?_
  rw [isWordChar_eq_isAlphanumeric (h c hc)]

/-- A word, less one star at its end, and a phrase are dropped exactly if the index makes no token
of them, as long as their characters lie in the shared blocks. In general, what is dropped though
there are tokens are the texts that are overlooked, and what is kept though there are none are the
hollow ones. -/
theorem dropped_iff_without_tokens (column : Option Match.Column) (v : Text) :
    (SearchTerm.ofWord? column v = none ∧ tokens (splitStar v).1 ≠ [] ↔ Overlooked v) ∧
      (SearchTerm.ofWord? column v ≠ none ∧ tokens (splitStar v).1 = [] ↔ Hollow v) ∧
      (SearchTerm.ofPhrase? v = none ∧ tokens v ≠ [] ↔ Overlooked v) ∧
      (SearchTerm.ofPhrase? v ≠ none ∧ tokens v = [] ↔ Hollow v) ∧
      ((∀ c ∈ v, inRanges sharedBlocks c = true) →
        (SearchTerm.ofWord? column v = none ↔ tokens (splitStar v).1 = []) ∧
        (SearchTerm.ofPhrase? v = none ↔ tokens v = [])) := by
  simp only [Ne, ofWord?_eq_none, ofPhrase?_eq_none, tokens_splitStar]
  exact ⟨overlooked_iff, hollow_iff, overlooked_iff, hollow_iff, fun hshared =>
    ⟨isSearchable_eq_false_iff_of_shared hshared, isSearchable_eq_false_iff_of_shared hshared⟩⟩

/-- A character for private use is a word of the index and is dropped; a letter in a circle is none
and is kept. A letter with an accent lies in a shared block. -/
theorem dropped_iff_without_tokens_of_characters :
    (SearchTerm.ofPhrase? ['\ue000'] = none ∧ tokens ['\ue000'] ≠ []) ∧
      (SearchTerm.ofPhrase? ['\u24b6'] ≠ none ∧ tokens ['\u24b6'] = []) ∧
      (SearchTerm.ofWord? none ['é', '*'] = none ↔ tokens ['é'] = []) := by
  have hprivate : Overlooked ['\ue000'] :=
    ⟨⟨_, List.mem_cons_self, by decide +kernel⟩,
      List.forall_mem_singleton.mpr (by decide +kernel)⟩
  have hcircled : Hollow ['\u24b6'] :=
    ⟨⟨_, List.mem_cons_self, by decide +kernel⟩,
      List.forall_mem_singleton.mpr (by decide +kernel)⟩
  have hshared : ['é', '*'].all (inRanges sharedBlocks) = true := by decide +kernel
  exact ⟨(dropped_iff_without_tokens none _).2.2.1.mpr hprivate,
    (dropped_iff_without_tokens none _).2.2.2.1.mpr hcircled,
    ((dropped_iff_without_tokens none ['é', '*']).2.2.2.2 (List.all_eq_true.mp hshared)).1⟩

end Query

end MailIndex
