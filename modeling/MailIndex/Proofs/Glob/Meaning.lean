import MailIndex.Glob.Matching

/-!
# What patterns describe

Each piece of a pattern spans certain bytes, whatever stands before and after it, and a pattern
describes the paths that its pieces span one after the other. Matching with continuations finds
exactly these: a piece accepts some bytes if it spans a front of them and the continuation accepts
the back.
-/

namespace MailIndex.Glob

open Text

def slash : UInt8 := 0x2f

mutual

inductive Spans : Piece → List UInt8 → Prop
  | literal (c : Char) : Spans (.literal c) (toBytes [c])
  | any (b : UInt8) : Spans .any [b]
  | many (bytes : List UInt8) : Spans .many bytes
  /-- At the start a path may have no directory. -/
  | flat : Spans .leading []
  | leading (directories : List UInt8) : Spans .leading (directories ++ [slash])
  | trailing (rest : List UInt8) : Spans .trailing (slash :: rest)
  | adjacent : Spans .between [slash]
  | between (directories : List UInt8) : Spans .between (slash :: (directories ++ [slash]))
  | oneOf {negated : Bool} {ranges : List (Char × Char)} {b : UInt8}
    (hclass : inClass ranges b ≠ negated) : Spans (.oneOf negated ranges) [b]
  /-- Braces between which nothing is said. -/
  | void {alternatives : List (List Piece)} (hvoid : branchesVoid alternatives = true) :
    Spans (.branches alternatives) []
  | branch {alternatives : List (List Piece)} {branch : List Piece} {bytes : List UInt8}
    (hmem : branch ∈ alternatives) (hfilled : piecesVoid branch = false)
    (hspan : AllSpan branch bytes) : Spans (.branches alternatives) bytes

inductive AllSpan : List Piece → List UInt8 → Prop
  | nil : AllSpan [] []
  | cons {p : Piece} {rest : List Piece} {front back : List UInt8} (hfront : Spans p front)
    (hback : AllSpan rest back) : AllSpan (p :: rest) (front ++ back)

end

/-! ## Fronts of the bytes -/

/-- Some bytes have a front with a property, and `k` accepts what is left. -/
def Leads (P : List UInt8 → Prop) (k : List UInt8 → Bool) (bytes : List UInt8) : Prop :=
  ∃ front back, bytes = front ++ back ∧ P front ∧ k back = true

section

variable {k : List UInt8 → Bool} {P Q : List UInt8 → Prop} {bytes : List UInt8}

theorem leads_congr (h : ∀ front, P front ↔ Q front) : Leads P k bytes ↔ Leads Q k bytes := by
  unfold Leads
  simp only [h]

theorem anySuffix_iff : anySuffix k bytes = true ↔ Leads (fun _ => True) k bytes := by
  induction bytes with
  | nil =>
      constructor
      · exact fun h => ⟨[], [], rfl, trivial, h⟩
      · rintro ⟨front, back, hnil, -, hback⟩
        obtain ⟨rfl, rfl⟩ := List.append_eq_nil_iff.mp hnil.symm
        exact hback
  | cons b rest ih =>
      unfold anySuffix
      rw [Bool.or_eq_true, ih]
      constructor
      · rintro (hall | ⟨front, back, rfl, -, hback⟩)
        · exact ⟨[], b :: rest, rfl, trivial, hall⟩
        · exact ⟨b :: front, back, rfl, trivial, hback⟩
      · rintro ⟨front, back, hbytes, -, hback⟩
        cases front with
        | nil =>
            rw [List.nil_append] at hbytes
            exact .inl (hbytes ▸ hback)
        | cons c front =>
            obtain ⟨-, rfl⟩ := List.cons.inj hbytes
            exact .inr ⟨front, back, rfl, trivial, hback⟩

theorem afterSomeSlash_iff :
    afterSomeSlash k bytes = true ↔
      Leads (fun front => ∃ before, front = before ++ [slash]) k bytes := by
  induction bytes with
  | nil => simp [afterSomeSlash, Leads]
  | cons b rest ih =>
      unfold afterSomeSlash
      rw [Bool.or_eq_true, Bool.and_eq_true, decide_eq_true_eq, ih]
      constructor
      · rintro (⟨rfl, hrest⟩ | ⟨front, back, rfl, ⟨before, rfl⟩, hback⟩)
        · exact ⟨[slash], rest, rfl, ⟨[], rfl⟩, hrest⟩
        · exact ⟨b :: before ++ [slash], back, rfl, ⟨b :: before, rfl⟩, hback⟩
      · rintro ⟨front, back, hbytes, ⟨before, rfl⟩, hback⟩
        cases before with
        | nil =>
            obtain ⟨rfl, rfl⟩ := List.cons.inj hbytes
            exact .inl ⟨rfl, hback⟩
        | cons c before =>
            obtain ⟨-, rfl⟩ := List.cons.inj hbytes
            exact .inr ⟨before ++ [slash], back, rfl, ⟨before, rfl⟩, hback⟩

theorem afterSlash_iff :
    afterSlash k bytes = true ↔ ∃ rest, bytes = slash :: rest ∧ k rest = true := by
  cases bytes with
  | nil => simp [afterSlash]
  | cons b rest =>
      unfold afterSlash
      rw [Bool.and_eq_true, decide_eq_true_eq]
      constructor
      · rintro ⟨rfl, hrest⟩
        exact ⟨rest, rfl, hrest⟩
      · rintro ⟨rest', hbytes, hrest⟩
        obtain ⟨rfl, rfl⟩ := List.cons.inj hbytes
        exact ⟨rfl, hrest⟩

theorem afterBytes_iff {expected : List UInt8} :
    afterBytes expected k bytes = true ↔ Leads (· = expected) k bytes := by
  unfold afterBytes Leads
  rw [Bool.and_eq_true, List.isPrefixOf_iff_prefix]
  constructor
  · rintro ⟨⟨back, rfl⟩, hback⟩
    rw [List.drop_left] at hback
    exact ⟨expected, back, rfl, rfl, hback⟩
  · rintro ⟨front, back, rfl, rfl, hback⟩
    rw [List.drop_left]
    exact ⟨List.prefix_append _ _, hback⟩

theorem afterByte_iff {test : UInt8 → Bool} :
    afterByte test k bytes = true ↔
      Leads (fun front => ∃ b, front = [b] ∧ test b = true) k bytes := by
  unfold Leads
  cases bytes with
  | nil =>
      constructor
      · exact fun h => absurd h Bool.false_ne_true
      · rintro ⟨front, back, hnil, ⟨b, rfl, -⟩, -⟩
        cases hnil
  | cons b rest =>
      unfold afterByte
      rw [Bool.and_eq_true]
      constructor
      · rintro ⟨htest, hrest⟩
        exact ⟨[b], rest, rfl, ⟨b, rfl, htest⟩, hrest⟩
      · rintro ⟨front, back, hbytes, ⟨c, rfl, htest⟩, hback⟩
        obtain ⟨rfl, rfl⟩ := List.cons.inj hbytes
        exact ⟨htest, hback⟩

end

/-! ## Pieces -/

variable {k : List UInt8 → Bool}

theorem leads_nil {bytes : List UInt8} : Leads (AllSpan []) k bytes ↔ k bytes = true := by
  constructor
  · rintro ⟨front, back, rfl, ⟨⟩, hback⟩
    exact hback
  · exact fun h => ⟨[], bytes, rfl, .nil, h⟩

theorem leads_cons {p : Piece} {rest : List Piece} {bytes : List UInt8} :
    Leads (AllSpan (p :: rest)) k bytes ↔
      ∃ front back, bytes = front ++ back ∧ Spans p front ∧ Leads (AllSpan rest) k back := by
  constructor
  · rintro ⟨_, back, rfl, hspan, hback⟩
    cases hspan with
    | @cons _ _ front middle hfront hmiddle =>
        exact ⟨front, middle ++ back, List.append_assoc _ _ _, hfront, middle, back, rfl, hmiddle,
          hback⟩
  · rintro ⟨front, _, rfl, hfront, middle, back, rfl, hmiddle, hback⟩
    exact ⟨front ++ middle, back, (List.append_assoc _ _ _).symm, .cons hfront hmiddle, hback⟩

theorem leads_leading {bytes : List UInt8} :
    (k bytes || afterSomeSlash k bytes) = true ↔ Leads (Spans .leading) k bytes := by
  rw [Bool.or_eq_true, afterSomeSlash_iff]
  constructor
  · rintro (hnone | ⟨front, back, rfl, ⟨before, rfl⟩, hback⟩)
    · exact ⟨[], bytes, rfl, .flat, hnone⟩
    · exact ⟨before ++ [slash], back, rfl, .leading before, hback⟩
  · rintro ⟨front, back, rfl, hspan, hback⟩
    cases hspan with
    | flat => exact .inl hback
    | leading before => exact .inr ⟨before ++ [slash], back, rfl, ⟨before, rfl⟩, hback⟩

theorem leads_trailing {bytes : List UInt8} :
    afterSlash (anySuffix k) bytes = true ↔ Leads (Spans .trailing) k bytes := by
  rw [afterSlash_iff]
  constructor
  · rintro ⟨rest, rfl, hrest⟩
    obtain ⟨front, back, rfl, -, hback⟩ := anySuffix_iff.mp hrest
    exact ⟨slash :: front, back, rfl, .trailing front, hback⟩
  · rintro ⟨front, back, rfl, hspan, hback⟩
    cases hspan with
    | trailing front =>
        exact ⟨front ++ back, rfl, anySuffix_iff.mpr ⟨front, back, rfl, trivial, hback⟩⟩

theorem leads_between {bytes : List UInt8} :
    afterSlash (fun rest => k rest || afterSomeSlash k rest) bytes = true ↔
      Leads (Spans .between) k bytes := by
  rw [afterSlash_iff]
  constructor
  · rintro ⟨rest, rfl, hrest⟩
    obtain ⟨front, back, rfl, hspan, hback⟩ := leads_leading.mp hrest
    cases hspan with
    | flat => exact ⟨[slash], back, rfl, .adjacent, hback⟩
    | leading before => exact ⟨slash :: (before ++ [slash]), back, rfl, .between before, hback⟩
  · rintro ⟨front, back, rfl, hspan, hback⟩
    cases hspan with
    | adjacent => exact ⟨back, rfl, leads_leading.mpr ⟨[], back, rfl, .flat, hback⟩⟩
    | between before =>
        exact ⟨before ++ [slash] ++ back, rfl,
          leads_leading.mpr ⟨before ++ [slash], back, rfl, .leading before, hback⟩⟩

theorem branchesVoid_iff {alternatives : List (List Piece)} :
    branchesVoid alternatives = true ↔ ∀ branch ∈ alternatives, piecesVoid branch = true := by
  induction alternatives with
  | nil => simp [branchesVoid]
  | cons branch rest ih =>
      rw [branchesVoid, Bool.and_eq_true, ih]
      simp

theorem leads_void {alternatives : List (List Piece)} {bytes : List UInt8}
    (hvoid : branchesVoid alternatives = true) :
    k bytes = true ↔ Leads (Spans (.branches alternatives)) k bytes := by
  constructor
  · exact fun h => ⟨[], bytes, rfl, .void hvoid, h⟩
  · rintro ⟨front, back, rfl, hspan, hback⟩
    cases hspan with
    | void _ => exact hback
    | branch hmem hfilled _ =>
        -- No branch that says something is among branches that say nothing.
        rw [branchesVoid_iff.mp hvoid _ hmem] at hfilled
        cases hfilled

theorem leads_branch {alternatives : List (List Piece)} {bytes : List UInt8}
    (hfilled : branchesVoid alternatives = false) :
    (∃ branch ∈ alternatives, piecesVoid branch = false ∧ Leads (AllSpan branch) k bytes) ↔
      Leads (Spans (.branches alternatives)) k bytes := by
  constructor
  · rintro ⟨branch, hmem, hbranch, front, back, rfl, hspan, hback⟩
    exact ⟨front, back, rfl, .branch hmem hbranch hspan, hback⟩
  · rintro ⟨front, back, rfl, hspan, hback⟩
    cases hspan with
    | void hvoid =>
        rw [hfilled] at hvoid
        cases hvoid
    | branch hmem hbranch hspan => exact ⟨_, hmem, hbranch, front, back, rfl, hspan, hback⟩

/-! ## Matching

The induction is on the pieces, with every continuation: for a list of pieces the continuation of
the first one is that the others accept. -/

mutual

theorem accepts_iff (k : List UInt8 → Bool) : ∀ (p : Piece) (bytes : List UInt8),
    p.accepts k bytes = true ↔ Leads (Spans p) k bytes
  | .literal c, bytes => by
      rw [Piece.accepts, afterBytes_iff]
      refine leads_congr fun front => ⟨?_, ?_⟩
      · rintro rfl
        exact .literal c
      · rintro ⟨⟩
        rfl
  | .any, bytes => by
      rw [Piece.accepts, afterByte_iff]
      refine leads_congr fun front => ⟨?_, ?_⟩
      · rintro ⟨b, rfl, -⟩
        exact .any b
      · rintro ⟨⟩
        exact ⟨_, rfl, rfl⟩
  | .many, bytes => by
      rw [Piece.accepts, anySuffix_iff]
      exact leads_congr fun front => ⟨fun _ => .many front, fun _ => trivial⟩
  | .leading, bytes => by
      rw [Piece.accepts]
      exact leads_leading
  | .trailing, bytes => by
      rw [Piece.accepts]
      exact leads_trailing
  | .between, bytes => by
      rw [Piece.accepts]
      exact leads_between
  | .oneOf negated ranges, bytes => by
      rw [Piece.accepts, afterByte_iff]
      refine leads_congr fun front => ⟨?_, ?_⟩
      · rintro ⟨b, rfl, hclass⟩
        exact .oneOf (bne_iff_ne.mp hclass)
      · rintro ⟨⟩
        exact ⟨_, rfl, bne_iff_ne.mpr ‹_›⟩
  | .branches alternatives, bytes => by
      rw [Piece.accepts]
      cases hvoid : branchesVoid alternatives with
      | true =>
          rw [if_pos rfl]
          exact leads_void hvoid
      | false =>
          rw [if_neg Bool.false_ne_true, acceptsBranch_iff k alternatives bytes]
          exact leads_branch hvoid

theorem acceptsBranch_iff (k : List UInt8 → Bool) :
    ∀ (alternatives : List (List Piece)) (bytes : List UInt8),
      acceptsBranch k alternatives bytes = true ↔
        ∃ branch ∈ alternatives, piecesVoid branch = false ∧ Leads (AllSpan branch) k bytes
  | [], bytes => by simp [acceptsBranch]
  | branch :: rest, bytes => by
      rw [acceptsBranch, Bool.or_eq_true, Bool.and_eq_true, Bool.not_eq_true',
        acceptsAll_iff k branch bytes, acceptsBranch_iff k rest bytes]
      simp only [List.mem_cons, exists_eq_or_imp]

theorem acceptsAll_iff (k : List UInt8 → Bool) : ∀ (pieces : List Piece) (bytes : List UInt8),
    acceptsAll k pieces bytes = true ↔ Leads (AllSpan pieces) k bytes
  | [], bytes => by
      rw [acceptsAll]
      exact leads_nil.symm
  | p :: rest, bytes => by
      rw [acceptsAll, accepts_iff (acceptsAll k rest) p bytes, leads_cons]
      simp only [Leads, acceptsAll_iff k rest]

end

end MailIndex.Glob

namespace MailIndex

/-- The paths that a pattern describes: all of them if the pattern is two stars and nothing else. -/
def Glob.Describes (g : Glob) (path : Text) : Prop :=
  g.pieces = [.leading] ∨ Glob.AllSpan g.pieces (Text.toBytes path)

theorem Glob.matches_iff (g : Glob) (path : Text) : g.matches path = true ↔ g.Describes path := by
  unfold Glob.matches Glob.Describes
  split
  · rename_i hstars
    simp [hstars]
  · rename_i hother
    rw [Glob.acceptsAll_iff]
    constructor
    · rintro ⟨front, back, hbytes, hspan, hback⟩
      rw [List.isEmpty_iff.mp hback, List.append_nil] at hbytes
      exact .inr (hbytes ▸ hspan)
    · rintro (hstars | hspan)
      · exact absurd hstars hother
      · exact ⟨_, [], (List.append_nil _).symm, hspan, rfl⟩

end MailIndex
