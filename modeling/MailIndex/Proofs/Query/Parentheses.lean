import MailIndex.Proofs.Query.Placement

/-!
# Two checks of parentheses

The shape of a search is checked by counting open parentheses, and its tokens are read with a stack
of open groups. The stack is as high as the count says, so the two agree on parentheses; and a
reading refuses an OR at either end by itself. What only the check of the shape refuses is two ORs
in a row.
-/

namespace MailIndex.Query

/-- Counted from `depth` open parentheses on, no prefix closes more than are open, and at the end
none is open. -/
structure Matched (depth : Nat) (tokens : List Token) : Prop where
  opened : ∀ front, front <+: tokens → front.count .closing ≤ depth + front.count .opening
  closed : tokens.count .closing = depth + tokens.count .opening

/-! ## Counting parentheses -/

theorem matched_nil {depth : Nat} : Matched depth [] ↔ depth = 0 := by
  constructor
  · intro h
    simpa using h.closed.symm
  · rintro rfl
    exact ⟨fun front hfront => by simp [List.prefix_nil.mp hfront], rfl⟩

theorem matched_cons {depth next : Nat} {token : Token} {tokens : List Token}
    (h : next + [token].count .closing = depth + [token].count .opening) :
    Matched depth (token :: tokens) ↔ Matched next tokens := by
  constructor
  · intro hall
    refine ⟨fun front hfront => ?_, ?_⟩
    · have hlonger := hall.opened (token :: front) ((List.prefix_cons_inj token).mpr hfront)
      rw [Token.count_cons .closing, Token.count_cons .opening] at hlonger
      omega
    · have hwhole := hall.closed
      rw [Token.count_cons .closing, Token.count_cons .opening] at hwhole
      omega
  · intro hrest
    refine ⟨fun front hfront => ?_, ?_⟩
    · rcases List.prefix_cons_iff.mp hfront with rfl | ⟨rest, rfl, hprefix⟩
      · simp
      · have hshorter := hrest.opened rest hprefix
        rw [Token.count_cons .closing, Token.count_cons .opening]
        omega
    · have hwhole := hrest.closed
      rw [Token.count_cons .closing, Token.count_cons .opening]
      omega

theorem not_matched_closing {tokens : List Token} : ¬ Matched 0 (.closing :: tokens) := by
  intro h
  have hfirst := h.opened [.closing] (by simp)
  simp at hfirst

theorem checkBalance_eq_ok_iff {depth : Nat} {tokens : List Token} :
    checkBalance depth tokens = .ok () ↔ Matched depth tokens := by
  induction tokens generalizing depth with
  | nil => cases depth <;> simp [checkBalance, matched_nil]
  | cons token tokens ih =>
      cases token with
      | closing =>
          cases depth with
          | zero => simp [checkBalance, not_matched_closing]
          | succ depth =>
              simp only [checkBalance]
              exact ih.trans (matched_cons rfl).symm
      | _ =>
          simp only [checkBalance]
          exact ih.trans (matched_cons rfl).symm

theorem matched_of_checkShape {tokens : List Token} (h : checkShape tokens = .ok ()) :
    Matched 0 tokens := by
  refine checkBalance_eq_ok_iff.mp ?_
  unfold checkShape at h
  split at h
  · cases h
  · split at h
    · cases h
    · split at h
      · cases h
      · exact h

theorem hasDoubleOr_iff {tokens : List Token} :
    hasDoubleOr tokens = true ↔ [.or, .or] <:+: tokens := by
  induction tokens with
  | nil => simp [hasDoubleOr]
  | cons token tokens ih =>
      rw [List.infix_cons_iff, ← ih]
      cases token with
      | or =>
          cases tokens with
          | nil => simp [hasDoubleOr]
          | cons next rest => cases next <;> simp [hasDoubleOr]
      | _ => simp [hasDoubleOr]

/-! ## The stack of open groups -/

/-- A token changes the height of the stack as it changes the count. -/
theorem Takes.depth {r r' : Reading} {token : Token} (h : Takes r token r') :
    r'.outer.length + [token].count .closing = r.outer.length + [token].count .opening := by
  have hsame (hopening : token ≠ .opening) (hclosing : token ≠ .closing)
      (houter : r'.outer = r.outer) :
      r'.outer.length + [token].count .closing = r.outer.length + [token].count .opening := by
    rw [Token.count_of_ne hopening, Token.count_of_ne hclosing, houter]
  cases h with
  | opening => rfl
  | vanishing houter => simp [houter]
  | closing houter => simp [houter]
  | required t hitem =>
      exact hsame (by rintro rfl; cases hitem) (by rintro rfl; cases hitem) rfl
  | excluded t hitem =>
      exact hsame (by rintro rfl; cases hitem) (by rintro rfl; cases hitem) rfl
  | dropped hmark =>
      exact hsame (by rintro rfl; cases hmark) (by rintro rfl; cases hmark) rfl
  | structured hstructured =>
      exact hsame (by rintro rfl; cases hstructured) (by rintro rfl; cases hstructured) rfl
  | or => rfl

theorem depth_of_run {tokens : List Token} {r r' : Reading}
    (h : tokens.foldlM Reading.step r = .ok r') :
    r'.outer.length + tokens.count .closing = r.outer.length + tokens.count .opening := by
  induction tokens generalizing r with
  | nil =>
      cases h
      rfl
  | cons token tokens ih =>
      obtain ⟨next, hstep, hrest⟩ := exists_taken h
      have hfirst := (takes_of_step hstep).depth
      have hafter := ih hrest
      rw [Token.count_cons .closing, Token.count_cons .opening]
      omega

theorem matched_of_accepted {tokens : List Token} {q : Query} (h : ofTokens? tokens = .ok q) :
    Matched 0 tokens := by
  obtain ⟨last, hrun, houter, -⟩ := exists_read h
  refine ⟨fun front hfront => ?_, ?_⟩
  · obtain ⟨back, rfl⟩ := hfront
    obtain ⟨middle, hfront, -⟩ := exists_middle hrun
    have hcount : middle.outer.length + front.count .closing = 0 + front.count .opening :=
      depth_of_run hfront
    omega
  · have hcount : last.outer.length + tokens.count .closing = 0 + tokens.count .opening :=
      depth_of_run hrun
    simpa [houter] using hcount

theorem exists_prefix_of_unmatchedClosing {tokens : List Token}
    (h : ofTokens? tokens = .error .unmatchedClosing) :
    ∃ front, front <+: tokens ∧ front.count .opening < front.count .closing := by
  rcases exists_rejected h with ⟨before, token, after, r, rfl, hbefore, hrefused⟩ |
    ⟨r, -, ⟨-, hreason⟩ | ⟨-, hclose⟩⟩
  · cases hrefused with
    | unmatched houter =>
        have hcount : r.outer.length + before.count .closing = 0 + before.count .opening :=
          depth_of_run hbefore
        refine ⟨before ++ [.closing], ⟨after, by simp⟩, ?_⟩
        have hnone : [Token.closing].count .opening = 0 := rfl
        simp only [houter, List.length_nil] at hcount
        simp only [List.count_append, List.count_singleton_self, hnone]
        omega
    | unfinished houter hclose =>
        rcases Group.close_error hclose with hreason | hreason <;> cases hreason
    | value hvalue => cases hvalue
  · cases hreason
  · rcases Group.close_error hclose with hreason | hreason <;> cases hreason

theorem count_lt_of_unclosedGroup {tokens : List Token}
    (h : ofTokens? tokens = .error .unclosedGroup) :
    tokens.count .closing < tokens.count .opening := by
  rcases exists_rejected h with ⟨before, token, after, r, rfl, hbefore, hrefused⟩ |
    ⟨r, hrun, ⟨houter, -⟩ | ⟨-, hclose⟩⟩
  · cases hrefused with
    | unfinished houter hclose =>
        rcases Group.close_error hclose with hreason | hreason <;> cases hreason
    | value hvalue => cases hvalue
  · have hcount : r.outer.length + tokens.count .closing = 0 + tokens.count .opening :=
      depth_of_run hrun
    have hpos : 0 < r.outer.length := List.length_pos_iff.mpr houter
    omega
  · rcases Group.close_error hclose with hreason | hreason <;> cases hreason

/-! ## ORs at the ends -/

theorem head?_ne_or_of_accepted {tokens : List Token} {q : Query} (h : ofTokens? tokens = .ok q) :
    tokens.head? ≠ some .or := by
  intro hhead
  obtain ⟨rest, rfl⟩ := List.head?_eq_some_iff.mp hhead
  obtain ⟨last, hrun, -⟩ := exists_read h
  obtain ⟨next, hstep, -⟩ := exists_taken hrun
  cases hstep

theorem getLast?_ne_or_of_accepted {tokens : List Token} {q : Query}
    (h : ofTokens? tokens = .ok q) : tokens.getLast? ≠ some .or := by
  intro hlast
  obtain ⟨before, rfl⟩ := List.getLast?_eq_some_iff.mp hlast
  obtain ⟨last, hrun, -, result, hclose, -⟩ := exists_read h
  obtain ⟨middle, -, hend⟩ := exists_middle hrun
  obtain ⟨next, hstep, hdone⟩ := exists_taken hend
  cases hdone
  cases takes_of_step hstep with
  | required t hitem => cases hitem
  | excluded t hitem => cases hitem
  | dropped hmark => cases hmark
  | structured hstructured => cases hstructured
  | or hafter hopen =>
      unfold Group.openAlternative at hopen
      split at hopen
      · cases hopen
        cases hclose
      · cases hopen

/-- The two checks agree. The reading of a search whose shape is accepted never meets a parenthesis
without its partner; and a search that can be read has matching parentheses and no OR at either end,
so its shape is refused for two ORs in a row and for nothing else. -/
theorem checkShape_agrees_with_reading (tokens : List Token) :
    (checkShape tokens = .ok () →
      ofTokens? tokens ≠ .error .unmatchedClosing ∧ ofTokens? tokens ≠ .error .unclosedGroup) ∧
      ∀ q, ofTokens? tokens = .ok q →
        Matched 0 tokens ∧ tokens.head? ≠ some .or ∧ tokens.getLast? ≠ some .or ∧
          ∀ e, checkShape tokens = .error e ↔ e = .consecutiveOr ∧ [.or, .or] <:+: tokens := by
  refine ⟨fun hshape => ?_, fun q haccepted => ?_⟩
  · have hmatched := matched_of_checkShape hshape
    refine ⟨fun hunmatched => ?_, fun hunclosed => ?_⟩
    · obtain ⟨front, hfront, hmore⟩ := exists_prefix_of_unmatchedClosing hunmatched
      have hopened := hmatched.opened front hfront
      omega
    · have hfewer := count_lt_of_unclosedGroup hunclosed
      have hclosed := hmatched.closed
      omega
  · have hmatched := matched_of_accepted haccepted
    have hhead := head?_ne_or_of_accepted haccepted
    have hlast := getLast?_ne_or_of_accepted haccepted
    refine ⟨hmatched, hhead, hlast, fun e => ?_⟩
    unfold checkShape
    rw [if_neg hhead, if_neg hlast, checkBalance_eq_ok_iff.mpr hmatched, ← hasDoubleOr_iff]
    cases hasDoubleOr tokens with
    | true => simp [eq_comm]
    | false => simp

/-- Two ORs in a row can be read, but their shape is refused. -/
theorem checkShape_agrees_with_reading_of_double_or :
    let a : Token := .word "a".toList
    let good : List Token := [.opening, a, .or, a, .closing]
    let double : List Token := [.opening, a, .or, .or, a, .closing]
    let q : Query := ⟨"(a OR a)".toList, []⟩
    (checkShape good = .ok () ∧ ofTokens? good ≠ .error .unmatchedClosing) ∧
      ofTokens? double = .ok q ∧ Matched 0 double ∧ checkShape double = .error .consecutiveOr := by
  intro a good double q
  have hshape : checkShape good = .ok () := by decide
  have haccepted : ofTokens? double = .ok q := by decide
  obtain ⟨hmatched, -, -, hrefused⟩ := (checkShape_agrees_with_reading double).2 q haccepted
  have hdouble : [.or, .or] <:+: double := ⟨[.opening, a], [a, .closing], rfl⟩
  exact ⟨⟨hshape, ((checkShape_agrees_with_reading good).1 hshape).1⟩, haccepted, hmatched,
    (hrefused _).mpr ⟨rfl, hdouble⟩⟩

end MailIndex.Query
