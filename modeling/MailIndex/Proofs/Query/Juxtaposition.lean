import MailIndex.Proofs.Query.Scanning
import MailIndex.Proofs.Text.Blank

/-!
# Searches side by side

White space ends every token that is not inside quotes, and nothing before it changes how the text
after it is read. So when one search is written after another with white space between them, the
tokens of the second follow those of the first, and what is wrong with the second is wrong in the
same way with both together.
-/

namespace MailIndex.Query

open Text

/-! ## Tokens before white space -/

theorem span_append_cons {p : Char → Bool} {stop : Char} (h : p stop = false) (front back : Text) :
    (front ++ stop :: back).takeWhile p = front.takeWhile p ∧
      (front ++ stop :: back).dropWhile p = front.dropWhile p ++ stop :: back := by
  induction front with
  | nil => simp [h]
  | cons c front ih =>
      cases hc : p c with
      | false => simp [hc]
      | true => simp [hc, ih]

theorem eq_of_readQuoted {rest value after : Text} (h : readQuoted rest = .ok (value, after)) :
    rest = value ++ '"' :: after := by
  unfold readQuoted at h
  split at h
  · cases h
  · rename_i c tail hdrop
    have hquote : c = '"' := by
      have hhead := List.head?_dropWhile_not (· ≠ '"') rest
      rw [hdrop] at hhead
      simpa using hhead
    cases h
    calc rest = rest.takeWhile (· ≠ '"') ++ rest.dropWhile (· ≠ '"') :=
          List.takeWhile_append_dropWhile.symm
      _ = rest.takeWhile (· ≠ '"') ++ '"' :: after := by rw [hdrop, hquote]

theorem quotedToken_extend {make : Text → Token} {rest after : Text} {token : Option Token}
    (h : quotedToken make rest = .ok (token, after)) (more : Text) :
    quotedToken make (rest ++ more) = .ok (token, after ++ more) := by
  unfold quotedToken at h
  cases hread : readQuoted rest with
  | error e => simp [hread, Except.map] at h
  | ok pair =>
      obtain ⟨value, behind⟩ := pair
      rw [hread] at h
      cases h
      rw [eq_of_readQuoted hread, List.append_assoc, List.cons_append]
      exact quotedToken_append (of_readQuoted hread) make _

theorem map_pair_extend {r : Except Error (Option Token)} {s after : Text} {token : Option Token}
    (h : r.map (fun found => (found, s)) = .ok (token, after)) (more : Text) :
    r.map (fun found => (found, s ++ more)) = .ok (token, after ++ more) := by
  obtain ⟨rfl, rfl⟩ := of_map_pair h
  rfl

section Blank

variable {b : Char} (hb : isBlank b = true)

include hb

theorem goesOn_append_cons (rest back : Text) : goesOn (rest ++ b :: back) = goesOn rest := by
  cases rest with
  | nil => simp [goesOn, hb]
  | cons c rest => rfl

theorem readExclusion_extend {rest after : Text} {token : Option Token} (hgoes : goesOn rest = true)
    (h : readExclusion rest = .ok (token, after)) (back : Text) :
    readExclusion (rest ++ b :: back) = .ok (token, after ++ b :: back) := by
  cases rest with
  | nil => cases hgoes
  | cons c rest =>
      by_cases hopening : c = '('
      · subst hopening
        cases h
      by_cases hquote : c = '"'
      · subst hquote
        exact quotedToken_extend h (b :: back)
      have hends : (!endsTerm b) = false := by simp [endsTerm, hb]
      obtain ⟨htake, hdrop⟩ := span_append_cons (p := (!endsTerm ·)) hends (c :: rest) back
      rw [readExclusion_term (by simpa using hopening) (by simpa using hquote)] at h
      rw [readExclusion_term (by simpa using hopening) (by simpa using hquote), htake, hdrop]
      exact map_pair_extend h _

/-- A token that is read before white space is read in the same way whatever comes after it. -/
theorem readToken_extend {c : Char} {rest after : Text} {token : Option Token}
    (h : readToken c rest = .ok (token, after)) (back : Text) :
    readToken c (rest ++ b :: back) = .ok (token, after ++ b :: back) := by
  unfold readToken at h ⊢
  rw [goesOn_append_cons hb]
  split at h
  · next hquote =>
      rw [if_pos hquote]
      exact quotedToken_extend h _
  next hquote =>
  rw [if_neg hquote]
  split at h
  · next hopening =>
      rw [if_pos hopening]
      cases h
      rfl
  next hopening =>
  rw [if_neg hopening]
  split at h
  · next hclosing =>
      rw [if_pos hclosing]
      cases h
      rfl
  next hclosing =>
  rw [if_neg hclosing]
  split at h
  · next hminus =>
      rw [if_pos hminus]
      exact readExclusion_extend hb hminus.2 h back
  · next hstays =>
      have hends : (!endsSegment b) = false := by simp [endsSegment, endsTerm, hb]
      obtain ⟨htake, hdrop⟩ := span_append_cons (p := (!endsSegment ·)) hends rest back
      rw [if_neg hstays, htake, hdrop]
      exact map_pair_extend h _

/-- The tokens of a text that white space follows come first. -/
theorem scan_append_cons {front : Text} {tokens : List Token} (h : scan front = .ok tokens)
    (back : Text) : scan (front ++ b :: back) = (scan back).map (tokens ++ ·) := by
  induction front using scan.induct generalizing tokens with
  | case1 =>
      rw [scan] at h
      cases h
      rw [List.nil_append, scan_blank hb]
      cases scan back <;> rfl
  | case2 c rest hblank ih =>
      rw [scan_blank hblank] at h
      rw [List.cons_append, scan_blank hblank, ih h]
  | case3 c rest hc e hread =>
      rw [scan_error (by simpa using hc) hread] at h
      cases h
  | case4 c rest hc result hread _ ih =>
      have hc : isBlank c = false := by simpa using hc
      obtain ⟨token, after⟩ := result
      rw [scan_token hc hread] at h
      cases hafter : scan after with
      | error e => simp [hafter, Except.map] at h
      | ok later =>
          rw [hafter] at h
          cases h
          rw [List.cons_append, scan_token hc (readToken_extend hb hread back), ih hafter]
          cases scan back with
          | error e => rfl
          | ok more => simp [Except.map]

end Blank

/-! ## White space at the ends -/

theorem scan_blanks {blanks : Text} (h : ∀ c ∈ blanks, isBlank c = true) (t : Text) :
    scan (blanks ++ t) = scan t := by
  induction blanks with
  | nil => rfl
  | cons c blanks ih =>
      obtain ⟨hc, hblanks⟩ := List.forall_mem_cons.mp h
      rw [List.cons_append, scan_blank hc, ih hblanks]

theorem tokenize_eq_scan (t : Text) : tokenize t = scan (trimEnd t) := by
  have hblanks : ∀ c ∈ t.takeWhile isBlank, isBlank c = true := fun c => List.mem_takeWhile_imp
  have hparts : t.takeWhile isBlank ++ trimStart t = t := List.takeWhile_append_dropWhile
  unfold tokenize trim
  by_cases hnil : trimEnd (trimStart t) = []
  · obtain ⟨more, hmore, hblank⟩ := exists_trimEnd (trimStart t)
    rw [hnil, List.nil_append] at hmore
    have hall : ∀ c ∈ t, isBlank c = true := by
      rw [← hparts, hmore]
      exact List.forall_mem_append.mpr ⟨hblanks, hblank⟩
    have hend : trimEnd t = [] := trimEnd_append_blanks hall []
    rw [hnil, hend]
  · have hend : trimEnd t = t.takeWhile isBlank ++ trimEnd (trimStart t) := by
      rw [← trimEnd_append hnil, hparts]
    rw [hend, scan_blanks hblanks]

/-! ## Two searches -/

theorem tokenize_append {first blanks : Text} {tokens : List Token}
    (h : tokenize first = .ok tokens) (hne : blanks ≠ [])
    (hblanks : ∀ c ∈ blanks, isBlank c = true) (second : Text) :
    tokenize (first ++ blanks ++ second) = (tokenize second).map (tokens ++ ·) := by
  rw [tokenize_eq_scan] at h ⊢
  rw [tokenize_eq_scan]
  by_cases hnil : trimEnd second = []
  · -- the second search is nothing but white space
    obtain ⟨more, hmore, hblank⟩ := exists_trimEnd second
    rw [hnil, List.nil_append] at hmore
    rw [hnil, hmore, List.append_assoc,
      trimEnd_append_blanks (List.forall_mem_append.mpr ⟨hblanks, hblank⟩), h, scan]
    simp [Except.map]
  · -- what is trimmed off the first search belongs to the white space between the two
    obtain ⟨more, hmore, hblank⟩ := exists_trimEnd first
    have hall := List.forall_mem_append.mpr ⟨hblank, hblanks⟩
    obtain ⟨b, between, hbetween⟩ :=
      List.exists_cons_of_ne_nil (List.append_ne_nil_of_right_ne_nil more hne)
    rw [hbetween] at hall
    obtain ⟨hb, hrest⟩ := List.forall_mem_cons.mp hall
    have hwhole : first ++ blanks ++ trimEnd second =
        trimEnd first ++ b :: (between ++ trimEnd second) := by
      rw [← List.cons_append, ← hbetween, ← List.append_assoc, ← List.append_assoc, ← hmore]
    rw [trimEnd_append hnil, hwhole, scan_append_cons hb h, scan_blanks hrest]

/-- Reading is compositional at white space: after a search that can be read, the tokens of another
one follow, or its error, with all that its message is made of. -/
theorem tokenize_side_by_side {first blanks : Text} {tokens : List Token}
    (h : tokenize first = .ok tokens) (hne : blanks ≠ [])
    (hblanks : ∀ c ∈ blanks, isBlank c = true) (second : Text) :
    (∀ more, tokenize second = .ok more →
        tokenize (first ++ blanks ++ second) = .ok (tokens ++ more)) ∧
      ∀ e, tokenize second = .error e → tokenize (first ++ blanks ++ second) = .error e := by
  constructor
  · intro more hmore
    rw [tokenize_append h hne hblanks, hmore]
    rfl
  · intro e herror
    rw [tokenize_append h hne hblanks, herror]
    rfl

/-- A minus sign at the end of the first search, and a second one that closes its quote or does
not. -/
theorem tokenize_side_by_side_of_minus_sign :
    let first := " (-\"a  b\" AND label:x -".toList
    let blanks := "\u3000\n".toList
    let tokens : List Token :=
      [.opening, .exclusion "a  b".toList, .filter .label "x".toList false, .word "-".toList]
    tokenize first = .ok tokens ∧
      tokenize (first ++ blanks ++ "\"c \") ".toList) =
        .ok (tokens ++ [.phrase "c ".toList, .closing]) ∧
      tokenize (first ++ blanks ++ "c -\"d e ".toList) = .error (.unclosedQuote "d e".toList) := by
  intro first blanks tokens
  have h : tokenize first = .ok tokens := by decide +kernel
  have hne : blanks ≠ [] := by decide
  have hclosed : tokenize "\"c \") ".toList = .ok [.phrase "c ".toList, .closing] := by
    decide +kernel
  have hopen : tokenize "c -\"d e ".toList = .error (.unclosedQuote "d e".toList) := by
    decide +kernel
  have hblanks : blanks.all isBlank = true := by decide +kernel
  have hside := tokenize_side_by_side h hne (List.all_eq_true.mp hblanks)
  exact ⟨h, (hside _).1 _ hclosed, (hside _).2 _ hopen⟩

end MailIndex.Query
