import MailIndex.Proofs.Query.Wording

/-!
# Tokens that are read

Whatever a search is, the tokens read from it are well-formed. Together with the reading of written
tokens this says what the tokens of searches are: the well-formed ones, all of them and no others.
-/

namespace MailIndex.Query

open Text

/-! ## Parts of a token -/

theorem of_readQuoted {rest : Text} {pair : Text × Text} (h : readQuoted rest = .ok pair) :
    '"' ∉ pair.1 := by
  unfold readQuoted at h
  split at h
  · cases h
  · cases h
    intro hquote
    simpa using List.mem_takeWhile_imp hquote

theorem of_quotedToken {make : Text → Token} {rest after : Text} {token : Option Token}
    (h : quotedToken make rest = .ok (token, after)) :
    ∃ value, '"' ∉ value ∧ token = some (make value) := by
  unfold quotedToken at h
  cases hread : readQuoted rest with
  | error e => simp [hread, Except.map] at h
  | ok pair =>
      rw [hread] at h
      cases h
      exact ⟨pair.1, of_readQuoted hread, rfl⟩

theorem wellFormed_of_readSegment {segment : Text} {token : Token} (hne : segment ≠ [])
    (hunbroken : Unbroken segment) (hquote : '"' ∉ segment)
    (hminus : segment.head? = some '-' → segment = ['-'])
    (h : readSegment segment = .ok (some token)) : token.WellFormed := by
  unfold readSegment at h
  split at h
  · cases h
    trivial
  · rename_i hor
    split at h
    · cases h
    · rename_i hand
      cases hfilter : readFilter segment false with
      | error e => simp [hfilter] at h
      | ok found =>
          rw [hfilter] at h
          cases found with
          | none =>
              cases h
              exact ⟨hne, hunbroken, hquote, hor, hand, hminus, of_readFilter_none hfilter⟩
          | some token =>
              cases h
              obtain ⟨field, value, rfl, hvalue, hsub⟩ := of_readFilter_some hfilter
              exact ⟨hvalue, fun c hc => hunbroken c (hsub c hc),
                fun _ hmem => hquote (hsub _ hmem)⟩

theorem wellFormed_of_readTerm {term : Text} {token : Token} (hunbroken : Unbroken term)
    (hquote : term.head? ≠ some '"') (h : readTerm term = .ok (some token)) :
    token.WellFormed := by
  unfold readTerm at h
  split at h
  · cases h
  · cases hfilter : readFilter term true with
    | error e => simp [hfilter] at h
    | ok found =>
        rw [hfilter] at h
        cases found with
        | none =>
            cases h
            exact .inr ⟨hunbroken, hquote, of_readFilter_none hfilter⟩
        | some token =>
            cases h
            obtain ⟨field, value, rfl, hvalue, hsub⟩ := of_readFilter_some hfilter
            exact ⟨hvalue, fun c hc => hunbroken c (hsub c hc), nofun⟩

theorem of_map_pair {r : Except Error (Option Token)} {s after : Text} {token : Option Token}
    (h : r.map (fun found => (found, s)) = .ok (token, after)) : r = .ok token ∧ after = s := by
  cases r with
  | error e => cases h
  | ok found =>
      cases h
      exact ⟨rfl, rfl⟩

theorem wellFormed_of_readExclusion {rest after : Text} {token : Token}
    (h : readExclusion rest = .ok (some token, after)) : token.WellFormed := by
  unfold readExclusion at h
  split at h
  · cases h
  · obtain ⟨value, hquote, heq⟩ := of_quotedToken h
    cases heq
    exact .inl hquote
  · rename_i hquote
    refine wellFormed_of_readTerm (unbroken_takeWhile rest) (fun hhead => ?_) (of_map_pair h).1
    cases rest with
    | nil => cases hhead
    | cons c rest =>
        rw [List.takeWhile_cons] at hhead
        split at hhead
        · cases hhead
          exact hquote rest rfl
        · cases hhead

/-! ## Whole tokens, and searches -/

theorem wellFormed_of_readToken {c : Char} {rest after : Text} {token : Token}
    (hc : isBlank c = false) (h : readToken c rest = .ok (some token, after)) :
    token.WellFormed := by
  unfold readToken at h
  split at h
  · obtain ⟨value, hquote, heq⟩ := of_quotedToken h
    cases heq
    exact hquote
  rename_i hquote
  split at h
  · cases h
    trivial
  rename_i hopening
  split at h
  · cases h
    trivial
  rename_i hclosing
  split at h
  · exact wellFormed_of_readExclusion h
  rename_i hstays
  obtain ⟨hunbroken, hunquoted⟩ := unbroken_segment rest
  have hends : endsTerm c = false := endsTerm_eq_false.mpr ⟨hc, hopening, hclosing⟩
  refine wellFormed_of_readSegment (List.cons_ne_nil _ _) (hunbroken.cons hends)
    (by simp [hunquoted, Ne.symm hquote]) (fun hhead => ?_) (of_map_pair h).1
  -- After a minus sign that excludes nothing there is white space, or the text ends.
  have hminus : c = '-' := by simpa using hhead
  cases rest with
  | nil => rw [hminus]; rfl
  | cons d rest =>
      have hblank : isBlank d = true := by simpa [hminus, goesOn] using hstays
      simp [hminus, endsSegment, endsTerm, hblank]

theorem wellFormed_of_scan {text : Text} {tokens : List Token} (h : scan text = .ok tokens) :
    ∀ token ∈ tokens, token.WellFormed := by
  induction text using scan.induct generalizing tokens with
  | case1 =>
      rw [scan] at h
      cases h
      intro token htoken
      cases htoken
  | case2 c rest hblank ih =>
      rw [scan_blank hblank] at h
      exact ih h
  | case3 c rest hc e hread =>
      rw [scan_error (by simpa using hc) hread] at h
      cases h
  | case4 c rest hc result hread _ ih =>
      have hc : isBlank c = false := by simpa using hc
      obtain ⟨token, after⟩ := result
      rw [scan_token hc hread] at h
      cases hrest : scan after with
      | error e => simp [hrest, Except.map] at h
      | ok later =>
          rw [hrest] at h
          cases h
          intro made hmade
          cases List.mem_append.mp hmade with
          | inl hfirst =>
              have htoken := Option.mem_toList.mp hfirst
              exact wellFormed_of_readToken hc (htoken ▸ hread)
          | inr hlater => exact ih hrest made hlater

theorem wellFormed_of_tokenize {text : Text} {tokens : List Token}
    (h : tokenize text = .ok tokens) : ∀ token ∈ tokens, token.WellFormed :=
  wellFormed_of_scan h

/-! ## Reading and writing -/

/-- The tokens of a search are well-formed, and every list of well-formed tokens is read from its
written form. -/
theorem tokenize_wellFormed_and_onto :
    (∀ text tokens, tokenize text = .ok tokens → ∀ token ∈ tokens, token.WellFormed) ∧
      ∀ tokens : List Token, (∀ token ∈ tokens, token.WellFormed) →
        tokenize (Token.writtenAll tokens) = .ok tokens :=
  ⟨fun _ _ h => wellFormed_of_tokenize h, fun _ h => tokenize_writtenAll h⟩

/-- Every kind of token once, the fields by other names and a quote inside excluded values. -/
theorem mixed_search_read_and_written :
    (∀ token ∈ [.word "a:b".toList, .word "-".toList, .phrase "c  (d".toList, .exclusion [],
        .exclusion "e\"f".toList, .exclusion "to:g".toList, .filter .sender "ħ".toList false,
        .filter .label "i\"".toList true, .or, .opening, .closing], Token.WellFormed token) ∧
      tokenize (Token.writtenAll [.exclusion "e\"f".toList, .filter .attachment ":".toList true,
          .exclusion "(to:g".toList, .phrase [], .word ":from".toList, .or]) =
        .ok [.exclusion "e\"f".toList, .filter .attachment ":".toList true,
          .exclusion "(to:g".toList, .phrase [], .word ":from".toList, .or] :=
  ⟨tokenize_wellFormed_and_onto.1
      " a:b - \"c  (d\"-\"\" -e\"f AND -\"to:g\"SENDER:ħ -Tag:i\" or()".toList _ (by decide +kernel),
    tokenize_wellFormed_and_onto.2 _ (by decide +kernel)⟩

end MailIndex.Query
