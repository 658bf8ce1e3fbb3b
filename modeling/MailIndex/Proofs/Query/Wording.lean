import MailIndex.Query.Token.Lexer
import Mathlib.Data.List.Basic
import Mathlib.Data.List.TakeWhile

/-!
# Tokens and their written form

Not every token can come out of a search: a word never has a quote in it, and what is written with
the name of a field and a colon is a filter. The tokens that can are told here by their values alone,
and they are read again from their written forms with spaces between them, so that nothing is lost in
writing them.
-/

namespace MailIndex.Query

open Text

/-! ## Values -/

/-- A text in which neither white space nor a parenthesis stands. -/
def Unbroken (t : Text) : Prop := ∀ c ∈ t, isBlank c = false ∧ c ≠ '(' ∧ c ≠ ')'

/-- A text that no name of a field begins: what stands before its first colon is none, in any letter
case. -/
def NamesNoField (t : Text) : Prop :=
  ':' ∈ t → Field.ofName? (lower (t.takeWhile (· ≠ ':'))) = none

/-- The values of words. A minus sign may only stand alone. -/
structure IsWord (value : Text) : Prop where
  ne_nil : value ≠ []
  unbroken : Unbroken value
  unquoted : '"' ∉ value
  not_or : asciiLower value ≠ "or".toList
  not_and : asciiLower value ≠ "and".toList
  minus : value.head? = some '-' → value = ['-']
  plain : NamesNoField value

/-- The values of excluded terms that are written without quotes. -/
structure IsBare (value : Text) : Prop where
  unbroken : Unbroken value
  unquoted : value.head? ≠ some '"'
  plain : NamesNoField value

/-- The values of filters. Only a negated one may have quotes. -/
structure IsFilterValue (value : Text) (negated : Bool) : Prop where
  ne_nil : value ≠ []
  unbroken : Unbroken value
  unquoted : negated = false → '"' ∉ value

/-- The tokens that a search can be made of. -/
def Token.WellFormed : Token → Prop
  | .word value => IsWord value
  | .phrase value => '"' ∉ value
  | .exclusion value => '"' ∉ value ∨ IsBare value
  | .filter _ value negated => IsFilterValue value negated
  | .or => True
  | .opening => True
  | .closing => True

-- Not the instance for statements about every character there is.
instance (t : Text) : Decidable (Unbroken t) :=
  List.decidableBAll (fun c => isBlank c = false ∧ c ≠ '(' ∧ c ≠ ')') t

instance (t : Text) : Decidable (NamesNoField t) :=
  inferInstanceAs (Decidable (':' ∈ t → Field.ofName? (lower (t.takeWhile (· ≠ ':'))) = none))

instance (value : Text) : Decidable (IsWord value) :=
  decidable_of_iff (value ≠ [] ∧ Unbroken value ∧ '"' ∉ value ∧
      asciiLower value ≠ "or".toList ∧ asciiLower value ≠ "and".toList ∧
      (value.head? = some '-' → value = ['-']) ∧ NamesNoField value)
    ⟨fun ⟨a, b, c, d, e, f, g⟩ => ⟨a, b, c, d, e, f, g⟩,
      fun h => ⟨h.ne_nil, h.unbroken, h.unquoted, h.not_or, h.not_and, h.minus, h.plain⟩⟩

instance (value : Text) : Decidable (IsBare value) :=
  decidable_of_iff (Unbroken value ∧ value.head? ≠ some '"' ∧ NamesNoField value)
    ⟨fun ⟨a, b, c⟩ => ⟨a, b, c⟩, fun h => ⟨h.unbroken, h.unquoted, h.plain⟩⟩

instance (value : Text) (negated : Bool) : Decidable (IsFilterValue value negated) :=
  decidable_of_iff (value ≠ [] ∧ Unbroken value ∧ (negated = false → '"' ∉ value))
    ⟨fun ⟨a, b, c⟩ => ⟨a, b, c⟩, fun h => ⟨h.ne_nil, h.unbroken, h.unquoted⟩⟩

instance : DecidablePred Token.WellFormed
  | .word value => inferInstanceAs (Decidable (IsWord value))
  | .phrase value => inferInstanceAs (Decidable ('"' ∉ value))
  | .exclusion value => inferInstanceAs (Decidable ('"' ∉ value ∨ IsBare value))
  | .filter _ value negated => inferInstanceAs (Decidable (IsFilterValue value negated))
  | .or => inferInstanceAs (Decidable True)
  | .opening => inferInstanceAs (Decidable True)
  | .closing => inferInstanceAs (Decidable True)

/-! ## The ends of a term -/

theorem endsTerm_eq_false {c : Char} :
    endsTerm c = false ↔ isBlank c = false ∧ c ≠ '(' ∧ c ≠ ')' := by
  simp [endsTerm, and_assoc]

theorem endsSegment_eq_false {c : Char} :
    endsSegment c = false ↔ endsTerm c = false ∧ c ≠ '"' := by
  simp [endsSegment]

theorem unbroken_iff {t : Text} : Unbroken t ↔ ∀ c ∈ t, endsTerm c = false := by
  simp only [Unbroken, endsTerm_eq_false]

theorem Unbroken.cons {c : Char} {t : Text} (hc : endsTerm c = false) (ht : Unbroken t) :
    Unbroken (c :: t) := List.forall_mem_cons.mpr ⟨endsTerm_eq_false.mp hc, ht⟩

def Parted (rest : Text) : Prop := ∀ c ∈ rest.head?, isBlank c = true

theorem parted_nil : Parted [] := by simp [Parted]

theorem parted_cons {c : Char} {rest : Text} (h : isBlank c = true) : Parted (c :: rest) := by
  simpa [Parted] using h

theorem Parted.goesOn {rest : Text} (h : Parted rest) : goesOn rest = false := by
  cases rest with
  | nil => rfl
  | cons c rest => simpa [Query.goesOn] using h c rfl

theorem goesOn_append {t rest : Text} (h : Unbroken t) (hne : t ≠ []) :
    goesOn (t ++ rest) = true := by
  obtain ⟨c, more, rfl⟩ := List.exists_cons_of_ne_nil hne
  simpa [Query.goesOn] using (h c List.mem_cons_self).1

theorem span_append {α : Type} {p : α → Bool} {front back : List α} (hfront : ∀ a ∈ front, p a = true)
    (hback : ∀ a ∈ back.head?, p a = false) :
    (front ++ back).takeWhile p = front ∧ (front ++ back).dropWhile p = back := by
  rw [List.takeWhile_append_of_pos hfront, List.dropWhile_append_of_pos hfront]
  cases back with
  | nil => simp
  | cons a back =>
      have ha := hback a rfl
      simp [ha]

theorem span_term {t rest : Text} (ht : Unbroken t) (hrest : Parted rest) :
    (t ++ rest).takeWhile (!endsTerm ·) = t ∧ (t ++ rest).dropWhile (!endsTerm ·) = rest := by
  refine span_append (fun c hc => ?_) fun c hc => ?_
  · simp [unbroken_iff.mp ht c hc]
  · simp [endsTerm, hrest c hc]

theorem span_segment {t rest : Text} (ht : Unbroken t) (hquote : '"' ∉ t)
    (hrest : ∀ c ∈ rest.head?, endsSegment c = true) :
    (t ++ rest).takeWhile (!endsSegment ·) = t ∧
      (t ++ rest).dropWhile (!endsSegment ·) = rest := by
  refine span_append (fun c hc => ?_) fun c hc => ?_
  · have hne : c ≠ '"' := fun h => hquote (h ▸ hc)
    simp [endsSegment, unbroken_iff.mp ht c hc, hne]
  · simp [hrest c hc]

theorem Parted.endsSegment {rest : Text} (h : Parted rest) :
    ∀ c ∈ rest.head?, endsSegment c = true := by
  intro c hc
  simp [Query.endsSegment, endsTerm, h c hc]

theorem unbroken_takeWhile (rest : Text) : Unbroken (rest.takeWhile (!endsTerm ·)) := by
  refine unbroken_iff.mpr fun c hc => ?_
  simpa using List.mem_takeWhile_imp hc

theorem unbroken_segment (rest : Text) :
    Unbroken (rest.takeWhile (!endsSegment ·)) ∧ '"' ∉ rest.takeWhile (!endsSegment ·) := by
  have hall : ∀ c ∈ rest.takeWhile (!endsSegment ·), endsTerm c = false ∧ c ≠ '"' := by
    intro c hc
    exact endsSegment_eq_false.mp (by simpa using List.mem_takeWhile_imp hc)
  exact ⟨unbroken_iff.mpr fun c hc => (hall c hc).1, fun hquote => (hall _ hquote).2 rfl⟩

/-! ## Filters -/

theorem readFilter_plain {segment : Text} (h : NamesNoField segment) (negated : Bool) :
    readFilter segment negated = .ok none := by
  unfold readFilter
  split
  · rfl
  · rfl
  · rename_i c value hdrop _
    have hmem : c ∈ segment.dropWhile (· ≠ ':') := hdrop ▸ List.mem_cons_self
    have hcolon : c = ':' := by
      have hhead := List.head?_dropWhile_not (· ≠ ':') segment
      rw [hdrop] at hhead
      simpa using hhead
    have hnone := h (hcolon ▸ (List.dropWhile_suffix _).subset hmem)
    simp only [hnone]

theorem readFilter_field {name : Text} {field : Field} (value : Text) (negated : Bool)
    (hcolon : ':' ∉ name) (hfield : Field.ofName? (lower name) = some field) :
    readFilter (name ++ ':' :: value) negated =
      if value = [] then .error (.emptyValue (lower name) negated)
      else .ok (some (.filter field value negated)) := by
  obtain ⟨htake, hdrop⟩ : (name ++ ':' :: value).takeWhile (· ≠ ':') = name ∧
      (name ++ ':' :: value).dropWhile (· ≠ ':') = ':' :: value :=
    span_append (fun c hc => by simpa using fun h : c = ':' => hcolon (h ▸ hc)) (by simp)
  have hname : name ≠ [] := by
    rintro rfl
    cases hfield
  unfold readFilter
  rw [htake, hdrop]
  split
  · exact absurd rfl hname
  · rename_i heq
    cases heq
  · rename_i heq
    cases heq
    simp [hfield]

theorem readFilter_name {name value : Text} {field : Field} (negated : Bool) (hcolon : ':' ∉ name)
    (hfield : Field.ofName? (lower name) = some field) (hvalue : value ≠ []) :
    readFilter (name ++ ':' :: value) negated = .ok (some (.filter field value negated)) := by
  rw [readFilter_field value negated hcolon hfield, if_neg hvalue]

theorem of_readFilter_none {segment : Text} {negated : Bool}
    (h : readFilter segment negated = .ok none) : NamesNoField segment := by
  intro hcolon
  unfold readFilter at h
  split at h
  · rename_i htake
    rw [htake]
    rfl
  · rename_i hdrop _
    have hall := List.dropWhile_eq_nil_iff.mp hdrop _ hcolon
    simp at hall
  · split at h
    · assumption
    · split at h <;> cases h

theorem of_readFilter_some {segment : Text} {negated : Bool} {token : Token}
    (h : readFilter segment negated = .ok (some token)) :
    ∃ field value, token = .filter field value negated ∧ value ≠ [] ∧ ∀ c ∈ value, c ∈ segment := by
  unfold readFilter at h
  split at h
  · cases h
  · cases h
  · rename_i c value hdrop _
    split at h
    · cases h
    · rename_i field _
      split at h
      · cases h
      · rename_i hvalue
        refine ⟨field, value, ?_, by simpa using hvalue, fun a ha => ?_⟩
        · simpa using h.symm
        · have hmem : a ∈ segment.dropWhile (· ≠ ':') := hdrop ▸ List.mem_cons_of_mem c ha
          exact (List.dropWhile_suffix _).subset hmem

theorem Field.lower_name (field : Field) : lower field.name = field.name := by
  cases field <;> decide +kernel

theorem Field.colon_not_mem_name (field : Field) : ':' ∉ field.name := by
  cases field <;> decide

theorem readFilter_written (field : Field) {value : Text} (negated : Bool) (hvalue : value ≠ []) :
    readFilter (field.name ++ ':' :: value) negated = .ok (some (.filter field value negated)) :=
  readFilter_name negated field.colon_not_mem_name
    (by rw [field.lower_name]; exact field.ofName?_name) hvalue

/-! ## Single tokens, from their written forms -/

theorem readQuoted_append {value : Text} (h : '"' ∉ value) (rest : Text) :
    readQuoted (value ++ '"' :: rest) = .ok (value, rest) := by
  obtain ⟨htake, hdrop⟩ : (value ++ '"' :: rest).takeWhile (· ≠ '"') = value ∧
      (value ++ '"' :: rest).dropWhile (· ≠ '"') = '"' :: rest :=
    span_append (fun c hc => by simpa using fun hquote : c = '"' => h (hquote ▸ hc)) (by simp)
  simp only [readQuoted, hdrop, htake]

theorem quotedToken_append {value : Text} (h : '"' ∉ value) (make : Text → Token) (rest : Text) :
    quotedToken make (value ++ '"' :: rest) = .ok (some (make value), rest) := by
  rw [quotedToken, readQuoted_append h]
  rfl

theorem readSegment_word {value : Text} (h : IsWord value) :
    readSegment value = .ok (some (.word value)) := by
  unfold readSegment
  rw [if_neg h.not_or, if_neg h.not_and, readFilter_plain h.plain]

theorem asciiLower_ne_of_colon {segment word : Text} (h : ':' ∈ segment) (hword : ':' ∉ word) :
    asciiLower segment ≠ word := by
  rintro rfl
  exact hword (List.mem_map.mpr ⟨':', h, rfl⟩)

theorem readSegment_filter (field : Field) {value : Text} (hvalue : value ≠ []) :
    readSegment (field.name ++ ':' :: value) = .ok (some (.filter field value false)) := by
  have hcolon : ':' ∈ field.name ++ ':' :: value := by simp
  simp [readSegment, asciiLower_ne_of_colon hcolon, readFilter_written field false hvalue]

/-- A run of characters that begins no token of another kind is read up to where it ends. -/
theorem readToken_run {c : Char} {segment rest : Text} (hunbroken : Unbroken (c :: segment))
    (hquote : '"' ∉ c :: segment) (hrest : ∀ d ∈ rest.head?, endsSegment d = true)
    (hstays : ¬(c = '-' ∧ goesOn (segment ++ rest) = true)) :
    readToken c (segment ++ rest) =
      (readSegment (c :: segment)).map fun token => (token, rest) := by
  obtain ⟨hc, hsegment⟩ := List.forall_mem_cons.mp hunbroken
  obtain ⟨htake, hdrop⟩ := span_segment hsegment (fun hmem => hquote (.tail c hmem)) hrest
  have hne : c ≠ '"' := fun heq => hquote (heq ▸ List.mem_cons_self)
  unfold readToken
  rw [if_neg hne, if_neg hc.2.1, if_neg hc.2.2, if_neg hstays, htake, hdrop]

/-- A token that begins neither with a quote nor with a parenthesis, and with a minus sign only if
it is nothing else. -/
theorem readToken_segment {c : Char} {segment rest : Text} {token : Option Token}
    (hunbroken : Unbroken (c :: segment)) (hquote : '"' ∉ c :: segment) (hrest : Parted rest)
    (hminus : c = '-' → segment = []) (h : readSegment (c :: segment) = .ok token) :
    readToken c (segment ++ rest) = .ok (token, rest) := by
  have hstays : ¬(c = '-' ∧ goesOn (segment ++ rest) = true) := by
    rintro ⟨heq, hgoes⟩
    rw [hminus heq, List.nil_append, hrest.goesOn] at hgoes
    cases hgoes
  rw [readToken_run hunbroken hquote hrest.endsSegment hstays, h]
  rfl

theorem readExclusion_term {rest : Text} (hopening : rest.head? ≠ some '(')
    (hquote : rest.head? ≠ some '"') :
    readExclusion rest = (readTerm (rest.takeWhile (!endsTerm ·))).map fun token =>
      (token, rest.dropWhile (!endsTerm ·)) := by
  unfold readExclusion
  split
  · exact absurd rfl hopening
  · exact absurd rfl hquote
  · rfl

/-- What a minus sign excludes is read up to white space or a parenthesis, unless it is quoted. -/
theorem readToken_minus {value rest : Text} (hne : value ≠ []) (hunbroken : Unbroken value)
    (hquote : value.head? ≠ some '"') (hrest : Parted rest) :
    readToken '-' (value ++ rest) = (readTerm value).map fun token => (token, rest) := by
  obtain ⟨htake, hdrop⟩ := span_term hunbroken hrest
  have hread : readExclusion (value ++ rest) =
      (readTerm value).map fun token => (token, rest) := by
    have hhead : (value ++ rest).head? = value.head? := by
      obtain ⟨c, more, rfl⟩ := List.exists_cons_of_ne_nil hne
      rfl
    have hopening : value.head? ≠ some '(' := fun h =>
      (hunbroken '(' (List.mem_of_mem_head? h)).2.1 rfl
    rw [readExclusion_term (hhead ▸ hopening) (hhead ▸ hquote), htake, hdrop]
  unfold readToken
  rw [if_neg (by decide), if_neg (by decide), if_neg (by decide),
    if_pos ⟨rfl, goesOn_append hunbroken hne⟩, hread]

theorem readToken_excluded {value rest : Text} {token : Option Token} (hne : value ≠ [])
    (hunbroken : Unbroken value) (hquote : value.head? ≠ some '"') (hrest : Parted rest)
    (h : readTerm value = .ok token) : readToken '-' (value ++ rest) = .ok (token, rest) := by
  rw [readToken_minus hne hunbroken hquote hrest, h]
  rfl

theorem readTerm_plain {value : Text} (h : NamesNoField value) (hne : value ≠ []) :
    readTerm value = .ok (some (.exclusion value)) := by
  simp [readTerm, hne, readFilter_plain h]

theorem readTerm_filter (field : Field) {value : Text} (hvalue : value ≠ []) :
    readTerm (field.name ++ ':' :: value) = .ok (some (.filter field value true)) := by
  simp [readTerm, readFilter_written field true hvalue]

theorem Field.name_ne_nil (field : Field) : field.name ≠ [] := by
  cases field <;> decide

theorem Field.quote_not_mem_name (field : Field) : '"' ∉ field.name := by
  cases field <;> decide

theorem Field.unbroken_name (field : Field) : Unbroken field.name := by
  cases field <;> decide +kernel

theorem Field.head?_name_ne (field : Field) (c : Char) (hc : c.isAlpha = false) :
    field.name.head? ≠ some c := by
  rintro h
  cases field <;> cases h <;> cases hc

theorem readToken_written {token : Token} (h : token.WellFormed) {rest : Text} (hrest : Parted rest) :
    ∃ c more, token.written = c :: more ∧ isBlank c = false ∧
      readToken c (more ++ rest) = .ok (some token, rest) := by
  cases token with
  | word value =>
      have hword : IsWord value := h
      obtain ⟨c, more, rfl⟩ := List.exists_cons_of_ne_nil hword.ne_nil
      refine ⟨c, more, rfl, (hword.unbroken c List.mem_cons_self).1, ?_⟩
      refine readToken_segment hword.unbroken hword.unquoted hrest (fun hminus => ?_)
        (readSegment_word hword)
      have halone := hword.minus (by rw [hminus]; rfl)
      exact (List.cons.inj halone).2
  | phrase value =>
      refine ⟨'"', value ++ ['"'], rfl, by decide, ?_⟩
      simpa [readToken] using quotedToken_append h .phrase rest
  | exclusion value =>
      by_cases hquote : '"' ∈ value
      · have hbare : IsBare value := h.resolve_left (not_not_intro hquote)
        refine ⟨'-', value, by simp [Token.written, hquote], by decide, ?_⟩
        exact readToken_excluded (List.ne_nil_of_mem hquote) hbare.unbroken hbare.unquoted hrest
          (readTerm_plain hbare.plain (List.ne_nil_of_mem hquote))
      · refine ⟨'-', '"' :: value ++ ['"'], by simp [Token.written, hquote], by decide, ?_⟩
        have hgoes : goesOn ('"' :: value ++ ['"'] ++ rest) = true := rfl
        have hread : readExclusion ('"' :: value ++ ['"'] ++ rest) =
            .ok (some (.exclusion value), rest) := by
          simpa [readExclusion] using quotedToken_append hquote .exclusion rest
        unfold readToken
        rw [if_neg (by decide), if_neg (by decide), if_neg (by decide), if_pos ⟨rfl, hgoes⟩, hread]
  | filter field value negated =>
      have hfilter : IsFilterValue value negated := h
      have hunbroken : Unbroken (field.name ++ ':' :: value) :=
        List.forall_mem_append.mpr
          ⟨field.unbroken_name, Unbroken.cons (by decide) hfilter.unbroken⟩
      obtain ⟨c, more, hname⟩ := List.exists_cons_of_ne_nil field.name_ne_nil
      cases negated with
      | false =>
          have hsegment : field.name ++ ':' :: value = c :: (more ++ ':' :: value) := by
            rw [hname, List.cons_append]
          have hquote : '"' ∉ field.name ++ ':' :: value := by
            simp [field.quote_not_mem_name, hfilter.unquoted rfl]
          have hread := readSegment_filter field hfilter.ne_nil
          rw [hsegment] at hunbroken hquote hread
          refine ⟨c, more ++ ':' :: value, hsegment, (hunbroken c List.mem_cons_self).1, ?_⟩
          refine readToken_segment hunbroken hquote hrest (fun hminus => ?_) hread
          exact absurd (by rw [hname, hminus]; rfl) (field.head?_name_ne '-' rfl)
      | true =>
          refine ⟨'-', field.name ++ ':' :: value, rfl, by decide, ?_⟩
          have hhead : (field.name ++ ':' :: value).head? = field.name.head? := by
            rw [hname]
            rfl
          exact readToken_excluded (by simp) hunbroken
            (hhead ▸ field.head?_name_ne '"' rfl) hrest (readTerm_filter field hfilter.ne_nil)
  | or =>
      refine ⟨'O', ['R'], rfl, by decide, ?_⟩
      exact readToken_segment (by decide) (by decide) hrest (by decide) rfl
  | opening => exact ⟨'(', [], rfl, by decide, rfl⟩
  | closing => exact ⟨')', [], rfl, by decide, rfl⟩

/-! ## Searches, from their written forms -/

theorem scan_blank {c : Char} (h : isBlank c = true) (rest : Text) : scan (c :: rest) = scan rest := by
  rw [scan, if_pos h]

theorem scan_token {c : Char} {rest after : Text} {token : Option Token} (hc : isBlank c = false)
    (h : readToken c rest = .ok (token, after)) :
    scan (c :: rest) = (scan after).map (token.toList ++ ·) := by
  rw [scan, if_neg (by simp [hc])]
  split
  · rename_i heq
    rw [h] at heq
    cases heq
  · rename_i heq
    rw [h] at heq
    cases heq
    rfl

theorem scan_error {c : Char} {rest : Text} {e : Error} (hc : isBlank c = false)
    (h : readToken c rest = .error e) : scan (c :: rest) = .error e := by
  rw [scan, if_neg (by simp [hc])]
  split
  · rename_i heq
    rw [h] at heq
    cases heq
    rfl
  · rename_i heq
    rw [h] at heq
    cases heq

theorem scan_written {token : Token} (h : token.WellFormed) {rest : Text} (hrest : Parted rest) :
    scan (token.written ++ rest) = (scan rest).map (token :: ·) := by
  obtain ⟨c, more, hwritten, hc, hread⟩ := readToken_written h hrest
  rw [hwritten, List.cons_append, scan_token hc hread]
  rfl

theorem Token.writtenAll_cons (token next : Token) (tokens : List Token) :
    Token.writtenAll (token :: next :: tokens) =
      token.written ++ ' ' :: Token.writtenAll (next :: tokens) := by
  simp [Token.writtenAll, List.intercalate_cons_cons]

theorem scan_writtenAll {tokens : List Token} (h : ∀ token ∈ tokens, token.WellFormed) :
    scan (Token.writtenAll tokens) = .ok tokens := by
  induction tokens with
  | nil => simp [Token.writtenAll, scan]
  | cons token tokens ih =>
      obtain ⟨htoken, htokens⟩ := List.forall_mem_cons.mp h
      cases tokens with
      | nil =>
          have hscan := scan_written htoken parted_nil
          simpa [Token.writtenAll, scan, Except.map] using hscan
      | cons next tokens =>
          have hblank : isBlank ' ' = true := by decide
          rw [Token.writtenAll_cons, scan_written htoken (parted_cons hblank), scan_blank hblank,
            ih htokens]
          rfl

def IsTrimmed (t : Text) : Prop :=
  (∀ c ∈ t.head?, isBlank c = false) ∧ ∀ c ∈ t.getLast?, isBlank c = false

theorem trim_eq_self {t : Text} (h : IsTrimmed t) : trim t = t := by
  have hstart : t.dropWhile isBlank = t := by
    cases t with
    | nil => rfl
    | cons c t => exact List.dropWhile_cons_of_neg (by simp [h.1 c rfl])
  have hend : t.reverse.dropWhile isBlank = t.reverse := by
    cases hreverse : t.reverse with
    | nil => rfl
    | cons c back =>
        have hlast : t.getLast? = some c := by
          rw [List.getLast?_eq_head?_reverse, hreverse, List.head?_cons]
        exact List.dropWhile_cons_of_neg (by simp [h.2 c hlast])
  rw [trim, trimStart, trimEnd, hstart, hend, List.reverse_reverse]

theorem Unbroken.isBlank_getLast? {t : Text} (h : Unbroken t) :
    ∀ c ∈ t.getLast?, isBlank c = false :=
  fun c hc => (h c (List.mem_of_getLast? hc)).1

theorem Unbroken.isTrimmed {t : Text} (h : Unbroken t) : IsTrimmed t :=
  ⟨fun c hc => (h c (List.mem_of_mem_head? hc)).1, h.isBlank_getLast?⟩

theorem written_ne_nil {token : Token} (h : token.WellFormed) : token.written ≠ [] := by
  obtain ⟨c, more, hwritten, -⟩ := readToken_written h parted_nil
  rw [hwritten]
  exact List.cons_ne_nil c more

theorem isTrimmed_written {token : Token} (h : token.WellFormed) : IsTrimmed token.written := by
  constructor
  · obtain ⟨c, more, hwritten, hc, -⟩ := readToken_written h parted_nil
    rw [hwritten]
    simpa using hc
  · cases token with
    | word value => exact IsWord.unbroken h |>.isBlank_getLast?
    | phrase value =>
        rw [Token.written, List.getLast?_append_cons]
        simp; decide
    | exclusion value =>
        by_cases hquote : '"' ∈ value
        · have hbare : IsBare value := h.resolve_left (not_not_intro hquote)
          rw [Token.written, if_pos hquote]
          exact (Unbroken.cons (by decide) hbare.unbroken).isBlank_getLast?
        · rw [Token.written, if_neg hquote, List.getLast?_append_cons]
          simp; decide
    | filter field value negated =>
        rw [Token.written, List.getLast?_append_cons]
        exact (Unbroken.cons (by decide) (IsFilterValue.unbroken h)).isBlank_getLast?
    | or =>
        rintro c ⟨⟩
        rfl
    | opening =>
        rintro c ⟨⟩
        rfl
    | closing =>
        rintro c ⟨⟩
        rfl

theorem IsTrimmed.beside {a b : Text} (ha : IsTrimmed a) (hb : IsTrimmed b) (hane : a ≠ [])
    (hbne : b ≠ []) : IsTrimmed (a ++ ' ' :: b) := by
  obtain ⟨c, front, rfl⟩ := List.exists_cons_of_ne_nil hane
  obtain ⟨d, back, rfl⟩ := List.exists_cons_of_ne_nil hbne
  refine ⟨ha.1, ?_⟩
  rw [List.getLast?_append_cons, List.getLast?_cons_cons]
  exact hb.2

theorem isTrimmed_writtenAll {tokens : List Token} (h : ∀ token ∈ tokens, token.WellFormed) :
    IsTrimmed (Token.writtenAll tokens) := by
  induction tokens with
  | nil => simp [Token.writtenAll, IsTrimmed]
  | cons token tokens ih =>
      obtain ⟨htoken, htokens⟩ := List.forall_mem_cons.mp h
      cases tokens with
      | nil => simpa [Token.writtenAll] using isTrimmed_written htoken
      | cons next tokens =>
          have hnext := (List.forall_mem_cons.mp htokens).1
          have hne : Token.writtenAll (next :: tokens) ≠ [] := by
            cases tokens with
            | nil => simpa [Token.writtenAll] using written_ne_nil hnext
            | cons => simp [Token.writtenAll_cons]
          rw [Token.writtenAll_cons]
          exact (isTrimmed_written htoken).beside (ih htokens) (written_ne_nil htoken) hne

theorem tokenize_writtenAll {tokens : List Token} (h : ∀ token ∈ tokens, token.WellFormed) :
    tokenize (Token.writtenAll tokens) = .ok tokens := by
  rw [tokenize, trim_eq_self (isTrimmed_writtenAll h), scan_writtenAll h]

end MailIndex.Query
