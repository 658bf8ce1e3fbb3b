import MailIndex.Proofs.Match.Lexing
import MailIndex.Proofs.Match.Spelling
import MailIndex.Query.Grouping

/-!
# The parts of a match expression

A group is put together from texts, and what stands between two of them depends on how they begin.
Every part is one of four things: the word OR, a term, an excluded term, or a group in parentheses.
From the texts its kind can be told, so the joints are where the grammar needs them: the parts
between two ORs spell the conjunction of what they say.
-/

namespace MailIndex.Query

open Text Match

/-- What a part is. A group is known by its symbols and by the expression that they spell. -/
inductive Mark where
  | or
  | term (t : Term)
  | excluded (t : Term)
  | group (symbols : List Symbol) (e : Expression)

namespace Mark

def isExcluded : Mark → Bool
  | excluded _ => true
  | _ => false

def isGroup : Mark → Bool
  | group _ _ => true
  | _ => false

def isOr : Mark → Bool
  | or => true
  | _ => false

def isRequired : Mark → Bool
  | term _ => true
  | group _ _ => true
  | _ => false

def symbols : Mark → List Symbol
  | or => [.operator .or]
  | term t => [.term t]
  | excluded t => [.operator .not, .term t]
  | group symbols _ => .opening :: symbols ++ [.closing]

def holds (truth : Term → Bool) : Mark → Bool
  | or => true
  | term t => truth t
  | excluded t => !truth t
  | group _ e => e.holds truth

def terms : Mark → List Term
  | or => []
  | term t => [t]
  | excluded t => [t]
  | group _ e => e.terms

/-- The symbols of a group spell its expression, and it has terms. -/
def Sound : Mark → Prop
  | group symbols e => Spells 1 symbols e ∧ e.terms ≠ []
  | _ => True

def joint (before m : Mark) : List Symbol :=
  if !m.isOr && !before.isOr && !m.isExcluded
      && (m.isGroup || before.isGroup || before.isExcluded) then
    [.operator .and]
  else []

def symbolsAfter (before : Mark) : List Mark → List Symbol
  | [] => []
  | m :: rest => joint before m ++ m.symbols ++ symbolsAfter m rest

def allSymbols : List Mark → List Symbol
  | [] => []
  | m :: rest => m.symbols ++ symbolsAfter m rest

end Mark

/-! ## Written terms -/

theorem ne_nil_of_isSearchable {text : Text} (h : isSearchable text = true) : text ≠ [] := by
  rintro rfl
  cases h

theorem isBareword_of_not_needsQuotes {text : Text} (h : needsQuotes text = false) :
    ∀ c ∈ text, isBareword c = true := by
  intro c hc
  unfold needsQuotes at h
  simp only [Bool.or_eq_false_iff, Bool.not_eq_false', List.all_eq_true] at h
  have hplain := h.1 c hc
  unfold isPlain at hplain
  simp only [Bool.and_eq_true] at hplain
  exact hplain.1

theorem ofWord_of_not_needsQuotes {text : Text} (h : needsQuotes text = false) :
    Lexeme.ofWord text = .text text := by
  unfold needsQuotes keywords at h
  simp only [Bool.or_eq_false_iff, List.contains_cons, List.contains_nil, beq_eq_false_iff_ne] at h
  obtain ⟨-, hand, hor, hnot, hnear, -⟩ := h
  unfold Lexeme.ofWord
  rw [if_neg hor, if_neg hand, if_neg hnot, if_neg hnear]

namespace SearchTerm

theorem needsQuotes_of_bare {t : SearchTerm} (h : t.inQuotes = false) :
    needsQuotes t.text = false := by
  cases hneeds : needsQuotes t.text with
  | false => rfl
  | true => rw [t.inQuotes_of_needsQuotes hneeds] at h; cases h

/-- The text of a term, without its column and its star. -/
def body (t : SearchTerm) : Text := if t.inQuotes then quoted t.text else t.text

theorem render_eq (t : SearchTerm) :
    t.render = columnMark t.column ++ (t.body ++ if t.starred then ['*'] else []) := by
  simp [render, body]

theorem lexes_body (t : SearchTerm) : Lexes Stops t.body [.text t.text] := by
  unfold body
  cases hquotes : t.inQuotes with
  | true => exact lexes_quoted t.text
  | false =>
      have hneeds := needsQuotes_of_bare hquotes
      have hword := lexes_word (ne_nil_of_isSearchable t.isSearchable_text)
        (isBareword_of_not_needsQuotes hneeds)
      rw [ofWord_of_not_needsQuotes hneeds] at hword
      exact hword

end SearchTerm

theorem lexes_delimiter {c : Char} {lexemes : List Lexeme} (hnull : c ≠ '\x00')
    (h : Lexeme.start c = some (lexemes, .between)) : Lexes Anything [c] lexemes where
  scan rest _ := by
    have hstep : Lexeme.step .between c = some (lexemes, .between) := h
    exact scan_cons_of_some hstep rest
  cut hmem := absurd (List.mem_singleton.mp hmem).symm hnull

theorem lexes_star (starred : Bool) :
    Lexes Anything (if starred then ['*'] else []) (if starred then [.star] else []) := by
  cases starred with
  | true => exact lexes_delimiter (by decide) rfl
  | false => exact .nil _

theorem lexes_name (column : Column) :
    Lexes Anything (column.name ++ [':']) [.text column.name, .colon] := by
  have hword : Lexes Stops column.name [Lexeme.ofWord column.name] :=
    lexes_word (by cases column <;> decide)
      (List.all_eq_true.mp (by cases column <;> rfl))
  have hname : Lexeme.ofWord column.name = .text column.name := by cases column <;> decide
  have hcolon : Lexes Anything [':'] [.colon] := lexes_delimiter (by decide) rfl
  rw [hname] at hword
  exact hword.append hcolon (fun _ _ => stops_cons.mpr (by decide)) (stops_cons.mpr (by decide))

def columnLexemes : Option Column → List Lexeme
  | some column => [.text column.name, .colon]
  | none => []

theorem lexes_columnMark (column : Option Column) :
    Lexes Anything (columnMark column) (columnLexemes column) := by
  cases column with
  | none => exact .nil _
  | some column => exact lexes_name column

theorem ofLexemes?_text (text : Text) {rest : List Lexeme} (h : Fresh rest) :
    Symbol.ofLexemes? (.text text :: rest) =
      (Symbol.ofLexemes? rest).map ([.term ⟨none, text, false⟩] ++ ·) := by
  have hstep : Symbol.ofLexemes? (.text text :: rest) =
      (Symbol.ofLexemes? rest).bind fun more => some (.term ⟨none, text, false⟩ :: more) := by
    cases rest with
    | nil => rfl
    | cons l rest =>
        have hl := h l rfl
        cases l with
        | colon => exact absurd rfl hl.1
        | star => exact absurd rfl hl.2
        | _ => rfl
  rw [hstep]
  cases Symbol.ofLexemes? rest <;> rfl

theorem ofLexemes?_column (column : Column) (text : Text) {rest : List Lexeme} (h : Fresh rest) :
    Symbol.ofLexemes? (.text column.name :: .colon :: .text text :: rest) =
      (Symbol.ofLexemes? rest).map ([.term ⟨some column, text, false⟩] ++ ·) := by
  have hstep : Symbol.ofLexemes? (.text column.name :: .colon :: .text text :: rest) =
      (Column.ofName? column.name).bind fun c =>
        (Symbol.ofLexemes? rest).bind fun more => some (.term ⟨some c, text, false⟩ :: more) := by
    cases rest with
    | nil => rfl
    | cons l rest =>
        have hl := h l rfl
        cases l with
        | star => exact absurd rfl hl.2
        | _ => rfl
  rw [hstep, Column.ofName?_name]
  cases Symbol.ofLexemes? rest <;> rfl

theorem ofLexemes?_starred (text : Text) (rest : List Lexeme) :
    Symbol.ofLexemes? (.text text :: .star :: rest) =
      (Symbol.ofLexemes? rest).map ([.term ⟨none, text, true⟩] ++ ·) := by
  rw [Symbol.ofLexemes?]
  cases Symbol.ofLexemes? rest <;> rfl

theorem ofLexemes?_column_starred (column : Column) (text : Text) (rest : List Lexeme) :
    Symbol.ofLexemes? (.text column.name :: .colon :: .text text :: .star :: rest) =
      (Symbol.ofLexemes? rest).map ([.term ⟨some column, text, true⟩] ++ ·) := by
  rw [Symbol.ofLexemes?, Column.ofName?_name]
  cases Symbol.ofLexemes? rest <;> rfl

theorem joins_term (t : Term) :
    Joins (columnLexemes t.column ++ ([.text t.text] ++ if t.starred then [.star] else []))
      [.term t] := by
  obtain ⟨column, text, starred⟩ := t
  refine ⟨?_, ?_, fun rest hrest => ?_⟩
  · cases column <;> simp [columnLexemes, Fresh]
  · cases column <;> cases starred <;> simp [columnLexemes]
  · cases column with
    | none =>
        cases starred with
        | true => exact ofLexemes?_starred text rest
        | false => exact ofLexemes?_text text hrest
    | some column =>
        cases starred with
        | true => exact ofLexemes?_column_starred column text rest
        | false => exact ofLexemes?_column column text hrest

theorem SearchTerm.writes_render (t : SearchTerm) : Writes Stops t.render [.term t.toTerm] := by
  refine ⟨_, ?_, joins_term t.toTerm⟩
  rw [t.render_eq]
  refine (lexes_columnMark t.column).append ?_ (fun _ _ => trivial) trivial
  refine t.lexes_body.append ((lexes_star t.starred).weaken fun _ _ => trivial) ?_ ?_
  · intro rest hrest
    exact Stops.append (by cases t.starred <;> simp [Stops, isStop, isBareword]) hrest
  · exact Stops.upToNull (by cases t.starred <;> simp [Stops, isStop, isBareword])

/-! ## Kinds of parts -/

/-- A part of an expression: its symbols, and what its text shows of its kind. -/
structure IsPart (part : Text) (m : Mark) : Prop where
  ne_nil : part ≠ []
  writes : Writes Stops part m.symbols
  isOr : (part = orPart) ↔ m.isOr = true
  isExcluding : isExcluding part = m.isExcluded
  isParenthesized : isParenthesized part = m.isGroup
  sound : m.Sound

theorem mem_render_of_bare {t : SearchTerm} (hcolumn : t.column = none)
    (hquotes : t.inQuotes = false) {c : Char} (h : c ∈ t.render) :
    isBareword c = true ∨ c = '*' := by
  have hbare := isBareword_of_not_needsQuotes (SearchTerm.needsQuotes_of_bare hquotes)
  rw [t.render_eq, hcolumn] at h
  simp only [columnMark, SearchTerm.body, hquotes, List.nil_append, List.mem_append] at h
  rcases h with h | h
  · exact .inl (hbare c h)
  · cases hstar : t.starred <;> simp [hstar] at h
    exact .inr h

/-- How a term begins: with the name of a column, a quote, or a character of a word. -/
theorem head?_render (t : SearchTerm) :
    (∃ c, t.render.head? = some c ∧ c ∈ ['s', 'r', 'b', 'a', '"']) ∨
      (t.column = none ∧ t.inQuotes = false) := by
  cases hcolumn : t.column with
  | some column =>
      refine .inl ⟨(column.name ++ [':']).head (by simp), ?_, ?_⟩
      · rw [t.render_eq, hcolumn]
        cases column <;> rfl
      · cases column <;> decide
  | none =>
      cases hquotes : t.inQuotes with
      | false => exact .inr ⟨rfl, rfl⟩
      | true =>
          refine .inl ⟨'"', ?_, by decide⟩
          rw [t.render_eq, hcolumn]
          simp [columnMark, SearchTerm.body, hquotes, quoted]

theorem isExcluding_head {part : Text} (h : isExcluding part = true) :
    part.head? = some 'N' ∧ ' ' ∈ part := by
  unfold isExcluding at h
  obtain ⟨rest, rfl⟩ := List.isPrefixOf_iff_prefix.mp h
  exact ⟨rfl, by simp [notMark]⟩

theorem SearchTerm.isExcluding_render (t : SearchTerm) : isExcluding t.render = false := by
  cases h : isExcluding t.render with
  | false => rfl
  | true =>
      obtain ⟨hhead, hspace⟩ := isExcluding_head h
      rcases head?_render t with ⟨c, hc, hmem⟩ | ⟨hcolumn, hquotes⟩
      · have heq : c = 'N' := Option.some.inj (hc.symm.trans hhead)
        rw [heq] at hmem
        exact absurd hmem (by decide)
      · rcases mem_render_of_bare hcolumn hquotes hspace with hbare | hstar
        · exact absurd hbare (by decide)
        · exact absurd hstar (by decide)

theorem SearchTerm.isParenthesized_render (t : SearchTerm) : isParenthesized t.render = false := by
  cases h : isParenthesized t.render with
  | false => rfl
  | true =>
      have hhead : t.render.head? = some '(' := by simpa [isParenthesized] using h
      rcases head?_render t with ⟨c, hc, hmem⟩ | ⟨hcolumn, hquotes⟩
      · have heq : c = '(' := Option.some.inj (hc.symm.trans hhead)
        rw [heq] at hmem
        exact absurd hmem (by decide)
      · rcases mem_render_of_bare hcolumn hquotes (List.mem_of_head? hhead) with hbare | hstar
        · exact absurd hbare (by decide)
        · exact absurd hstar (by decide)

theorem SearchTerm.render_ne_orPart (t : SearchTerm) : t.render ≠ orPart := by
  intro h
  rcases head?_render t with ⟨c, hc, hmem⟩ | ⟨hcolumn, hquotes⟩
  · have hhead : orPart.head? = some 'O' := rfl
    rw [h] at hc
    have heq : c = 'O' := Option.some.inj (hc.symm.trans hhead)
    rw [heq] at hmem
    exact absurd hmem (by decide)
  · have hneeds := needsQuotes_of_bare hquotes
    cases hstar : t.starred with
    | true =>
        have hmem : '*' ∈ t.render := by simp [t.render_eq, hstar]
        rw [h] at hmem
        exact absurd hmem (by decide)
    | false =>
        have htext : t.text = orPart := by
          rw [← h, t.render_eq]
          simp [hcolumn, hstar, columnMark, body, hquotes]
        rw [htext] at hneeds
        exact absurd hneeds (by decide)

theorem SearchTerm.render_ne_nil (t : SearchTerm) : t.render ≠ [] := by
  have htext := ne_nil_of_isSearchable t.isSearchable_text
  have hbody : t.body ≠ [] := by
    unfold body
    split
    · simp [quoted]
    · exact htext
  rw [t.render_eq]
  simp [hbody]

theorem isPart_term (t : SearchTerm) : IsPart t.render (.term t.toTerm) where
  ne_nil := t.render_ne_nil
  writes := t.writes_render
  isOr := by simp [t.render_ne_orPart, Mark.isOr]
  isExcluding := t.isExcluding_render
  isParenthesized := t.isParenthesized_render
  sound := trivial

theorem writes_notMark : Writes Anything notMark [.operator .not] := by
  have hword : Lexes Stops "NOT".toList [.operator .not] :=
    lexes_word (by decide) (List.all_eq_true.mp rfl)
  have hspace : Lexes Anything [' '] [] := lexes_delimiter (by decide) rfl
  refine ⟨_, hword.append hspace (fun _ _ => stops_cons.mpr (by decide))
    (stops_cons.mpr (by decide)), ⟨by simp [Fresh], by simp, fun rest _ => ?_⟩⟩
  simp only [List.append_nil, List.singleton_append, Symbol.ofLexemes?]
  cases Symbol.ofLexemes? rest <;> rfl

theorem isPart_excluding (t : SearchTerm) :
    IsPart (excluding t.render) (.excluded t.toTerm) where
  ne_nil := by simp [excluding, notMark]
  writes := writes_notMark.after t.writes_render
  isOr := by simp [excluding, notMark, orPart, Mark.isOr]
  isExcluding := by simp [excluding, isExcluding, Mark.isExcluded]
  isParenthesized := by simp [excluding, notMark, isParenthesized, Mark.isGroup]
  sound := trivial

theorem isPart_or : IsPart orPart .or where
  ne_nil := by decide
  writes := by
    have hword : Lexes Stops orPart [.operator .or] :=
    lexes_word (by decide) (List.all_eq_true.mp rfl)
    refine ⟨_, hword, ⟨by simp [Fresh], by simp, fun rest _ => ?_⟩⟩
    simp only [List.singleton_append, Symbol.ofLexemes?]
    cases Symbol.ofLexemes? rest <;> rfl
  isOr := by simp [Mark.isOr]
  isExcluding := by decide
  isParenthesized := by decide
  sound := trivial

theorem isPart_parenthesized {expression : Text} {symbols : List Symbol} {e : Expression}
    (h : Writes Stops expression symbols) (hspells : Spells 1 symbols e) (hterms : e.terms ≠ []) :
    IsPart (parenthesized expression) (.group symbols e) where
  ne_nil := by simp [parenthesized]
  writes := by
    have hopening : Writes Anything ['('] [.opening] := by
      refine ⟨_, lexes_delimiter (by decide) rfl, ⟨by simp [Fresh], by simp, fun rest _ => ?_⟩⟩
      simp only [List.singleton_append, Symbol.ofLexemes?]
      cases Symbol.ofLexemes? rest <;> rfl
    have hclosing : Writes Anything [')'] [.closing] := by
      refine ⟨_, lexes_delimiter (by decide) rfl, ⟨by simp [Fresh], by simp, fun rest _ => ?_⟩⟩
      simp only [List.singleton_append, Symbol.ofLexemes?]
      cases Symbol.ofLexemes? rest <;> rfl
    exact hopening.after (h.stopped hclosing.weaken (stops_cons.mpr (by decide)))
  isOr := by simp [parenthesized, orPart, Mark.isOr]
  isExcluding := rfl
  isParenthesized := rfl
  sound := ⟨hspells, hterms⟩

end MailIndex.Query
