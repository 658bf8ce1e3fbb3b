import MailIndex.Proofs.Match.Acceptance
import MailIndex.Proofs.Query.Joining
import MailIndex.Proofs.Query.Disjunction
import MailIndex.Proofs.Query.Scanning

/-!
# Searches of terms alone

Words and phrases one after the other become their terms in juxtaposition, and an excluded term at
the end is taken from them. Nothing can be refused in such a search, and the index accepts its
expression unless there is a null character in it.
-/

namespace MailIndex.Query

open Text Match

/-! ## What a token adds -/

/-- A token that requires a term wherever it is read. -/
def Token.Requires (token : Token) (t : SearchTerm) : Prop :=
  ∀ r : Reading, r.step token = .ok (r.update (·.require t.render))

def Token.Excludes (token : Token) (t : SearchTerm) : Prop :=
  ∀ r : Reading, r.step token = .ok (r.update (·.exclude t.render))

/-- A token that leaves a search as it is. -/
def Token.AddsNothing (token : Token) : Prop := ∀ r : Reading, r.step token = .ok (r.update id)

theorem requires_word {value : Text} {t : SearchTerm} (h : SearchTerm.ofWord? none value = some t) :
    (Token.word value).Requires t := by
  intro r
  simp [Reading.step, h]

theorem requires_phrase {value : Text} {t : SearchTerm} (h : SearchTerm.ofPhrase? value = some t) :
    (Token.phrase value).Requires t := by
  intro r
  simp [Reading.step, h]

theorem excludes_exclusion {value : Text} {t : SearchTerm}
    (h : SearchTerm.ofWord? none value = some t) : (Token.exclusion value).Excludes t := by
  intro r
  simp [Reading.step, h]

theorem addsNothing_word {value : Text} (h : SearchTerm.ofWord? none value = none) :
    (Token.word value).AddsNothing := by
  intro r
  simp [Reading.step, h, Reading.update]

theorem addsNothing_phrase {value : Text} (h : SearchTerm.ofPhrase? value = none) :
    (Token.phrase value).AddsNothing := by
  intro r
  simp [Reading.step, h, Reading.update]

theorem step_filter {field : Field} {column : Column} {value : Text}
    (h : contribution field value false = .ok (inColumn column value false)) :
    match SearchTerm.ofWord? (some column) value with
    | some t => (Token.filter field value false).Requires t
    | none => (Token.filter field value false).AddsNothing := by
  split
  · rename_i t ht
    intro r
    show (contribution field value false >>= r.contribute) = _
    rw [h, inColumn, ht]
    rfl
  · rename_i ht
    intro r
    show (contribution field value false >>= r.contribute) = _
    rw [h, inColumn, ht]
    rfl

/-! ## Reading -/

/-- A reading outside all parentheses with nothing held back and nothing waiting. -/
def Reading.ofParts (parts : List Text) : Reading := ⟨⟨parts, [], true, false⟩, [], [], false⟩

theorem update_require_initial (part : Text) :
    Reading.initial.update (·.require part) = .ofParts [part] := rfl

theorem update_require_ofParts (parts : List Text) (part : Text) :
    (Reading.ofParts parts).update (·.require part) = .ofParts (parts ++ [part]) := by
  simp [Reading.ofParts, Reading.update, Group.require]

theorem update_exclude_ofParts (parts : List Text) (part : Text) :
    (Reading.ofParts parts).update (·.exclude part) = .ofParts (parts ++ [excluding part]) := by
  simp [Reading.ofParts, Reading.update, Group.exclude]

theorem finish_ofParts (parts : List Text) :
    (Reading.ofParts parts).finish = .ok ⟨joinParts parts, []⟩ := rfl

theorem run_requires {tokens : List Token} {terms : List SearchTerm}
    (h : List.Forall₂ Token.Requires tokens terms) (parts : List Text) :
    tokens.foldlM Reading.step (.ofParts parts) =
      .ok (.ofParts (parts ++ terms.map SearchTerm.render)) := by
  induction h generalizing parts with
  | nil => simp [pure, Except.pure]
  | @cons token t tokens terms htoken _ ih =>
      have hrest := ih (parts ++ [t.render])
      rw [List.append_assoc, List.singleton_append] at hrest
      rw [List.foldlM_cons, htoken, update_require_ofParts]
      exact hrest

theorem run_initial {tokens : List Token} {terms : List SearchTerm}
    (h : List.Forall₂ Token.Requires tokens terms) (hne : terms ≠ []) :
    tokens.foldlM Reading.step .initial = .ok (.ofParts (terms.map SearchTerm.render)) := by
  cases h with
  | nil => exact absurd rfl hne
  | @cons token t tokens terms htoken hrest =>
      rw [List.foldlM_cons, htoken, update_require_initial]
      exact run_requires hrest [t.render]

def juxtaposed (terms : List SearchTerm) : Text := joinParts (terms.map SearchTerm.render)

/-- The expression of terms in juxtaposition with one term taken from them. -/
def lessened (terms : List SearchTerm) (t : SearchTerm) : Text :=
  joinParts (terms.map SearchTerm.render ++ [excluding t.render])

theorem ofTokens?_requires {tokens : List Token} {terms : List SearchTerm}
    (h : List.Forall₂ Token.Requires tokens terms) (hne : terms ≠ []) :
    ofTokens? tokens = .ok ⟨juxtaposed terms, []⟩ := by
  unfold ofTokens?
  rw [run_initial h hne]
  exact finish_ofParts _

theorem ofTokens?_excludes {tokens : List Token} {terms : List SearchTerm} {token : Token}
    {t : SearchTerm} (h : List.Forall₂ Token.Requires tokens terms) (hne : terms ≠ [])
    (htoken : token.Excludes t) :
    ofTokens? (tokens ++ [token]) = .ok ⟨lessened terms t, []⟩ := by
  unfold ofTokens?
  rw [List.foldlM_append, run_initial h hne]
  show ([token].foldlM Reading.step _ >>= Reading.finish) = _
  rw [List.foldlM_cons, htoken, update_exclude_ofParts]
  exact finish_ofParts _

theorem ofTokens?_addsNothing {token : Token} (h : token.AddsNothing) :
    ofTokens? [token] = .ok everything := by
  unfold ofTokens?
  rw [List.foldlM_cons, h]
  rfl

/-! ## The shape of such a search -/

theorem checkShape_of_not_isMark {tokens : List Token}
    (h : ∀ token ∈ tokens, token.isMark = false) : checkShape tokens = .ok () := by
  have hor : .or ∉ tokens := fun hmem => absurd (h _ hmem) (by decide)
  have hdouble : hasDoubleOr tokens = false := by
    clear h
    induction tokens with
    | nil => rfl
    | cons token tokens ih =>
        obtain ⟨hne, hrest⟩ : Token.or ≠ token ∧ Token.or ∉ tokens := by simpa using hor
        cases token with
        | or => exact absurd rfl hne
        | _ => simpa only [hasDoubleOr] using ih hrest
  have hbalance : checkBalance 0 tokens = .ok () := by
    clear hor hdouble
    induction tokens with
    | nil => rfl
    | cons token tokens ih =>
        obtain ⟨htoken, htokens⟩ := List.forall_mem_cons.mp h
        rw [checkBalance_of_not_isMark htoken, ih htokens]
  unfold checkShape
  rw [if_neg (fun hhead => hor (List.mem_of_head? hhead)),
    if_neg (fun hlast => hor (List.mem_of_getLast? hlast)), if_neg (by simp [hdouble]), hbalance]

theorem parse_of_tokenize {search : Text} {tokens : List Token} (h : tokenize search = .ok tokens)
    (hne : tokens ≠ []) (hmark : ∀ token ∈ tokens, token.isMark = false) :
    parse search = ofTokens? tokens := by
  have htrim : ¬(trim search).isEmpty = true := by
    intro hempty
    rw [tokenize, List.isEmpty_iff.mp hempty, scan] at h
    cases h
    exact hne rfl
  unfold parse
  rw [if_neg htrim, h]
  show (checkShape tokens >>= fun _ => ofTokens? tokens) = _
  rw [checkShape_of_not_isMark hmark]
  rfl

/-! ## What the index makes of the expression -/

theorem mem_doubled {c : Char} {text : Text} : c ∈ doubled text ↔ c ∈ text := by
  unfold doubled
  rw [List.mem_flatMap]
  constructor
  · rintro ⟨d, hd, hc⟩
    split at hc <;> simp_all
  · intro hc
    refine ⟨c, hc, ?_⟩
    split <;> simp_all

theorem null_mem_render (t : SearchTerm) : '\x00' ∈ t.render ↔ '\x00' ∈ t.text := by
  have hmark : '\x00' ∉ columnMark t.column := by
    cases t.column with
    | none => simp [columnMark]
    | some column => cases column <;> decide
  have hstar : '\x00' ∉ (if t.starred then ['*'] else []) := by cases t.starred <;> simp
  have hbody : '\x00' ∈ t.body ↔ '\x00' ∈ t.text := by
    unfold SearchTerm.body
    split
    · simp [quoted_eq, mem_doubled]
    · rfl
  simp [t.render_eq, hmark, hstar, hbody]

theorem null_not_mem_joint (before part : Text) : '\x00' ∉ joint before part := by
  unfold joint
  split <;> decide

theorem null_mem_joinAfter {before : Text} {parts : List Text} :
    '\x00' ∈ joinAfter before parts ↔ ∃ part ∈ parts, '\x00' ∈ part := by
  induction parts generalizing before with
  | nil => simp [joinAfter]
  | cons part parts ih => simp [joinAfter, null_not_mem_joint, ih]

theorem null_mem_joinParts {parts : List Text} :
    '\x00' ∈ joinParts parts ↔ ∃ part ∈ parts, '\x00' ∈ part := by
  cases parts with
  | nil => simp [joinParts]
  | cons part parts => simp [joinParts, null_mem_joinAfter]

theorem null_mem_juxtaposed {terms : List SearchTerm} :
    '\x00' ∈ juxtaposed terms ↔ ∃ t ∈ terms, '\x00' ∈ t.text := by
  simp [juxtaposed, null_mem_joinParts, null_mem_render]

theorem null_mem_lessened {terms : List SearchTerm} {t : SearchTerm} :
    '\x00' ∈ lessened terms t ↔ (∃ s ∈ terms, '\x00' ∈ s.text) ∨ '\x00' ∈ t.text := by
  have hmark : '\x00' ∉ notMark := by decide
  simp [lessened, null_mem_joinParts, null_mem_render, excluding, hmark, or_comm]

theorem symbolsAfter_terms {rest : List Mark} {symbols : List Symbol}
    (h : ∀ t : Term, Mark.symbolsAfter (.term t) rest = symbols) (before : Term)
    (terms : List Term) :
    Mark.symbolsAfter (.term before) (terms.map .term ++ rest) = terms.map .term ++ symbols := by
  induction terms generalizing before with
  | nil => exact h before
  | cons t terms ih =>
      rw [List.map_cons, List.cons_append, Mark.symbolsAfter, Mark.joint_terms, ih t]
      rfl

theorem allSymbols_terms {rest : List Mark} {symbols : List Symbol}
    (h : ∀ t : Term, Mark.symbolsAfter (.term t) rest = symbols) {terms : List Term}
    (hne : terms ≠ []) :
    Mark.allSymbols (terms.map .term ++ rest) = terms.map .term ++ symbols := by
  obtain ⟨t, terms, rfl⟩ := List.exists_cons_of_ne_nil hne
  rw [List.map_cons, List.cons_append, Mark.allSymbols, symbolsAfter_terms h]
  rfl

theorem isPart_terms (terms : List SearchTerm) :
    List.Forall₂ IsPart (terms.map SearchTerm.render) ((terms.map (·.toTerm)).map .term) := by
  induction terms with
  | nil => exact .nil
  | cons t terms ih => exact .cons (isPart_term t) ih

theorem writes_juxtaposed {terms : List SearchTerm} (hne : terms ≠ []) :
    Writes Stops (juxtaposed terms) ((terms.map (·.toTerm)).map .term) := by
  have hwrites := writes_joinParts (isPart_terms terms)
  have hsymbols : Mark.allSymbols ((terms.map (·.toTerm)).map .term ++ []) =
      (terms.map (·.toTerm)).map .term ++ [] :=
    allSymbols_terms (fun _ => rfl) (by simpa using hne)
  rw [List.append_nil, List.append_nil] at hsymbols
  rw [hsymbols] at hwrites
  exact hwrites

theorem writes_lessened {terms : List SearchTerm} (hne : terms ≠ []) (t : SearchTerm) :
    Writes Stops (lessened terms t)
      ((terms.map (·.toTerm)).map .term ++ [.operator .not, .term t.toTerm]) := by
  have hwrites := writes_joinParts
    (List.rel_append (isPart_terms terms) (.cons (isPart_excluding t) .nil))
  have hafter : ∀ before : Term, Mark.symbolsAfter (.term before) [.excluded t.toTerm] =
      [.operator .not, .term t.toTerm] := by
    intro before
    rw [Mark.symbolsAfter, Mark.joint_excluded]
    rfl
  rw [allSymbols_terms hafter (by simpa using hne)] at hwrites
  exact hwrites

theorem accepted?_juxtaposed {terms : List SearchTerm} (hne : terms ≠ [])
    (hnull : ∀ t ∈ terms, '\x00' ∉ t.text) :
    Expression.accepted? (juxtaposed terms) = some (.run (terms.map (·.toTerm))) := by
  refine (writes_juxtaposed hne).accepted?_run (by simpa using hne) ?_
  rw [null_mem_juxtaposed]
  simpa using hnull

theorem accepted?_juxtaposed_of_null {terms : List SearchTerm} (hne : terms ≠ []) {t : SearchTerm}
    (ht : t ∈ terms) (hnull : '\x00' ∈ t.text) : Expression.accepted? (juxtaposed terms) = none :=
  (writes_juxtaposed hne).accepted?_of_mem (null_mem_juxtaposed.mpr ⟨t, ht, hnull⟩)

theorem accepted?_lessened {terms : List SearchTerm} (hne : terms ≠ []) {t : SearchTerm}
    (hnull : ∀ s ∈ terms, '\x00' ∉ s.text) (ht : '\x00' ∉ t.text) :
    Expression.accepted? (lessened terms t) =
      some (.without (.run (terms.map (·.toTerm))) (.run [t.toTerm])) := by
  refine (writes_lessened hne t).accepted?_without (by simpa using hne) ?_
  rw [null_mem_lessened]
  rintro (⟨s, hs, hmem⟩ | hmem)
  · exact hnull s hs hmem
  · exact ht hmem

end MailIndex.Query
