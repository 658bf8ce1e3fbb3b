import MailIndex.Proofs.Query.Parts
import Mathlib.Data.List.Forall2

/-!
# Joined parts

The parts of a group put together are a written form of its symbols, and the symbols between two
ORs spell the conjunction of the parts there. A part after an excluded term or beside a group
begins a new operand of an AND; terms side by side stay one operand.
-/

namespace MailIndex.Query

open Text Match

/-! ## Joints -/

theorem stops_joint (before part : Text) : Stops (joint before part) := by
  unfold joint
  split
  · exact stops_cons.mpr (by decide)
  · exact stops_cons.mpr (by decide)

theorem lexes_space : Lexes Anything [' '] [] := lexes_delimiter (by decide) rfl

theorem writes_space : Writes Anything [' '] [] := ⟨[], lexes_space, .nil⟩

theorem writes_and : Writes Anything " AND ".toList [.operator .and] := by
  have hword : Lexes Stops "AND".toList [.operator .and] :=
    lexes_word (by decide) (List.all_eq_true.mp rfl)
  have hright := hword.append lexes_space (fun _ _ => stops_cons.mpr (by decide))
    (stops_cons.mpr (by decide))
  refine ⟨_, lexes_space.append hright (fun _ _ => trivial) trivial,
    ⟨by simp [Fresh], by simp, fun rest _ => ?_⟩⟩
  simp only [List.nil_append, List.append_nil, List.singleton_append, Symbol.ofLexemes?]
  cases Symbol.ofLexemes? rest <;> rfl

/-- What stands between two texts is what has to stand between the parts that they are. -/
theorem writes_joint {before part : Text} {m m' : Mark} (hbefore : IsPart before m)
    (hpart : IsPart part m') : Writes Anything (joint before part) (Mark.joint m m') := by
  have hiff : (part ≠ orPart ∧ before ≠ orPart ∧ !isExcluding part
        ∧ (isParenthesized part || isParenthesized before || isExcluding before)) ↔
      (!m'.isOr && !m.isOr && !m'.isExcluded
        && (m'.isGroup || m.isGroup || m.isExcluded)) = true := by
    rw [hpart.isExcluding, hpart.isParenthesized, hbefore.isExcluding, hbefore.isParenthesized,
      Ne, hpart.isOr, Ne, hbefore.isOr]
    simp [and_assoc]
  unfold joint Mark.joint
  by_cases h : (!m'.isOr && !m.isOr && !m'.isExcluded
      && (m'.isGroup || m.isGroup || m.isExcluded)) = true
  · rw [if_pos (hiff.mpr h), if_pos h]
    exact writes_and
  · rw [if_neg (fun hall => h (hiff.mp hall)), if_neg h]
    exact writes_space

theorem stops_joinAfter (before : Text) (parts : List Text) : Stops (joinAfter before parts) := by
  cases parts with
  | nil => exact stops_nil
  | cons part rest =>
      unfold joinAfter
      rw [List.append_assoc]
      have hne : joint before part ≠ [] := by
        unfold joint
        split <;> simp
      obtain ⟨c, more, heq⟩ := List.exists_cons_of_ne_nil hne
      have hstops := stops_joint before part
      rw [heq] at hstops ⊢
      exact stops_cons.mpr (stops_cons.mp hstops)

theorem writes_joinAfter {before : Text} {m : Mark} {parts : List Text} {marks : List Mark}
    (hbefore : IsPart before m) (h : List.Forall₂ IsPart parts marks) :
    Writes Stops (joinAfter before parts) (Mark.symbolsAfter m marks) := by
  induction h generalizing before m with
  | nil => exact .nil _
  | cons hpart _ ih =>
      unfold joinAfter Mark.symbolsAfter
      rw [List.append_assoc, List.append_assoc]
      exact (writes_joint hbefore hpart).after
        (hpart.writes.stopped (ih hpart) (stops_joinAfter _ _))

theorem writes_joinParts {parts : List Text} {marks : List Mark}
    (h : List.Forall₂ IsPart parts marks) :
    Writes Stops (joinParts parts) (Mark.allSymbols marks) := by
  cases h with
  | nil => exact .nil _
  | cons hpart hrest =>
      exact hpart.writes.stopped (writes_joinAfter hpart hrest) (stops_joinAfter _ _)

/-! ## Conjunctions -/

namespace Mark

theorem joint_excluded (before : Mark) (t : Term) : joint before (.excluded t) = [] := by
  simp [joint, isExcluded]

theorem joint_group {before : Mark} (h : before.isOr = false) (symbols : List Symbol)
    (e : Expression) : joint before (.group symbols e) = [.operator .and] := by
  have hor : (group symbols e).isOr = false := rfl
  simp [joint, h, hor, isExcluded, isGroup]

theorem joint_terms (t t' : Term) : joint (.term t) (.term t') = [] := rfl

theorem joint_excluded_term (t t' : Term) : joint (.excluded t) (.term t') = [.operator .and] := rfl

theorem joint_group_term (symbols : List Symbol) (e : Expression) (t : Term) :
    joint (.group symbols e) (.term t) = [.operator .and] := rfl

theorem joint_or_left (m : Mark) : joint .or m = [] := by simp [joint, isOr]

theorem joint_or_right (m : Mark) : joint m .or = [] := by simp [joint, isOr]

end Mark

theorem holds_run {terms : List Term} (h : terms ≠ []) (truth : Term → Bool) :
    (Expression.run terms).holds truth = terms.all truth := by
  cases terms with
  | nil => exact absurd rfl h
  | cons t terms => simp [Expression.holds, Expression.eval]

theorem holds_without (a b : Expression) (truth : Term → Bool) :
    (Expression.without a b).holds truth = (a.holds truth && !b.holds truth) := rfl

theorem holds_both (a b : Expression) (truth : Term → Bool) :
    (Expression.both a b).holds truth = (a.holds truth && b.holds truth) := rfl

theorem holds_either (a b : Expression) (truth : Term → Bool) :
    (Expression.either a b).holds truth = (a.holds truth || b.holds truth) := rfl

structure Conjoins (level : Nat) (symbols : List Symbol) (e : Expression) (marks : List Mark) :
    Prop where
  spells : Spells level symbols e
  holds : ∀ truth, e.holds truth = marks.all (·.holds truth)
  terms : e.terms = marks.flatMap Mark.terms

/-- Symbols that go before an operand and conjoin some parts with it. -/
structure Leads (symbols : List Symbol) (wrap : Expression → Expression) (marks : List Mark) :
    Prop where
  spells : ∀ {s e}, Spells 3 s e → Spells 2 (symbols ++ s) (wrap e)
  holds : ∀ truth e, (wrap e).holds truth = (marks.all (·.holds truth) && e.holds truth)
  terms : ∀ e, (wrap e).terms = marks.flatMap Mark.terms ++ e.terms

theorem Leads.nil : Leads [] id [] where
  spells h := h.looser (by decide)
  holds _ _ := rfl
  terms _ := rfl

theorem Leads.and {front symbols : List Symbol} {wrap : Expression → Expression} {e : Expression}
    {before marks : List Mark} (hfront : Leads front wrap before)
    (h : Conjoins 3 symbols e marks) :
    Leads (front ++ symbols ++ [.operator .and]) (.both (wrap e)) (before ++ marks) where
  spells hs := by
    have hspells := Spells.operator .and (hfront.spells h.spells) hs
    simpa [Operator.strength, Operator.combine] using hspells
  holds truth e' := by
    rw [holds_both, hfront.holds, h.holds]
    simp [Bool.and_assoc]
  terms e' := by
    simp [Expression.terms, hfront.terms, h.terms]

theorem Leads.close {front symbols : List Symbol} {wrap : Expression → Expression} {e : Expression}
    {before marks : List Mark} (hfront : Leads front wrap before)
    (h : Conjoins 3 symbols e marks) :
    Conjoins 2 (front ++ symbols) (wrap e) (before ++ marks) where
  spells := hfront.spells h.spells
  holds truth := by
    rw [hfront.holds, h.holds]
    simp
  terms := by simp [hfront.terms, h.terms]

theorem conjoins_terms {terms : List Term} (h : terms ≠ []) :
    Conjoins 3 (terms.map .term) (.run terms) (terms.map .term) where
  spells := (Spells.run h).looser (by decide)
  holds truth := by
    rw [holds_run h]
    simp [Mark.holds, Function.comp_def]
  terms := by simp [Expression.terms, Mark.terms, List.flatMap_map]

theorem conjoins_group {symbols : List Symbol} {e : Expression} (h : Spells 1 symbols e) :
    Conjoins 3 (Mark.group symbols e).symbols e [.group symbols e] where
  spells := h.parenthesized.looser (by decide)
  holds truth := by simp [Mark.holds]
  terms := by simp [Mark.terms]

theorem Conjoins.exclude {symbols : List Symbol} {e : Expression} {marks : List Mark}
    (h : Conjoins 3 symbols e marks) (t : Term) :
    Conjoins 3 (symbols ++ (Mark.excluded t).symbols) (.without e (.run [t]))
      (marks ++ [.excluded t]) where
  spells := Spells.operator .not h.spells (Spells.run (List.cons_ne_nil t []))
  holds truth := by
    rw [holds_without, h.holds, holds_run (by simp)]
    simp [Mark.holds]
  terms := by simp [Expression.terms, h.terms, Mark.terms]

def IsItem (m : Mark) : Prop := m.isOr = false ∧ m.Sound

/-- An operand that is open at its end: after a term it is a run, to which more may be added. -/
def OpenAt (left : Mark) (symbols : List Symbol) (e : Expression) (marks : List Mark) : Prop :=
  ∀ t, left = .term t → ∃ terms, terms ≠ [] ∧ symbols = terms.map .term ∧ e = .run terms ∧
    marks = terms.map .term

theorem openAt_excluded (t : Term) (symbols : List Symbol) (e : Expression) (marks : List Mark) :
    OpenAt (.excluded t) symbols e marks := by
  rintro _ ⟨⟩

theorem openAt_group (inner : List Symbol) (g : Expression) (symbols : List Symbol)
    (e : Expression) (marks : List Mark) : OpenAt (.group inner g) symbols e marks := by
  rintro _ ⟨⟩

theorem openAt_terms (t : Term) {terms : List Term} (h : terms ≠ []) :
    OpenAt (.term t) (terms.map .term) (.run terms) (terms.map .term) :=
  fun _ _ => ⟨terms, h, rfl, rfl, rfl⟩

/-- The parts after `left` complete the conjunction that has been begun. The induction is on these
parts; what stands before the open operand is kept as something that leads up to it. -/
theorem exists_conjoins_after {rest : List Mark} (hrest : ∀ m ∈ rest, IsItem m)
    {front symbols : List Symbol} {wrap : Expression → Expression} {e : Expression}
    {before marks : List Mark} {left : Mark} (hfront : Leads front wrap before)
    (h : Conjoins 3 symbols e marks) (hopen : OpenAt left symbols e marks)
    (hleft : left.isOr = false) :
    ∃ e', Conjoins 2 (front ++ symbols ++ Mark.symbolsAfter left rest) e'
      (before ++ marks ++ rest) := by
  induction rest generalizing front symbols wrap e before marks left with
  | nil =>
      refine ⟨wrap e, ?_⟩
      simpa [Mark.symbolsAfter] using hfront.close h
  | cons m rest ih =>
      have hm := hrest m List.mem_cons_self
      have hmore : ∀ m ∈ rest, IsItem m := fun x hx => hrest x (List.mem_cons_of_mem _ hx)
      cases m with
      | or => exact absurd hm.1 (by decide)
      | excluded t =>
          have hnext := ih hmore hfront (h.exclude t) (openAt_excluded t _ _ _) rfl
          simpa [Mark.symbolsAfter, Mark.joint_excluded] using hnext
      | group inner g =>
          have hnext := ih hmore (hfront.and h) (conjoins_group hm.2.1)
            (openAt_group inner g _ _ _) rfl
          simpa [Mark.symbolsAfter, Mark.joint_group hleft] using hnext
      | term t =>
          -- A term joins the run of the term before it; after anything else stands an AND.
          cases left with
          | or => cases hleft
          | term t' =>
              obtain ⟨terms, hne, rfl, rfl, rfl⟩ := hopen t' rfl
              have hrun : terms ++ [t] ≠ [] := by simp
              have hnext := ih hmore hfront (conjoins_terms hrun) (openAt_terms t hrun) rfl
              simpa [Mark.symbolsAfter, Mark.joint_terms, Mark.symbols] using hnext
          | excluded t' =>
              have hrun : [t] ≠ [] := by simp
              have hnext := ih hmore (hfront.and h) (conjoins_terms hrun) (openAt_terms t hrun) rfl
              simpa [Mark.symbolsAfter, Mark.joint_excluded_term, Mark.symbols] using hnext
          | group inner g =>
              have hrun : [t] ≠ [] := by simp
              have hnext := ih hmore (hfront.and h) (conjoins_terms hrun) (openAt_terms t hrun) rfl
              simpa [Mark.symbolsAfter, Mark.joint_group_term, Mark.symbols] using hnext

structure Led (items : List Mark) : Prop where
  isItem : ∀ m ∈ items, IsItem m
  isRequired : ∃ first rest, items = first :: rest ∧ first.isRequired = true

theorem Led.ne_nil {items : List Mark} (h : Led items) : items ≠ [] := by
  obtain ⟨first, rest, rfl, -⟩ := h.isRequired
  simp

theorem Led.append {items more : List Mark} (h : Led items) (hmore : ∀ m ∈ more, IsItem m) :
    Led (items ++ more) := by
  obtain ⟨first, rest, rfl, hrequired⟩ := h.isRequired
  refine ⟨fun m hm => ?_, first, rest ++ more, rfl, hrequired⟩
  rcases List.mem_append.mp hm with hm | hm
  · exact h.isItem m hm
  · exact hmore m hm

theorem Led.exists_conjoins {items : List Mark} (h : Led items) :
    ∃ e, Conjoins 2 (Mark.allSymbols items) e items := by
  obtain ⟨first, rest, rfl, hrequired⟩ := h.isRequired
  have hfirst := h.isItem first List.mem_cons_self
  have hrest : ∀ m ∈ rest, IsItem m := fun m hm => h.isItem m (List.mem_cons_of_mem _ hm)
  cases first with
  | or => cases hrequired
  | excluded t => cases hrequired
  | term t =>
      have hrun : [t] ≠ [] := by simp
      simpa [Mark.allSymbols, Mark.symbols] using exists_conjoins_after hrest Leads.nil
        (conjoins_terms hrun) (openAt_terms t hrun) rfl
  | group inner g =>
      simpa [Mark.allSymbols, Mark.symbols] using exists_conjoins_after hrest Leads.nil
        (conjoins_group hfirst.2.1) (openAt_group inner g _ _ _) rfl

/-! ## Alternatives -/

def flattened : List (List Mark) → List Mark
  | [] => []
  | [items] => items
  | items :: more => items ++ .or :: flattened more

theorem symbolsAfter_or (before : Mark) (left right : List Mark) :
    Mark.symbolsAfter before (left ++ .or :: right) =
      Mark.symbolsAfter before left ++ .operator .or :: Mark.allSymbols right := by
  induction left generalizing before with
  | nil =>
      cases right <;>
        simp [Mark.symbolsAfter, Mark.joint_or_left, Mark.joint_or_right, Mark.symbols,
          Mark.allSymbols]
  | cons m left ih => simp [Mark.symbolsAfter, ih m]

theorem allSymbols_or {left : List Mark} (h : left ≠ []) (right : List Mark) :
    Mark.allSymbols (left ++ .or :: right) =
      Mark.allSymbols left ++ .operator .or :: Mark.allSymbols right := by
  obtain ⟨m, left, rfl⟩ := List.exists_cons_of_ne_nil h
  simp [Mark.allSymbols, symbolsAfter_or]

/-- Symbols that spell the disjunction of some alternatives. -/
structure Offers (symbols : List Symbol) (e : Expression) (alternatives : List (List Mark)) :
    Prop where
  spells : Spells 1 symbols e
  holds : ∀ truth, e.holds truth = alternatives.any fun items => items.all (·.holds truth)
  terms : e.terms = alternatives.flatten.flatMap Mark.terms

theorem Conjoins.offers {symbols : List Symbol} {e : Expression} {items : List Mark}
    (h : Conjoins 2 symbols e items) : Offers symbols e [items] where
  spells := h.spells.looser (by decide)
  holds truth := by simp [h.holds]
  terms := by simp [h.terms]

theorem Offers.or {left right : List Symbol} {a b : Expression} {alternatives : List (List Mark)}
    {items : List Mark} (ha : Offers left a alternatives) (hb : Conjoins 2 right b items) :
    Offers (left ++ .operator .or :: right) (.either a b) (alternatives ++ [items]) where
  spells := Spells.operator .or ha.spells hb.spells
  holds truth := by
    rw [holds_either, ha.holds, hb.holds]
    simp
  terms := by simp [Expression.terms, ha.terms, hb.terms]

theorem exists_offers_more {more : List (List Mark)} (hmore : ∀ items ∈ more, Led items)
    {symbols : List Symbol} {e : Expression} {before : List (List Mark)}
    (h : Offers symbols e before) (hne : more ≠ []) :
    ∃ e', Offers (symbols ++ .operator .or :: Mark.allSymbols (flattened more)) e'
      (before ++ more) := by
  induction more generalizing symbols e before with
  | nil => exact absurd rfl hne
  | cons items more ih =>
      obtain ⟨a, ha⟩ := (hmore items List.mem_cons_self).exists_conjoins
      have hor := h.or ha
      cases more with
      | nil => exact ⟨_, hor⟩
      | cons next more =>
          have hled := hmore items List.mem_cons_self
          obtain ⟨e', he'⟩ := ih (fun x hx => hmore x (List.mem_cons_of_mem _ hx)) hor (by simp)
          refine ⟨e', ?_⟩
          have hflat : flattened (items :: next :: more) =
              items ++ .or :: flattened (next :: more) := rfl
          rw [hflat, allSymbols_or hled.ne_nil]
          simpa using he'

/-- The parts of alternatives that each begin with a required item spell their disjunction. -/
theorem exists_offers {alternatives : List (List Mark)} (hne : alternatives ≠ [])
    (h : ∀ items ∈ alternatives, Led items) :
    ∃ e, Offers (Mark.allSymbols (flattened alternatives)) e alternatives := by
  obtain ⟨items, more, rfl⟩ := List.exists_cons_of_ne_nil hne
  have hled := h items List.mem_cons_self
  obtain ⟨a, ha⟩ := hled.exists_conjoins
  cases more with
  | nil => exact ⟨a, ha.offers⟩
  | cons next more =>
      have hflat : flattened (items :: next :: more) =
          items ++ .or :: flattened (next :: more) := rfl
      rw [hflat, allSymbols_or hled.ne_nil]
      exact exists_offers_more (fun x hx => h x (List.mem_cons_of_mem _ hx)) ha.offers (by simp)

end MailIndex.Query
