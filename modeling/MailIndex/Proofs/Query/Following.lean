import MailIndex.Proofs.Query.Drafts

/-!
# Drafts that follow an outline

What is written for a group says the same as the outline of the group. For each way in which a
group grows there is one lemma: a required part, an excluded term, an OR, and the end.
-/

namespace MailIndex.Query

open Text Match

structure Mark.Means (m : Mark) (item : Item) : Prop where
  isRequired : m.isRequired = item.isPositive
  terms : m.terms.Perm item.terms
  holds : item.isRegular = true → ∀ truth, m.holds truth = item.holds truth

theorem means_term (t : Term) : (Mark.term t).Means (.required t) :=
  ⟨rfl, .refl _, fun _ _ => rfl⟩

/-- A draft and an outline that agree under every assignment. -/
structure Agrees (d : Draft) (s : Sketch) : Prop where
  finished : ∀ truth,
    (d.finished.any fun items => items.all (·.holds truth)) = anyHolds truth s.finished
  current : ∀ truth,
    (d.current.all (·.holds truth) && d.heldMarks.all (·.holds truth)) = allHold truth s.current
  positive : d.current ≠ [] ↔ s.current.any Item.isPositive = true

/-- A draft that has the terms of an outline, and agrees with it if all that is finished has
something positive. -/
structure Follows (d : Draft) (s : Sketch) : Prop where
  terms : d.terms.Perm s.terms
  finished : d.finished = [] → s.finished = []
  current : d.current = [] → d.held = [] → s.current = []
  agrees : areRegular s.finished = true → allRegular s.current = true → Agrees d s

theorem follows_empty : Follows Draft.empty Sketch.empty where
  terms := .refl _
  finished _ := rfl
  current _ _ := rfl
  agrees _ _ := ⟨fun _ => rfl, fun _ => rfl, by simp [Draft.empty, Sketch.empty]⟩

theorem flatMap_terms_heldMarks (d : Draft) :
    d.heldMarks.flatMap Mark.terms = d.held.map (·.toTerm) := by
  unfold Draft.heldMarks
  induction d.held with
  | nil => rfl
  | cons t held ih => simp [Mark.terms, ih]

theorem Draft.terms_require (d : Draft) (m : Mark) :
    (d.require m).terms.Perm (d.terms ++ m.terms) := by
  have hparts : (d.require m).terms = d.finished.flatten.flatMap Mark.terms
      ++ d.current.flatMap Mark.terms ++ (m.terms ++ d.held.map (·.toTerm)) := by
    simp [Draft.require, Draft.terms, flatMap_terms_heldMarks]
  rw [hparts, Draft.terms, List.append_assoc _ _ m.terms]
  exact List.perm_append_comm.append_left _

theorem Draft.terms_exclude (d : Draft) (t : SearchTerm) :
    (d.exclude t).terms.Perm (d.terms ++ [t.toTerm]) := by
  by_cases hcurrent : d.current = []
  · have hparts : (d.exclude t).terms = d.terms ++ [t.toTerm] := by
      rw [Draft.exclude_of_nil hcurrent]
      simp [Draft.terms]
    rw [hparts]
  · have hparts : (d.exclude t).terms = d.finished.flatten.flatMap Mark.terms
        ++ d.current.flatMap Mark.terms ++ ([t.toTerm] ++ d.held.map (·.toTerm)) := by
      rw [Draft.exclude_of_ne_nil hcurrent]
      simp [Draft.terms, Mark.terms]
    rw [hparts, Draft.terms, List.append_assoc _ _ [t.toTerm]]
    exact List.perm_append_comm.append_left _

theorem Draft.terms_next (d : Draft) : d.next.terms = d.terms := by
  by_cases hcurrent : d.current = []
  · rw [Draft.next_of_nil hcurrent]
  · rw [Draft.next_of_ne_nil hcurrent]
    simp [Draft.terms]

theorem allRegular_add {s : Sketch} {item : Item} (h : allRegular (s.add item).current = true) :
    allRegular s.current = true ∧ item.isRegular = true := by
  simpa [Sketch.add, allRegular_append, allRegular] using h

theorem Follows.require {d : Draft} {s : Sketch} (h : Follows d s) {m : Mark} {item : Item}
    (hm : m.Means item) (hpositive : item.isPositive = true) :
    Follows (d.require m) (s.add item) where
  terms := by
    rw [terms_add]
    exact (d.terms_require m).trans (h.terms.append hm.terms)
  finished := h.finished
  current hnil := by simp [Draft.require] at hnil
  agrees hfinished hcurrent := by
    obtain ⟨hbefore, hitem⟩ := allRegular_add hcurrent
    have hagrees := h.agrees hfinished hbefore
    refine ⟨hagrees.finished, fun truth => ?_, by simp [Draft.require, Sketch.add, hpositive]⟩
    have hsame := hm.holds hitem truth
    have hall := hagrees.current truth
    simp only [Draft.require, Draft.heldMarks, Sketch.add, allHold_append, allHold, ← hall, ← hsame,
      List.all_append, List.all_cons, List.map_nil, List.all_nil, Bool.and_true]
    rw [Bool.and_assoc, Bool.and_comm (m.holds truth)]

theorem Follows.exclude {d : Draft} {s : Sketch} (h : Follows d s) (t : SearchTerm) :
    Follows (d.exclude t) (s.add (.excluded t.toTerm)) := by
  have hterms : (d.exclude t).terms.Perm (s.add (.excluded t.toTerm)).terms := by
    rw [terms_add]
    exact (d.terms_exclude t).trans (h.terms.append_right _)
  by_cases hnil : d.current = []
  · rw [Draft.exclude_of_nil hnil] at hterms ⊢
    refine ⟨hterms, h.finished, fun _ hheld => by simp at hheld, fun hfinished hcurrent => ?_⟩
    have hagrees := h.agrees hfinished (allRegular_add hcurrent).1
    refine ⟨hagrees.finished, fun truth => ?_, ?_⟩
    · have hall := hagrees.current truth
      simp only [Draft.heldMarks] at hall
      simp [Draft.heldMarks, Sketch.add, allHold_append, allHold, ← hall, Item.holds, Mark.holds,
        Bool.and_assoc]
    · rw [hagrees.positive]
      simp [Sketch.add, Item.isPositive]
  · rw [Draft.exclude_of_ne_nil hnil] at hterms ⊢
    refine ⟨hterms, h.finished, fun hempty => by simp at hempty, fun hfinished hcurrent => ?_⟩
    have hagrees := h.agrees hfinished (allRegular_add hcurrent).1
    refine ⟨hagrees.finished, fun truth => ?_, ?_⟩
    · have hall := hagrees.current truth
      simp only [Draft.heldMarks] at hall
      simp only [Draft.heldMarks, Sketch.add, allHold_append, allHold, ← hall, Item.holds,
        Mark.holds, List.all_append, List.all_cons, List.all_nil, Bool.and_true]
      rw [Bool.and_assoc, Bool.and_assoc, Bool.and_comm (!truth t.toTerm)]
    · have hpositive := hagrees.positive.mp hnil
      simp [Sketch.add, hpositive]

theorem Follows.next {d : Draft} {s : Sketch} (h : Follows d s) (hne : d.alternatives ≠ [])
    (hheld : d.current ≠ [] → d.held = []) : Follows d.next s.next := by
  have hterms : d.next.terms.Perm s.next.terms := by
    rw [d.terms_next, terms_next]
    exact h.terms
  by_cases hnil : d.current = []
  · have hfinished : d.finished ≠ [] := by rwa [Draft.alternatives_of_nil hnil] at hne
    rw [Draft.next_of_nil hnil] at hterms ⊢
    refine ⟨hterms, fun hempty => absurd hempty hfinished, fun _ _ => rfl, fun hregular _ => ?_⟩
    -- An alternative without anything positive is not regular, so nothing is to be shown.
    obtain ⟨hbefore, hpositive, hcurrent⟩ := areRegular_concat hregular
    exact absurd hnil ((h.agrees hbefore hcurrent).positive.mpr hpositive)
  · rw [Draft.next_of_ne_nil hnil] at hterms ⊢
    refine ⟨hterms, by simp, fun _ _ => rfl, fun hregular _ => ?_⟩
    obtain ⟨hbefore, hpositive, hcurrent⟩ := areRegular_concat hregular
    have hagrees := h.agrees hbefore hcurrent
    refine ⟨fun truth => ?_, fun truth => ?_, by simp [Sketch.next]⟩
    · have hall := hagrees.current truth
      have hany := hagrees.finished truth
      simp only [Draft.heldMarks, hheld hnil, List.map_nil, List.all_nil, Bool.and_true] at hall
      simp [Sketch.next, anyHolds_append, anyHolds, ← hall, ← hany]
    · simp [Draft.heldMarks, hheld hnil, Sketch.next, allHold]

/-! ## Groups -/

def Shows (g : Group) (s : Sketch) : Prop := ∃ d, Drafts g d ∧ Follows d s

theorem shows_empty : Shows Group.empty Sketch.empty := ⟨_, drafts_empty, follows_empty⟩

theorem Shows.require {g : Group} {s : Sketch} (h : Shows g s) {part : Text} {m : Mark}
    {item : Item} (hpart : IsPart part m) (hm : m.Means item) (hpositive : item.isPositive = true) :
    Shows (g.require part) (s.add item) := by
  obtain ⟨d, hdrafts, hfollows⟩ := h
  have hrequired : m.isRequired = true := hm.isRequired.trans hpositive
  exact ⟨_, hdrafts.require hpart hrequired, hfollows.require hm hpositive⟩

theorem Shows.exclude {g : Group} {s : Sketch} (h : Shows g s) (t : SearchTerm) :
    Shows (g.exclude t.render) (s.add (.excluded t.toTerm)) := by
  obtain ⟨d, hdrafts, hfollows⟩ := h
  exact ⟨_, hdrafts.exclude t, hfollows.exclude t⟩

theorem Shows.openAlternative {g g' : Group} {s : Sketch} (h : Shows g s)
    (hopen : g.openAlternative = .ok g') : Shows g' s.next := by
  obtain ⟨d, hdrafts, hfollows⟩ := h
  have hterm : g.hasTerm = true := by
    unfold Group.openAlternative at hopen
    split at hopen
    · assumption
    · cases hopen
  have hne : d.alternatives ≠ [] := by simpa [hterm] using hdrafts.hasTerm
  exact ⟨_, hdrafts.openAlternative hopen, hfollows.next hne hdrafts.held_eq_nil⟩

theorem Shows.close_none {g : Group} {s : Sketch} (h : Shows g s) (hclose : g.close = .ok none) :
    s.alternatives = [] := by
  obtain ⟨d, hdrafts, hfollows⟩ := h
  obtain ⟨hfinished, hcurrent, hheld⟩ := hdrafts.close_none hclose
  simp [Sketch.alternatives, hfollows.finished hfinished, hfollows.current hcurrent hheld]

theorem Led.terms_ne_nil {items : List Mark} (h : Led items) : items.flatMap Mark.terms ≠ [] := by
  obtain ⟨first, rest, rfl, hrequired⟩ := h.isRequired
  have hfirst := h.isItem first List.mem_cons_self
  cases first with
  | or => cases hrequired
  | excluded t => cases hrequired
  | term t => simp [Mark.terms]
  | group symbols e =>
      have hterms : e.terms ≠ [] := hfirst.2.2
      simp [Mark.terms, hterms]

/-- What a finished group is written as, beside the alternatives of its outline. -/
structure Translates (expression : Text) (symbols : List Symbol) (e : Expression)
    (alternatives : List (List Item)) : Prop where
  writes : Writes Stops expression symbols
  spells : Spells 1 symbols e
  terms_ne_nil : e.terms ≠ []
  terms : e.terms.Perm (alternativesTerms alternatives)
  holds : areRegular alternatives = true → ∀ truth, e.holds truth = anyHolds truth alternatives

theorem Shows.close_some {g : Group} {s : Sketch} (h : Shows g s) {expression : Text}
    (hclose : g.close = .ok (some expression)) :
    s.alternatives = s.finished ++ [s.current] ∧
      ∃ symbols e, Translates expression symbols e s.alternatives := by
  obtain ⟨d, hdrafts, hfollows⟩ := h
  obtain ⟨hcurrent, hheld, symbols, e, hwrites, hoffers⟩ := hdrafts.close_some hclose
  have hled : Led d.current := hdrafts.current.resolve_left hcurrent
  have hterms : e.terms = d.terms := by
    rw [hoffers.terms]
    simp [Draft.terms, hheld]
  have hne : e.terms ≠ [] := by
    rw [hoffers.terms]
    simp only [List.flatten_append, List.flatten_singleton, List.flatMap_append, ne_eq,
      List.append_eq_nil_iff, not_and]
    exact fun _ => hled.terms_ne_nil
  have hkept : s.alternatives = s.finished ++ [s.current] := by
    unfold Sketch.alternatives
    rw [if_neg]
    intro hnone
    have hboth : s.finished = [] ∧ s.current = [] := by simpa using hnone
    have hlost : s.terms = [] := by simp [Sketch.terms, hboth, alternativesTerms, itemsTerms]
    have hperm := hfollows.terms
    rw [hlost, ← hterms] at hperm
    exact hne hperm.eq_nil
  refine ⟨hkept, symbols, e, hwrites, hoffers.spells, hne, ?_, fun hregular truth => ?_⟩
  · rw [terms_alternatives, hterms]
    exact hfollows.terms
  · rw [hkept] at hregular ⊢
    obtain ⟨hbefore, -, hafter⟩ := areRegular_concat hregular
    have hagrees := hfollows.agrees hbefore hafter
    have hall := hagrees.current truth
    have hany := hagrees.finished truth
    simp only [Draft.heldMarks, hheld, List.map_nil, List.all_nil, Bool.and_true] at hall
    rw [hoffers.holds, anyHolds_append, ← hany]
    simp [anyHolds, ← hall]

theorem Shows.addGroup {g : Group} {s inner : Sketch} (h : Shows g s) {expression : Text}
    {symbols : List Symbol} {e : Expression}
    (htranslates : Translates expression symbols e inner.alternatives)
    (hkept : inner.alternatives = inner.finished ++ [inner.current]) :
    Shows (g.require (parenthesized expression)) (s.addGroup inner) := by
  have hadd : s.addGroup inner = s.add (.group inner.alternatives) := by
    unfold Sketch.addGroup
    rw [hkept]
    simp
  have hmeans : (Mark.group symbols e).Means (.group inner.alternatives) :=
    ⟨rfl, htranslates.terms, htranslates.holds⟩
  rw [hadd]
  exact h.require (isPart_parenthesized htranslates.writes htranslates.spells
    htranslates.terms_ne_nil) hmeans rfl

end MailIndex.Query
