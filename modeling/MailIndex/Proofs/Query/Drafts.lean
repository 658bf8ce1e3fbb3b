import MailIndex.Proofs.Query.Joining
import MailIndex.Proofs.Query.Meaning
import Mathlib.Data.List.Perm.Basic

/-!
# Groups under construction, and what they mean

A group is filled with texts while its outline is filled with items. Between the two stands a
draft: the alternatives as parts whose kinds are known. The texts of a group are those of its
draft, and the draft says the same as the outline wherever every alternative has something
positive in it. Terms are never lost, whether or not that is so.
-/

namespace MailIndex.Query

open Text Match

/-! ## Alternatives and the ORs between them -/

theorem flattened_concat {alternatives : List (List Mark)} (h : alternatives ≠ [])
    (items : List Mark) :
    flattened (alternatives ++ [items]) = flattened alternatives ++ .or :: items := by
  induction alternatives with
  | nil => exact absurd rfl h
  | cons first rest ih =>
      cases rest with
      | nil => rfl
      | cons second rest =>
          have hrec := ih (by simp)
          simp [flattened] at hrec ⊢
          exact hrec

theorem flattened_append_last (alternatives : List (List Mark)) (items more : List Mark) :
    flattened (alternatives ++ [items ++ more]) = flattened (alternatives ++ [items]) ++ more := by
  cases alternatives with
  | nil => rfl
  | cons first rest =>
      rw [flattened_concat (by simp), flattened_concat (by simp)]
      simp

/-! ## Drafts -/

structure Draft where
  /-- The alternatives before the last OR that has been written. -/
  finished : List (List Mark)
  /-- The parts after it; none if an OR waits or nothing has been written. -/
  current : List Mark
  held : List SearchTerm

namespace Draft

def empty : Draft := ⟨[], [], []⟩

def alternatives (d : Draft) : List (List Mark) :=
  d.finished ++ if d.current.isEmpty then [] else [d.current]

def heldMarks (d : Draft) : List Mark := d.held.map fun t => .excluded t.toTerm

def require (d : Draft) (m : Mark) : Draft := ⟨d.finished, d.current ++ m :: d.heldMarks, []⟩

def exclude (d : Draft) (t : SearchTerm) : Draft :=
  if d.current.isEmpty then { d with held := d.held ++ [t] }
  else { d with current := d.current ++ [.excluded t.toTerm] }

/-- Begins the next alternative; a second OR in a row changes nothing. -/
def next (d : Draft) : Draft := if d.current.isEmpty then d else ⟨d.alternatives, [], d.held⟩

def terms (d : Draft) : List Term :=
  d.finished.flatten.flatMap Mark.terms ++ d.current.flatMap Mark.terms ++ d.held.map (·.toTerm)

theorem exclude_of_nil {d : Draft} (h : d.current = []) (t : SearchTerm) :
    d.exclude t = { d with held := d.held ++ [t] } := by
  simp [exclude, h]

theorem exclude_of_ne_nil {d : Draft} (h : d.current ≠ []) (t : SearchTerm) :
    d.exclude t = { d with current := d.current ++ [.excluded t.toTerm] } := by
  simp [exclude, h]

theorem next_of_nil {d : Draft} (h : d.current = []) : d.next = d := by
  simp [next, h]

theorem next_of_ne_nil {d : Draft} (h : d.current ≠ []) :
    d.next = ⟨d.finished ++ [d.current], [], d.held⟩ := by
  simp [next, alternatives, h]

theorem alternatives_of_nil {d : Draft} (h : d.current = []) : d.alternatives = d.finished := by
  simp [alternatives, h]

theorem alternatives_of_ne_nil {d : Draft} (h : d.current ≠ []) :
    d.alternatives = d.finished ++ [d.current] := by
  simp [alternatives, h]

/-- A required part comes after an OR, if one waits for it. -/
theorem flattened_require (d : Draft) (m : Mark) :
    flattened (d.require m).alternatives = flattened d.alternatives
      ++ (if !d.finished.isEmpty && d.current.isEmpty then [Mark.or] else [])
      ++ m :: d.heldMarks := by
  have hnew : (d.require m).alternatives = d.finished ++ [d.current ++ m :: d.heldMarks] :=
    alternatives_of_ne_nil (by simp [require])
  rw [hnew]
  by_cases hcurrent : d.current = []
  · rw [alternatives_of_nil hcurrent, hcurrent, List.nil_append]
    by_cases hfinished : d.finished = []
    · simp [hfinished, flattened]
    · rw [flattened_concat hfinished]
      simp [hfinished]
  · rw [flattened_append_last, alternatives_of_ne_nil hcurrent]
    simp [hcurrent]

end Draft

/-- A group is written as a draft says. -/
structure Drafts (g : Group) (d : Draft) : Prop where
  parts : List.Forall₂ IsPart g.parts (flattened d.alternatives)
  held : g.held = d.held.map (·.render)
  hasTerm : g.hasTerm = !d.alternatives.isEmpty
  awaiting : g.awaiting = (!d.finished.isEmpty && d.current.isEmpty)
  finished : ∀ items ∈ d.finished, Led items
  current : d.current = [] ∨ Led d.current
  held_eq_nil : d.current ≠ [] → d.held = []

theorem drafts_empty : Drafts Group.empty Draft.empty where
  parts := .nil
  held := rfl
  hasTerm := rfl
  awaiting := rfl
  finished _ h := by cases h
  current := .inl rfl
  held_eq_nil h := absurd rfl h

theorem forall₂_held (held : List SearchTerm) :
    List.Forall₂ IsPart ((held.map (·.render)).map excluding)
      (held.map fun t => .excluded t.toTerm) := by
  induction held with
  | nil => exact .nil
  | cons t held ih => exact .cons (isPart_excluding t) ih

theorem isItem_heldMarks (d : Draft) : ∀ m ∈ d.heldMarks, IsItem m := by
  intro m hm
  obtain ⟨t, -, rfl⟩ := List.mem_map.mp hm
  exact ⟨rfl, trivial⟩

theorem Drafts.require {g : Group} {d : Draft} (h : Drafts g d) {part : Text} {m : Mark}
    (hpart : IsPart part m) (hrequired : m.isRequired = true) :
    Drafts (g.require part) (d.require m) := by
  have hitem : IsItem m := by
    refine ⟨?_, hpart.sound⟩
    cases m with
    | or => cases hrequired
    | _ => rfl
  have hadded : List.Forall₂ IsPart (part :: g.held.map excluding) (m :: d.heldMarks) := by
    rw [h.held]
    exact .cons hpart (forall₂_held d.held)
  have hmore : ∀ m' ∈ m :: d.heldMarks, IsItem m' := by
    intro m' hm'
    rcases List.mem_cons.mp hm' with rfl | hm'
    · exact hitem
    · exact isItem_heldMarks d m' hm'
  refine ⟨?_, rfl, ?_, ?_, h.finished, .inr ?_, fun _ => rfl⟩
  · rw [d.flattened_require m, ← h.awaiting]
    refine List.rel_append (List.rel_append h.parts ?_) hadded
    cases g.awaiting with
    | true => exact .cons isPart_or .nil
    | false => exact .nil
  · simp [Group.require, Draft.require, Draft.alternatives]
  · simp [Group.require, Draft.require]
  · rcases h.current with hnil | hled
    · exact ⟨by simpa [Draft.require, hnil] using hmore, m, d.heldMarks,
        by simp [Draft.require, hnil], hrequired⟩
    · exact hled.append hmore

theorem Drafts.exclude {g : Group} {d : Draft} (h : Drafts g d) (t : SearchTerm) :
    Drafts (g.exclude t.render) (d.exclude t) := by
  by_cases hcurrent : d.current = []
  · have hheld : (g.hasTerm && !g.awaiting) = false := by
      rw [h.hasTerm, h.awaiting]
      cases hfinished : d.finished <;> simp [Draft.alternatives, hfinished, hcurrent]
    have hgroup : g.exclude t.render = { g with held := g.held ++ [t.render] } := by
      simp [Group.exclude, hheld]
    rw [hgroup, Draft.exclude_of_nil hcurrent]
    exact ⟨h.parts, by simp [h.held], h.hasTerm, h.awaiting, h.finished, h.current,
      fun hne => absurd hcurrent hne⟩
  · have hpresent : (g.hasTerm && !g.awaiting) = true := by
      rw [h.hasTerm, h.awaiting]
      simp [Draft.alternatives, hcurrent]
    have hgroup : g.exclude t.render = { g with parts := g.parts ++ [excluding t.render] } := by
      simp [Group.exclude, hpresent]
    have hdraft := Draft.exclude_of_ne_nil hcurrent t
    have hflat : flattened (d.exclude t).alternatives =
        flattened d.alternatives ++ [.excluded t.toTerm] := by
      rw [hdraft]
      simp [Draft.alternatives, hcurrent, flattened_append_last]
    have hled := h.current.resolve_left hcurrent
    rw [hgroup]
    refine ⟨?_, ?_, ?_, ?_, ?_, .inr ?_, ?_⟩
    · rw [hflat]
      exact List.rel_append h.parts (.cons (isPart_excluding t) .nil)
    all_goals rw [hdraft]
    · exact h.held
    · rw [h.hasTerm]
      cases hfinished : d.finished <;> simp [Draft.alternatives, hcurrent, hfinished]
    · have hfull : d.current.isEmpty = false := by simpa using hcurrent
      rw [h.awaiting, hfull]
      cases d.current <;> simp
    · exact h.finished
    · refine hled.append fun m hm => ?_
      rw [List.mem_singleton.mp hm]
      exact ⟨rfl, trivial⟩
    · exact fun _ => h.held_eq_nil hcurrent

theorem Drafts.openAlternative {g g' : Group} {d : Draft} (h : Drafts g d)
    (hopen : g.openAlternative = .ok g') : Drafts g' d.next := by
  unfold Group.openAlternative at hopen
  cases hterm : g.hasTerm with
  | false => simp [hterm] at hopen
  | true =>
      simp only [hterm, if_true, Except.ok.injEq] at hopen
      subst hopen
      have hne : d.alternatives ≠ [] := by simpa [hterm] using h.hasTerm
      by_cases hcurrent : d.current = []
      · -- The OR before has not been written yet, and this one comes to the same.
        have hfinished : d.finished ≠ [] := by rwa [Draft.alternatives_of_nil hcurrent] at hne
        rw [Draft.next_of_nil hcurrent]
        exact ⟨h.parts, h.held, by simp [hne], by simp [hcurrent, hfinished], h.finished, h.current,
          h.held_eq_nil⟩
      · have hboth := Draft.alternatives_of_ne_nil hcurrent
        have hsame : d.next.alternatives = d.alternatives := by
          rw [Draft.next_of_ne_nil hcurrent, Draft.alternatives_of_nil rfl, hboth]
        rw [← hsame] at hne
        have hparts := h.parts
        rw [← hsame] at hparts
        rw [Draft.next_of_ne_nil hcurrent] at hparts hne ⊢
        refine ⟨hparts, h.held, by simp [hne], by simp, fun items hitems => ?_, .inl rfl,
          fun hnil => absurd rfl hnil⟩
        rcases List.mem_append.mp hitems with hitems | hitems
        · exact h.finished items hitems
        · rw [List.mem_singleton.mp hitems]
          exact h.current.resolve_left hcurrent

theorem Drafts.close_none {g : Group} {d : Draft} (h : Drafts g d) (hclose : g.close = .ok none) :
    d.finished = [] ∧ d.current = [] ∧ d.held = [] := by
  unfold Group.close at hclose
  have hheld := h.held
  have hterm := h.hasTerm
  cases hawaiting : g.awaiting <;> cases hg : g.held <;> cases ht : g.hasTerm <;>
    simp [hawaiting, hg, ht] at hclose
  rw [hg] at hheld
  rw [ht] at hterm
  have hnone : d.held = [] := by simpa using hheld.symm
  have hboth : d.finished = [] ∧ d.current = [] := by simpa [Draft.alternatives] using hterm
  exact ⟨hboth.1, hboth.2, hnone⟩

theorem Drafts.close_some {g : Group} {d : Draft} (h : Drafts g d) {expression : Text}
    (hclose : g.close = .ok (some expression)) :
    d.current ≠ [] ∧ d.held = [] ∧ ∃ symbols e, Writes Stops expression symbols ∧
      Offers symbols e (d.finished ++ [d.current]) := by
  unfold Group.close at hclose
  have hawaiting := h.awaiting
  have hheld := h.held
  have hterm := h.hasTerm
  cases ha : g.awaiting <;> cases hg : g.held <;> cases ht : g.hasTerm <;>
    simp [ha, hg, ht] at hclose
  rw [ha] at hawaiting
  rw [hg] at hheld
  rw [ht] at hterm
  have hcurrent : d.current ≠ [] := by
    intro hnil
    cases hfinished : d.finished <;> simp [Draft.alternatives, hnil, hfinished] at hawaiting hterm
  have halternatives := Draft.alternatives_of_ne_nil hcurrent
  refine ⟨hcurrent, by simpa using hheld.symm, ?_⟩
  have hparts := h.parts
  rw [halternatives] at hparts
  have hled : ∀ items ∈ d.finished ++ [d.current], Led items := by
    intro items hitems
    rcases List.mem_append.mp hitems with hitems | hitems
    · exact h.finished items hitems
    · rw [List.mem_singleton.mp hitems]
      exact h.current.resolve_left hcurrent
  obtain ⟨e, he⟩ := exists_offers (by simp) hled
  refine ⟨_, e, ?_, he⟩
  rw [← hclose]
  exact writes_joinParts hparts

end MailIndex.Query
