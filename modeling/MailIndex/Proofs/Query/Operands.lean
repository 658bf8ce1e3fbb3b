import MailIndex.Proofs.Query.Translation

/-!
# Operands of an OR

A group does not keep its alternatives apart. It remembers only whether anything positive has come,
and whether anything positive has come since the last OR. An outline has the alternatives
themselves, and the two agree at every token. So a search is accepted only if in each of its groups
the first and the last alternative have something positive, whatever stands between them.
-/

namespace MailIndex.Query

open Text Match

/-- Whether an alternative requires something. -/
def isLed (items : List Item) : Bool := items.any Item.isPositive

/-- Whether the ORs of a group have something positive before the first and after the last. -/
def areFlanked (alternatives : List (List Item)) : Bool :=
  alternatives.length ≤ 1 ||
    (alternatives.head?.all isLed && alternatives.getLast?.all isLed)

mutual

def Item.groupsHave (p : List (List Item) → Bool) : Item → Bool
  | .group alternatives => p alternatives && alternativesHave p alternatives
  | _ => true

def alternativesHave (p : List (List Item) → Bool) : List (List Item) → Bool
  | [] => true
  | items :: rest => itemsHave p items && alternativesHave p rest

def itemsHave (p : List (List Item) → Bool) : List Item → Bool
  | [] => true
  | item :: rest => item.groupsHave p && itemsHave p rest

end

/-- A group and all that are in it have a property. -/
def groupsHave (p : List (List Item) → Bool) (alternatives : List (List Item)) : Bool :=
  p alternatives && alternativesHave p alternatives

theorem areFlanked_concat (first : List Item) (rest : List (List Item)) (last : List Item) :
    areFlanked (first :: (rest ++ [last])) = (isLed first && isLed last) := by
  have hlast : (first :: (rest ++ [last])).getLast? = some last := by
    rw [← List.cons_append]
    exact List.getLast?_concat
  unfold areFlanked
  rw [hlast]
  simp

theorem itemsHave_append (p : List (List Item) → Bool) (a b : List Item) :
    itemsHave p (a ++ b) = (itemsHave p a && itemsHave p b) := by
  induction a with
  | nil => simp [itemsHave]
  | cons item a ih => simp [itemsHave, ih, Bool.and_assoc]

theorem alternativesHave_append (p : List (List Item) → Bool) (a b : List (List Item)) :
    alternativesHave p (a ++ b) = (alternativesHave p a && alternativesHave p b) := by
  induction a with
  | nil => simp [alternativesHave]
  | cons items a ih => simp [alternativesHave, ih, Bool.and_assoc]

/-! ## Sound sketches -/

namespace Sketch

/-- Whether anything positive has been taken up. -/
def isLed (s : Sketch) : Bool := s.finished.any Query.isLed || Query.isLed s.current

/-- Whether nothing positive has been taken up since the last OR. -/
def waits (s : Sketch) : Bool := !s.finished.isEmpty && !Query.isLed s.current

/-- Nothing is wrong so far: the first OR came after something positive, and all inner groups are
flanked. -/
structure Sound (s : Sketch) : Prop where
  first : s.finished.head?.all Query.isLed = true
  finished : alternativesHave areFlanked s.finished = true
  current : itemsHave areFlanked s.current = true

variable {s : Sketch}

theorem sound_empty : empty.Sound := ⟨rfl, rfl, rfl⟩

theorem sound_add {item : Item} :
    (s.add item).Sound ↔ s.Sound ∧ item.groupsHave areFlanked = true := by
  constructor
  · rintro ⟨hfirst, hfinished, hcurrent⟩
    have hboth : itemsHave areFlanked s.current = true ∧ item.groupsHave areFlanked = true := by
      simpa [add, itemsHave_append, itemsHave] using hcurrent
    exact ⟨⟨hfirst, hfinished, hboth.1⟩, hboth.2⟩
  · rintro ⟨⟨hfirst, hfinished, hcurrent⟩, hitem⟩
    exact ⟨hfirst, hfinished, by simp [add, itemsHave_append, itemsHave, hcurrent, hitem]⟩

theorem sound_next :
    s.next.Sound ↔ s.Sound ∧ (s.finished = [] → Query.isLed s.current = true) := by
  have hinside : alternativesHave areFlanked s.next.finished =
      (alternativesHave areFlanked s.finished && itemsHave areFlanked s.current) := by
    simp [next, alternativesHave_append, alternativesHave]
  constructor
  · rintro ⟨hfirst, hfinished, -⟩
    rw [hinside, Bool.and_eq_true] at hfinished
    cases hnil : s.finished with
    | nil =>
        have hled : Query.isLed s.current = true := by simpa [next, hnil] using hfirst
        exact ⟨⟨by simp [hnil], hfinished.1, hfinished.2⟩, fun _ => hled⟩
    | cons items rest =>
        have hsame : s.finished.head?.all Query.isLed = true := by
          simpa [next, hnil] using hfirst
        exact ⟨⟨hsame, hfinished.1, hfinished.2⟩, fun h => by cases h⟩
  · rintro ⟨⟨hfirst, hfinished, hcurrent⟩, hled⟩
    refine ⟨?_, by rw [hinside, hfinished, hcurrent]; rfl, rfl⟩
    cases hnil : s.finished with
    | nil => simpa [next, hnil] using hled hnil
    | cons items rest => simpa [next, hnil] using hfirst

/-- A finished group is flanked, and so is every group in it, if nothing is wrong with its sketch
and no OR waits in it. -/
theorem groupsHave_alternatives :
    groupsHave areFlanked s.alternatives = true ↔ s.Sound ∧ s.waits = false := by
  unfold groupsHave
  by_cases hnone : (s.finished.isEmpty && s.current.isEmpty) = true
  · have hboth : s.finished = [] ∧ s.current = [] := by simpa using hnone
    have hsound : s.Sound := ⟨by simp [hboth], by simp [hboth, alternativesHave],
      by simp [hboth, itemsHave]⟩
    simp [alternatives, hboth, areFlanked, alternativesHave, hsound, waits]
  · have hkept : s.alternatives = s.finished ++ [s.current] := if_neg hnone
    have hinside : alternativesHave areFlanked s.alternatives =
        (alternativesHave areFlanked s.finished && itemsHave areFlanked s.current) := by
      simp [hkept, alternativesHave_append, alternativesHave]
    have hends : areFlanked s.alternatives =
        (s.finished.head?.all Query.isLed && !s.waits) := by
      rw [hkept]
      cases hfinished : s.finished with
      | nil => simp [areFlanked, waits, hfinished]
      | cons items rest => simp [areFlanked_concat, waits, hfinished]
    rw [hinside, hends]
    simp only [Bool.and_eq_true, Bool.not_eq_true']
    constructor
    · rintro ⟨⟨hfirst, hwaits⟩, hfinished, hcurrent⟩
      exact ⟨⟨hfirst, hfinished, hcurrent⟩, hwaits⟩
    · rintro ⟨⟨hfirst, hfinished, hcurrent⟩, hwaits⟩
      exact ⟨⟨hfirst, hwaits⟩, hfinished, hcurrent⟩

theorem sound_addGroup {inner : Sketch} :
    (s.addGroup inner).Sound ↔ s.Sound ∧ inner.Sound ∧ inner.waits = false := by
  rw [← groupsHave_alternatives]
  unfold addGroup
  by_cases hnil : inner.alternatives = []
  · simp [hnil, groupsHave, areFlanked, alternativesHave]
  · have hkept : inner.alternatives.isEmpty = false := by simpa using hnil
    rw [hkept, if_neg (by decide), sound_add]
    rfl

end Sketch

/-! ## What a group remembers -/

/-- A group remembers of its outline whether there is anything positive in it, and whether an OR
waits. -/
structure Minds (g : Group) (s : Sketch) : Prop where
  hasTerm : g.hasTerm = s.isLed
  awaiting : g.awaiting = s.waits
  sound : s.Sound

theorem minds_empty : Minds Group.empty Sketch.empty := ⟨rfl, rfl, Sketch.sound_empty⟩

theorem Minds.require {g : Group} {s : Sketch} (h : Minds g s) (part : Text) {item : Item}
    (hpositive : item.isPositive = true) (hitem : item.groupsHave areFlanked = true) :
    Minds (g.require part) (s.add item) := by
  have hled : isLed (s.current ++ [item]) = true := by simp [isLed, hpositive]
  refine ⟨?_, ?_, Sketch.sound_add.mpr ⟨h.sound, hitem⟩⟩
  · simp [Group.require, Sketch.isLed, Sketch.add, hled]
  · simp [Group.require, Sketch.waits, Sketch.add, hled]

theorem Minds.exclude {g : Group} {s : Sketch} (h : Minds g s) (part : Text) (t : Term) :
    Minds (g.exclude part) (s.add (.excluded t)) := by
  have hsame : isLed (s.current ++ [.excluded t]) = isLed s.current := by
    simp [isLed, Item.isPositive]
  have hterm : (g.exclude part).hasTerm = g.hasTerm := by
    unfold Group.exclude
    split <;> rfl
  have hawaiting : (g.exclude part).awaiting = g.awaiting := by
    unfold Group.exclude
    split <;> rfl
  refine ⟨?_, ?_, Sketch.sound_add.mpr ⟨h.sound, rfl⟩⟩
  · rw [hterm, h.hasTerm]
    simp [Sketch.isLed, Sketch.add, hsame]
  · rw [hawaiting, h.awaiting]
    simp [Sketch.waits, Sketch.add, hsame]

theorem Minds.openAlternative {g g' : Group} {s : Sketch} (h : Minds g s)
    (hopen : g.openAlternative = .ok g') : Minds g' s.next := by
  unfold Group.openAlternative at hopen
  cases hterm : g.hasTerm with
  | false => simp [hterm] at hopen
  | true =>
      simp only [hterm, if_true, Except.ok.injEq] at hopen
      subst hopen
      have hled : s.isLed = true := by rw [← h.hasTerm, hterm]
      refine ⟨?_, ?_, Sketch.sound_next.mpr ⟨h.sound, fun hnil => ?_⟩⟩
      · have hsame : s.next.isLed = s.isLed := by simp [Sketch.isLed, Sketch.next, isLed]
        exact hled.symm.trans hsame.symm
      · simp [Sketch.waits, Sketch.next, isLed]
      · simpa [Sketch.isLed, hnil] using hled

theorem Minds.waits_of_close {g : Group} {s : Sketch} (h : Minds g s) {result : Option Text}
    (hclose : g.close = .ok result) : s.waits = false := by
  rw [← h.awaiting]
  unfold Group.close at hclose
  cases hawaiting : g.awaiting with
  | true => simp [hawaiting] at hclose
  | false => rfl

/-- An OR that waits makes a group without an end, and so does nothing else that an OR can do. -/
theorem Minds.waits_of_orNeedsTerms {g : Group} {s : Sketch} (h : Minds g s)
    (hclose : g.close = .error .orNeedsTerms) : s.waits = true := by
  rw [← h.awaiting]
  unfold Group.close at hclose
  cases hawaiting : g.awaiting with
  | true => rfl
  | false =>
      simp only [hawaiting, Bool.false_eq_true, if_false] at hclose
      split at hclose
      · cases hclose
      · split at hclose <;> cases hclose

theorem Minds.addGroup {g inner : Group} {s sketch : Sketch} (h : Minds g s)
    (hinner : Minds inner sketch) {expression : Text}
    (hclose : inner.close = .ok (some expression)) (hkept : sketch.alternatives ≠ []) :
    Minds (g.require (parenthesized expression)) (s.addGroup sketch) := by
  have hadd : s.addGroup sketch = s.add (.group sketch.alternatives) := by
    simp [Sketch.addGroup, hkept]
  have hflanked : groupsHave areFlanked sketch.alternatives = true :=
    Sketch.groupsHave_alternatives.mpr ⟨hinner.sound, hinner.waits_of_close hclose⟩
  rw [hadd]
  exact h.require _ rfl hflanked

/-! ## Readings -/

/-- Every open group remembers what its sketch holds, and no structured filter stands right of an
OR that waits. -/
structure Watches (r : Reading) (o : Outlining) : Prop extends Tracks r o where
  mindsInner : Minds r.inner o.inner
  mindsOuter : List.Forall₂ Minds r.outer o.outer
  single : r.inner.awaiting = true → r.afterPredicate = false

theorem watches_initial : Watches Reading.initial Outlining.start :=
  ⟨tracks_initial, minds_empty, .nil, fun _ => rfl⟩

theorem Takes.single {r r' : Reading} {token : Token} (h : Takes r token r') :
    r'.inner.awaiting = true → r'.afterPredicate = false := by
  cases h with
  | structured hstructured hitem hpredicate hawaiting =>
      intro hwaits
      rw [hawaiting] at hwaits
      cases hwaits
  | _ => exact fun _ => rfl

theorem Watches.minds_step {r r' : Reading} {o o' : Outlining} (h : Watches r o) {token : Token}
    (hstep : r.step token = .ok r') (ho : o.step token = some o') :
    Minds r'.inner o'.inner ∧ List.Forall₂ Minds r'.outer o'.outer := by
  obtain ⟨inner, sketches⟩ := o
  obtain ⟨⟨hshows, hall⟩, hinner, houterMinds, -⟩ := h
  cases takes_of_step hstep with
  | opening =>
      cases ho
      exact ⟨minds_empty, .cons hinner houterMinds⟩
  | vanishing houter hclose =>
      rw [houter] at houterMinds
      cases houterMinds with
      | @cons _ sketch _ rest hparent hrest =>
          cases ho
          have hnone : sketch.addGroup inner = sketch := by
            simp [Sketch.addGroup, hshows.close_none hclose]
          dsimp only
          rw [hnone]
          exact ⟨hparent, hrest⟩
  | closing houter hclose =>
      rw [houter] at houterMinds
      cases houterMinds with
      | @cons _ sketch _ rest hparent hrest =>
          cases ho
          have hkept : inner.alternatives ≠ [] := by
            rw [(hshows.close_some hclose).1]
            simp
          exact ⟨hparent.addGroup hinner hclose hkept, hrest⟩
  | required t hitem =>
      rw [Outlining.step_of_item? _ hitem] at ho
      cases ho
      exact ⟨hinner.require _ rfl rfl, houterMinds⟩
  | excluded t hitem =>
      rw [Outlining.step_of_item? _ hitem] at ho
      cases ho
      exact ⟨hinner.exclude _ _, houterMinds⟩
  | dropped hmark hitem hstructured =>
      rw [Outlining.step_of_silent _ hmark hitem] at ho
      cases ho
      exact ⟨hinner, houterMinds⟩
  | structured hstructured hitem hpredicate hawaiting =>
      rw [Outlining.step_of_silent _ (Token.isMark_of_isStructured hstructured) hitem] at ho
      cases ho
      exact ⟨hinner, houterMinds⟩
  | or hafter hopen =>
      cases ho
      exact ⟨hinner.openAlternative hopen, houterMinds⟩

theorem Watches.step {r r' : Reading} {o : Outlining} (h : Watches r o) {token : Token}
    (hstep : r.step token = .ok r') : ∃ o', o.step token = some o' ∧ Watches r' o' := by
  obtain ⟨o', ho, htracks, -⟩ := h.toTracks.step hstep
  obtain ⟨hinner, houter⟩ := h.minds_step hstep ho
  have hsingle := (takes_of_step hstep).single
  exact ⟨o', ho, { htracks with mindsInner := hinner, mindsOuter := houter, single := hsingle }⟩

theorem Watches.run {tokens : List Token} {r r' : Reading} {o : Outlining} (h : Watches r o)
    (hrun : tokens.foldlM Reading.step r = .ok r') :
    ∃ o', tokens.foldlM Outlining.step o = some o' ∧ Watches r' o' := by
  induction tokens generalizing r o with
  | nil =>
      cases hrun
      exact ⟨o, rfl, h⟩
  | cons token tokens ih =>
      obtain ⟨next, hstep, hrest⟩ := exists_taken hrun
      obtain ⟨middle, hmiddle, hwatches⟩ := h.step hstep
      obtain ⟨o', ho', hwatches'⟩ := ih hwatches hrest
      exact ⟨o', by simp [hmiddle, ho'], hwatches'⟩

end MailIndex.Query
