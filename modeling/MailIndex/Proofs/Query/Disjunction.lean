import MailIndex.Proofs.Query.Operands

/-!
# What an OR joins

A search is refused if one of its groups has nothing positive before its first OR or after its last
one. Between two ORs it is not: the second of them finds the first one waiting and leaves the group
as it was, so what has been excluded between them goes over to the next alternative. An accepted
search therefore means what its tokens mean without such ORs.
-/

namespace MailIndex.Query

open Text Match

/-! ## Parentheses -/

theorem Token.count_cons (mark token : Token) (tokens : List Token) :
    (token :: tokens).count mark = [token].count mark + tokens.count mark := by
  rw [← List.count_append, List.singleton_append]

theorem Token.count_of_ne {mark token : Token} (h : token ≠ mark) : [token].count mark = 0 :=
  List.count_eq_zero.mpr fun hmem => h (List.mem_singleton.mp hmem).symm

theorem checkBalance_of_not_isMark {token : Token} (h : token.isMark = false) (depth : Nat)
    (tokens : List Token) : checkBalance depth (token :: tokens) = checkBalance depth tokens := by
  cases token with
  | opening => cases h
  | closing => cases h
  | or => cases h
  | _ => simp only [checkBalance]

theorem outlining_of_checkBalance {depth : Nat} {tokens : List Token}
    (h : checkBalance depth tokens = .ok ()) {o : Outlining} (houter : o.outer.length = depth) :
    ∃ o', tokens.foldlM Outlining.step o = some o' ∧ o'.outer = [] := by
  induction tokens generalizing depth o with
  | nil =>
      cases depth with
      | zero => exact ⟨o, rfl, List.length_eq_zero_iff.mp houter⟩
      | succ depth => cases h
  | cons token tokens ih =>
      obtain ⟨inner, outer⟩ := o
      by_cases hmark : token.isMark = false
      · rw [List.foldlM_cons, Outlining.step_of_not_isMark _ hmark]
        rw [checkBalance_of_not_isMark hmark] at h
        exact ih h (o := ⟨inner.take token.item?, outer⟩) houter
      · cases token with
        | opening =>
            have hrest : checkBalance (depth + 1) tokens = .ok () := by
              simpa only [checkBalance] using h
            have hdeeper : (inner :: outer).length = depth + 1 := by simpa using houter
            exact ih hrest (o := ⟨.empty, inner :: outer⟩) hdeeper
        | closing =>
            subst houter
            cases outer with
            | nil => cases h
            | cons parent outer => exact ih h (o := ⟨parent.addGroup inner, outer⟩) rfl
        | or =>
            have hrest : checkBalance depth tokens = .ok () := by simpa only [checkBalance] using h
            exact ih hrest (o := ⟨inner.next, outer⟩) houter
        | _ => exact absurd rfl hmark

theorem outline?_of_checkShape {tokens : List Token} (h : checkShape tokens = .ok ()) :
    ∃ o, tokens.foldlM Outlining.step .start = some o ∧ o.outer = [] ∧
      outline? tokens = some o.inner.alternatives := by
  have hbalance : checkBalance 0 tokens = .ok () := by
    unfold checkShape at h
    split at h
    · cases h
    · split at h
      · cases h
      · split at h
        · cases h
        · exact h
  obtain ⟨o, ho, houter⟩ := outlining_of_checkBalance hbalance (o := .start) rfl
  exact ⟨o, ho, houter, by simp [outline?, ho, houter]⟩

/-! ## Sound outlines -/

/-- Nothing is wrong with the groups that are open. -/
structure Outlining.Sound (o : Outlining) : Prop where
  inner : o.inner.Sound
  outer : ∀ s ∈ o.outer, s.Sound

theorem Outlining.sound_of_step {o o' : Outlining} {token : Token} (h : o.step token = some o')
    (hsound : o'.Sound) : o.Sound := by
  obtain ⟨inner, outer⟩ := o
  obtain ⟨hinner, houter⟩ := hsound
  by_cases hmark : token.isMark = false
  · rw [step_of_not_isMark _ hmark] at h
    cases h
    refine ⟨?_, houter⟩
    cases hitem : token.item? with
    | none => simpa [hitem, Sketch.take] using hinner
    | some item =>
        have hadded : (inner.add item).Sound := by simpa [hitem, Sketch.take] using hinner
        exact (Sketch.sound_add.mp hadded).1
  · cases token with
    | opening =>
        cases h
        exact ⟨houter inner List.mem_cons_self, fun s hs => houter s (List.mem_cons_of_mem _ hs)⟩
    | closing =>
        cases outer with
        | nil => cases h
        | cons parent outer =>
            cases h
            obtain ⟨hparent, hclosed, -⟩ := Sketch.sound_addGroup.mp hinner
            exact ⟨hclosed, List.forall_mem_cons.mpr ⟨hparent, houter⟩⟩
    | or =>
        cases h
        exact ⟨(Sketch.sound_next.mp hinner).1, houter⟩
    | _ => exact absurd rfl hmark

theorem Outlining.sound_of_run {tokens : List Token} {o o' : Outlining}
    (h : tokens.foldlM Outlining.step o = some o') (hsound : o'.Sound) : o.Sound := by
  induction tokens generalizing o with
  | nil =>
      cases h
      exact hsound
  | cons token tokens ih =>
      rw [List.foldlM_cons] at h
      cases hstep : o.step token with
      | none =>
          rw [hstep] at h
          cases h
      | some next =>
          rw [hstep] at h
          exact sound_of_step hstep (ih h)

/-- A token is refused for want of a term only where something goes wrong. -/
theorem Watches.not_sound {r : Reading} {o o' : Outlining} (h : Watches r o) {token : Token}
    (hrefused : Refuses r token .orNeedsTerms) (ho : o.step token = some o') : ¬ o'.Sound := by
  obtain ⟨inner, outer⟩ := o
  intro hsound
  cases hrefused with
  | unfinished houter hclose =>
      have hwaits : inner.waits = true := h.mindsInner.waits_of_orNeedsTerms hclose
      cases outer with
      | nil => cases ho
      | cons parent outer =>
          cases ho
          obtain ⟨-, -, hfinished⟩ := Sketch.sound_addGroup.mp hsound.inner
          rw [hwaits] at hfinished
          cases hfinished
  | missing hterm =>
      cases ho
      obtain ⟨hinner, hfirst⟩ := Sketch.sound_next.mp hsound.inner
      have hnone : inner.isLed = false := by rw [← h.mindsInner.hasTerm, hterm]
      have hled : inner.finished.any isLed = false ∧ isLed inner.current = false := by
        simpa [Sketch.isLed] using hnone
      cases hfinished : inner.finished with
      | nil =>
          rw [hfirst hfinished] at hled
          cases hled.2
      | cons items rest =>
          have hhead : isLed items = true := by simpa [hfinished] using hinner.first
          simp [hfinished, hhead] at hled
  | value hvalue => cases hvalue

/-- Accepted groups have something positive before their first OR and after their last one. -/
theorem flanked_of_accepted {tokens : List Token} {q : Query} (h : ofTokens? tokens = .ok q)
    {o : Outlining} (ho : tokens.foldlM Outlining.step .start = some o) :
    groupsHave areFlanked o.inner.alternatives = true := by
  obtain ⟨r, hrun, -, result, hclose, -⟩ := exists_read h
  obtain ⟨last, hlast, hwatches⟩ := watches_initial.run hrun
  rw [ho] at hlast
  cases hlast
  have hminds := hwatches.mindsInner
  exact Sketch.groupsHave_alternatives.mpr ⟨hminds.sound, hminds.waits_of_close hclose⟩

theorem not_flanked_of_orNeedsTerms {tokens : List Token}
    (h : ofTokens? tokens = .error .orNeedsTerms) {o : Outlining}
    (ho : tokens.foldlM Outlining.step .start = some o) (houter : o.outer = []) :
    groupsHave areFlanked o.inner.alternatives = false := by
  have hnot : ¬ (o.inner.Sound ∧ o.inner.waits = false) := by
    rintro ⟨hsound, hwaits⟩
    have hopen : o.Sound := ⟨hsound, by simp [houter]⟩
    rcases exists_rejected h with ⟨before, token, after, r, htokens, hbefore, hrefused⟩ |
      ⟨r, hrun, ⟨-, hreason⟩ | ⟨-, hclose⟩⟩
    · obtain ⟨middle, hmiddle, hwatches⟩ := watches_initial.run hbefore
      rw [htokens, List.foldlM_append, hmiddle] at ho
      cases hstep : middle.step token with
      | none => simp [hstep] at ho
      | some next =>
          have hafter : after.foldlM Outlining.step next = some o := by simpa [hstep] using ho
          exact hwatches.not_sound hrefused hstep (Outlining.sound_of_run hafter hopen)
    · cases hreason
    · obtain ⟨last, hlast, hwatches⟩ := watches_initial.run hrun
      rw [ho] at hlast
      cases hlast
      rw [hwatches.mindsInner.waits_of_orNeedsTerms hclose] at hwaits
      cases hwaits
  cases hflanked : groupsHave areFlanked o.inner.alternatives with
  | false => rfl
  | true => exact absurd (Sketch.groupsHave_alternatives.mp hflanked) hnot

/-! ## ORs that wait already -/

/-- Whether a token is an OR that comes while another one waits. -/
def Outlining.passesOver (o : Outlining) (token : Token) : Bool :=
  token == .or && o.inner.waits

/-- The tokens without the ORs that come while another one waits. What stands between two such ORs
goes over to the next alternative. -/
def settled (o : Outlining) : List Token → List Token
  | [] => []
  | token :: rest =>
    match o.step token with
    | none => token :: rest
    | some next => if o.passesOver token then settled o rest else token :: settled next rest

theorem Sketch.isLed_of_waits {s : Sketch} (hsound : s.Sound) (hwaits : s.waits = true) :
    s.isLed = true := by
  have hne : s.finished ≠ [] ∧ Query.isLed s.current = false := by simpa [waits] using hwaits
  cases hfinished : s.finished with
  | nil => exact absurd hfinished hne.1
  | cons items rest =>
      have hhead : Query.isLed items = true := by simpa [hfinished] using hsound.first
      simp [isLed, hfinished, hhead]

theorem Watches.step_of_passesOver {r : Reading} {o : Outlining} (h : Watches r o) {token : Token}
    (hpasses : o.passesOver token = true) : r.step token = .ok r := by
  have hboth : token = .or ∧ o.inner.waits = true := by
    simpa [Outlining.passesOver] using hpasses
  have hawaiting : r.inner.awaiting = true := h.mindsInner.awaiting.trans hboth.2
  have hterm : r.inner.hasTerm = true :=
    h.mindsInner.hasTerm.trans (Sketch.isLed_of_waits h.mindsInner.sound hboth.2)
  have hafter := h.single hawaiting
  obtain ⟨⟨parts, held, hasTerm, awaiting⟩, outer, predicates, afterPredicate⟩ := r
  rw [hboth.1]
  dsimp only at hawaiting hterm hafter
  subst hawaiting hterm hafter
  rfl

theorem Watches.foldlM_settled {r : Reading} {o : Outlining} (h : Watches r o)
    (tokens : List Token) :
    (settled o tokens).foldlM Reading.step r = tokens.foldlM Reading.step r := by
  induction tokens generalizing r o with
  | nil => rfl
  | cons token tokens ih =>
      unfold settled
      cases hnext : o.step token with
      | none => rfl
      | some next =>
          by_cases hpasses : o.passesOver token = true
          · simp only [hpasses, if_true]
            rw [List.foldlM_cons, h.step_of_passesOver hpasses, ih h]
            rfl
          · simp only [hpasses, Bool.false_eq_true, if_false, List.foldlM_cons]
            cases hstep : r.step token with
            | error e => rfl
            | ok r' =>
                obtain ⟨o', ho', hwatches⟩ := h.step hstep
                rw [hnext] at ho'
                cases ho'
                exact ih hwatches

theorem ofTokens?_settled (tokens : List Token) :
    ofTokens? (settled .start tokens) = ofTokens? tokens := by
  unfold ofTokens?
  rw [watches_initial.foldlM_settled tokens]

/-! ## Regular outlines -/

/-- Every alternative that is finished has something positive, and so on inside the group. -/
structure Sketch.Regular (s : Sketch) : Prop where
  finished : areRegular s.finished = true
  current : allRegular s.current = true

structure Outlining.Regular (o : Outlining) : Prop where
  inner : o.inner.Regular
  outer : ∀ s ∈ o.outer, s.Regular

theorem Sketch.regular_empty : empty.Regular := ⟨rfl, rfl⟩

theorem Sketch.Regular.add {s : Sketch} (h : s.Regular) {item : Item}
    (hitem : item.isRegular = true) : (s.add item).Regular :=
  ⟨h.finished, by simp [Sketch.add, allRegular_append, allRegular, h.current, hitem]⟩

theorem Sketch.Regular.finish {s : Sketch} (h : s.Regular)
    (hled : Query.isLed s.current = true) : areRegular (s.finished ++ [s.current]) = true := by
  have hany : s.current.any Item.isPositive = true := hled
  simp [areRegular_append, areRegular, h.finished, h.current, hany]

/-- The current alternative of a group has something positive if the group has and no OR waits. -/
theorem Sketch.current_isLed {s : Sketch} (hled : s.isLed = true) (hwaits : s.waits = false) :
    Query.isLed s.current = true := by
  cases hfinished : s.finished with
  | nil => simpa [isLed, hfinished] using hled
  | cons items rest => simpa [waits, hfinished] using hwaits

theorem Sketch.Regular.alternatives {g : Group} {s : Sketch} (h : s.Regular) (hshows : Shows g s)
    (hminds : Minds g s) {result : Option Text} (hclose : g.close = .ok result) :
    areRegular s.alternatives = true := by
  cases result with
  | none =>
      rw [hshows.close_none hclose]
      rfl
  | some expression =>
      have hterm : g.hasTerm = true := by
        unfold Group.close at hclose
        cases hterm : g.hasTerm with
        | true => rfl
        | false =>
            rw [hterm] at hclose
            split at hclose
            · cases hclose
            · split at hclose <;> cases hclose
      have hled : s.isLed = true := hminds.hasTerm.symm.trans hterm
      rw [(hshows.close_some hclose).1]
      exact h.finish (current_isLed hled (hminds.waits_of_close hclose))

/-- Sketches stay regular as long as no second OR is taken up. -/
theorem Watches.regular_step {r r' : Reading} {o o' : Outlining} (h : Watches r o)
    (hregular : o.Regular) {token : Token} (hstep : r.step token = .ok r')
    (ho : o.step token = some o') (hkept : o.passesOver token = false) : o'.Regular := by
  obtain ⟨inner, sketches⟩ := o
  obtain ⟨hinner, houterRegular⟩ := hregular
  cases takes_of_step hstep with
  | opening =>
      cases ho
      exact ⟨Sketch.regular_empty, List.forall_mem_cons.mpr ⟨hinner, houterRegular⟩⟩
  | vanishing houter hclose =>
      cases sketches with
      | nil => cases ho
      | cons parent rest =>
          cases ho
          obtain ⟨hparent, hrest⟩ := List.forall_mem_cons.mp houterRegular
          refine ⟨?_, hrest⟩
          simpa [Sketch.addGroup, h.inner.close_none hclose] using hparent
  | closing houter hclose =>
      cases sketches with
      | nil => cases ho
      | cons parent rest =>
          cases ho
          obtain ⟨hparent, hrest⟩ := List.forall_mem_cons.mp houterRegular
          refine ⟨?_, hrest⟩
          have hgroup : (Item.group inner.alternatives).isRegular = true :=
            hinner.alternatives h.inner h.mindsInner hclose
          dsimp only
          unfold Sketch.addGroup
          split
          · exact hparent
          · exact hparent.add hgroup
  | required t hitem =>
      rw [Outlining.step_of_item? _ hitem] at ho
      cases ho
      exact ⟨hinner.add rfl, houterRegular⟩
  | excluded t hitem =>
      rw [Outlining.step_of_item? _ hitem] at ho
      cases ho
      exact ⟨hinner.add rfl, houterRegular⟩
  | dropped hmark hitem hstructured =>
      rw [Outlining.step_of_silent _ hmark hitem] at ho
      cases ho
      exact ⟨hinner, houterRegular⟩
  | structured hstructured hitem hpredicate hawaiting =>
      rw [Outlining.step_of_silent _ (Token.isMark_of_isStructured hstructured) hitem] at ho
      cases ho
      exact ⟨hinner, houterRegular⟩
  | or hafter hopen =>
      cases ho
      have hwaits : inner.waits = false := by simpa [Outlining.passesOver] using hkept
      have hled : inner.isLed = true := by
        rw [← h.mindsInner.hasTerm]
        unfold Group.openAlternative at hopen
        split at hopen
        · assumption
        · cases hopen
      exact ⟨⟨hinner.finish (Sketch.current_isLed hled hwaits), rfl⟩, houterRegular⟩

theorem Watches.regular_settled {r r' : Reading} {o : Outlining} (h : Watches r o)
    (hregular : o.Regular) {tokens : List Token}
    (hrun : (settled o tokens).foldlM Reading.step r = .ok r') :
    ∃ o', (settled o tokens).foldlM Outlining.step o = some o' ∧ Watches r' o' ∧ o'.Regular := by
  induction tokens generalizing r o with
  | nil =>
      cases hrun
      exact ⟨o, rfl, h, hregular⟩
  | cons token tokens ih =>
      unfold settled at hrun ⊢
      cases hnext : o.step token with
      | none =>
          simp only [hnext] at hrun
          obtain ⟨o', ho', -⟩ := h.run hrun
          simp [List.foldlM_cons, hnext] at ho'
      | some next =>
          simp only [hnext] at hrun
          by_cases hpasses : o.passesOver token = true
          · simp only [hpasses, if_true] at hrun ⊢
            exact ih h hregular hrun
          · simp only [hpasses, Bool.false_eq_true, if_false] at hrun ⊢
            obtain ⟨middle, hstep, hrest⟩ := exists_taken hrun
            obtain ⟨o', ho', hwatches⟩ := h.step hstep
            rw [hnext] at ho'
            cases ho'
            have hkept : o.passesOver token = false := by simpa using hpasses
            rw [List.foldlM_cons, hnext]
            exact ih hwatches (h.regular_step hregular hstep hnext hkept) hrest

theorem holds_settled {tokens : List Token} {q : Query} (h : ofTokens? tokens = .ok q) :
    ∃ kept, outline? (settled .start tokens) = some kept ∧ areRegular kept = true ∧
      (q.expression = [] ↔ kept = []) ∧
      (q.expression ≠ [] → ∃ e, Expression.ofReserved? q.expression = some e ∧
        Expression.ofWritten? q.expression = some e ∧
        ∀ truth, e.holds truth = anyHolds truth kept) := by
  have hsettled : ofTokens? (settled .start tokens) = .ok q := (ofTokens?_settled tokens).trans h
  obtain ⟨-, kept, houtline, hwritten⟩ := ofTokens?_spec hsettled
  have hregular : areRegular kept = true := by
    obtain ⟨r, hrun, houter, result, hclose, -⟩ := exists_read hsettled
    have hstart : Outlining.start.Regular := ⟨Sketch.regular_empty, fun s hs => by cases hs⟩
    obtain ⟨o, ho, hwatches, ho'⟩ := watches_initial.regular_settled hstart hrun
    have hkept : some o.inner.alternatives = some kept := by
      rw [← houtline]
      simp [outline?, ho, hwatches.outer_eq_nil houter]
    cases hkept
    exact ho'.inner.alternatives hwatches.inner hwatches.mindsInner hclose
  refine ⟨kept, houtline, hregular, ?_, fun hne => ?_⟩
  · rcases hwritten with ⟨hempty, hnone⟩ | ⟨symbols, e, htranslates⟩
    · simp [hempty, hnone]
    · have hsome : kept ≠ [] := by
        rintro rfl
        exact htranslates.alternatives_ne_nil rfl
      simp [htranslates.ne_nil, hsome]
  · rcases hwritten with ⟨hempty, -⟩ | ⟨symbols, e, htranslates⟩
    · exact absurd hempty hne
    · exact ⟨e, htranslates.ofReserved?, htranslates.ofWritten?, htranslates.holds hregular⟩

/-- What an OR joins. A well-shaped search is refused if in one of its groups nothing positive
stands before the first OR or after the last one, and nothing else is refused for want of a term
beside an OR. An OR that comes while another one waits makes no difference, and without such ORs an
accepted search has something positive in each of its alternatives and means what it says. -/
theorem ofTokens?_joins_terms {tokens : List Token} (h : checkShape tokens = .ok ()) :
    ∃ alternatives, outline? tokens = some alternatives ∧
      (groupsHave areFlanked alternatives = false → ∃ e, ofTokens? tokens = .error e) ∧
      (ofTokens? tokens = .error .orNeedsTerms → groupsHave areFlanked alternatives = false) ∧
      ofTokens? (settled .start tokens) = ofTokens? tokens ∧
      ∀ q, ofTokens? tokens = .ok q →
        ∃ kept, outline? (settled .start tokens) = some kept ∧ areRegular kept = true ∧
          (q.expression = [] ↔ kept = []) ∧
          (q.expression ≠ [] → ∃ e, Expression.ofReserved? q.expression = some e ∧
            Expression.ofWritten? q.expression = some e ∧
            ∀ truth, e.holds truth = anyHolds truth kept) := by
  obtain ⟨o, ho, houter, houtline⟩ := outline?_of_checkShape h
  refine ⟨o.inner.alternatives, houtline, fun hunflanked => ?_,
    fun herror => not_flanked_of_orNeedsTerms herror ho houter, ofTokens?_settled tokens,
    fun q haccepted => holds_settled haccepted⟩
  cases hresult : ofTokens? tokens with
  | error e => exact ⟨e, rfl⟩
  | ok q =>
      rw [flanked_of_accepted hresult ho] at hunflanked
      cases hunflanked

/-- The exclusion between two ORs goes over to the alternative after them. -/
theorem ofTokens?_joins_terms_of_exclusion :
    let a : Token := .word "a".toList
    let b : Token := .exclusion "b".toList
    let c : Token := .word "c".toList
    let q : Query := ⟨"a OR c NOT b".toList, []⟩
    checkShape [a, .or, b, .or, c] = .ok () ∧
      ofTokens? [a, .or, b, .or, c] = .ok q ∧
      settled .start [a, .or, b, .or, c] = [a, .or, b, c] ∧
      ∃ e, Expression.ofReserved? q.expression = some e ∧ ∀ truth, e.holds truth =
        anyHolds truth [[.required ⟨none, "a".toList, false⟩],
          [.excluded ⟨none, "b".toList, false⟩, .required ⟨none, "c".toList, false⟩]] := by
  intro a b c q
  have hshape : checkShape [a, .or, b, .or, c] = .ok () := by decide
  have haccepted : ofTokens? [a, .or, b, .or, c] = .ok q := by decide
  obtain ⟨alternatives, -, -, -, -, hmeaning⟩ := ofTokens?_joins_terms hshape
  obtain ⟨kept, houtline, -, -, hread⟩ := hmeaning q haccepted
  cases houtline
  obtain ⟨e, hreserved, -, hholds⟩ := hread (by decide)
  exact ⟨hshape, haccepted, rfl, e, hreserved, hholds⟩

end MailIndex.Query
