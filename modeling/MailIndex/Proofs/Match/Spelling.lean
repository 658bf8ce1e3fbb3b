import MailIndex.Match.Reader

/-!
# What symbols spell out

The reader of match expressions is an automaton with a stack. Here its runs are described by
levels of tightness: symbols that spell an expression at a level are read as one operand there,
whatever waits on the stack, provided that it binds less tightly. From this follow the rules of
the grammar: a run of terms, parentheses, and an operator between operands of the right levels.
-/

namespace MailIndex.Match

/-! ## Closing frames -/

/-- Whether the innermost frame binds less tightly than a level. -/
def Below (level : Nat) : List Frame → Prop
  | .operator _ op :: _ => op.strength < level
  | _ => True

theorem Below.mono {level higher : Nat} {frames : List Frame} (h : Below level frames)
    (hle : level ≤ higher) : Below higher frames := by
  cases frames with
  | nil => trivial
  | cons frame frames =>
      cases frame with
      | opening => trivial
      | operator left op => exact Nat.lt_of_lt_of_le h hle

theorem Operator.strength_pos (op : Operator) : 0 < op.strength := by
  cases op <;> decide

theorem close_of_below {level : Nat} {frames : List Frame} (h : Below level frames)
    (e : Expression) : Reading.close level e frames = (e, frames) := by
  cases frames with
  | nil => rfl
  | cons frame frames =>
      cases frame with
      | opening => rfl
      | operator left op =>
          have hlt : ¬ level ≤ op.strength := Nat.not_le.mpr h
          simp [Reading.close, hlt]

theorem close_operator {level : Nat} {op : Operator} (h : level ≤ op.strength)
    (left e : Expression) (frames : List Frame) :
    Reading.close level e (.operator left op :: frames) =
      Reading.close level (op.combine left e) frames := by
  simp [Reading.close, h]

/-- Closing in two goes, the tighter operators first. -/
theorem close_close {level higher : Nat} (hle : level ≤ higher) (e : Expression)
    (frames : List Frame) :
    Reading.close level (Reading.close higher e frames).1 (Reading.close higher e frames).2 =
      Reading.close level e frames := by
  induction frames generalizing e with
  | nil => rfl
  | cons frame frames ih =>
      cases frame with
      | opening => rfl
      | operator left op =>
          by_cases hop : higher ≤ op.strength
          · rw [close_operator hop, close_operator (Nat.le_trans hle hop)]
            exact ih (op.combine left e)
          · have hbelow : Below higher (.operator left op :: frames) := Nat.not_le.mp hop
            rw [close_of_below hbelow]

theorem close_zero (e : Expression) (frames : List Frame) :
    Reading.close 0 e frames = Reading.close 1 e frames := by
  induction frames generalizing e with
  | nil => rfl
  | cons frame frames ih =>
      cases frame with
      | opening => rfl
      | operator left op =>
          rw [close_operator (Nat.zero_le _), close_operator op.strength_pos]
          exact ih (op.combine left e)

/-! ## Levels -/

/-- A reading that has come to an operand: with what binds at least as tightly as the level closed,
`e` stands above `frames`. -/
def Amounts (level : Nat) (r : Reading) (e : Expression) (frames : List Frame) : Prop :=
  ∃ last, r.operand.expression? = some last ∧ Reading.close level last r.frames = (e, frames)

/-- Symbols that are read as one operand where only looser operators wait. -/
def Spells (level : Nat) (symbols : List Symbol) (e : Expression) : Prop :=
  ∀ frames, Below level frames →
    ∃ r, Reading.steps ⟨frames, .missing⟩ symbols = some r ∧ Amounts level r e frames

theorem Spells.looser {level higher : Nat} {symbols : List Symbol} {e : Expression}
    (h : Spells higher symbols e) (hle : level ≤ higher) : Spells level symbols e := by
  intro frames hbelow
  obtain ⟨r, hsteps, last, hlast, hclose⟩ := h frames (hbelow.mono hle)
  refine ⟨r, hsteps, last, hlast, ?_⟩
  rw [← close_close hle, hclose]
  exact close_of_below hbelow e

theorem steps_terms (frames : List Frame) (before more : List Term) :
    Reading.steps ⟨frames, .run before⟩ (more.map .term) =
      some ⟨frames, .run (before ++ more)⟩ := by
  induction more generalizing before with
  | nil => simp [Reading.steps]
  | cons t more ih =>
      have hnext := ih (before ++ [t])
      rw [List.append_assoc] at hnext
      exact hnext

theorem Spells.run {terms : List Term} (h : terms ≠ []) :
    Spells 4 (terms.map .term) (.run terms) := by
  intro frames hbelow
  obtain ⟨first, more, rfl⟩ := List.exists_cons_of_ne_nil h
  refine ⟨⟨frames, .run (first :: more)⟩, ?_, .run (first :: more), rfl, close_of_below hbelow _⟩
  exact steps_terms frames [first] more

theorem Spells.parenthesized {symbols : List Symbol} {e : Expression} (h : Spells 1 symbols e) :
    Spells 4 (.opening :: symbols ++ [.closing]) e := by
  intro frames hbelow
  obtain ⟨r, hsteps, last, hlast, hclose⟩ := h (.opening :: frames) trivial
  refine ⟨⟨frames, .grouped e⟩, ?_, e, rfl, close_of_below hbelow e⟩
  have hopen : Reading.steps ⟨frames, .missing⟩ (.opening :: symbols) = some r := hsteps
  rw [Reading.steps_append, hopen]
  simp [Reading.steps, Reading.step, hlast, close_zero, hclose]

/-- Operands on both sides of an operator: it groups to the left, so only the right one has to bind
more tightly. -/
theorem Spells.operator (op : Operator) {left right : List Symbol} {a b : Expression}
    (ha : Spells op.strength left a) (hb : Spells (op.strength + 1) right b) :
    Spells op.strength (left ++ .operator op :: right) (op.combine a b) := by
  intro frames hbelow
  obtain ⟨r, hsteps, last, hlast, hclose⟩ := ha frames hbelow
  obtain ⟨r', hsteps', last', hlast', hclose'⟩ :=
    hb (.operator a op :: frames) (Nat.lt_succ_self _)
  refine ⟨r', ?_, last', hlast', ?_⟩
  · rw [Reading.steps_append, hsteps]
    simp [Reading.steps, Reading.step, hlast, hclose, hsteps']
  · rw [← close_close (Nat.le_succ op.strength), hclose', close_operator (Nat.le_refl _)]
    exact close_of_below hbelow _

theorem Spells.ofSymbols? {symbols : List Symbol} {e : Expression} (h : Spells 1 symbols e) :
    Expression.ofSymbols? symbols = some e := by
  obtain ⟨r, hsteps, last, hlast, hclose⟩ := h [] trivial
  unfold Expression.ofSymbols? Reading.start
  rw [hsteps]
  simp [Reading.finish?, hlast, close_zero, hclose]

end MailIndex.Match
