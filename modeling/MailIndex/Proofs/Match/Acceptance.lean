import MailIndex.Proofs.Match.Lexing
import MailIndex.Proofs.Match.Spelling

/-!
# Expressions within the limits

The index reads no more than a number of grammar symbols at once and no expression beyond a depth.
Terms in juxtaposition and one term taken from them never come near these limits, so their written
forms are accepted unless a null character cuts them short.
-/

namespace MailIndex.Match

/-! ## Whole texts -/

theorem Writes.ofWritten?_symbols {t : Text} {symbols : List Symbol} (h : Writes Stops t symbols) :
    Symbol.ofWritten? t = some symbols := by
  obtain ⟨lexemes, hlexes, hjoins⟩ := h
  unfold Symbol.ofWritten?
  rw [hlexes.ofWritten? stops_nil]
  simp [map_plain hjoins.near_not_mem, hjoins.ofLexemes?]

theorem Writes.accepted?_of_mem {t : Text} {symbols : List Symbol} (h : Writes Stops t symbols)
    (hnull : '\x00' ∈ t) : Expression.accepted? t = none := by
  obtain ⟨lexemes, hlexes, -⟩ := h
  have hcut : Lexeme.ofWritten? (upToNull t) = none := hlexes.cut hnull
  unfold Expression.accepted? Symbol.ofWritten?
  rw [hcut]
  rfl

theorem Writes.accepted? {t : Text} {symbols : List Symbol} {e : Expression}
    (h : Writes Stops t symbols) (hnull : '\x00' ∉ t) (hspells : Spells 1 symbols e)
    (hpeak : Reading.start.peak symbols ≤ Expression.symbolLimit)
    (hdepth : e.depth ≤ Expression.depthLimit) : Expression.accepted? t = some e := by
  unfold Expression.accepted?
  rw [upToNull_of_not_mem hnull, h.ofWritten?_symbols]
  simp [hspells.ofSymbols?, hpeak, hdepth]

/-! ## Juxtaposed terms -/

theorem depth_run_le (terms : List Term) : (Expression.run terms).depth ≤ 1 := by
  unfold Expression.depth
  split <;> omega

/-- While terms are read nothing waits but the run before the next of them. -/
theorem load_term_le (operand : Operand) (t : Term) :
    Reading.load ⟨[], operand⟩ (.term t) ≤ 5 := by
  cases operand <;> simp only [Reading.load, List.map_nil, total_nil] <;> split <;> omega

theorem peak_terms_le (before more : List Term) (rest : List Symbol) :
    Reading.peak ⟨[], .run before⟩ (more.map .term ++ rest) ≤
      max 5 (Reading.peak ⟨[], .run (before ++ more)⟩ rest) := by
  induction more generalizing before with
  | nil =>
      rw [List.append_nil, List.map_nil, List.nil_append]
      omega
  | cons t more ih =>
      have hload := load_term_le (.run before) t
      have hrest := ih (before ++ [t])
      rw [List.append_assoc, List.singleton_append] at hrest
      simp only [List.map_cons, List.cons_append, Reading.peak, Reading.step]
      omega

theorem peak_start_le (first : Term) (more : List Term) (rest : List Symbol) :
    Reading.start.peak ((first :: more).map .term ++ rest) ≤
      max 5 (Reading.peak ⟨[], .run (first :: more)⟩ rest) := by
  have hload := load_term_le .missing first
  have hrest := peak_terms_le [first] more rest
  rw [List.singleton_append] at hrest
  simp only [Reading.start, List.map_cons, List.cons_append, Reading.peak, Reading.step]
  omega

theorem Writes.accepted?_run {t : Text} {terms : List Term}
    (h : Writes Stops t (terms.map .term)) (hne : terms ≠ []) (hnull : '\x00' ∉ t) :
    Expression.accepted? t = some (.run terms) := by
  refine h.accepted? hnull ((Spells.run hne).looser (by omega)) ?_ ?_
  · obtain ⟨first, more, rfl⟩ := List.exists_cons_of_ne_nil hne
    have hpeak := peak_start_le first more []
    simp only [List.append_nil, Reading.peak] at hpeak
    unfold Expression.symbolLimit
    omega
  · have hdepth := depth_run_le terms
    unfold Expression.depthLimit
    omega

/-! ## One term taken from others -/

theorem spells_without {terms : List Term} (hne : terms ≠ []) (u : Term) :
    Spells 1 (terms.map .term ++ [.operator .not, .term u]) (.without (.run terms) (.run [u])) := by
  have hright : Spells 4 [.term u] (.run [u]) := Spells.run (List.cons_ne_nil u [])
  have hboth := Spells.operator .not ((Spells.run hne).looser (by decide)) hright
  exact hboth.looser (by decide)

theorem peak_not_le (before : List Term) (u : Term) :
    Reading.peak ⟨[], .run before⟩ [.operator .not, .term u] ≤ 6 := by
  simp only [Reading.peak, Reading.step, Reading.load, Operand.expression?, Reading.close,
    List.map_cons, List.map_nil, total_cons, total_nil, Option.bind_eq_bind, Option.bind_some]
  split <;> omega

theorem Writes.accepted?_without {t : Text} {terms : List Term} {u : Term}
    (h : Writes Stops t (terms.map .term ++ [.operator .not, .term u])) (hne : terms ≠ [])
    (hnull : '\x00' ∉ t) : Expression.accepted? t = some (.without (.run terms) (.run [u])) := by
  refine h.accepted? hnull (spells_without hne u) ?_ ?_
  · obtain ⟨first, more, rfl⟩ := List.exists_cons_of_ne_nil hne
    have hpeak := peak_start_le first more [.operator .not, .term u]
    have hnot := peak_not_le (first :: more) u
    unfold Expression.symbolLimit
    omega
  · have hleft := depth_run_le terms
    have hright := depth_run_le [u]
    unfold Expression.depth Expression.depthLimit
    omega

end MailIndex.Match
