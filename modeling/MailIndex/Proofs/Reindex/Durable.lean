import MailIndex.Proofs.Reindex.Course

/-!
# What is durable

Wherever a run stands, what is durable is explained by the durable part of its trail, and what the
session sees by all of it, unless it has been rolled back. A whole run is a number of steps, and it
ends; without a table missing, and with a selector that can be resolved, it ends well.
-/

namespace MailIndex.Reindex

variable {o : Options} {env : Surroundings} {scope : Scope} {base : Store} {trail : Trail}
  {s : Store} {r : Run} {rest : List Document} {toPrune : SeqSet}

/-- What a trail explains, wherever the run stands: what is durable, and what the session sees
unless it has been rolled back. -/
structure Explained (o : Options) (env : Surroundings) (s base : Store) (scope : Scope) (r : Run)
    (trail : Trail) : Prop extends Stored o env scope base trail r.session where
  chosen : trail.indexed.Sublist (candidates base o.selector scope)
  asked : r.asked <+: candidates base o.selector scope
  view : r.session.view = replay o env base trail.all ∨ r.session.view = r.session.durable
  base : base = s ∧ trail = .start ∨
    o.selector.scope s = .ok scope ∧ base = preparedStore o s scope

/-- While nobody else writes, what is durable has the documents of the beginning. -/
theorem Explained.places (hout : ∀ n, env.outside n = [])
    (h : Explained o env s base scope r trail) :
    r.session.durable.documents.map place = s.documents.map place := by
  rw [h.durable, places_replay hout (legal_append.mp h.legal).1]
  rcases h.base with ⟨rfl, -⟩ | ⟨-, rfl⟩
  · rfl
  · exact places_preparedStore

theorem Explained.missing (h : Explained o env s base scope r trail) :
    r.session.durable.missing = s.missing := by
  rw [h.durable, missing_replay]
  rcases h.base with ⟨rfl, -⟩ | ⟨-, rfl⟩
  · rfl
  · exact missing_preparedStore

theorem Waits.explained (h : Waits r base)
    (hbase : base = s ∧ Trail.start = .start ∨
      o.selector.scope s = .ok scope ∧ base = preparedStore o s scope) :
    Explained o env s base scope r .start := by
  have hseen : Seen o env scope base .start r.session :=
    seen_start h.durable h.uncommitted h.pending
  have hasked : r.asked <+: candidates base o.selector scope := by
    rw [h.asked]
    exact List.nil_prefix
  exact ⟨hseen.toStored, List.nil_sublist _, hasked, .inl hseen.view, hbase⟩

theorem Asks.asked (h : Asks o s scope r trail rest) :
    r.asked <+: candidates (preparedStore o s scope) o.selector scope := by
  rw [h.found]
  exact List.prefix_append _ _

theorem Asks.chosen (h : Asks o s scope r trail rest) :
    trail.indexed.Sublist (candidates (preparedStore o s scope) o.selector scope) :=
  h.indexed.trans h.asked.sublist

theorem Works.explained (h : Works o env s scope r trail rest toPrune) :
    Explained o env s (preparedStore o s scope) scope r trail :=
  ⟨h.seen.toStored, h.chosen, h.asked, .inl h.seen.view, .inr ⟨h.resolved, rfl⟩⟩

theorem Leaves.explained (h : Leaves o env s r trail) :
    ∃ base scope, Explained o env s base scope r trail := by
  unfold Leaves at h
  cases hstage : r.stage with
  | beginning =>
      rw [hstage] at h
      obtain ⟨rfl, hwaits⟩ := h
      exact ⟨s, .all, hwaits.explained (.inl ⟨rfl, rfl⟩)⟩
  | «scoped» scope =>
      rw [hstage] at h
      obtain ⟨rfl, hwaits, -⟩ := h
      exact ⟨s, scope, hwaits.explained (.inl ⟨rfl, rfl⟩)⟩
  | noted scope had =>
      rw [hstage] at h
      obtain ⟨rfl, hwaits, -⟩ := h
      exact ⟨s, scope, hwaits.explained (.inl ⟨rfl, rfl⟩)⟩
  | prepared scope had =>
      rw [hstage] at h
      obtain ⟨rfl, hwaits, hprepares⟩ := h
      exact ⟨_, scope, hwaits.explained (.inr ⟨hprepares.resolved, rfl⟩)⟩
  | selected scope had found =>
      rw [hstage] at h
      obtain ⟨rfl, hwaits, hprepares, -⟩ := h
      exact ⟨_, scope, hwaits.explained (.inr ⟨hprepares.resolved, rfl⟩)⟩
  | indexing had left toPrune tally =>
      rw [hstage] at h
      obtain ⟨⟨scope, hworks⟩, -⟩ := h
      exact ⟨_, scope, hworks.explained⟩
  | pruning left total paused tally pruned =>
      rw [hstage] at h
      obtain ⟨scope, rest, hworks, -⟩ := h
      exact ⟨_, scope, hworks.explained⟩
  | finished report =>
      rw [hstage] at h
      obtain ⟨scope, rest, hworks, -⟩ := h
      exact ⟨_, scope, hworks.explained⟩
  | failed e =>
      rw [hstage] at h
      obtain ⟨hview, ⟨rfl, hasked, hdurable, -⟩ | ⟨scope, rest, hasks, hstored, -⟩⟩ := h
      · exact ⟨s, .all, ⟨hdurable, trivial, interval_pos o⟩, List.nil_sublist _,
          hasked ▸ List.nil_prefix, .inr hview, .inl ⟨rfl, rfl⟩⟩
      · exact ⟨_, scope, hstored, hasks.chosen, hasks.asked, .inr hview,
          .inr ⟨hasks.resolved, rfl⟩⟩

/-- What is durable when a run on a store has taken so many steps. -/
def durableAfter (o : Options) (env : Surroundings) (s : Store) (n : Nat) : Store :=
  (Run.advances o env n (Run.start s)).session.durable

theorem advances_add (m n : Nat) (r : Run) :
    Run.advances o env (m + n) r = Run.advances o env n (Run.advances o env m r) := by
  induction m generalizing r with
  | zero =>
      rw [Nat.zero_add]
      rfl
  | succ m ih =>
      rw [Nat.succ_add]
      exact ih (r.advance o env)

theorem exists_complete_eq (o : Options) (env : Surroundings) (s : Store) :
    ∃ n, Run.complete o env s = Run.advances o env n (Run.start s) := by
  unfold Run.complete Run.throughLoop
  rw [← advances_add, ← advances_add]
  exact ⟨_, rfl⟩

/-! ## From one durable store to a later one -/

/-- A relation in which every store stands to what the writes of a run make of it. -/
structure Onward (o : Options) (env : Surroundings) (R : Store → Store → Prop) : Prop where
  refl : ∀ t, R t t
  trans : ∀ {a b c}, a.Numbered → R a b → R b c → R a c
  move : ∀ {t} (move : Move), t.Numbered → R t (move.apply o env t)
  unindexed : ∀ t scope, R t (Run.unindexed t scope)

namespace Onward

variable {R : Store → Store → Prop} {t : Store}

theorem replay (hR : Onward o env R) (h : t.Numbered) (moves : List Move) :
    R t (replay o env t moves) := by
  induction moves using List.reverseRecOn with
  | nil => exact hR.refl t
  | append_singleton moves move ih =>
      rw [replay_append]
      exact hR.trans h ih (hR.move move (numbered_replay h moves))

theorem preserves (hR : Onward o env R) (h : t.Numbered) :
    Preserves o env (fun _ after => after.Numbered ∧ R t after) fun _ => True where
  candidate _ _ := trivial
  unindexed scope hafter :=
    ⟨hafter.1.withDocuments _ _, hR.trans h hafter.2 (hR.unindexed _ scope)⟩
  ask _ hafter := hafter
  index := by
    intro asked after d m written _ _ hwritten hafter
    obtain rfl : written = (Move.index d m).apply o env after := by
      unfold Run.indexed? at hwritten
      split at hwritten
      · cases hwritten
        rfl
      · cases hwritten
    exact ⟨numbered_apply hafter.1 _, hR.trans h hafter.2 (hR.move _ hafter.1)⟩
  prune seq hafter := ⟨hafter.1.prune seq, hR.trans h hafter.2 (hR.move (.prune seq) hafter.1)⟩
  outside {_ _ _ write} _ hafter :=
    ⟨numbered_outside hafter.1 write, hR.trans h hafter.2 (hR.move (.outside write) hafter.1)⟩

theorem view (hR : Onward o env R) (hs : s.Numbered) (h : Explained o env s base scope r trail) :
    r.session.durable.Numbered ∧ r.session.view.Numbered ∧
      R r.session.durable r.session.view := by
  have hbase : base.Numbered := by
    rcases h.base with ⟨rfl, -⟩ | ⟨-, rfl⟩
    · exact hs
    · exact numbered_preparedStore hs
  have hdurable : r.session.durable.Numbered := by
    rw [h.durable]
    exact numbered_replay hbase _
  rcases h.view with hview | hview
  · have hmore : r.session.view = Reindex.replay o env r.session.durable trail.loose := by
      rw [hview, h.durable, ← replay_append]
      rfl
    rw [hmore]
    exact ⟨hdurable, numbered_replay hdurable _, hR.replay hdurable _⟩
  · rw [hview]
    exact ⟨hdurable, hdurable, hR.refl _⟩

/-- What is durable at some step stands so to what is durable at a later one. -/
theorem durableAfter (hR : Onward o env R) (hs : s.Numbered) {k n : Nat} (hkn : k ≤ n) :
    R (durableAfter o env s k) (durableAfter o env s n) := by
  obtain ⟨more, rfl⟩ := Nat.exists_eq_add_of_le hkn
  unfold Reindex.durableAfter
  rw [advances_add]
  obtain ⟨trail, hleaves, -⟩ := exists_trail o env hs k
  obtain ⟨base, scope, hexplained⟩ := hleaves.explained
  generalize Run.advances o env k (Run.start s) = r at hexplained ⊢
  obtain ⟨hdurable, hview, hR'⟩ := hR.view hs hexplained
  have hkept : Kept (fun _ t => t.Numbered ∧ R r.session.durable t) (fun _ => True) r :=
    ⟨⟨⟨hdurable, hR.refl _⟩, hview, hR'⟩, r.stage.awaits_true⟩
  exact ((hR.preserves hdurable).advances hkept more).session.durable.2

end Onward

/-! ## Runs that end -/

theorem ended_complete (o : Options) (env : Surroundings) (s : Store) :
    (∃ report, (Run.complete o env s).stage = .finished report) ∨
      ∃ e, (Run.complete o env s).stage = .failed e := by
  have hsome := Run.isSome_outcome?_complete o env s
  unfold Run.outcome? at hsome
  cases hstage : (Run.complete o env s).stage with
  | finished report => exact .inl ⟨report, rfl⟩
  | failed e => exact .inr ⟨e, rfl⟩
  | _ => simp [hstage] at hsome

theorem exists_trail_complete (o : Options) (env : Surroundings) (hs : s.Numbered) :
    ∃ trail, Leaves o env s (Run.complete o env s) trail := by
  obtain ⟨n, hn⟩ := exists_complete_eq o env s
  obtain ⟨trail, hleaves, -⟩ := exists_trail o env hs n
  exact ⟨trail, hn ▸ hleaves⟩

theorem missing_complete (o : Options) (env : Surroundings) (hs : s.Numbered) :
    (Run.complete o env s).session.durable.missing = s.missing := by
  obtain ⟨trail, hleaves⟩ := exists_trail_complete o env hs
  obtain ⟨base, scope, hexplained⟩ := hleaves.explained
  exact hexplained.missing

theorem outcome?_of_finished {report : Report} (h : r.stage = .finished report) :
    r.outcome? = some (.ok report) := by
  unfold Run.outcome?
  rw [h]

/-- A run whose selector can be resolved ends well while no table is missing. -/
theorem exists_report (o : Options) (env : Surroundings) (hs : s.Numbered)
    (hscope : o.selector.scope s = .ok scope) (hmissing : s.missing = []) :
    ∃ report, (Run.complete o env s).stage = .finished report := by
  rcases ended_complete o env s with hfinished | ⟨e, hstage⟩
  · exact hfinished
  · obtain ⟨trail, hleaves⟩ := exists_trail_complete o env hs
    unfold Leaves at hleaves
    rw [hstage] at hleaves
    obtain ⟨-, ⟨-, -, -, hready⟩ | ⟨_, _, _, _, hlacking⟩⟩ := hleaves
    · refine absurd ⟨⟨scope, hscope⟩, ?_⟩ hready
      rw [hmissing]
      exact List.not_mem_nil
    · exact absurd hmissing hlacking

end MailIndex.Reindex
