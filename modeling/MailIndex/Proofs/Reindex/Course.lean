import MailIndex.Proofs.Reindex.Account
import MailIndex.Proofs.Reindex.Trail
import MailIndex.Reindex.Completion

/-!
# The course of a run

At every step of a run, whatever others write and however it ends, there is a legal trail that
explains what is durable and what the session sees. The candidates that it indexes are among those
asked for, and they are those whose work the run has counted as finished.
-/

namespace MailIndex.Reindex

/-! ## Stages -/

def Stage.finished? (before after : Stage) : Option Document :=
  match before, after with
  | .indexing _ (d :: _) _ tally, .indexing _ _ _ tally' =>
    if tally.indexed < tally'.indexed then some d else none
  | _, _ => none

def Run.finishes (o : Options) (env : Surroundings) : Nat → Run → List Document
  | 0, _ => []
  | n + 1, r =>
    (r.stage.finished? (r.advance o env).stage).toList ++ finishes o env n (r.advance o env)

section

variable (o : Options) (env : Surroundings) (s : Store)

/-- Whether a run gets as far as to make documents stale: its scope is known and there are
documents. -/
def Ready : Prop := (∃ scope, o.selector.scope s = .ok scope) ∧ Table.documents ∉ s.missing

structure Waits (r : Run) (durable : Store) : Prop extends Rests r durable where
  pending : r.session.pending = 0

structure Prepares (scope : Scope) : Prop where
  resolved : o.selector.scope s = .ok scope
  documents : Table.documents ∉ s.missing

/-- How the candidates divide; those that are indexed have been asked for, in this order. -/
structure Asks (scope : Scope) (r : Run) (trail : Trail) (rest : List Document) : Prop
    extends Prepares o s scope where
  found : candidates (preparedStore o s scope) o.selector scope = r.asked ++ rest
  indexed : trail.indexed.Sublist r.asked

structure Works (scope : Scope) (r : Run) (trail : Trail) (rest : List Document)
    (toPrune : List Nat) : Prop extends Asks o s scope r trail rest where
  seen : Seen o env scope (preparedStore o s scope) trail r.session
  /-- Without writes from outside, every candidate that can be loaded is indexed. -/
  answered : (∀ n, env.outside n = []) → ∀ d ∈ r.asked, (env.load d).isSome = true →
    d ∈ trail.indexed
  within : ∀ seq ∈ toPrune, scope.contains seq = true
  covered : ∀ seq, scope.contains seq = true → 1 < (r.session.view.entriesOf seq).length →
    seq ∈ toPrune

/-- A run that could not go on. Its open moves are lost. -/
def Aborts (r : Run) (trail : Trail) : Prop :=
  r.session.view = r.session.durable ∧
    (trail = .start ∧ r.asked = [] ∧ r.session.durable = s ∧ ¬ Ready o s ∨
      ∃ scope rest, Asks o s scope r trail rest ∧
        Stored o env scope (preparedStore o s scope) trail r.session ∧ s.missing ≠ [])

def Leaves (r : Run) (trail : Trail) : Prop :=
  match r.stage with
  | .beginning => trail = .start ∧ Waits r s
  | .scoped scope => trail = .start ∧ Waits r s ∧ o.selector.scope s = .ok scope
  | .noted scope _ => trail = .start ∧ Waits r s ∧ Prepares o s scope
  | .prepared scope _ => trail = .start ∧ Waits r (preparedStore o s scope) ∧ Prepares o s scope
  | .selected scope _ found =>
    trail = .start ∧ Waits r (preparedStore o s scope) ∧ Prepares o s scope ∧
      found = candidates (preparedStore o s scope) o.selector scope
  | .indexing _ left toPrune tally =>
    (∃ scope, Works o env s scope r trail left toPrune) ∧ tally.processed = r.asked.length
  | .pruning left _ _ _ _ =>
    ∃ scope rest, Works o env s scope r trail rest left ∧ Stopped env r rest
  | .finished _ =>
    ∃ scope rest, Works o env s scope r trail rest [] ∧ Stopped env r rest ∧ trail.loose = []
  | .failed _ => Aborts o env s r trail

def Continues (before after : Run) (trail : Trail) : Prop :=
  ∃ trail', Leaves o env s after trail' ∧
    trail'.indexed = trail.indexed ++ (before.stage.finished? after.stage).toList

end

variable {o : Options} {env : Surroundings} {scope : Scope} {base : Store} {trail : Trail}
  {w : Session} {s : Store} {r : Run}

theorem Continues.same {before after : Run} {trail' : Trail}
    (h : Leaves o env s after trail') (hindexed : trail'.indexed = trail.indexed)
    (hnone : before.stage.finished? after.stage = none) : Continues o env s before after trail :=
  ⟨trail', h, by simp [hnone, hindexed]⟩

theorem Seen.missing (h : Seen o env scope (preparedStore o s scope) trail w) :
    w.view.missing = s.missing := by
  rw [h.view, missing_replay, missing_preparedStore]

/-! ### Up to the candidates -/

theorem leaves_resolve (h : Waits r s) : Leaves o env s (r.resolve o) .start := by
  unfold Run.resolve
  have hdurable : (r.report .selecting).session.durable = s := h.durable
  dsimp only
  rw [hdurable]
  cases hscope : o.selector.scope s with
  | error e =>
      refine ⟨rfl, .inl ⟨rfl, h.asked, h.durable, fun hready => ?_⟩⟩
      obtain ⟨scope, hok⟩ := hready.1
      rw [hscope] at hok
      cases hok
  | ok scope => exact ⟨rfl, ⟨⟨h.asked, h.uncommitted, h.durable⟩, h.pending⟩, hscope⟩

theorem leaves_note (hscope : o.selector.scope s = .ok scope) (h : Waits r s) :
    Leaves o env s (r.note scope) .start := by
  unfold Run.note Run.proceed
  rw [h.durable]
  dsimp only
  split
  · next hneeding =>
      have hpresent := not_mem_missing_of_needing_ok hneeding .documents (by simp)
      exact ⟨rfl, ⟨⟨h.asked, h.uncommitted, h.durable⟩, h.pending⟩, hscope, hpresent⟩
  · next hneeding =>
      have hmissing : Table.documents ∈ s.missing := mem_missing_of_needing_error hneeding
      exact ⟨rfl, .inl ⟨rfl, h.asked, h.durable, fun hready => hready.2 hmissing⟩⟩

theorem leaves_prepare (hprepares : Prepares o s scope) (h : Waits r s) (had : List Nat) :
    Leaves o env s (r.prepare o scope had) .start := by
  unfold Run.prepare
  cases hforce : o.force with
  | false =>
      have hsame : preparedStore o s scope = s := by simp [preparedStore, hforce]
      simp only [Bool.false_eq_true, if_false]
      exact ⟨rfl, ⟨⟨h.asked, h.uncommitted, h.durable.trans hsame.symm⟩, h.pending⟩, hprepares⟩
  | true =>
      have hsame : preparedStore o s scope = Run.unindexed s scope := by
        simp [preparedStore, hforce]
      simp only [if_true]
      rw [h.view]
      split
      · next written hneeding =>
          have hwritten : written = preparedStore o s scope :=
            (of_needing_ok hneeding).trans hsame.symm
          exact ⟨rfl, ⟨⟨h.asked, rfl, hwritten⟩, rfl⟩, hprepares⟩
      · next hneeding =>
          exact absurd (mem_missing_of_needing_error hneeding) hprepares.documents

theorem leaves_select (hprepares : Prepares o s scope) (h : Waits r (preparedStore o s scope))
    (had : List Nat) : Leaves o env s (r.select o scope had) .start := by
  unfold Run.select Run.proceed
  rw [h.durable]
  dsimp only
  split
  · next hneeding =>
      have hfound := of_needing_ok hneeding
      exact ⟨rfl, ⟨⟨h.asked, h.uncommitted, h.durable⟩, h.pending⟩, hprepares, hfound⟩
  · next hneeding =>
      have hmissing := mem_missing_of_needing_error hneeding
      rw [missing_preparedStore] at hmissing
      exact absurd hmissing hprepares.documents

theorem leaves_collect (hprepares : Prepares o s scope) (h : Waits r (preparedStore o s scope))
    (had : List Nat) :
    Leaves o env s (r.collect scope had (candidates (preparedStore o s scope) o.selector scope))
      .start := by
  have hseen : Seen o env scope (preparedStore o s scope) .start r.session :=
    seen_start h.durable h.uncommitted h.pending
  have hasks : Asks o s scope r .start
      (candidates (preparedStore o s scope) o.selector scope) :=
    ⟨hprepares, by rw [h.asked]; rfl, List.nil_sublist _⟩
  unfold Run.collect Run.proceed
  rw [h.durable]
  dsimp only
  split
  · next toPrune hneeding =>
      have htoPrune := of_needing_ok hneeding
      refine ⟨⟨scope, ⟨hprepares, hasks.found, hasks.indexed⟩, hseen, fun _ d hd => ?_,
        fun seq hseq => ?_, fun seq hscope hmany => ?_⟩, ?_⟩
      · rw [show _ = ([] : List Document) from h.asked] at hd
        cases hd
      · rw [htoPrune] at hseq
        exact (List.mem_filter.mp hseq).2
      · rw [show _ = preparedStore o s scope from h.view] at hmany
        rw [htoPrune]
        exact List.mem_filter.mpr ⟨Store.mem_owners_duplicates.mpr hmany, hscope⟩
      · exact (congrArg List.length h.asked).symm
  · next hneeding =>
      obtain ⟨table, -, hmissing⟩ := exists_mem_missing_of_needing_error hneeding
      rw [missing_preparedStore] at hmissing
      exact ⟨rfl, .inr ⟨scope, _, ⟨hprepares, hasks.found, hasks.indexed⟩,
        ⟨hseen.durable, hseen.legal, hseen.few⟩, List.ne_nil_of_mem hmissing⟩⟩

/-! ### The candidates -/

inductive Dealt (o : Options) (env : Surroundings) (r : Run) (had : List Nat) (d : Document)
    (left : List Document) (toPrune : SeqSet) (tally : Tally) (r' : Run) : Prop
  | passed
      (hstage : r'.stage = .indexing had left toPrune { tally with failed := tally.failed + 1 })
      (hsame : r'.session = r.session ∨ r'.session = r.session.write r.session.view)
      (hnone : env.load d = none ∨ (r.session.view.findSeq? d.seq).isSome = false)
  | indexed {m : Message} {toPrune' : SeqSet}
      (hstage : r'.stage =
        .indexing had left toPrune' { tally with indexed := tally.indexed + 1 })
      (htoPrune : toPrune' = if !(r.session.view.entriesOf d.seq).isEmpty || had.contains d.seq then
        toPrune.insert d.seq else toPrune)
      (hsession : r'.session =
        (r.session.write ((Move.index d m).apply o env r.session.view)).finishOne o.commitInterval)
      (hallowed : ∀ scope, (Move.index d m).Allowed env scope r.session.view)
  | failed {e : Error} (hstage : r'.stage = .failed e) (hsession : r'.session = r.session.rollback)
      (htables : r.session.view.missing ≠ [])

theorem dealt_indexNext (o : Options) (env : Surroundings) (r : Run) (had : List Nat)
    (d : Document) (left : List Document) (toPrune : SeqSet) (tally : Tally) :
    Dealt o env r had d left toPrune tally (r.indexNext o env had d left toPrune tally) ∧
      (r.indexNext o env had d left toPrune tally).asked = r.asked ++ [d] := by
  unfold Run.indexNext
  dsimp only
  cases hload : env.load d with
  | none => exact ⟨.passed rfl (.inl rfl) (.inl hload), rfl⟩
  | some m =>
      dsimp only
      cases hneeding : r.session.view.needing (Run.tablesFor r.session.view d)
          (Run.indexed? o env.now r.session.view d m) with
      | error f =>
          obtain ⟨table, -, hmissing⟩ := exists_mem_missing_of_needing_error hneeding
          exact ⟨.failed rfl rfl (List.ne_nil_of_mem hmissing), rfl⟩
      | ok result =>
          have hresult := of_needing_ok hneeding
          have hpresent := not_mem_missing_of_needing_ok hneeding
          unfold Run.indexed? at hresult
          unfold Run.tablesFor at hpresent
          cases hfind : (r.session.view.findSeq? d.seq).isSome with
          | false =>
              rw [hfind] at hresult
              subst hresult
              exact ⟨.passed rfl (.inr rfl) (.inr hfind), rfl⟩
          | true =>
              rw [hfind] at hresult hpresent
              subst hresult
              have htables : r.session.view.missing = [] := by
                refine List.eq_nil_iff_forall_not_mem.mpr fun table => ?_
                cases table <;> exact hpresent _ (by simp)
              exact ⟨.indexed rfl rfl rfl fun _ => ⟨hload, hfind, htables⟩, rfl⟩

theorem findSeq?_isSome_replay (hout : ∀ n, env.outside n = []) {moves : List Move}
    (hlegal : Legal o env scope base moves) (seq : Nat) :
    ((replay o env base moves).findSeq? seq).isSome = (base.findSeq? seq).isSome := by
  have hseqs := seqs_of_places (places_replay hout hlegal)
  have hmem : ∀ s : Store, (s.findSeq? seq).isSome = true ↔ seq ∈ s.documents.map (·.seq) := by
    intro s
    rw [findSeq?_isSome, List.mem_map]
  rw [Bool.eq_iff_iff, hmem, hmem, hseqs]

theorem findSeq?_isSome_of_found {d : Document} {front rest : List Document} {s : Store}
    {selector : Selector} (h : candidates s selector scope = front ++ d :: rest) :
    (s.findSeq? d.seq).isSome = true := by
  have hd : d ∈ candidates s selector scope := by simp [h]
  exact findSeq?_isSome.mpr ⟨d, (List.mem_filter.mp hd).1, rfl⟩

theorem contains_of_found {d : Document} {front rest : List Document} {s : Store}
    {selector : Selector} (h : candidates s selector scope = front ++ d :: rest) :
    scope.contains d.seq = true := by
  have hd : d ∈ candidates s selector scope := by simp [h]
  have hwanted := (List.mem_filter.mp hd).2
  simp only [Bool.and_eq_true] at hwanted
  exact hwanted.1.2

variable {d : Document} {rest : List Document} {toPrune : SeqSet}

theorem asked_interfere (r : Run) (writes : List OutsideWrite) :
    (r.interfere writes).asked = r.asked := by
  unfold Run.interfere
  cases r.session.uncommitted <;> rfl

theorem Asks.next (h : Asks o s scope r trail (d :: rest)) {r' : Run} {trail' : Trail}
    (hasked : r'.asked = r.asked ++ [d])
    (hindexed : trail'.indexed.Sublist (r.asked ++ [d])) : Asks o s scope r' trail' rest where
  toPrepares := h.toPrepares
  found := by
    rw [h.found, hasked, List.append_assoc]
    rfl
  indexed := by
    rw [hasked]
    exact hindexed

theorem Works.same (h : Works o env s scope r trail rest toPrune) {r' : Run} {trail' : Trail}
    {toPrune' : List Nat} (hasked : r'.asked = r.asked) (hindexed : trail'.indexed = trail.indexed)
    (hseen : Seen o env scope (preparedStore o s scope) trail' r'.session)
    (hwithin : toPrune' ⊆ toPrune)
    (hcovered : ∀ seq, scope.contains seq = true →
      1 < (r'.session.view.entriesOf seq).length → seq ∈ toPrune') :
    Works o env s scope r' trail' rest toPrune' where
  toPrepares := h.toPrepares
  found := by
    rw [hasked]
    exact h.found
  indexed := by
    rw [hasked, hindexed]
    exact h.indexed
  seen := hseen
  answered := by
    rw [hasked, hindexed]
    exact h.answered
  within := fun seq hseq => h.within seq (hwithin hseq)
  covered := hcovered

theorem Works.interfere (h : Works o env s scope r trail rest toPrune)
    {writes : List OutsideWrite} (hwrites : ∀ write ∈ writes, ∃ n, write ∈ env.outside n) :
    ∃ trail', trail'.indexed = trail.indexed ∧
      Works o env s scope (r.interfere writes) trail' rest toPrune := by
  obtain ⟨trail', hindexed, hseen, hentries⟩ := h.seen.interfere hwrites
  have hcovered : ∀ seq, scope.contains seq = true →
      1 < ((r.interfere writes).session.view.entriesOf seq).length → seq ∈ toPrune := by
    intro seq hscope hmany
    rw [hentries] at hmany
    exact h.covered seq hscope hmany
  exact ⟨trail', hindexed,
    h.same (asked_interfere r writes) hindexed hseen (List.Subset.refl _) hcovered⟩

theorem Works.pass (h : Works o env s scope r trail (d :: rest) toPrune) {r' : Run}
    (hasked : r'.asked = r.asked ++ [d])
    (hsame : r'.session = r.session ∨ r'.session = r.session.write r.session.view)
    (hnone : env.load d = none ∨ (r.session.view.findSeq? d.seq).isSome = false) :
    Works o env s scope r' trail rest toPrune where
  toAsks := h.toAsks.next hasked (h.indexed.trans (List.sublist_append_left _ _))
  seen := by
    rcases hsame with hsame | hsame
    · rw [hsame]
      exact h.seen
    · rw [hsame]
      exact h.seen.write_view
  answered := by
    intro hout e he hload
    rw [hasked] at he
    rcases List.mem_append.mp he with he | he
    · exact h.answered hout e he hload
    · rw [List.mem_singleton.mp he] at hload
      rcases hnone with hnone | hgone
      · rw [hnone] at hload
        cases hload
      · -- Nobody has deleted its document.
        rw [h.seen.view, findSeq?_isSome_replay hout h.seen.legal,
          findSeq?_isSome_of_found h.found] at hgone
        cases hgone
  within := h.within
  covered := by
    have hview : r'.session.view = r.session.view := by
      rcases hsame with hsame | hsame
      · rw [hsame]
      · rw [hsame]
        rfl
    rw [hview]
    exact h.covered

theorem Works.index (h : Works o env s scope r trail (d :: rest) toPrune) {m : Message}
    (hallowed : (Move.index d m).Allowed env scope r.session.view) {r' : Run}
    (hasked : r'.asked = r.asked ++ [d])
    (hsession : r'.session =
      (r.session.write ((Move.index d m).apply o env r.session.view)).finishOne o.commitInterval)
    (had : List Nat) :
    ∃ trail', trail'.indexed = trail.indexed ++ [d] ∧
      Works o env s scope r' trail' rest
        (if !(r.session.view.entriesOf d.seq).isEmpty || had.contains d.seq then
          toPrune.insert d.seq else toPrune) := by
  obtain ⟨trail', hall, hseen⟩ := h.seen.add hallowed
  have hindexed : trail'.indexed = trail.indexed ++ [d] := by
    unfold Trail.indexed
    rw [hall, List.filterMap_append]
    rfl
  have hview : r'.session.view = (Move.index d m).apply o env r.session.view := by
    rw [hsession]
    exact Session.view_finishOne _ _
  have hasks : Asks o s scope r' trail' rest := by
    refine h.toAsks.next hasked ?_
    rw [hindexed]
    exact h.indexed.append (List.Sublist.refl _)
  refine ⟨trail', hindexed, hasks, hsession ▸ hseen, ?_, ?_, ?_⟩
  · intro hout e he hload
    rw [hasked] at he
    rw [hindexed]
    rcases List.mem_append.mp he with he | he
    · exact List.mem_append_left _ (h.answered hout e he hload)
    · exact List.mem_append_right _ he
  · intro seq hseq
    rcases mem_grown.mp hseq with hseq | ⟨rfl, -⟩
    · exact h.within seq hseq
    · exact contains_of_found h.found
  · intro seq hscope hmany
    rw [hview, (adds_index hallowed.2.1 m).entriesOf] at hmany
    rw [mem_grown]
    by_cases hseq : seq = d.seq
    · -- It has more than the new entry, so it had some before.
      subst hseq
      rw [if_pos rfl, List.length_append, List.length_singleton] at hmany
      have hsome : (r.session.view.entriesOf d.seq).isEmpty = false := by
        rw [List.isEmpty_eq_false_iff]
        exact List.ne_nil_of_length_pos (by omega)
      exact .inr ⟨rfl, by simp [hsome]⟩
    · rw [if_neg hseq, List.append_nil] at hmany
      exact .inl (h.covered seq hscope hmany)

theorem Works.abort (h : Works o env s scope r trail rest toPrune) {r' : Run}
    (hsession : r'.session = r.session.rollback) (hasked : r.asked <+: r'.asked)
    (hfound : r'.asked <+: r.asked ++ rest) (htables : r.session.view.missing ≠ []) :
    Aborts o env s r' trail := by
  obtain ⟨rest', hrest'⟩ := hfound
  refine ⟨?_, .inr ⟨scope, rest', ⟨⟨h.resolved, h.documents⟩, ?_, ?_⟩, ?_, ?_⟩⟩
  · rw [hsession]
    rfl
  · rw [h.found, hrest']
  · exact h.indexed.trans hasked.sublist
  · rw [hsession]
    exact ⟨h.seen.durable, h.seen.legal, h.seen.few⟩
  · rw [← h.seen.missing]
    exact htables

theorem Works.indexNext {had : List Nat} {tally : Tally}
    (h : Works o env s scope r trail (d :: rest) toPrune)
    (hbefore : r.stage = .indexing had (d :: rest) toPrune tally)
    (hprocessed : tally.processed = r.asked.length) :
    Continues o env s r (r.indexNext o env had d rest toPrune tally) trail := by
  obtain ⟨hdealt, hasked⟩ := dealt_indexNext o env r had d rest toPrune tally
  generalize r.indexNext o env had d rest toPrune tally = r' at hdealt hasked ⊢
  have hlength : r'.asked.length = r.asked.length + 1 := by
    rw [hasked, List.length_append, List.length_singleton]
  unfold Tally.processed at hprocessed
  cases hdealt with
  | passed hstage hsame hnone =>
      refine ⟨trail, ?_, ?_⟩
      · unfold Leaves
        rw [hstage]
        refine ⟨⟨scope, h.pass hasked hsame hnone⟩, ?_⟩
        simp only [Tally.processed]
        omega
      · rw [hbefore, hstage]
        simp [Stage.finished?]
  | indexed hstage htoPrune hsession hallowed =>
      obtain ⟨trail', hindexed, hworks⟩ := h.index (hallowed scope) hasked hsession had
      refine ⟨trail', ?_, ?_⟩
      · unfold Leaves
        rw [hstage]
        refine ⟨⟨scope, htoPrune ▸ hworks⟩, ?_⟩
        simp only [Tally.processed]
        omega
      · rw [hbefore, hstage, hindexed]
        simp [Stage.finished?]
  | failed hstage hsession htables =>
      have hprefix : r'.asked <+: r.asked ++ d :: rest := by
        rw [hasked]
        exact ⟨rest, List.append_assoc _ _ _⟩
      refine ⟨trail, ?_, ?_⟩
      · unfold Leaves
        rw [hstage]
        exact h.abort hsession (hasked ▸ List.prefix_append _ _) hprefix htables
      · rw [hbefore, hstage]
        simp [Stage.finished?]

/-! ### Superseded entries -/

theorem Works.commit (h : Works o env s scope r trail rest toPrune) {r' : Run}
    (hasked : r'.asked = r.asked) (hsession : r'.session = r.session.commit) :
    Works o env s scope r' ⟨trail.all, []⟩ rest toPrune := by
  have hview : r'.session.view = r.session.view := by
    rw [hsession]
    exact Session.view_commit _
  have hseen : Seen o env scope (preparedStore o s scope) ⟨trail.all, []⟩ r'.session :=
    hsession ▸ h.seen.commit
  exact h.same hasked trail.indexed_commit hseen (List.Subset.refl _) (hview ▸ h.covered)

theorem Seen.numbered (hs : s.Numbered) (h : Seen o env scope (preparedStore o s scope) trail w) :
    w.view.Numbered := by
  rw [h.view]
  exact numbered_replay (numbered_preparedStore hs) _

inductive Pruned (o : Options) (r : Run) (seq : Nat) (left : List Nat) (total : Nat) (paused : Bool)
    (tally : Tally) (r' : Run) : Prop
  | done {pruned : Nat} (hstage : r'.stage = .pruning left total paused tally pruned)
      (hsession : r'.session =
        (r.session.write (r.session.view.prune seq).1).finishOne o.commitInterval)
      (hentries : Table.entries ∉ r.session.view.missing)
      (hindex : r.session.view.superseded seq = [] ∨ Table.fullText ∉ r.session.view.missing)
  | failed {e : Error} (hstage : r'.stage = .failed e) (hsession : r'.session = r.session.rollback)
      (htables : r.session.view.missing ≠ [])

theorem pruned_pruneNext (o : Options) (r : Run) (seq : Nat) (left : List Nat) (total : Nat)
    (paused : Bool) (tally : Tally) (pruned : Nat) :
    Pruned o r seq left total paused tally (r.pruneNext o seq left total paused tally pruned) ∧
      (r.pruneNext o seq left total paused tally pruned).asked = r.asked := by
  unfold Run.pruneNext
  cases hprune : Statement.prune seq r.session.view with
  | mk result after =>
      cases result with
      | error f => exact ⟨.failed rfl rfl (missing_of_prune_error hprune), rfl⟩
      | ok count =>
          obtain ⟨hentries, hindex⟩ := tables_of_prune_ok hprune
          rw [of_prune_ok hprune]
          exact ⟨.done rfl rfl hentries hindex, rfl⟩

/-- The document whose superseded entries are taken out has one entry at most. -/
theorem Works.prune (hs : s.Numbered) {seq : Nat} {left : List Nat}
    (h : Works o env s scope r trail rest (seq :: left))
    (hentries : Table.entries ∉ r.session.view.missing)
    (hindex : r.session.view.superseded seq = [] ∨ Table.fullText ∉ r.session.view.missing)
    {r' : Run} (hasked : r'.asked = r.asked) (hsession : r'.session =
      (r.session.write (r.session.view.prune seq).1).finishOne o.commitInterval) :
    ∃ trail', trail'.indexed = trail.indexed ∧ Works o env s scope r' trail' rest left := by
  have hdocuments : Table.documents ∉ r.session.view.missing := by
    rw [h.seen.missing]
    exact h.documents
  have hallowed : (Move.prune seq).Allowed env scope r.session.view := by
    refine ⟨h.within seq List.mem_cons_self, hindex.imp_right fun hindex => ?_⟩
    refine List.eq_nil_iff_forall_not_mem.mpr fun table => ?_
    cases table <;> assumption
  obtain ⟨trail', hall, hseen⟩ := h.seen.add hallowed
  have hindexed : trail'.indexed = trail.indexed := by
    unfold Trail.indexed
    rw [hall, List.filterMap_append]
    exact List.append_nil _
  have hview : r'.session.view = (r.session.view.prune seq).1 := by
    rw [hsession]
    exact Session.view_finishOne _ _
  refine ⟨trail', hindexed, h.same hasked hindexed (hsession ▸ hseen) (List.subset_cons_self _ _) ?_⟩
  intro q hq hmany
  rw [hview, (h.seen.numbered hs).entriesOf_prune] at hmany
  by_cases hsame : q = seq
  · rw [if_pos hsame] at hmany
    exact absurd hmany (Nat.not_lt.mpr Option.length_toList_le)
  · rw [if_neg hsame] at hmany
    exact (List.mem_cons.mp (h.covered q hq hmany)).resolve_left hsame

theorem Works.pruneNext (hs : s.Numbered) {seq total pruned : Nat} {left : List Nat} {paused : Bool}
    {tally : Tally} (h : Works o env s scope r trail rest (seq :: left))
    (hstopped : Stopped env r rest)
    (hbefore : r.stage = .pruning (seq :: left) total paused tally pruned) :
    Continues o env s r (r.pruneNext o seq left total paused tally pruned) trail := by
  have hnone : ∀ stage, r.stage.finished? stage = none := by
    rw [hbefore]
    exact fun _ => rfl
  obtain ⟨hpruned, hasked⟩ := pruned_pruneNext o r seq left total paused tally pruned
  generalize r.pruneNext o seq left total paused tally pruned = r' at hpruned hasked ⊢
  cases hpruned with
  | done hstage hsession hentries hindex =>
      obtain ⟨trail', hindexed, hworks⟩ := h.prune hs hentries hindex hasked hsession
      have hleaves : Leaves o env s r' trail' := by
        unfold Leaves Stopped
        rw [hstage, hasked]
        exact ⟨scope, rest, hworks, hstopped⟩
      exact .same hleaves hindexed (hnone _)
  | failed hstage hsession htables =>
      have hleaves : Leaves o env s r' trail := by
        unfold Leaves
        rw [hstage]
        exact h.abort hsession (hasked ▸ List.prefix_refl _) (hasked ▸ List.prefix_append _ _)
          htables
      exact .same hleaves rfl (hnone _)

/-! ### Runs -/

/-- Every step goes on with the trail. -/
theorem Leaves.step (hs : s.Numbered) (h : Leaves o env s r trail) :
    Continues o env s r (r.step o env) trail := by
  have hsame := h
  unfold Leaves at h
  unfold Run.step
  cases hstage : r.stage with
  | beginning =>
      rw [hstage] at h
      obtain ⟨rfl, hwaits⟩ := h
      exact .same (leaves_resolve hwaits) rfl (by rw [hstage]; rfl)
  | «scoped» scope =>
      rw [hstage] at h
      obtain ⟨rfl, hwaits, hscope⟩ := h
      exact .same (leaves_note hscope hwaits) rfl (by rw [hstage]; rfl)
  | noted scope had =>
      rw [hstage] at h
      obtain ⟨rfl, hwaits, hprepares⟩ := h
      exact .same (leaves_prepare hprepares hwaits had) rfl (by rw [hstage]; rfl)
  | prepared scope had =>
      rw [hstage] at h
      obtain ⟨rfl, hwaits, hprepares⟩ := h
      exact .same (leaves_select hprepares hwaits had) rfl (by rw [hstage]; rfl)
  | selected scope had found =>
      rw [hstage] at h
      obtain ⟨rfl, hwaits, hprepares, rfl⟩ := h
      exact .same (leaves_collect hprepares hwaits had) rfl (by rw [hstage]; rfl)
  | indexing had left toPrune tally =>
      rw [hstage] at h
      obtain ⟨⟨scope, hworks⟩, hprocessed⟩ := h
      cases left with
      | nil =>
          exact .same ⟨scope, [], hworks.commit rfl rfl, .inl rfl⟩ trail.indexed_commit
            (by rw [hstage]; rfl)
      | cons d left =>
          cases hcancelled : env.cancelled tally.processed with
          | true =>
              have hstopped : env.cancelled r.asked.length = true := hprocessed ▸ hcancelled
              simp only [hcancelled, if_true]
              exact .same ⟨scope, d :: left, hworks.commit rfl rfl, .inr hstopped⟩
                trail.indexed_commit (by rw [hstage]; rfl)
          | false =>
              simp only [hcancelled, Bool.false_eq_true, if_false]
              exact hworks.indexNext hstage hprocessed
  | pruning left total paused tally pruned =>
      rw [hstage] at h
      obtain ⟨scope, rest, hworks, hstopped⟩ := h
      cases left with
      | nil =>
          exact .same ⟨scope, rest, hworks.commit rfl rfl, hstopped, rfl⟩ trail.indexed_commit
            (by rw [hstage]; rfl)
      | cons seq left => exact hworks.pruneNext hs hstopped hstage
  | finished report => exact .same hsame rfl (by rw [hstage]; rfl)
  | failed e => exact .same hsame rfl (by rw [hstage]; rfl)

theorem Leaves.interfere (h : Leaves o env s r trail) :
    ∃ trail', Leaves o env s (r.interfere (r.outsideBefore env)) trail' ∧
      trail'.indexed = trail.indexed := by
  have hwrites : ∀ write ∈ r.outsideBefore env, ∃ n, write ∈ env.outside n :=
    fun write hwrite => mem_outsideBefore hwrite
  cases hstage : r.stage with
  | indexing had left toPrune tally =>
      have hafter : (r.interfere (r.outsideBefore env)).stage =
          .indexing had left toPrune tally := by
        rw [Run.stage_interfere, hstage]
      unfold Leaves at h
      rw [hstage] at h
      obtain ⟨⟨scope, hworks⟩, hprocessed⟩ := h
      obtain ⟨trail', hindexed, hworks'⟩ := hworks.interfere hwrites
      refine ⟨trail', ?_, hindexed⟩
      unfold Leaves
      rw [hafter, asked_interfere]
      exact ⟨⟨scope, hworks'⟩, hprocessed⟩
  | _ =>
      have hnone : r.outsideBefore env = [] := by
        unfold Run.outsideBefore
        rw [hstage]
      rw [hnone, interfere_nil]
      exact ⟨trail, h, rfl⟩

theorem Leaves.advance (hs : s.Numbered) (h : Leaves o env s r trail) :
    Continues o env s r (r.advance o env) trail := by
  obtain ⟨trail', hbetween, hindexed⟩ := h.interfere
  obtain ⟨after, hafter, hgrown⟩ := hbetween.step hs
  rw [Run.stage_interfere, hindexed] at hgrown
  exact ⟨after, hafter, hgrown⟩

theorem Leaves.advances (hs : s.Numbered) (h : Leaves o env s r trail) (n : Nat) :
    ∃ trail', Leaves o env s (Run.advances o env n r) trail' ∧
      trail'.indexed = trail.indexed ++ Run.finishes o env n r := by
  induction n generalizing r trail with
  | zero => exact ⟨trail, h, (List.append_nil _).symm⟩
  | succ n ih =>
      obtain ⟨between, hbetween, hone⟩ := h.advance hs
      obtain ⟨after, hafter, hmore⟩ := ih hbetween
      refine ⟨after, hafter, ?_⟩
      rw [hmore, hone, List.append_assoc]
      rfl

theorem leaves_start (o : Options) (env : Surroundings) (s : Store) :
    Leaves o env s (Run.start s) .start := ⟨rfl, ⟨rfl, rfl, rfl⟩, rfl⟩

/-- After any number of steps there is a trail of what has been finished. -/
theorem exists_trail (o : Options) (env : Surroundings) (hs : s.Numbered) (n : Nat) :
    ∃ trail, Leaves o env s (Run.advances o env n (Run.start s)) trail ∧
      trail.indexed = Run.finishes o env n (Run.start s) :=
  (leaves_start o env s).advances hs n

end MailIndex.Reindex
