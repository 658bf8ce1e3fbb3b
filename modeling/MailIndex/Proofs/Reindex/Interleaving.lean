import MailIndex.Proofs.Reindex.Course

/-!
# Runs amid other writers

Others may write before every step of a run, whatever the step reads, loads or writes, unless a
transaction is open. A step writes at most one thing: it takes hashes away, indexes a candidate whose
document is there, or takes superseded entries out. So a property that these writes and the writes of
others keep is true at every step, of what is durable and of what the run sees.
-/

namespace MailIndex.Reindex

/-- A run on a store after so many steps, others having written before each of them. -/
def Run.amid (o : Options) (env : Surroundings) (writes : Nat → List OutsideWrite) (s : Store) :
    Nat → Run
  | 0 => start s
  | n + 1 => ((amid o env writes s n).interfere (writes n)).step o env

/-- The candidates that a run has counted as indexed after so many steps. -/
def Run.finishesAmid (o : Options) (env : Surroundings) (writes : Nat → List OutsideWrite)
    (s : Store) : Nat → List Document
  | 0 => []
  | n + 1 => finishesAmid o env writes s n ++
    ((amid o env writes s n).stage.finished? (amid o env writes s (n + 1)).stage).toList

variable {o : Options} {env : Surroundings} {writes : Nat → List OutsideWrite} {s : Store}

theorem advances_succ (o : Options) (env : Surroundings) (n : Nat) (r : Run) :
    Run.advances o env (n + 1) r = (Run.advances o env n r).advance o env := by
  induction n generalizing r with
  | zero => rfl
  | succ n ih =>
      show Run.advances o env (n + 1) (r.advance o env) = _
      rw [ih]
      rfl

/-! ## The order of the stages -/

inductive Stage.Next : Stage → Stage → Prop
  | failed {before : Stage} {e : Error} : Next before (.failed e)
  | «scoped» {scope : Scope} : Next .beginning (.scoped scope)
  | noted {scope : Scope} {had : List Nat} : Next (.scoped scope) (.noted scope had)
  | prepared {scope : Scope} {had : List Nat} : Next (.noted scope had) (.prepared scope had)
  | selected {scope : Scope} {had : List Nat} {found : List Document} :
    Next (.prepared scope had) (.selected scope had found)
  | collected {scope : Scope} {had : List Nat} {found : List Document} {toPrune : SeqSet}
    {tally : Tally} : Next (.selected scope had found) (.indexing had found toPrune tally)
  | dealt {had : List Nat} {d : Document} {left : List Document} {toPrune toPrune' : SeqSet}
    {tally tally' : Tally} :
    Next (.indexing had (d :: left) toPrune tally) (.indexing had left toPrune' tally')
  | indexed {had : List Nat} {left : List Document} {toPrune : SeqSet} {tally : Tally}
    {seqs : List Nat} {total : Nat} {paused : Bool} :
    Next (.indexing had left toPrune tally) (.pruning seqs total paused tally 0)
  | pruned {seq : Nat} {left : List Nat} {total : Nat} {paused : Bool} {tally : Tally}
    {pruned pruned' : Nat} : Next (.pruning (seq :: left) total paused tally pruned)
      (.pruning left total paused tally pruned')
  | concluded {total : Nat} {paused : Bool} {tally : Tally} {pruned : Nat} {report : Report} :
    Next (.pruning [] total paused tally pruned) (.finished report)
  | ended {report : Report} : Next (.finished report) (.finished report)

theorem Stage.Next.of_failed {e : Error} {after : Stage} (h : Stage.Next (.failed e) after) :
    ∃ e', after = .failed e' := by
  cases h
  exact ⟨_, rfl⟩

theorem next_proceed {α : Type} {before : Stage} {r : Run} {result : Except Failure α}
    {next : α → Stage} (h : ∀ a, before.Next (next a)) :
    before.Next (r.proceed result next).stage := by
  cases result with
  | ok a => exact h a
  | error f => exact .failed

theorem next_step (o : Options) (env : Surroundings) (r : Run) :
    r.stage.Next (r.step o env).stage := by
  unfold Run.step
  cases hstage : r.stage with
  | beginning =>
      show Stage.beginning.Next (r.resolve o).stage
      unfold Run.resolve
      dsimp only
      split
      · exact .scoped
      · exact .failed
  | «scoped» scope => exact next_proceed fun _ => .noted
  | noted scope had =>
      show (Stage.noted scope had).Next (r.prepare o scope had).stage
      unfold Run.prepare
      split
      · split
        · exact .prepared
        · exact .failed
      · exact .prepared
  | prepared scope had => exact next_proceed fun _ => .selected
  | selected scope had found => exact next_proceed fun _ => .collected
  | indexing had left toPrune tally =>
      cases left with
      | nil => exact .indexed
      | cons d left =>
          dsimp only
          split
          · exact .indexed
          · cases (dealt_indexNext o env r had d left toPrune tally).1 with
            | passed hafter _ _ =>
                rw [hafter]
                exact .dealt
            | indexed hafter _ _ _ =>
                rw [hafter]
                exact .dealt
            | failed hafter _ _ =>
                rw [hafter]
                exact .failed
  | pruning left total paused tally pruned =>
      cases left with
      | nil => exact .concluded
      | cons seq left =>
          show Stage.Next _ (r.pruneNext o seq left total paused tally pruned).stage
          cases (pruned_pruneNext o r seq left total paused tally pruned).1 with
          | done hafter _ _ _ =>
              rw [hafter]
              exact .pruned
          | failed hafter _ _ =>
              rw [hafter]
              exact .failed
  | finished report =>
      show Stage.Next _ r.stage
      rw [hstage]
      exact .ended
  | failed e =>
      show Stage.Next _ r.stage
      rw [hstage]
      exact .failed

/-! ## What a step writes -/

/-- The stores that a step puts in place of what the run sees. -/
inductive Written (o : Options) (env : Surroundings) (r : Run) : Store → Prop
  | unindexed {scope : Scope} {had : List Nat} (hstage : r.stage = .noted scope had) :
    Written o env r (Run.unindexed r.session.view scope)
  | indexed {had : List Nat} {d : Document} {left : List Document} {toPrune : SeqSet}
    {tally : Tally} {m : Message} (hstage : r.stage = .indexing had (d :: left) toPrune tally)
    (hpresent : (r.session.view.findSeq? d.seq).isSome = true) :
    Written o env r ((Move.index d m).apply o env r.session.view)
  | pruned (seq : Nat) : Written o env r (r.session.view.prune seq).1

/-- What a step that goes on to a stage makes of the session of a run. -/
inductive Turns (o : Options) (env : Surroundings) (r : Run) (next : Stage) : Session → Prop
  | idle : Turns o env r next r.session
  | opened (hlate : r.stage.ahead = 0) : Turns o env r next (r.session.write r.session.view)
  | committed : Turns o env r next r.session.commit
  | undone {e : Error} (hfailed : next = .failed e) : Turns o env r next r.session.rollback
  | written {t : Store} (ht : Written o env r t) : Turns o env r next (r.session.write t).commit
  | finished {t : Store} (ht : Written o env r t) (hlate : r.stage.ahead = 0) :
    Turns o env r next ((r.session.write t).finishOne o.commitInterval)

theorem turns_proceed {α : Type} (r : Run) (result : Except Failure α) (next : α → Stage) :
    Turns o env r (r.proceed result next).stage (r.proceed result next).session := by
  cases result with
  | ok a => exact .idle
  | error f => exact .undone rfl

theorem turns_indexNext {r : Run} {had : List Nat} {d : Document} {left : List Document}
    {toPrune : SeqSet} {tally : Tally} (hstage : r.stage = .indexing had (d :: left) toPrune tally) :
    Turns o env r (r.indexNext o env had d left toPrune tally).stage
      (r.indexNext o env had d left toPrune tally).session := by
  cases (dealt_indexNext o env r had d left toPrune tally).1 with
  | passed _ hsame _ =>
      cases hsame with
      | inl hsame =>
          rw [hsame]
          exact .idle
      | inr hopened =>
          rw [hopened]
          exact .opened (by rw [hstage]; rfl)
  | indexed _ _ hsession hallowed =>
      rw [hsession]
      exact .finished (.indexed hstage (hallowed .all).2.1) (by rw [hstage]; rfl)
  | failed hfailed hsession _ =>
      rw [hsession]
      exact .undone hfailed

theorem turns_step (o : Options) (env : Surroundings) (r : Run) :
    Turns o env r (r.step o env).stage (r.step o env).session := by
  unfold Run.step
  cases hstage : r.stage with
  | beginning =>
      show Turns o env r (r.resolve o).stage (r.resolve o).session
      unfold Run.resolve
      dsimp only
      split
      · exact .idle
      · exact .undone rfl
  | «scoped» scope => exact turns_proceed _ _ _
  | noted scope had =>
      show Turns o env r (r.prepare o scope had).stage (r.prepare o scope had).session
      unfold Run.prepare
      split
      · split
        · rename_i hneeding
          rw [of_needing_ok hneeding]
          exact .written (.unindexed hstage)
        · exact .undone rfl
      · exact .idle
  | prepared scope had => exact turns_proceed _ _ _
  | selected scope had found => exact turns_proceed _ _ _
  | indexing had left toPrune tally =>
      cases left with
      | nil => exact .committed
      | cons d left =>
          dsimp only
          split
          · exact .committed
          · exact turns_indexNext hstage
  | pruning left total paused tally pruned =>
      cases left with
      | nil => exact .committed
      | cons seq left =>
          show Turns o env r (r.pruneNext o seq left total paused tally pruned).stage
            (r.pruneNext o seq left total paused tally pruned).session
          cases (pruned_pruneNext o r seq left total paused tally pruned).1 with
          | done _ hsession _ _ =>
              rw [hsession]
              exact .finished (.pruned seq) (by rw [hstage]; rfl)
          | failed hfailed hsession _ =>
              rw [hsession]
              exact .undone hfailed
  | finished report => exact .idle
  | failed e => exact .idle

/-! ## What is kept at every step -/

theorem Turns.keeps {P : Store → Prop} {r : Run} {next : Stage} {w : Session}
    (h : Turns o env r next w)
    (hkeeps : r.session.Keeps P) (hwritten : ∀ t, Written o env r t → P t) : w.Keeps P := by
  cases h with
  | idle => exact hkeeps
  | opened _ => exact hkeeps.write hkeeps.view
  | committed => exact hkeeps.commit
  | undone _ => exact hkeeps.rollback
  | written ht => exact (hkeeps.write (hwritten _ ht)).commit
  | finished ht _ => exact (hkeeps.write (hwritten _ ht)).finishOne _

theorem foldl_outside {P : Store → Prop} (houtside : ∀ write t, P t → P (OutsideWrite.apply t write))
    (more : List OutsideWrite) {t : Store} (h : P t) : P (more.foldl OutsideWrite.apply t) := by
  induction more generalizing t with
  | nil => exact h
  | cons write more ih => exact ih (houtside write t h)

theorem view_of_uncommitted {w : Session} (h : w.uncommitted = none) : w.view = w.durable := by
  unfold Session.view
  rw [h]
  rfl

theorem interfere_cases (r : Run) (more : List OutsideWrite) :
    (r.interfere more).session = r.session ∨
      r.session.view = r.session.durable ∧
      (r.interfere more).session.view = more.foldl OutsideWrite.apply r.session.durable ∧
      (r.interfere more).session.durable = more.foldl OutsideWrite.apply r.session.durable := by
  unfold Run.interfere
  split
  · rename_i hnone
    refine .inr ⟨view_of_uncommitted hnone, ?_, rfl⟩
    dsimp only
    exact view_of_uncommitted hnone
  · exact .inl rfl

theorem keeps_interfere {P : Store → Prop} {r : Run}
    (houtside : ∀ write t, P t → P (OutsideWrite.apply t write)) (h : r.session.Keeps P)
    (more : List OutsideWrite) : (r.interfere more).session.Keeps P := by
  have hafter := foldl_outside houtside more h.durable
  rcases interfere_cases r more with hsame | ⟨-, hview, hdurable⟩
  · exact hsame.symm ▸ h
  · exact ⟨hdurable.symm ▸ hafter, hview.symm ▸ hafter⟩

theorem keeps_amid {P : Store → Prop} {k n : Nat} (hle : k ≤ n)
    (hstart : (Run.amid o env writes s k).session.Keeps P)
    (hwritten : ∀ j, k ≤ j → ∀ r t, r.stage = (Run.amid o env writes s j).stage →
      Written o env r t → P r.session.view → P t)
    (houtside : ∀ write t, P t → P (OutsideWrite.apply t write)) :
    (Run.amid o env writes s n).session.Keeps P := by
  induction hle with
  | refl => exact hstart
  | @step n hle ih =>
      have hbetween := keeps_interfere houtside ih (writes n)
      exact (turns_step o env _).keeps hbetween fun t ht =>
        hwritten n hle _ t (Run.stage_interfere _ _) ht hbetween.view

theorem keyed_written {r : Run} {t : Store} (h : Written o env r t) (hview : r.session.view.Keyed) :
    t.Keyed := by
  cases h with
  | unindexed _ => exact hview.change (fun _ => rfl) fun _ => rfl
  | indexed _ _ => exact keyed_apply hview (.index _ _)
  | pruned seq => exact hview.prune seq

theorem keyed_amid (hs : s.Keyed) (n : Nat) :
    (Run.amid o env writes s n).session.Keeps Store.Keyed :=
  keeps_amid (Nat.zero_le n) ⟨hs, hs⟩ (fun _ _ _ _ _ => keyed_written) fun write _ h =>
    keyed_outside h write

theorem keeps_written {r : Run} {t : Store} (h : Written o env r t)
    (hview : r.session.view.Numbered) : Keeps r.session.view t := by
  cases h with
  | unindexed _ => exact Keeps.refl r.session.view
  | indexed _ _ => exact keeps_apply hview (.index _ _)
  | pruned seq => exact keeps_prune hview seq

theorem entriesOf_foldl_outside (more : List OutsideWrite) (t : Store) (seq : Nat) :
    (more.foldl OutsideWrite.apply t).entriesOf seq = t.entriesOf seq :=
  foldl_outside (P := fun after => after.entriesOf seq = t.entriesOf seq)
    (fun write _ h => (entriesOf_outside write _ seq).trans h) more rfl

theorem entriesOf_view_interfere (r : Run) (more : List OutsideWrite) (seq : Nat) :
    (r.interfere more).session.view.entriesOf seq = r.session.view.entriesOf seq := by
  rcases interfere_cases r more with hsame | ⟨hbefore, hview, -⟩
  · rw [hsame]
  · rw [hview, hbefore, entriesOf_foldl_outside]

/-! ## The candidates -/

theorem uncommitted_commit (w : Session) : w.commit.uncommitted = none := by
  unfold Session.commit
  cases w.uncommitted <;> rfl

theorem uncommitted_interfere (r : Run) (more : List OutsideWrite) :
    (r.interfere more).session.uncommitted = r.session.uncommitted := by
  unfold Run.interfere
  split <;> rfl

theorem uncommitted_amid (n : Nat) : 1 ≤ (Run.amid o env writes s n).stage.ahead →
    (Run.amid o env writes s n).session.uncommitted = none := by
  induction n with
  | zero => exact fun _ => rfl
  | succ n ih =>
      intro hearly
      rw [Run.amid] at hearly ⊢
      have hahead := Run.ahead_step o env ((Run.amid o env writes s n).interfere (writes n))
      rw [Run.stage_interfere] at hahead
      have hnone : ((Run.amid o env writes s n).interfere (writes n)).session.uncommitted = none := by
        rw [uncommitted_interfere]
        exact ih (by omega)
      have hturns := turns_step o env ((Run.amid o env writes s n).interfere (writes n))
      generalize (((Run.amid o env writes s n).interfere (writes n)).step o env).session = w
        at hturns ⊢
      cases hturns with
      | idle => exact hnone
      | opened hlate =>
          rw [Run.stage_interfere] at hlate
          omega
      | committed => exact uncommitted_commit _
      | undone _ => rfl
      | written ht => exact uncommitted_commit _
      | finished ht hlate =>
          rw [Run.stage_interfere] at hlate
          omega

theorem of_selected_step {r : Run} {scope : Scope} {had : List Nat} {found : List Document}
    (h : (r.step o env).stage = .selected scope had found) :
    (r.step o env).session = r.session ∧ Table.documents ∉ r.session.durable.missing ∧
      found = candidates r.session.durable o.selector scope := by
  have hnext := next_step o env r
  rw [h] at hnext
  generalize hstage : r.stage = before at hnext
  cases hnext with
  | selected =>
      unfold Run.step at h ⊢
      simp only [hstage] at h ⊢
      unfold Run.select Run.proceed at h ⊢
      dsimp only at h ⊢
      split at h
      · rename_i hneeding
        cases h
        exact ⟨rfl, not_mem_missing_of_needing_ok hneeding _ (List.mem_singleton_self _),
          of_needing_ok hneeding⟩
      · cases h

/-- Candidates are selected from what is durable, while no transaction is open. -/
theorem of_selected_amid {n : Nat} {scope : Scope} {had : List Nat} {found : List Document}
    (h : (Run.amid o env writes s n).stage = .selected scope had found) :
    (Run.amid o env writes s n).session.uncommitted = none ∧
      Table.documents ∉ (Run.amid o env writes s n).session.durable.missing ∧
      found = candidates (Run.amid o env writes s n).session.durable o.selector scope := by
  refine ⟨uncommitted_amid n (by rw [h]; exact Nat.le_refl _), ?_⟩
  cases n with
  | zero => cases h
  | succ n =>
      obtain ⟨hsession, hrest⟩ := of_selected_step h
      rw [Run.amid, hsession]
      exact hrest

/-- The candidates that are still to come are some of those that were. -/
theorem awaits_step {Q : Document → Prop} {r : Run} (hlate : r.stage.ahead ≤ 1)
    (h : r.stage.Awaits Q) : (r.step o env).stage.Awaits Q := by
  have hnext := next_step o env r
  generalize (r.step o env).stage = after at hnext ⊢
  generalize r.stage = before at hlate h hnext
  cases hnext with
  | selected => simp [Stage.ahead] at hlate
  | collected => exact h
  | dealt => exact fun e he => h e (List.mem_cons_of_mem _ he)
  | _ => trivial

theorem ahead_awaits_amid {Q : Document → Prop} {m n : Nat} (hle : m ≤ n)
    (hlate : (Run.amid o env writes s m).stage.ahead ≤ 1)
    (h : (Run.amid o env writes s m).stage.Awaits Q) :
    (Run.amid o env writes s n).stage.ahead ≤ 1 ∧ (Run.amid o env writes s n).stage.Awaits Q := by
  induction hle with
  | refl => exact ⟨hlate, h⟩
  | @step n _ ih =>
      obtain ⟨hlate, hawaits⟩ := ih
      rw [← Run.stage_interfere _ (writes n)] at hlate hawaits
      have hahead := Run.ahead_step o env ((Run.amid o env writes s n).interfere (writes n))
      exact ⟨by rw [Run.amid]; omega, awaits_step hlate hawaits⟩

/-! ## The candidates that are counted -/

theorem finishesAmid_eq_nil {n : Nat} (hearly : 1 ≤ (Run.amid o env writes s n).stage.ahead) :
    Run.finishesAmid o env writes s n = [] := by
  induction n with
  | zero => rfl
  | succ n ih =>
      have hahead := Run.ahead_step o env ((Run.amid o env writes s n).interfere (writes n))
      rw [Run.stage_interfere] at hahead
      rw [Run.amid] at hearly
      have hearlier : 1 ≤ (Run.amid o env writes s n).stage.ahead := by omega
      rw [Run.finishesAmid, ih hearlier, List.nil_append]
      cases hstage : (Run.amid o env writes s n).stage with
      | indexing had left toPrune tally =>
          rw [hstage] at hearlier
          simp [Stage.ahead] at hearlier
      | _ => rfl

/-- A candidate is counted when what the run sees has it indexed. -/
theorem of_finished?_step {r : Run} {c : Document}
    (h : r.stage.finished? (r.step o env).stage = some c) :
    ∃ had left toPrune tally m, r.stage = .indexing had (c :: left) toPrune tally ∧
      (r.session.view.findSeq? c.seq).isSome = true ∧
      (r.step o env).session.view = (Move.index c m).apply o env r.session.view := by
  unfold Stage.finished? at h
  split at h
  · rename_i had d left toPrune tally had' left' toPrune' tally' hstage hnext
    split at h
    · rename_i hcounted
      cases h
      unfold Run.step at hnext ⊢
      simp only [hstage] at hnext ⊢
      split at hnext
      · cases hnext
      · rename_i hrunning
        rw [if_neg hrunning]
        cases (dealt_indexNext o env r had c left toPrune tally).1 with
        | passed hpassed _ _ =>
            rw [hpassed] at hnext
            cases hnext
            exact absurd hcounted (Nat.lt_irrefl _)
        | @indexed m _ _ _ hsession hallowed =>
            rw [hsession, Session.view_finishOne, Session.view_write]
            exact ⟨had, left, toPrune, tally, m, rfl, (hallowed .all).2.1, rfl⟩
        | failed hfailed _ _ =>
            rw [hfailed] at hnext
            cases hnext
    · cases h
  · cases h

/-- Unless the run fails, a step leaves what it sees as it is or writes to it. -/
theorem view_step (o : Options) (env : Surroundings) (r : Run) :
    (∃ e, (r.step o env).stage = .failed e) ∨ (r.step o env).session.view = r.session.view ∨
      Written o env r (r.step o env).session.view := by
  have hturns := turns_step o env r
  generalize (r.step o env).session = w at hturns ⊢
  cases hturns with
  | idle => exact .inr (.inl rfl)
  | opened _ => exact .inr (.inl rfl)
  | committed => exact .inr (.inl (Session.view_commit _))
  | undone hfailed => exact .inl ⟨_, hfailed⟩
  | written ht =>
      rw [Session.view_commit, Session.view_write]
      exact .inr (.inr ht)
  | finished ht _ =>
      rw [Session.view_finishOne, Session.view_write]
      exact .inr (.inr ht)

theorem uncommitted_of_finished {n : Nat} {report : Report}
    (h : (Run.amid o env writes s n).stage = .finished report) :
    (Run.amid o env writes s n).session.uncommitted = none := by
  induction n with
  | zero => cases h
  | succ n ih =>
      rw [Run.amid] at h ⊢
      have hnext := next_step o env ((Run.amid o env writes s n).interfere (writes n))
      rw [h, Run.stage_interfere] at hnext
      have hsame : ((Run.amid o env writes s n).interfere (writes n)).stage =
          (Run.amid o env writes s n).stage := Run.stage_interfere _ _
      generalize hbefore : (Run.amid o env writes s n).stage = before at hnext hsame ih
      unfold Run.step
      cases hnext with
      | concluded =>
          rw [hsame]
          exact uncommitted_commit _
      | ended =>
          rw [hsame]
          exact (uncommitted_interfere _ _).trans (ih rfl)

/-! ## What is open and what is durable -/

/-- An open transaction has the documents that are durable, and its further entries are for some of
them. -/
structure Abreast (w : Session) : Prop where
  lastSeq : w.view.lastSeq = w.durable.lastSeq
  seqs : w.view.documents.map (·.seq) = w.durable.documents.map (·.seq)
  entries : ∀ row ∈ w.view.entries,
    row ∈ w.durable.entries ∨ row.docSeq ∈ w.durable.documents.map (·.seq)

theorem abreast_of_eq {w : Session} (h : w.view = w.durable) : Abreast w where
  lastSeq := by rw [h]
  seqs := by rw [h]
  entries row hrow := .inl (h ▸ hrow)

theorem abreast_commit (w : Session) : Abreast w.commit :=
  abreast_of_eq ((Session.view_commit w).trans (Session.durable_commit w).symm)

/-- What a step writes has the documents that the run sees, and further entries only for them. -/
theorem of_written {r : Run} {t : Store} (h : Written o env r t) :
    t.lastSeq = r.session.view.lastSeq ∧
      t.documents.map (·.seq) = r.session.view.documents.map (·.seq) ∧
      ∀ row ∈ t.entries,
        row ∈ r.session.view.entries ∨ row.docSeq ∈ r.session.view.documents.map (·.seq) := by
  cases h with
  | @unindexed scope _ _ =>
      refine ⟨rfl, ?_, fun row hrow => .inl hrow⟩
      rw [Run.unindexed, Store.change, List.map_map]
      refine List.map_congr_left fun d _ => ?_
      simp only [Function.comp_apply]
      split <;> rfl
  | @indexed _ d _ _ _ m _ hpresent =>
      refine ⟨rfl, ?_, fun row hrow => ?_⟩
      · rw [(adds_index hpresent m).documents, List.map_map]
        refine List.map_congr_left fun e _ => ?_
        simp only [Function.comp_apply]
        split <;> rfl
      · obtain ⟨e, he, hseq⟩ := findSeq?_isSome.mp hpresent
        cases List.mem_append.mp hrow with
        | inl hold => exact .inl hold
        | inr hnew =>
            rw [List.mem_singleton.mp hnew]
            exact .inr (List.mem_map.mpr ⟨e, he, hseq⟩)
  | pruned seq =>
      refine ⟨Store.lastSeq_prune _ seq, by rw [Store.documents_prune], fun row hrow => ?_⟩
      rw [Store.fst_prune, Store.foldl_removeEntry] at hrow
      exact .inl (List.mem_filter.mp hrow).1

theorem Abreast.write {r : Run} (h : Abreast r.session) {t : Store} (ht : Written o env r t) :
    Abreast (r.session.write t) := by
  obtain ⟨hlast, hseqs, hentries⟩ := of_written ht
  refine ⟨hlast.trans h.lastSeq, hseqs.trans h.seqs, fun row hrow => ?_⟩
  cases hentries row hrow with
  | inl hold => exact h.entries row hold
  | inr howner =>
      rw [h.seqs] at howner
      exact .inr howner

theorem Abreast.turn {r : Run} {next : Stage} {w : Session} (h : Abreast r.session)
    (hturns : Turns o env r next w) : Abreast w := by
  cases hturns with
  | idle => exact h
  | opened _ => exact ⟨h.lastSeq, h.seqs, h.entries⟩
  | committed => exact abreast_commit _
  | undone _ => exact abreast_of_eq rfl
  | written _ => exact abreast_commit _
  | finished ht _ =>
      have hwritten := h.write ht
      unfold Session.finishOne
      dsimp only
      split
      · exact abreast_commit _
      · exact ⟨hwritten.lastSeq, hwritten.seqs, hwritten.entries⟩

theorem Abreast.interfere {r : Run} (h : Abreast r.session) (more : List OutsideWrite) :
    Abreast (r.interfere more).session := by
  rcases interfere_cases r more with hsame | ⟨-, hview, hdurable⟩
  · exact hsame.symm ▸ h
  · exact abreast_of_eq (hview.trans hdurable.symm)

theorem abreast_amid (n : Nat) : Abreast (Run.amid o env writes s n).session := by
  induction n with
  | zero => exact abreast_of_eq rfl
  | succ n ih => exact (ih.interfere (writes n)).turn (turns_step o env _)

end MailIndex.Reindex
