import MailIndex.Proofs.Reindex.Work

/-!
# What a run has done so far

An account of a run to which nobody else writes: at every stage it says what the session sees in
terms of the store at the beginning, and how the candidates divide into those asked for and those
left. Every step keeps the account true, so it is true of a run that has ended.
-/

namespace MailIndex.Reindex

variable (o : Options) (env : Surroundings) (s : Store)

def workOf (scope : Scope) (reached : List Document) : Work :=
  (Work.start o s scope).takeAll o env (hadIndexed s scope) reached

/-- A run that has no transaction open and has asked for nothing. -/
structure Rests (r : Run) (durable : Store) : Prop where
  asked : r.asked = []
  uncommitted : r.session.uncommitted = none
  durable : r.session.durable = durable

/-- How the candidates divide. The run was not cancelled before any of those it asked for. -/
structure Divides (scope : Scope) (r : Run) (left : List Document) (tally : Tally) : Prop where
  resolved : o.selector.scope s = .ok scope
  found : candidates (preparedStore o s scope) o.selector scope = r.asked ++ left
  total : tally.total = (r.asked ++ left).length
  processed : tally.processed = r.asked.length
  running : ∀ n, n < r.asked.length → env.cancelled n = false

def Stopped (r : Run) (left : List Document) : Prop :=
  left = [] ∨ env.cancelled r.asked.length = true

def Accounts (r : Run) : Prop :=
  match r.stage with
  | .beginning => Rests r s
  | .scoped scope => o.selector.scope s = .ok scope ∧ Rests r s
  | .noted scope had => o.selector.scope s = .ok scope ∧ had = hadIndexed s scope ∧ Rests r s
  | .prepared scope had =>
    o.selector.scope s = .ok scope ∧ had = hadIndexed s scope ∧ Rests r (preparedStore o s scope)
  | .selected scope had found =>
    o.selector.scope s = .ok scope ∧ had = hadIndexed s scope ∧ Rests r (preparedStore o s scope) ∧
      found = candidates (preparedStore o s scope) o.selector scope
  | .indexing had left toPrune tally =>
    ∃ scope, Divides o env s scope r left tally ∧ had = hadIndexed s scope ∧
      workOf o env s scope r.asked = ⟨r.session.view, toPrune⟩
  | .pruning left _ _ tally _ =>
    ∃ scope rest done, Divides o env s scope r rest tally ∧ Stopped env r rest ∧
      (workOf o env s scope r.asked).toPrune = done ++ left ∧
      r.session.view = (workOf o env s scope r.asked).store.pruneAll done
  | .finished report =>
    ∃ scope rest tally, Divides o env s scope r rest tally ∧ Stopped env r rest ∧
      r.session.durable = (workOf o env s scope r.asked).store.pruneAll
        (workOf o env s scope r.asked).toPrune ∧
      report.candidates = tally.total ∧ report.remaining = tally.total - tally.processed
  | .failed _ => True

variable {o env s} {r : Run}

theorem Rests.view {durable : Store} (h : Rests r durable) : r.session.view = durable := by
  unfold Session.view
  rw [h.uncommitted, h.durable]
  rfl

theorem accounts_start : Accounts o env s (Run.start s) := ⟨rfl, rfl, rfl⟩

theorem accounts_fail (r : Run) (e : Error) : Accounts o env s (r.fail e) := trivial

theorem accounts_proceed {α : Type} {tables : List Table} {result : α} {next : α → Stage}
    {before : Store} (h : Accounts o env s { r with stage := next result }) :
    Accounts o env s (r.proceed (before.needing tables result) next) := by
  cases hresult : before.needing tables result with
  | error f => exact accounts_fail r _
  | ok a =>
      rw [of_needing_ok hresult]
      exact h

/-! ## Up to the candidates -/

theorem accounts_resolve (h : Rests r s) : Accounts o env s (r.resolve o) := by
  unfold Run.resolve
  have hdurable : (r.report .selecting).session.durable = s := h.durable
  dsimp only
  rw [hdurable]
  cases hscope : o.selector.scope s with
  | error e => exact accounts_fail _ e
  | ok scope => exact ⟨hscope, h.asked, h.uncommitted, h.durable⟩

theorem accounts_note {scope : Scope} (hscope : o.selector.scope s = .ok scope) (h : Rests r s) :
    Accounts o env s (r.note scope) := by
  unfold Run.note
  rw [h.durable]
  exact accounts_proceed ⟨hscope, rfl, h.asked, h.uncommitted, h.durable⟩

theorem accounts_prepare {scope : Scope} {had : List Nat}
    (hscope : o.selector.scope s = .ok scope) (hhad : had = hadIndexed s scope) (h : Rests r s) :
    Accounts o env s (r.prepare o scope had) := by
  unfold Run.prepare
  cases hforce : o.force with
  | false =>
      have hsame : preparedStore o s scope = s := by simp [preparedStore, hforce]
      simp only [Bool.false_eq_true, if_false]
      exact ⟨hscope, hhad, h.asked, h.uncommitted, h.durable.trans hsame.symm⟩
  | true =>
      have hsame : preparedStore o s scope = Run.unindexed s scope := by
        simp [preparedStore, hforce]
      simp only [if_true]
      rw [h.view]
      cases hneeding : s.needing [.documents] (Run.unindexed s scope) with
      | error f => exact accounts_fail r _
      | ok written =>
          rw [of_needing_ok hneeding, ← hsame]
          exact ⟨hscope, hhad, h.asked, rfl, rfl⟩

theorem accounts_select {scope : Scope} {had : List Nat}
    (hscope : o.selector.scope s = .ok scope) (hhad : had = hadIndexed s scope)
    (h : Rests r (preparedStore o s scope)) : Accounts o env s (r.select o scope had) := by
  unfold Run.select
  rw [h.durable]
  exact accounts_proceed ⟨hscope, hhad, ⟨h.asked, h.uncommitted, h.durable⟩, rfl⟩

theorem accounts_collect {scope : Scope} {had : List Nat} {found : List Document}
    (hscope : o.selector.scope s = .ok scope) (hhad : had = hadIndexed s scope)
    (h : Rests r (preparedStore o s scope))
    (hfound : found = candidates (preparedStore o s scope) o.selector scope) :
    Accounts o env s (r.collect scope had found) := by
  unfold Run.collect
  rw [h.durable]
  refine accounts_proceed ⟨scope, ⟨hscope, ?_, ?_, ?_, ?_⟩, hhad, ?_⟩
  · rw [h.asked, ← hfound]
    rfl
  · rw [h.asked]
    rfl
  · rw [h.asked]
    rfl
  · intro n hn
    rw [h.asked] at hn
    cases hn
  · rw [h.asked, h.view]
    rfl

/-! ## The candidates -/

theorem Divides.next {scope : Scope} {d : Document} {left : List Document} {tally tally' : Tally}
    {r' : Run} (h : Divides o env s scope r (d :: left) tally)
    (hasked : r'.asked = r.asked ++ [d]) (hrunning : env.cancelled tally.processed = false)
    (htotal : tally'.total = tally.total) (hprocessed : tally'.processed = tally.processed + 1) :
    Divides o env s scope r' left tally' where
  resolved := h.resolved
  found := by
    rw [h.found, hasked]
    simp
  total := by
    rw [htotal, h.total, hasked]
    simp
  processed := by
    rw [hprocessed, h.processed, hasked]
    simp
  running n hn := by
    rw [hasked, List.length_append, List.length_singleton] at hn
    by_cases hlast : n = r.asked.length
    · rw [hlast, ← h.processed]
      exact hrunning
    · exact h.running n (by omega)

theorem workOf_next {scope : Scope} {d : Document} {reached : List Document} :
    workOf o env s scope (reached ++ [d]) =
      (workOf o env s scope reached).take o env (hadIndexed s scope) d :=
  Work.takeAll_concat o env _ _ reached d

theorem accounts_indexNext {scope : Scope} {had : List Nat} {d : Document} {left : List Document}
    {toPrune : SeqSet} {tally : Tally} (h : Divides o env s scope r (d :: left) tally)
    (hhad : had = hadIndexed s scope)
    (hwork : workOf o env s scope r.asked = ⟨r.session.view, toPrune⟩)
    (hrunning : env.cancelled tally.processed = false) :
    Accounts o env s (r.indexNext o env had d left toPrune tally) := by
  have hnext : workOf o env s scope (r.asked ++ [d]) =
      Work.take o env had ⟨r.session.view, toPrune⟩ d := by
    rw [workOf_next, hwork, hhad]
  unfold Work.take at hnext
  unfold Run.indexNext
  dsimp only
  cases hload : env.load d with
  | none =>
      rw [hload] at hnext
      exact ⟨scope, h.next rfl hrunning rfl (by simp [Tally.processed]; omega), hhad, hnext⟩
  | some m =>
      rw [hload] at hnext
      dsimp only at hnext ⊢
      cases hneeding : r.session.view.needing (Run.tablesFor r.session.view d)
          (Run.indexed? o env.now r.session.view d m) with
      | error f => exact accounts_fail _ _
      | ok result =>
          have hresult := of_needing_ok hneeding
          rw [← hresult] at hnext
          cases result with
          | none =>
              exact ⟨scope, h.next rfl hrunning rfl (by simp [Tally.processed]; omega), hhad, hnext⟩
          | some written =>
              refine ⟨scope, h.next rfl hrunning rfl (by simp [Tally.processed]; omega), hhad, ?_⟩
              have hview : ((r.session.write written).finishOne o.commitInterval).view = written :=
                Session.view_finishOne _ _
              exact hnext.trans (congrArg (Work.mk · _) hview.symm)

theorem accounts_endIndexing {scope : Scope} {left : List Document} {toPrune : SeqSet}
    {tally : Tally} {paused : Bool} (h : Divides o env s scope r left tally)
    (hstopped : Stopped env r left)
    (hwork : workOf o env s scope r.asked = ⟨r.session.view, toPrune⟩) :
    Accounts o env s (r.endIndexing paused toPrune tally) := by
  refine ⟨scope, left, [], ⟨h.resolved, h.found, h.total, h.processed, h.running⟩, hstopped, ?_, ?_⟩
  · exact congrArg Work.toPrune hwork
  · have hview : r.session.commit.view = r.session.view := Session.view_commit _
    exact hview.trans (congrArg Work.store hwork).symm

/-! ## Superseded entries -/

theorem accounts_pruneNext {scope : Scope} {rest : List Document} {done left : List Nat}
    {seq total pruned : Nat} {paused : Bool} {tally : Tally}
    (h : Divides o env s scope r rest tally) (hstopped : Stopped env r rest)
    (htoPrune : (workOf o env s scope r.asked).toPrune = done ++ seq :: left)
    (hview : r.session.view = (workOf o env s scope r.asked).store.pruneAll done) :
    Accounts o env s (r.pruneNext o seq left total paused tally pruned) := by
  unfold Run.pruneNext
  cases hprune : Statement.prune seq r.session.view with
  | mk result after =>
      cases result with
      | error f => exact accounts_fail _ _
      | ok count =>
          refine ⟨scope, rest, done ++ [seq],
            ⟨h.resolved, h.found, h.total, h.processed, h.running⟩, hstopped, ?_, ?_⟩
          · exact htoPrune.trans (by simp)
          · have hafter : ((r.session.write after).finishOne o.commitInterval).view = after :=
              Session.view_finishOne _ _
            refine hafter.trans ?_
            rw [of_prune_ok hprune, hview, ← Store.pruneAll_concat]
            rfl

theorem accounts_conclude {scope : Scope} {rest : List Document} {done : List Nat} {pruned : Nat}
    {paused : Bool} {tally : Tally} (h : Divides o env s scope r rest tally)
    (hstopped : Stopped env r rest)
    (htoPrune : (workOf o env s scope r.asked).toPrune = done)
    (hview : r.session.view = (workOf o env s scope r.asked).store.pruneAll done) :
    Accounts o env s (r.conclude paused tally pruned) := by
  refine ⟨scope, rest, tally, ⟨h.resolved, h.found, h.total, h.processed, h.running⟩, hstopped, ?_,
    rfl, rfl⟩
  have hcommit : r.session.commit.durable = r.session.view := Session.durable_commit _
  refine hcommit.trans (hview.trans ?_)
  rw [← htoPrune]
  rfl

/-! ## Whole runs -/

theorem Accounts.step (h : Accounts o env s r) : Accounts o env s (r.step o env) := by
  have hsame := h
  unfold Accounts at h
  unfold Run.step
  cases hstage : r.stage with
  | beginning =>
      rw [hstage] at h
      exact accounts_resolve h
  | «scoped» scope =>
      rw [hstage] at h
      exact accounts_note h.1 h.2
  | noted scope had =>
      rw [hstage] at h
      obtain ⟨hscope, hhad, hrests⟩ := h
      exact accounts_prepare hscope hhad hrests
  | prepared scope had =>
      rw [hstage] at h
      obtain ⟨hscope, hhad, hrests⟩ := h
      exact accounts_select hscope hhad hrests
  | selected scope had found =>
      rw [hstage] at h
      obtain ⟨hscope, hhad, hrests, hfound⟩ := h
      exact accounts_collect hscope hhad hrests hfound
  | indexing had left toPrune tally =>
      rw [hstage] at h
      obtain ⟨scope, hdivides, hhad, hwork⟩ := h
      cases left with
      | nil => exact accounts_endIndexing hdivides (.inl rfl) hwork
      | cons d left =>
          cases hcancelled : env.cancelled tally.processed with
          | true =>
              have hstopped : Stopped env r (d :: left) := .inr (by rwa [← hdivides.processed])
              simp only [hcancelled, if_true]
              exact accounts_endIndexing hdivides hstopped hwork
          | false =>
              simp only [hcancelled, Bool.false_eq_true, if_false]
              exact accounts_indexNext hdivides hhad hwork hcancelled
  | pruning left total paused tally pruned =>
      rw [hstage] at h
      obtain ⟨scope, rest, done, hdivides, hstopped, htoPrune, hview⟩ := h
      cases left with
      | nil =>
          rw [List.append_nil] at htoPrune
          exact accounts_conclude hdivides hstopped htoPrune hview
      | cons seq left => exact accounts_pruneNext hdivides hstopped htoPrune hview
  | finished report => exact hsame
  | failed e => exact hsame

theorem interfere_nil (r : Run) : r.interfere [] = r := by
  unfold Run.interfere
  cases h : r.session.uncommitted <;> rfl

theorem outsideBefore_eq_nil (hout : ∀ n, env.outside n = []) (r : Run) :
    r.outsideBefore env = [] := by
  unfold Run.outsideBefore
  split
  · split
    · rfl
    · exact hout _
  · rfl

theorem Accounts.advances (hout : ∀ n, env.outside n = []) (h : Accounts o env s r) (n : Nat) :
    Accounts o env s (Run.advances o env n r) := by
  induction n generalizing r with
  | zero => exact h
  | succ n ih =>
      have hadvance : r.advance o env = r.step o env := by
        unfold Run.advance
        rw [outsideBefore_eq_nil hout, interfere_nil]
      unfold Run.advances
      rw [hadvance]
      exact ih h.step

theorem accounts_complete (hout : ∀ n, env.outside n = []) (s : Store) :
    Accounts o env s (Run.complete o env s) := by
  unfold Run.complete Run.throughLoop
  exact ((accounts_start.advances hout 5).advances hout _).advances hout _

/-- The account of a run that has ended well. -/
theorem account_of_report (hout : ∀ n, env.outside n = []) {report : Report}
    (hreport : (Run.complete o env s).outcome? = some (.ok report)) :
    ∃ scope rest tally, Divides o env s scope (Run.complete o env s) rest tally ∧
      Stopped env (Run.complete o env s) rest ∧
      (Run.complete o env s).session.durable =
        (workOf o env s scope (Run.complete o env s).asked).store.pruneAll
          (workOf o env s scope (Run.complete o env s).asked).toPrune ∧
      report.candidates = tally.total ∧ report.remaining = tally.total - tally.processed := by
  have haccounts : Accounts o env s (Run.complete o env s) := accounts_complete hout s
  generalize Run.complete o env s = r at hreport haccounts ⊢
  unfold Accounts at haccounts
  unfold Run.outcome? at hreport
  cases hstage : r.stage with
  | finished found =>
      rw [hstage] at hreport haccounts
      cases hreport
      exact haccounts
  | _ => simp [hstage] at hreport

end MailIndex.Reindex
