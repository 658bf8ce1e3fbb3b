import MailIndex.Proofs.Store.Ledger
import MailIndex.Reindex.Run

/-!
# What every write keeps

All that a run does to a store is to take hashes away, to index a candidate and to take out
superseded entries; others may write in between. What each of these keeps is true of what is
durable and of what the session sees, at every step, however the run ends.
-/

namespace MailIndex

namespace Session

structure Keeps (P : Store → Prop) (w : Session) : Prop where
  durable : P w.durable
  view : P w.view

variable {P : Store → Prop} {w : Session}

theorem Keeps.write (h : w.Keeps P) {s : Store} (hs : P s) : (w.write s).Keeps P := ⟨h.durable, hs⟩

theorem Keeps.commit (h : w.Keeps P) : w.commit.Keeps P where
  durable := by
    rw [durable_commit]
    exact h.view
  view := by
    rw [view_commit]
    exact h.view

theorem Keeps.finishOne (h : w.Keeps P) (interval : Nat) : (w.finishOne interval).Keeps P := by
  have hcounted : Keeps P { w with pending := w.pending + 1 } := ⟨h.durable, h.view⟩
  unfold Session.finishOne
  dsimp only
  split
  · exact hcounted.commit
  · exact hcounted

theorem Keeps.rollback (h : w.Keeps P) : w.rollback.Keeps P := ⟨h.durable, h.durable⟩

theorem Keeps.imp (h : w.Keeps P) {Q : Store → Prop} (himp : ∀ s, P s → Q s) : w.Keeps Q :=
  ⟨himp _ h.durable, himp _ h.view⟩

end Session

namespace Reindex

theorem of_needing_ok {α : Type} {s : Store} {tables : List Table} {result a : α}
    (h : s.needing tables result = .ok a) : a = result := by
  unfold Store.needing at h
  split at h
  · cases h
  · cases h
    rfl

theorem needing_of_lacking {α : Type} {s : Store} {tables : List Table}
    (h : s.lacking? tables = none) (result : α) : s.needing tables result = .ok result := by
  unfold Store.needing
  rw [h]

theorem not_mem_missing_of_needing_ok {α : Type} {s : Store} {tables : List Table} {result a : α}
    (h : s.needing tables result = .ok a) : ∀ table ∈ tables, table ∉ s.missing := by
  unfold Store.needing at h
  split at h
  · cases h
  · next hnone =>
      intro table htable
      simpa using List.find?_eq_none.mp hnone table htable

theorem exists_mem_missing_of_needing_error {α : Type} {s : Store} {tables : List Table}
    {result : α} {f : Failure} (h : s.needing tables result = .error f) :
    ∃ table ∈ tables, table ∈ s.missing := by
  unfold Store.needing at h
  split at h
  · next table hsome =>
      have hmissing : table ∈ s.missing := by simpa using List.find?_some hsome
      exact ⟨table, List.mem_of_find?_eq_some hsome, hmissing⟩
  · cases h

theorem mem_missing_of_needing_error {α : Type} {s : Store} {table : Table} {result : α}
    {f : Failure} (h : s.needing [table] result = .error f) : table ∈ s.missing := by
  obtain ⟨missed, hmissed, hmissing⟩ := exists_mem_missing_of_needing_error h
  exact List.mem_singleton.mp hmissed ▸ hmissing

/-- Taking superseded entries out needs the ledger, and the index if there are any. -/
theorem tables_of_prune_ok {seq count : Nat} {before after : Store}
    (h : Statement.prune seq before = (.ok count, after)) :
    Table.entries ∉ before.missing ∧
      (before.superseded seq = [] ∨ Table.fullText ∉ before.missing) := by
  unfold Statement.prune Statement.write at h
  dsimp only at h
  cases hneeding : before.needing
      (if (before.superseded seq).isEmpty then [.entries] else [.entries, .fullText])
      (before.prune seq) with
  | error f =>
      rw [hneeding] at h
      cases h
  | ok result =>
      have hpresent := not_mem_missing_of_needing_ok hneeding
      cases hold : before.superseded seq with
      | nil =>
          rw [hold] at hpresent
          exact ⟨hpresent _ (by simp), .inl rfl⟩
      | cons entry old =>
          rw [hold] at hpresent
          exact ⟨hpresent _ (by simp), .inr (hpresent _ (by simp))⟩

theorem missing_of_prune_error {seq : Nat} {f : Failure} {before after : Store}
    (h : Statement.prune seq before = (.error f, after)) : before.missing ≠ [] := by
  unfold Statement.prune Statement.write at h
  dsimp only at h
  cases hneeding : before.needing
      (if (before.superseded seq).isEmpty then [.entries] else [.entries, .fullText])
      (before.prune seq) with
  | error f' =>
      obtain ⟨table, -, htable⟩ := exists_mem_missing_of_needing_error hneeding
      exact List.ne_nil_of_mem htable
  | ok result =>
      rw [hneeding] at h
      cases h

theorem prune_eq_of_ok {seq count : Nat} {before after : Store}
    (h : Statement.prune seq before = (.ok count, after)) :
    before.prune seq = (after, count) := by
  unfold Statement.prune Statement.write at h
  dsimp only at h
  cases hneeding : before.needing
      (if (before.superseded seq).isEmpty then [.entries] else [.entries, .fullText])
      (before.prune seq) with
  | error f =>
      rw [hneeding] at h
      cases h
  | ok result =>
      rw [hneeding] at h
      rw [← of_needing_ok hneeding]
      cases h
      rfl

theorem of_prune_ok {seq count : Nat} {before after : Store}
    (h : Statement.prune seq before = (.ok count, after)) : after = (before.prune seq).1 := by
  rw [prune_eq_of_ok h]

theorem snd_write {α : Type} {Q : Store → Prop} {s : Store} (tables : List Table)
    {f : Store → Store × α} (h : Q s) (hf : Q (f s).1) : Q (Statement.write tables f s).2 := by
  unfold Statement.write
  cases hneeding : s.needing tables (f s) with
  | error failure => exact h
  | ok result =>
      rw [of_needing_ok hneeding]
      exact hf

/-- What indexing a candidate does to a store. -/
structure Adds (o : Options) (now : Int) (d : Document) (m : Message) (s written : Store) :
    Prop where
  documents : written.documents = s.documents.map fun e =>
    if e.seq = d.seq then
      e.indexed (Derived.ofMessage m o.snippetChars) (Run.hashFor d m) now
    else e
  indexed : s.Indexed → written.Indexed
  lastEntry : written.lastEntry = s.lastEntry + 1
  entriesOf : ∀ seq, written.entriesOf seq =
    s.entriesOf seq ++ if seq = d.seq then [s.lastEntry + 1] else []
  textOf? : ∀ entry, written.textOf? entry =
    if entry = s.lastEntry + 1 then some (.ofMessage m) else s.textOf? entry
  newestText? : s.Numbered → ∀ seq, written.newestText? seq =
    if seq = d.seq then some (.ofMessage m) else s.newestText? seq

theorem adds_of_indexed? {o : Options} {now : Int} {d : Document} {m : Message}
    {s written : Store} (h : Run.indexed? o now s d m = some written) :
    Adds o now d m s written := by
  unfold Run.indexed? at h
  split at h
  · cases h
    have hmarked := fun hs : s.Indexed => hs.change (fun e => e.seq = d.seq)
      (·.indexed (Derived.ofMessage m o.snippetChars) (Run.hashFor d m) now)
    have hnumbered := fun hs : s.Numbered => hs.withDocuments (s.markIndexed d.seq
      (Derived.ofMessage m o.snippetChars) (Run.hashFor d m) now).documents s.lastSeq
    refine ⟨?_, fun hs => (hmarked hs).addEntry _ _, rfl, Store.entriesOf_addEntry _ _ _,
      Store.textOf?_addEntry _ _ _, fun hs => (hnumbered hs).newestText?_addEntry _ _⟩
    rw [Store.documents_addEntry]
    simp [Store.markIndexed, Store.change]
  · cases h

/-- A property of the store and of the candidates asked for, which no write breaks. Candidates are
documents that the store had when they were selected, so what is true of its documents is true of
them. -/
structure Preserves (o : Options) (env : Surroundings) (P : List Document → Store → Prop)
    (Q : Document → Prop) : Prop where
  candidate : ∀ {asked s d}, P asked s → d ∈ s.documents → Q d
  unindexed : ∀ {asked s} scope, P asked s → P asked (Run.unindexed s scope)
  /-- Asking for a candidate. -/
  ask : ∀ {asked s d}, Q d → P asked s → P (asked ++ [d]) s
  index : ∀ {asked s d m written}, Q d → env.load d = some m →
    Run.indexed? o env.now s d m = some written → P asked s → P (asked ++ [d]) written
  prune : ∀ {asked s} seq, P asked s → P asked (s.prune seq).1
  outside : ∀ {asked s n write}, write ∈ env.outside n → P asked s →
    P asked (OutsideWrite.apply s write)

def Stage.Awaits (Q : Document → Prop) : Stage → Prop
  | .selected _ _ found => ∀ d ∈ found, Q d
  | .indexing _ left _ _ => ∀ d ∈ left, Q d
  | _ => True

theorem Stage.awaits_true (stage : Stage) : stage.Awaits fun _ => True := by
  unfold Stage.Awaits
  split <;> simp

structure Kept (P : List Document → Store → Prop) (Q : Document → Prop) (r : Run) : Prop where
  session : r.session.Keeps (P r.asked)
  awaits : r.stage.Awaits Q

variable {o : Options} {env : Surroundings} {P : List Document → Store → Prop}
  {Q : Document → Prop} {r : Run}

theorem kept_fail (h : r.session.Keeps (P r.asked)) (e : Error) : Kept P Q (r.fail e) :=
  ⟨h.rollback, trivial⟩

theorem kept_proceed {α : Type} (h : r.session.Keeps (P r.asked)) {result : Except Failure α}
    {next : α → Stage} (hnext : ∀ a, result = .ok a → (next a).Awaits Q) :
    Kept P Q (r.proceed result next) := by
  cases result with
  | ok a => exact ⟨h, hnext a rfl⟩
  | error f => exact kept_fail h _

theorem kept_prepare (hP : Preserves o env P Q) (h : r.session.Keeps (P r.asked)) (scope : Scope)
    (had : List Nat) : Kept P Q (r.prepare o scope had) := by
  unfold Run.prepare
  split
  · split
    · next hneeding =>
        refine ⟨(h.write ?_).commit, trivial⟩
        rw [of_needing_ok hneeding]
        exact hP.unindexed scope h.view
    · exact kept_fail h _
  · exact ⟨h, trivial⟩

theorem kept_select (hP : Preserves o env P Q) (h : r.session.Keeps (P r.asked)) (scope : Scope)
    (had : List Nat) : Kept P Q (r.select o scope had) := by
  refine kept_proceed h fun found hfound => ?_
  intro d hd
  rw [of_needing_ok hfound] at hd
  exact hP.candidate h.durable (List.mem_filter.mp hd).1

theorem kept_indexNext (hP : Preserves o env P Q) (h : r.session.Keeps (P r.asked))
    (had : List Nat) {d : Document} {left : List Document} (hleft : ∀ e ∈ d :: left, Q e)
    (toPrune : SeqSet) (tally : Tally) : Kept P Q (r.indexNext o env had d left toPrune tally) := by
  have hd : Q d := hleft d List.mem_cons_self
  have hrest : ∀ e ∈ left, Q e := fun e he => hleft e (List.mem_cons_of_mem d he)
  have hasked : r.session.Keeps (P (r.asked ++ [d])) := h.imp fun s => hP.ask hd
  unfold Run.indexNext
  dsimp only
  cases hload : env.load d with
  | none => exact ⟨hasked, hrest⟩
  | some m =>
      dsimp only
      cases hneeding : r.session.view.needing (Run.tablesFor r.session.view d)
          (Run.indexed? o env.now r.session.view d m) with
      | error f => exact ⟨hasked.rollback, trivial⟩
      | ok result =>
          have hresult := of_needing_ok hneeding
          cases result with
          | none => exact ⟨hasked.write hasked.view, hrest⟩
          | some written =>
              have hwritten := hP.index hd hload hresult.symm h.view
              exact ⟨(hasked.write hwritten).finishOne _, hrest⟩

theorem kept_pruneNext (hP : Preserves o env P Q) (h : r.session.Keeps (P r.asked)) (seq : Nat)
    (left : List Nat) (total : Nat) (paused : Bool) (tally : Tally) (pruned : Nat) :
    Kept P Q (r.pruneNext o seq left total paused tally pruned) := by
  unfold Run.pruneNext
  cases hprune : Statement.prune seq r.session.view with
  | mk result after =>
      cases result with
      | error f => exact kept_fail h _
      | ok count =>
          refine ⟨(h.write ?_).finishOne _, trivial⟩
          rw [of_prune_ok hprune]
          exact hP.prune seq h.view

theorem kept_step (hP : Preserves o env P Q) (h : Kept P Q r) : Kept P Q (r.step o env) := by
  have hsame := h
  obtain ⟨hsession, hawaits⟩ := h
  unfold Run.step
  cases hstage : r.stage with
  | beginning =>
      dsimp only
      unfold Run.resolve
      dsimp only
      split
      · exact ⟨hsession, trivial⟩
      · exact ⟨hsession.rollback, trivial⟩
  | «scoped» scope => exact kept_proceed hsession fun _ _ => trivial
  | noted scope had => exact kept_prepare hP hsession scope had
  | prepared scope had => exact kept_select hP hsession scope had
  | selected scope had found =>
      rw [hstage] at hawaits
      exact kept_proceed hsession fun _ _ => hawaits
  | indexing had left toPrune tally =>
      rw [hstage] at hawaits
      cases left with
      | nil => exact ⟨hsession.commit, trivial⟩
      | cons d left =>
          dsimp only
          split
          · exact ⟨hsession.commit, trivial⟩
          · exact kept_indexNext hP hsession had hawaits toPrune tally
  | pruning left total paused tally pruned =>
      cases left with
      | nil => exact ⟨hsession.commit, trivial⟩
      | cons seq left => exact kept_pruneNext hP hsession seq left total paused tally pruned
  | finished report => exact hsame
  | failed e => exact hsame

theorem kept_interfere (hP : Preserves o env P Q) (h : Kept P Q r) {writes : List OutsideWrite}
    (hwrites : ∀ write ∈ writes, ∃ n, write ∈ env.outside n) : Kept P Q (r.interfere writes) := by
  unfold Run.interfere
  cases huncommitted : r.session.uncommitted with
  | some s => exact h
  | none =>
      have hdurable : P r.asked (writes.foldl OutsideWrite.apply r.session.durable) := by
        have hbefore := h.session.durable
        generalize r.session.durable = s at hbefore
        induction writes generalizing s with
        | nil => exact hbefore
        | cons write writes ih =>
            obtain ⟨n, hn⟩ := hwrites write List.mem_cons_self
            exact ih (fun w hw => hwrites w (List.mem_cons_of_mem _ hw)) _ (hP.outside hn hbefore)
      refine ⟨⟨hdurable, ?_⟩, h.awaits⟩
      simpa [Session.view, huncommitted] using hdurable

theorem mem_outsideBefore {write : OutsideWrite} (h : write ∈ r.outsideBefore env) :
    ∃ n, write ∈ env.outside n := by
  unfold Run.outsideBefore at h
  split at h
  · split at h
    · cases h
    · exact ⟨_, h⟩
  · cases h

theorem Preserves.advances (hP : Preserves o env P Q) (h : Kept P Q r) (n : Nat) :
    Kept P Q (Run.advances o env n r) := by
  induction n generalizing r with
  | zero => exact h
  | succ n ih =>
      exact ih (kept_step hP (kept_interfere hP h fun write hwrite => mem_outsideBefore hwrite))

theorem Preserves.complete (hP : Preserves o env P Q) {s : Store} (h : P [] s) :
    Kept P Q (Run.complete o env s) := by
  have hstart : Kept P Q (Run.start s) := ⟨⟨h, h⟩, trivial⟩
  unfold Run.complete Run.throughLoop
  exact hP.advances (hP.advances (hP.advances hstart 5) _) _

end Reindex

end MailIndex
