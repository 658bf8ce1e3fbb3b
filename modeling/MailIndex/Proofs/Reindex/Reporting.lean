import MailIndex.Proofs.Reindex.Durable
import MailIndex.Proofs.Reindex.Overtaking
import MailIndex.Proofs.Store.Commits

/-!
# What a run reports

The report of a run that ends well, the events on its way and its work agree, whatever others write
meanwhile. Every candidate has been indexed, has failed or is left over; every event counts one that
was asked for, or one document that was checked for superseded entries; the ledger has grown by what
was indexed and shrunk by what was pruned; and every interval of finished work has been committed.
-/

namespace MailIndex.Reindex

def counting (event : Nat → Event) (n : Nat) : List Event :=
  (List.range n).map fun i => event (i + 1)

def loadable (env : Surroundings) (asked : List Document) : Nat :=
  asked.countP fun d => (env.load d).isSome

def Undeleted (env : Surroundings) : Prop := ∀ n id, OutsideWrite.delete id ∉ env.outside n

/-- The commits of a run before it asks for its first candidate. -/
def Options.earlyCommits (o : Options) : Nat := if o.force then 1 else 0

structure Report.Agrees (o : Options) (env : Surroundings) (s : Store) (report : Report) (r : Run) :
    Prop where
  candidates : report.candidates = (o.wanted s).length
  ascending : (o.wanted s).Pairwise (·.seq < ·.seq)
  asked : r.asked = (o.wanted s).take (report.candidates - report.remaining)
  balance : report.candidates = report.indexed + report.failed + report.remaining
  paused : report.status = .paused ↔ 0 < report.remaining
  upToDate : report.status = .upToDate ↔ report.candidates = 0 ∧ report.prunedEntries = 0
  ledger : r.session.durable.entries.length + report.prunedEntries =
    s.entries.length + report.indexed
  /-- So many documents are checked for superseded entries. While no candidate that was loaded has
  gone, the commits are those of full intervals and of what is left at the end of each loop. -/
  events : ∃ checked,
    r.events = .selecting ::
      counting (.indexing · report.candidates) (report.candidates - report.remaining) ++
        counting (.pruning · checked) checked ∧
    (report.indexed = loadable env r.asked → report.commits =
      o.earlyCommits + report.indexed ⌈/⌉ max 1 o.commitInterval +
        checked ⌈/⌉ max 1 o.commitInterval)
  /-- Only a deletion makes a document go. -/
  undeleted : Undeleted env → report.indexed = loadable env r.asked

theorem counting_succ (event : Nat → Event) (n : Nat) :
    counting event (n + 1) = counting event n ++ [event (n + 1)] := by
  simp [counting, List.range_succ]

section

variable (o : Options) (env : Surroundings) (s : Store)

/-! ## What is true at every stage -/

structure Reads (r : Run) (durable : Store) (commits : Nat) : Prop extends Waits r durable where
  commits : r.session.commits = commits
  events : r.events = [.selecting]

structure Writes (r : Run) (tally : Tally) (pruned : Nat) : Prop where
  numbered : r.session.view.Numbered
  ledger : r.session.view.entries.length + pruned = s.entries.length + tally.indexed
  indexed_le : tally.indexed ≤ loadable env r.asked

structure Indexes (scope : Scope) (r : Run) (left : List Document) (tally : Tally) : Prop
    extends Divides o env s scope r left tally, Writes env s r tally 0 where
  events : r.events = .selecting :: counting (.indexing · tally.total) tally.processed
  counted : tally.indexed = loadable env r.asked →
    r.session.Counted o.earlyCommits o.commitInterval tally.indexed
  undeleted : Undeleted env → tally.indexed = loadable env r.asked ∧
    ∀ d ∈ left, (r.session.view.findSeq? d.seq).isSome = true

structure Prunes (scope : Scope) (r : Run) (rest : List Document) (left : List Nat) (checked : Nat)
    (paused : Bool) (tally : Tally) (pruned : Nat) : Prop
    extends Divides o env s scope r rest tally, Writes env s r tally pruned where
  left_le : left.length ≤ checked
  paused : paused = true ↔ rest ≠ []
  events : r.events = .selecting :: counting (.indexing · tally.total) tally.processed ++
    counting (.pruning · checked) (checked - left.length)
  counted : tally.indexed = loadable env r.asked →
    r.session.Counted (o.earlyCommits + tally.indexed ⌈/⌉ max 1 o.commitInterval)
      o.commitInterval (checked - left.length)
  undeleted : Undeleted env → tally.indexed = loadable env r.asked

/-- What a run has reported so far agrees with what it has done. -/
def Reports (r : Run) : Prop :=
  match r.stage with
  | .beginning => r = .start s
  | .scoped scope => o.selector.scope s = .ok scope ∧ Reads r s 0
  | .noted scope _ => o.selector.scope s = .ok scope ∧ Reads r s 0
  | .prepared scope _ =>
    o.selector.scope s = .ok scope ∧ Reads r (preparedStore o s scope) o.earlyCommits
  | .selected scope _ found =>
    o.selector.scope s = .ok scope ∧ Reads r (preparedStore o s scope) o.earlyCommits ∧
      found = candidates (preparedStore o s scope) o.selector scope
  | .indexing _ left _ tally => ∃ scope, Indexes o env s scope r left tally
  | .pruning left checked paused tally pruned =>
    ∃ scope rest, Prunes o env s scope r rest left checked paused tally pruned
  | .finished report => report.Agrees o env s r
  | .failed _ => True

end

variable {o : Options} {env : Surroundings} {s : Store} {scope : Scope} {r : Run}

theorem reports_proceed {α : Type} {tables : List Table} {result : α} {next : α → Stage}
    {before : Store} (h : Reports o env s { r with stage := next result }) :
    Reports o env s (r.proceed (before.needing tables result) next) := by
  cases hresult : before.needing tables result with
  | error f => trivial
  | ok a =>
      rw [of_needing_ok hresult]
      exact h

/-! ## Up to the candidates -/

theorem Reads.atStage {durable : Store} {commits : Nat} (h : Reads r durable commits)
    (stage : Stage) : Reads { r with stage } durable commits :=
  ⟨⟨⟨h.asked, h.uncommitted, h.durable⟩, h.pending⟩, h.commits, h.events⟩

theorem reports_resolve : Reports o env s ((Run.start s).resolve o) := by
  unfold Run.resolve
  dsimp only
  split
  · rename_i scope hscope
    exact ⟨hscope, ⟨⟨⟨rfl, rfl, rfl⟩, rfl⟩, rfl, rfl⟩⟩
  · trivial

theorem reports_note (hscope : o.selector.scope s = .ok scope) (h : Reads r s 0) :
    Reports o env s (r.note scope) := by
  unfold Run.note
  rw [h.durable]
  exact reports_proceed ⟨hscope, h.atStage _⟩

theorem reports_prepare (hscope : o.selector.scope s = .ok scope) (h : Reads r s 0)
    (had : List Nat) : Reports o env s (r.prepare o scope had) := by
  unfold Run.prepare
  cases hforce : o.force with
  | false =>
      have hsame : preparedStore o s scope = s := by simp [preparedStore, hforce]
      have hnone : o.earlyCommits = 0 := by simp [Options.earlyCommits, hforce]
      simp only [Bool.false_eq_true, if_false]
      refine ⟨hscope, ?_⟩
      rw [hsame, hnone]
      exact h.atStage _
  | true =>
      have hsame : preparedStore o s scope = Run.unindexed s scope := by
        simp [preparedStore, hforce]
      have hone : o.earlyCommits = r.session.commits + 1 := by
        simp [Options.earlyCommits, hforce, h.commits]
      simp only [if_true]
      rw [h.view]
      cases hneeding : s.needing [.documents] (Run.unindexed s scope) with
      | error f => trivial
      | ok written =>
          rw [of_needing_ok hneeding, ← hsame]
          exact ⟨hscope, ⟨⟨⟨h.asked, rfl, rfl⟩, rfl⟩, hone.symm, h.events⟩⟩

theorem reports_select (hscope : o.selector.scope s = .ok scope)
    (h : Reads r (preparedStore o s scope) o.earlyCommits) (had : List Nat) :
    Reports o env s (r.select o scope had) := by
  unfold Run.select
  rw [h.durable]
  exact reports_proceed ⟨hscope, h.atStage _, rfl⟩

theorem entries_preparedStore : (preparedStore o s scope).entries = s.entries := by
  unfold preparedStore
  split <;> rfl

theorem indexes_start (hs : s.Numbered) (hscope : o.selector.scope s = .ok scope)
    (h : Reads r (preparedStore o s scope) o.earlyCommits) :
    Indexes o env s scope r (candidates (preparedStore o s scope) o.selector scope)
      ⟨(candidates (preparedStore o s scope) o.selector scope).length, 0, 0⟩ where
  resolved := hscope
  found := by rw [h.asked, List.nil_append]
  total := by rw [h.asked, List.nil_append]
  processed := by rw [h.asked]; rfl
  running n hn := by
    rw [h.asked] at hn
    cases hn
  numbered := by
    rw [h.view]
    exact numbered_preparedStore hs
  ledger := by rw [h.view, entries_preparedStore]
  indexed_le := Nat.zero_le _
  events := h.events
  counted _ := ⟨by simp [h.commits], by simp [h.pending], by simp [h.uncommitted]⟩
  undeleted _ := by
    refine ⟨by rw [h.asked]; rfl, fun d hd => ?_⟩
    rw [h.view]
    exact findSeq?_isSome.mpr ⟨d, (List.mem_filter.mp hd).1, rfl⟩

theorem reports_collect (hs : s.Numbered) (hscope : o.selector.scope s = .ok scope)
    (h : Reads r (preparedStore o s scope) o.earlyCommits) (had : List Nat) :
    Reports o env s
      (r.collect scope had (candidates (preparedStore o s scope) o.selector scope)) := by
  unfold Run.collect
  rw [h.durable]
  exact reports_proceed ⟨scope, indexes_start hs hscope (h.atStage _)⟩

/-! ## The candidates -/

theorem Divides.ofAsked {left : List Document} {tally : Tally} {r' : Run}
    (h : Divides o env s scope r left tally) (hasked : r'.asked = r.asked) :
    Divides o env s scope r' left tally :=
  ⟨h.resolved, hasked ▸ h.found, hasked ▸ h.total, hasked ▸ h.processed, hasked ▸ h.running⟩

theorem processed_of_failed (tally : Tally) :
    Tally.processed { tally with failed := tally.failed + 1 } = tally.processed + 1 :=
  (Nat.add_assoc _ _ _).symm

theorem processed_of_indexed (tally : Tally) :
    Tally.processed { tally with indexed := tally.indexed + 1 } = tally.processed + 1 :=
  Nat.add_right_comm _ _ _

theorem length_index (t : Store) (d : Document) (m : Message) :
    ((Move.index d m).apply o env t).entries.length = t.entries.length + 1 := by
  change (t.entries ++ [_]).length = _
  rw [List.length_append, List.length_singleton]

theorem isSome_findSeq?_change {t : Store} (condition : Document → Bool) {f : Document → Document}
    (hseq : ∀ d, (f d).seq = d.seq) {seq : Nat} (h : (t.findSeq? seq).isSome = true) :
    ((t.change condition f).findSeq? seq).isSome = true := by
  obtain ⟨d, hd, hsame⟩ := findSeq?_isSome.mp h
  refine findSeq?_isSome.mpr ⟨_, List.mem_map_of_mem hd, ?_⟩
  split
  · exact (hseq d).trans hsame
  · exact hsame

theorem isSome_findSeq?_upsert {t : Store} (record : Record) {seq : Nat}
    (h : (t.findSeq? seq).isSome = true) : ((t.upsert record).1.findSeq? seq).isSome = true := by
  unfold Store.upsert
  dsimp only
  cases t.find? record.id with
  | some known =>
      exact isSome_findSeq?_change (t := t) (·.id = record.id) (f := (·.updated record))
        (fun _ => rfl) h
  | none =>
      obtain ⟨d, hd, hsame⟩ := findSeq?_isSome.mp h
      exact findSeq?_isSome.mpr ⟨d, List.mem_append_left _ hd, hsame⟩

theorem loadable_concat (env : Surroundings) (asked : List Document) (d : Document) :
    loadable env (asked ++ [d]) = loadable env asked + (env.load d).isSome.toNat := by
  unfold loadable
  rw [List.countP_append, List.countP_singleton]
  cases (env.load d).isSome <;> rfl

section

variable {d : Document} {left : List Document} {tally : Tally} {r' : Run}

/-- A candidate that has failed: it could not be loaded, or its document had gone. -/
theorem Indexes.pass (h : Indexes o env s scope r (d :: left) tally)
    (hrunning : env.cancelled tally.processed = false) (hasked : r'.asked = r.asked ++ [d])
    (hevents : r'.events = r.events ++ [.indexing (tally.processed + 1) tally.total])
    (hview : r'.session.view = r.session.view)
    (hfailed : env.load d = none ∧ r'.session = r.session ∨
      (env.load d).isSome = true ∧ (r.session.view.findSeq? d.seq).isSome = false) :
    Indexes o env s scope r' left { tally with failed := tally.failed + 1 } where
  toDivides := h.toDivides.next hasked hrunning rfl (processed_of_failed tally)
  numbered := hview ▸ h.numbered
  ledger := hview ▸ h.ledger
  indexed_le := by
    rw [hasked, loadable_concat]
    exact Nat.le_add_right_of_le h.indexed_le
  events := by
    rw [hevents, h.events]
    exact congrArg _ (counting_succ _ _).symm
  counted := by
    rw [hasked, loadable_concat]
    intro hall
    rcases hfailed with ⟨hload, hsession⟩ | ⟨hload, -⟩
    · rw [hsession]
      exact h.counted (by simpa [hload] using hall)
    · -- A candidate that was loaded has not been indexed, and none makes up for it.
      have hle := h.indexed_le
      rw [hload] at hall
      simp only [Bool.toNat_true] at hall
      omega
  undeleted hnone := by
    obtain ⟨hall, hpresent⟩ := h.undeleted hnone
    rw [hasked, loadable_concat, hview]
    refine ⟨?_, fun e he => hpresent e (List.mem_cons_of_mem d he)⟩
    rcases hfailed with ⟨hload, -⟩ | ⟨-, hgone⟩
    · simpa [hload] using hall
    · rw [hpresent d List.mem_cons_self] at hgone
      cases hgone

theorem Indexes.index (h : Indexes o env s scope r (d :: left) tally)
    (hrunning : env.cancelled tally.processed = false) (hasked : r'.asked = r.asked ++ [d])
    (hevents : r'.events = r.events ++ [.indexing (tally.processed + 1) tally.total]) {m : Message}
    (hload : env.load d = some m)
    (hsession : r'.session =
      (r.session.write ((Move.index d m).apply o env r.session.view)).finishOne o.commitInterval) :
    Indexes o env s scope r' left { tally with indexed := tally.indexed + 1 } := by
  have hview : r'.session.view = (Move.index d m).apply o env r.session.view := by
    rw [hsession]
    exact Session.view_finishOne _ _
  have hloadable : loadable env r'.asked = loadable env r.asked + 1 := by
    rw [hasked, loadable_concat, hload]
    rfl
  refine ⟨h.toDivides.next hasked hrunning rfl (processed_of_indexed tally), ⟨?_, ?_, ?_⟩, ?_,
    fun hall => ?_, fun hnone => ?_⟩
  · rw [hview]
    exact numbered_apply h.numbered _
  · rw [hview, length_index]
    have hledger := h.ledger
    dsimp only
    omega
  · rw [hloadable]
    exact Nat.succ_le_succ h.indexed_le
  · rw [hevents, h.events, processed_of_indexed]
    exact congrArg _ (counting_succ _ _).symm
  · rw [hsession]
    exact (h.counted (Nat.succ_injective (hall.trans hloadable))).finishOne _
  · obtain ⟨hall, hpresent⟩ := h.undeleted hnone
    refine ⟨by rw [hloadable, hall], fun e he => ?_⟩
    rw [hview]
    exact isSome_findSeq?_change (t := r.session.view) (·.seq = d.seq)
      (f := (·.indexed (Derived.ofMessage m o.snippetChars) (Run.hashFor d m) env.now))
      (fun _ => rfl) (hpresent e (List.mem_cons_of_mem d he))

theorem Indexes.indexNext (h : Indexes o env s scope r (d :: left) tally)
    (hrunning : env.cancelled tally.processed = false) (had : List Nat) (toPrune : SeqSet) :
    Reports o env s (r.indexNext o env had d left toPrune tally) := by
  have hevents {n : Nat} (hn : n = tally.processed + 1) :
      r.events ++ [.indexing n tally.total] =
        r.events ++ [.indexing (tally.processed + 1) tally.total] := by rw [hn]
  unfold Run.indexNext
  dsimp only
  cases hload : env.load d with
  | none =>
      exact ⟨scope, h.pass hrunning rfl (hevents (processed_of_failed tally)) rfl
        (.inl ⟨hload, rfl⟩)⟩
  | some m =>
      dsimp only
      cases hneeding : r.session.view.needing (Run.tablesFor r.session.view d)
          (Run.indexed? o env.now r.session.view d m) with
      | error f => trivial
      | ok result =>
          have hresult := of_needing_ok hneeding
          unfold Run.indexed? at hresult
          split at hresult
          · subst hresult
            exact ⟨scope, h.index hrunning rfl (hevents (processed_of_indexed tally)) hload rfl⟩
          · next hgone =>
              subst hresult
              exact ⟨scope, h.pass hrunning rfl (hevents (processed_of_failed tally)) rfl
                (.inr ⟨by simp [hload], by simpa using hgone⟩)⟩

theorem view_interfere {P : Store → Prop} {writes : List OutsideWrite}
    (houtside : ∀ write ∈ writes, ∀ t, P t → P (write.apply t)) (h : P r.session.view) :
    P (r.interfere writes).session.view := by
  rcases interfere_cases r writes with hsame | ⟨hbefore, hview, -⟩
  · rw [hsame]
    exact h
  · rw [hview]
    rw [hbefore] at h
    generalize r.session.durable = t at h
    clear hbefore hview
    induction writes generalizing t with
    | nil => exact h
    | cons write writes ih =>
        exact ih (fun w hw => houtside w (List.mem_cons_of_mem _ hw)) _
          (houtside write List.mem_cons_self t h)

/-- What others write changes nothing that is reported. -/
theorem Indexes.interfere (h : Indexes o env s scope r left tally) {writes : List OutsideWrite}
    (hwrites : ∀ write ∈ writes, ∃ n, write ∈ env.outside n) :
    Indexes o env s scope (r.interfere writes) left tally := by
  have hasked : (r.interfere writes).asked = r.asked := asked_interfere r writes
  have hevents : (r.interfere writes).events = r.events := by
    unfold Run.interfere
    split <;> rfl
  have hcounted {start units : Nat} (hbefore : r.session.Counted start o.commitInterval units) :
      (r.interfere writes).session.Counted start o.commitInterval units := by
    unfold Run.interfere
    split
    · exact ⟨hbefore.commits, hbefore.pending, hbefore.idle⟩
    · exact hbefore
  have hentries : (r.interfere writes).session.view.entries = r.session.view.entries :=
    view_interfere (P := fun t => t.entries = r.session.view.entries)
      (fun write _ t ht => (outside_apply write t).1.trans ht) rfl
  refine ⟨h.toDivides.ofAsked hasked, ⟨?_, ?_, ?_⟩, ?_, fun hall => ?_, fun hnone => ?_⟩
  · exact view_interfere (fun write _ t ht => numbered_outside ht write) h.numbered
  · rw [hentries]
    exact h.ledger
  · rw [hasked]
    exact h.indexed_le
  · rw [hevents]
    exact h.events
  · rw [hasked] at hall
    exact hcounted (h.counted hall)
  · obtain ⟨hall, hpresent⟩ := h.undeleted hnone
    refine ⟨by rw [hasked, hall], fun d hd => ?_⟩
    refine view_interfere (P := fun t => (t.findSeq? d.seq).isSome = true) ?_ (hpresent d hd)
    intro write hwrite t ht
    cases write with
    | upsert record =>
        exact snd_write (Q := fun t => (t.findSeq? d.seq).isSome = true) _ ht
          (isSome_findSeq?_upsert record ht)
    | delete id =>
        obtain ⟨n, hn⟩ := hwrites _ hwrite
        exact absurd hn (hnone n id)

/-! ## Superseded entries -/

theorem Indexes.endIndexing (h : Indexes o env s scope r left tally) {paused : Bool}
    (hpaused : paused = true ↔ left ≠ []) (toPrune : SeqSet) :
    Reports o env s (r.endIndexing paused toPrune tally) := by
  have hview : r.session.commit.view = r.session.view := Session.view_commit _
  refine ⟨scope, left, h.toDivides.ofAsked rfl, ⟨?_, ?_, h.indexed_le⟩, Nat.le_refl _, hpaused, ?_,
    fun hall => ?_, fun hnone => (h.undeleted hnone).1⟩
  · exact hview.symm ▸ h.numbered
  · exact hview.symm ▸ h.ledger
  · rw [Nat.sub_self]
    exact h.events.trans (List.append_nil _).symm
  · rw [Nat.sub_self]
    exact (h.counted hall).commit

section

variable {rest : List Document} {seq : Nat} {seqs : List Nat} {checked pruned : Nat} {paused : Bool}

theorem Prunes.pruneNext
    (h : Prunes o env s scope r rest (seq :: seqs) checked paused tally pruned) :
    Reports o env s (r.pruneNext o seq seqs checked paused tally pruned) := by
  have hleft : seqs.length + 1 ≤ checked := h.left_le
  have hsucc : checked - seqs.length = checked - (seq :: seqs).length + 1 := by
    rw [List.length_cons]
    omega
  unfold Run.pruneNext
  cases hprune : Statement.prune seq r.session.view with
  | mk result after =>
      cases result with
      | error f => trivial
      | ok count =>
          have hpruned := prune_eq_of_ok hprune
          have hview : ((r.session.write after).finishOne o.commitInterval).view = after :=
            Session.view_finishOne _ _
          refine ⟨scope, rest, h.toDivides.ofAsked rfl, ⟨?_, ?_, h.indexed_le⟩,
            Nat.le_of_succ_le hleft, h.paused, ?_, fun hall => ?_, h.undeleted⟩
          · have hnumbered := h.numbered.prune seq
            rw [hpruned] at hnumbered
            exact hview.symm ▸ hnumbered
          · have hlength := h.numbered.length_prune seq
            have hledger := h.ledger
            rw [hpruned] at hlength
            change ((r.session.write after).finishOne o.commitInterval).view.entries.length + _ = _
            rw [hview]
            dsimp only at hlength
            omega
          · rw [hsucc, counting_succ, ← List.append_assoc]
            change r.events ++ [_] = _
            rw [h.events]
          · rw [hsucc]
            exact (h.counted hall).finishOne after

theorem Prunes.conclude (hs : s.Identified)
    (h : Prunes o env s scope r rest [] checked paused tally pruned) :
    Reports o env s (r.conclude paused tally pruned) := by
  have hwanted : o.wanted s = r.asked ++ rest := by
    rw [← h.found, candidates_preparedStore hs h.resolved]
  have hrest : tally.total - tally.processed = rest.length := by
    rw [h.total, h.processed, List.length_append, Nat.add_sub_cancel_left]
  have hasked : tally.total - (tally.total - tally.processed) = r.asked.length := by
    rw [hrest, h.total, List.length_append, Nat.add_sub_cancel]
  have hbalance : tally.total = tally.indexed + tally.failed + rest.length := by
    rw [h.total, List.length_append, ← h.processed]
    rfl
  have hpaused : paused = true ↔ 0 < rest.length := by
    rw [h.paused, List.length_pos_iff]
  refine ⟨?_, wanted_ascending hs, ?_, ?_, ?_, ?_, ?_, ⟨checked, ?_, fun hall => ?_⟩, h.undeleted⟩
  · rw [hwanted]
    exact h.total
  · change r.asked = (o.wanted s).take (tally.total - (tally.total - tally.processed))
    rw [hasked, hwanted, List.take_left]
  · change tally.total = tally.indexed + tally.failed + (tally.total - tally.processed)
    rw [hrest]
    exact hbalance
  · change Run.statusOf paused tally pruned = .paused ↔ 0 < tally.total - tally.processed
    rw [hrest, ← hpaused]
    unfold Run.statusOf
    split
    · next hstopped => simp [hstopped]
    · next hended => split <;> simp [hended]
  · change Run.statusOf paused tally pruned = .upToDate ↔ tally.total = 0 ∧ pruned = 0
    unfold Run.statusOf
    split
    · next hstopped =>
        -- A run is paused only while candidates are left.
        have hleft := hpaused.mp hstopped
        simp only [reduceCtorEq, false_iff, not_and]
        omega
    · split
      · next hidle => simp [hidle]
      · next hbusy => simp [hbusy]
  · change r.session.commit.durable.entries.length + pruned = _
    rw [Session.durable_commit]
    exact h.ledger
  · change r.events = .selecting :: counting (.indexing · tally.total)
      (tally.total - (tally.total - tally.processed)) ++ counting (.pruning · checked) checked
    rw [hasked, ← h.processed]
    exact h.events
  · have hcommits := (h.counted hall).commit.commits
    rw [Nat.zero_div, Nat.add_zero] at hcommits
    exact hcommits

end

end

/-! ## Runs -/

theorem Reports.step (hid : s.Identified) (hs : s.Numbered) (h : Reports o env s r) :
    Reports o env s (r.step o env) := by
  have hsame := h
  unfold Reports at h
  unfold Run.step
  cases hstage : r.stage with
  | beginning =>
      rw [hstage] at h
      obtain rfl := h
      exact reports_resolve
  | «scoped» scope =>
      rw [hstage] at h
      exact reports_note h.1 h.2
  | noted scope had =>
      rw [hstage] at h
      exact reports_prepare h.1 h.2 had
  | prepared scope had =>
      rw [hstage] at h
      exact reports_select h.1 h.2 had
  | selected scope had found =>
      rw [hstage] at h
      obtain ⟨hscope, hreads, rfl⟩ := h
      exact reports_collect hs hscope hreads had
  | indexing had left toPrune tally =>
      rw [hstage] at h
      obtain ⟨scope, hindexes⟩ := h
      cases left with
      | nil => exact hindexes.endIndexing (by simp) toPrune
      | cons d left =>
          cases hcancelled : env.cancelled tally.processed with
          | true =>
              simp only [hcancelled, if_true]
              exact hindexes.endIndexing (by simp) toPrune
          | false =>
              simp only [hcancelled, Bool.false_eq_true, if_false]
              exact hindexes.indexNext hcancelled had toPrune
  | pruning left checked paused tally pruned =>
      rw [hstage] at h
      obtain ⟨scope, rest, hprunes⟩ := h
      cases left with
      | nil => exact hprunes.conclude hid
      | cons seq left => exact hprunes.pruneNext
  | finished report => exact hsame
  | failed e => exact hsame

theorem Reports.interfere (h : Reports o env s r) :
    Reports o env s (r.interfere (r.outsideBefore env)) := by
  cases hstage : r.stage with
  | indexing had left toPrune tally =>
      unfold Reports at h ⊢
      rw [hstage] at h
      rw [Run.stage_interfere, hstage]
      obtain ⟨scope, hindexes⟩ := h
      exact ⟨scope, hindexes.interfere fun write hwrite => mem_outsideBefore hwrite⟩
  | _ =>
      have hnone : r.outsideBefore env = [] := by
        unfold Run.outsideBefore
        rw [hstage]
      rw [hnone, interfere_nil]
      exact h

theorem Reports.advances (hid : s.Identified) (hs : s.Numbered) (h : Reports o env s r) (n : Nat) :
    Reports o env s (Run.advances o env n r) := by
  induction n generalizing r with
  | zero => exact h
  | succ n ih => exact ih (h.interfere.step hid hs)

theorem reports_start (o : Options) (env : Surroundings) (s : Store) :
    Reports o env s (Run.start s) := rfl

/-- The report of a run that ends well agrees with its events and with its work. -/
theorem report_agrees (o : Options) (env : Surroundings) (hid : s.Identified) (hs : s.Numbered)
    {report : Report} (hreport : (Run.complete o env s).outcome? = some (.ok report)) :
    report.Agrees o env s (Run.complete o env s) := by
  obtain ⟨n, hn⟩ := exists_complete_eq o env s
  have hreports : Reports o env s (Run.complete o env s) :=
    hn ▸ (reports_start o env s).advances hid hs n
  have hstage : (Run.complete o env s).stage = .finished report := finished_of_outcome? hreport
  unfold Reports at hreports
  rw [hstage] at hreports
  exact hreports

/-- A run told to index anew that commits after every second document and is cancelled after four of
five. The third cannot be loaded, and the first, already indexed, is deleted before that. -/
theorem report_agrees_of_deletion :
    let s : Store :=
      ⟨[⟨1, ['a'], none, none, some ['x'], some ['x'], none, none, some 0⟩,
        ⟨2, ['b'], none, none, some ['y'], some ['z'], none, none, some 0⟩,
        ⟨3, ['c'], none, none, none, none, none, none, none⟩,
        ⟨4, ['d'], none, none, none, none, none, none, none⟩,
        ⟨5, ['e'], none, none, none, none, none, none, none⟩], 5,
        [⟨1, 1⟩, ⟨2, 2⟩, ⟨3, 2⟩], 3,
        ⟨[⟨1, ⟨['p'], [], [], [], []⟩⟩, ⟨2, ⟨['q'], [], [], [], []⟩⟩,
          ⟨3, ⟨['r'], [], [], [], []⟩⟩], 3, 3⟩, []⟩
    let o : Options := ⟨.all, true, 2, 10⟩
    let m : Message := ⟨['n'], [], [], [], [], [], none⟩
    let env : Surroundings :=
      ⟨fun d => if d.seq = 3 then none else some m, fun n => n = 4,
        fun n => if n = 2 then [.delete ['a']] else [], 7⟩
    let r := Run.complete o env s
    let report : Report := ⟨.paused, 5, 3, 1, 1, 3, 4⟩
    r.outcome? = some (.ok report) ∧ report.Agrees o env s r ∧
      report.indexed = loadable env r.asked ∧
      report.commits = o.earlyCommits + 3 ⌈/⌉ 2 + 2 ⌈/⌉ 2 ∧
      r.session.durable.entries.length = 3 := by
  intro s o m env r report
  have hid : s.Identified := ⟨by decide, by decide⟩
  have hs : s.Numbered := ⟨by decide, by decide⟩
  have hreport : r.outcome? = some (.ok report) := by decide +kernel
  have hagrees := report_agrees o env hid hs hreport
  exact ⟨hreport, hagrees, by decide +kernel, by decide +kernel, by decide +kernel⟩

end MailIndex.Reindex
