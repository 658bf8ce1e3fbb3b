import MailIndex.Check.Audit
import MailIndex.Ingest.Basic
import MailIndex.Proofs.Check.Recovery

/-!
# Health

An audit calls a document stale only if both of its hashes are set and differ; documents without a
hash are counted apart. A run, however, has to index every document that is not fresh. So in a
healthy index the candidates of a run over all documents are those whose hash was taken away and
not put back, by a run that was cancelled or could not load them. If the audit counts none of them
there is nothing to do.
-/

namespace MailIndex.Check

open Reindex

inductive Operation where
  | upsert (r : Record)
  | ingest (t : FileTree) (base : Path) (c : SourceConfig)
  | reindex (o : Options) (env : Surroundings)
  | repair (cancelled : Nat → Bool)

def Operation.apply (s : Store) : Operation → Store
  | upsert r => (Statement.upsert r s).2
  | ingest t base c => (Ingest.ingest t base c s).2
  | reindex o env => (Run.complete o env s).session.durable
  | repair cancelled => (Check.repair cancelled s).2

def reached (operations : List Operation) : Store := operations.foldl Operation.apply .empty

/-! ## What every operation keeps -/

/-- All tables exist, the ledger is in order, and a document that has been indexed has a content
hash. -/
structure Sound (s : Store) : Prop where
  tables : s.missing = []
  numbered : s.Numbered
  hashed : ∀ d ∈ s.documents, d.indexedHash.isSome = true → d.contentHash.isSome = true

variable {s : Store}

theorem Sound.removeAll (s : Store) (old : List Nat) (h : Sound s) :
    Sound (old.foldl Store.removeEntry s) := by
  have hnumbered := h.numbered.removeAll old
  rw [Store.foldl_removeEntry] at hnumbered ⊢
  exact ⟨h.tables, hnumbered, h.hashed⟩

theorem Sound.change (h : Sound s) {condition : Document → Bool} {f : Document → Document}
    (hf : ∀ d ∈ s.documents, (f d).indexedHash.isSome = true → (f d).contentHash.isSome = true) :
    Sound (s.change condition f) := by
  refine ⟨h.tables, h.numbered.withDocuments _ s.lastSeq, fun d hd => ?_⟩
  obtain ⟨e, he, rfl⟩ := List.mem_map.mp hd
  split
  · exact hf e he
  · exact h.hashed e he

theorem Sound.upsert (h : Sound s) (r : Record) : Sound (s.upsert r).1 := by
  have hupdated : ∀ d ∈ s.documents, (d.updated r).indexedHash.isSome = true →
      (d.updated r).contentHash.isSome = true := by
    intro d hd hindexed
    have hhash := h.hashed d hd hindexed
    unfold Document.updated
    cases r.contentHash with
    | none => exact hhash
    | some hash => rfl
  unfold Store.upsert
  dsimp only
  cases s.find? r.id with
  | some known =>
      have hchanged : Sound (s.change (·.id = r.id) (·.updated r)) := h.change hupdated
      exact ⟨hchanged.tables, h.numbered.withDocuments _ _, hchanged.hashed⟩
  | none =>
      refine ⟨h.tables, h.numbered.withDocuments _ _, fun d hd => ?_⟩
      rcases List.mem_append.mp hd with hd | hd
      · exact h.hashed d hd
      · rw [List.mem_singleton.mp hd]
        intro hindexed
        cases hindexed

theorem Sound.deleteDocument (h : Sound s) (id : Text) : Sound (s.deleteDocument id) :=
  ⟨h.tables, h.numbered.withDocuments _ s.lastSeq,
    fun d hd => h.hashed d (List.mem_filter.mp hd).1⟩

theorem Sound.index (h : Sound s) {o : Options} {now : Int} {d : Document} {m : Message}
    {written : Store} (hwritten : Run.indexed? o now s d m = some written) : Sound written := by
  unfold Run.indexed? at hwritten
  split at hwritten
  · cases hwritten
    have hmarked : Sound (s.markIndexed d.seq (Derived.ofMessage m o.snippetChars)
        (Run.hashFor d m) now) := by
      refine h.change fun e _ _ => ?_
      unfold Document.indexed
      cases e.contentHash <;> rfl
    exact ⟨hmarked.tables, hmarked.numbered.addEntry _ _, hmarked.hashed⟩
  · cases hwritten

theorem preserves_sound (o : Options) (env : Surroundings) :
    Preserves o env (fun _ s => Sound s) fun _ => True where
  candidate _ _ := trivial
  unindexed scope h := h.change fun _ _ hindexed => by cases hindexed
  ask _ h := h
  index _ _ hwritten h := h.index hwritten
  prune seq h := h.removeAll _ _
  outside {_ s _ write} _ h :=
    OutsideWrite.apply_cases (P := Sound) write h h.upsert h.deleteDocument

section

variable {P : Store → Prop} (hP : ∀ s r, P s → P (Store.upsert s r).1)

include hP

theorem keeps_ingestFile (h : P s) (file : Ingest.ScannedFile) (summary : Ingest.Summary) :
    P (Ingest.ingestFile file summary s).2 := by
  unfold Ingest.ingestFile
  cases Envelope.ofBytes? file.bytes with
  | none => exact h
  | some e =>
      have hupserted : P (Statement.upsert (Ingest.recordOf e file) s).2 := snd_write _ h (hP s _ h)
      dsimp only [Statement.find, Statement.read]
      cases s.needing [.documents] (s.find? (Ingest.recordOf e file).id) with
      | error failure => exact h
      | ok known =>
          dsimp only
          split
          · next hupsert =>
              rw [hupsert] at hupserted
              exact hupserted
          · next hupsert =>
              rw [hupsert] at hupserted
              exact hupserted

theorem keeps_ingestFiles (h : P s) (files : List Ingest.ScannedFile) (summary : Ingest.Summary) :
    P (Ingest.ingestFiles files summary s).2 := by
  induction files generalizing s summary with
  | nil => exact h
  | cons file files ih =>
      have hone := keeps_ingestFile hP h file summary
      unfold Ingest.ingestFiles
      split
      · next hresult =>
          rw [hresult] at hone
          exact ih hone _
      · exact hone

theorem keeps_ingestFiles_append {front : List Ingest.ScannedFile} {summary : Ingest.Summary}
    (h : P (Ingest.ingestFiles front summary s).2) (back : List Ingest.ScannedFile) :
    P (Ingest.ingestFiles (front ++ back) summary s).2 := by
  induction front generalizing s summary with
  | nil => exact keeps_ingestFiles hP h back summary
  | cons file front ih =>
      unfold Ingest.ingestFiles at h
      rw [List.cons_append]
      unfold Ingest.ingestFiles
      split
      · next hresult =>
          rw [hresult] at h
          exact ih h
      · next hfailed =>
          split at h
          · next hresult => exact absurd hresult (hfailed _ _)
          · exact h

theorem keeps_ingest (h : P s) (t : FileTree) (base : Path) (c : SourceConfig) :
    P (Ingest.ingest t base c s).2 := by
  unfold Ingest.ingest
  split
  · exact h
  · exact keeps_ingestFiles hP h _ _

end

theorem Sound.apply (h : Sound s) (operation : Operation) : Sound (operation.apply s) := by
  cases operation with
  | upsert r => exact snd_write _ h (h.upsert r)
  | ingest t base c => exact keeps_ingest (fun _ r h => h.upsert r) h t base c
  | reindex o env => exact ((preserves_sound o env).complete h).session.durable
  | repair cancelled => exact Repair.repair_keeps Sound.removeAll cancelled h

/-- The induction is on the operations from the last one back. -/
theorem sound_reached (operations : List Operation) : Sound (reached operations) := by
  induction operations using List.reverseRecOn with
  | nil => exact ⟨rfl, ⟨List.Pairwise.nil, fun _ hrow => by cases hrow⟩, fun _ hd => by cases hd⟩
  | append_singleton operations operation ih =>
      unfold reached
      rw [List.foldl_append]
      exact ih.apply operation

/-! ## Healthy stores -/

theorem Sound.isFresh_eq (h : Sound s) (hstale : (Audit.ofStore s).stale = []) {d : Document}
    (hd : d ∈ s.documents) : d.isFresh = d.indexedHash.isSome := by
  cases hindexed : d.indexedHash with
  | none => cases hhash : d.contentHash <;> simp [Document.isFresh, hindexed, hhash]
  | some indexed =>
      have hcontent : d.contentHash.isSome = true := h.hashed d hd (by rw [hindexed]; rfl)
      have hnone : Audit.isStale d = false := by
        have hall := List.map_eq_nil_iff.mp hstale
        simpa using List.filter_eq_nil_iff.mp hall d hd
      obtain ⟨content, hhash⟩ := Option.isSome_iff_exists.mp hcontent
      have hsame : content = indexed := by
        simpa [Audit.isStale, hindexed, hhash] using hnone
      simp [Document.isFresh, hindexed, hhash, hsame]

/-- While no document is stale, the run has to index those that have not been indexed. -/
theorem Sound.candidates_eq (h : Sound s) (hstale : (Audit.ofStore s).stale = []) :
    candidates s .all .all = s.documents.filter (·.indexedHash.isNone) := by
  unfold candidates
  apply List.filter_congr
  intro d hd
  simp [h.isFresh_eq hstale hd, Scope.contains]

/-- An owner of several entries is a document that owns them, or they are entries without one. -/
theorem duplicates_eq_nil (hduplicates : (Audit.ofStore s).duplicates = [])
    (horphans : s.orphans = []) : s.duplicates = [] := by
  rw [List.eq_nil_iff_forall_not_mem]
  rintro ⟨seq, count⟩ hmem
  have hmany : 1 < (s.entriesOf seq).length :=
    Store.mem_owners_duplicates.mp (List.mem_map_of_mem hmem)
  obtain ⟨entry, rest, hentries⟩ := List.exists_cons_of_length_pos (Nat.zero_lt_of_lt hmany)
  have hrow : ⟨entry, seq⟩ ∈ s.entries := Store.mem_entriesOf.mp (by simp [hentries])
  have howned : s.documents.any (·.seq = seq) = true := by
    simpa using List.filter_eq_nil_iff.mp horphans _ hrow
  obtain ⟨d, hd, hseq⟩ := List.any_eq_true.mp howned
  rw [decide_eq_true_eq] at hseq
  have hdouble := List.filter_eq_nil_iff.mp hduplicates _ (List.mem_map_of_mem hd)
  rw [hseq] at hdouble
  exact hdouble (decide_eq_true hmany)

/-! ## Runs over healthy stores -/

def idle (s : Store) (stage : Stage) : Run := ⟨.start s, stage, [], [.selecting]⟩

theorem complete_of_idle (env : Surroundings) (interval chars : Nat) (hmissing : s.missing = [])
    (hnone : candidates s .all .all = []) (hsingle : s.duplicates = []) :
    (Run.complete (overAll interval chars) env s).outcome? =
        some (.ok ⟨.upToDate, 0, 0, 0, 0, 0, 0⟩) ∧
      (Run.complete (overAll interval chars) env s).asked = [] ∧
      (Run.complete (overAll interval chars) env s).session.durable = s := by
  have hread {α : Type} (tables : List Table) (a : α) : s.needing tables a = .ok a :=
    Store.needing_of_missing_nil hmissing tables a
  have hresolve : Run.advance (overAll interval chars) env (.start s) = idle s (.scoped .all) := rfl
  have hnote : Run.advance (overAll interval chars) env (idle s (.scoped .all)) =
      idle s (.noted .all (hadIndexed s .all)) := by
    change Run.proceed _ (s.needing _ _) _ = _
    rw [hread]
    rfl
  have hprepare (had : List Nat) :
      Run.advance (overAll interval chars) env (idle s (.noted .all had)) =
        idle s (.prepared .all had) := rfl
  have hselect (had : List Nat) :
      Run.advance (overAll interval chars) env (idle s (.prepared .all had)) =
        idle s (.selected .all had []) := by
    change Run.proceed _ (s.needing _ (candidates s .all .all)) _ = _
    rw [hread, hnone]
    rfl
  have hcollect (had : List Nat) :
      Run.advance (overAll interval chars) env (idle s (.selected .all had [])) =
        idle s (.indexing had [] [] ⟨0, 0, 0⟩) := by
    change Run.proceed _ (s.needing _ ((s.duplicates.map _).filter _)) _ = _
    rw [hread, hsingle]
    rfl
  have hready : Run.advances (overAll interval chars) env 5 (.start s) =
      idle s (.indexing (hadIndexed s .all) [] [] ⟨0, 0, 0⟩) := by
    simp only [Run.advances, hresolve, hnote, hprepare, hselect, hcollect]
  unfold Run.complete Run.throughLoop
  rw [hready]
  exact ⟨rfl, rfl, rfl⟩

theorem complete_reports (interval chars : Nat) (env : Surroundings) (hs : s.Numbered)
    (hmissing : s.missing = []) (hout : ∀ n, env.outside n = []) :
    ∃ report, (Run.complete (overAll interval chars) env s).outcome? = some (.ok report) ∧
      report.candidates = (candidates s .all .all).length := by
  have hresolved : (overAll interval chars).selector.scope s = .ok .all := rfl
  obtain ⟨report, hstage⟩ := exists_report (overAll interval chars) env hs hresolved hmissing
  have hreport := outcome?_of_finished hstage
  obtain ⟨scope, rest, tally, hdivides, -, -, hcount, -⟩ := account_of_report hout hreport
  have hscope : scope = .all := (Except.ok.inj hdivides.resolved).symm
  subst hscope
  have hfound : candidates s .all .all =
      (Run.complete (overAll interval chars) env s).asked ++ rest := hdivides.found
  exact ⟨report, hreport, by rw [hcount, hdivides.total, hfound]⟩

/-- When a store that has been reached is healthy, a run over all documents has to index exactly
those that the audit counts as not indexed. If there are none, it asks for nothing, changes nothing
and reports that all is up to date. -/
theorem healthy_counts_candidates (operations : List Operation) {a : Audit}
    (haudit : (audit (reached operations)).1 = .ok a) (hhealthy : a.isHealthy = true)
    (interval chars : Nat) (env : Surroundings) :
    candidates (reached operations) .all .all =
        (reached operations).documents.filter (·.indexedHash.isNone) ∧
      a.nullIndexedHash = (candidates (reached operations) .all .all).length ∧
      ((∀ n, env.outside n = []) →
        ∃ report, (Run.complete (overAll interval chars) env (reached operations)).outcome? =
            some (.ok report) ∧ report.candidates = a.nullIndexedHash) ∧
      (a.nullIndexedHash = 0 →
        (Run.complete (overAll interval chars) env (reached operations)).outcome? =
            some (.ok ⟨.upToDate, 0, 0, 0, 0, 0, 0⟩) ∧
          (Run.complete (overAll interval chars) env (reached operations)).asked = [] ∧
          (Run.complete (overAll interval chars) env (reached operations)).session.durable =
            reached operations) := by
  have hsound := sound_reached operations
  generalize reached operations = s at *
  rw [audit_of_missing_nil hsound.tables] at haudit
  cases haudit
  unfold Audit.isHealthy at hhealthy
  simp only [Bool.and_eq_true, List.isEmpty_iff] at hhealthy
  obtain ⟨⟨⟨hduplicates, horphans⟩, -⟩, hstale⟩ := hhealthy
  have hcandidates := hsound.candidates_eq hstale
  have hcount : (Audit.ofStore s).nullIndexedHash = (candidates s .all .all).length :=
    (congrArg List.length hcandidates).symm
  refine ⟨hcandidates, hcount, fun hout => ?_, fun hnone => ?_⟩
  · obtain ⟨report, hreport, hfound⟩ :=
      complete_reports interval chars env hsound.numbered hsound.tables hout
    exact ⟨report, hreport, hfound.trans hcount.symm⟩
  · have hempty : candidates s .all .all = [] := List.length_eq_zero_iff.mp (hcount ▸ hnone)
    exact complete_of_idle env interval chars hsound.tables hempty
      (duplicates_eq_nil hduplicates horphans)

/-- A document that has been ingested and indexed leaves nothing to do. -/
theorem healthy_counts_candidates_of_one_document :
    let env : Surroundings :=
      ⟨fun _ => some ⟨['n'], [], [], [], [], [], none⟩, fun _ => false, fun _ => [], 7⟩
    let operations : List Operation :=
      [.upsert ⟨['a'], some ['h'], none, none, none⟩, .reindex (overAll 1 10) env,
        .repair fun _ => false]
    ∃ a, (audit (reached operations)).1 = .ok a ∧ a.isHealthy = true ∧ a.documents = 1 ∧
      (Run.complete (overAll 1 10) env (reached operations)).outcome? =
        some (.ok ⟨.upToDate, 0, 0, 0, 0, 0, 0⟩) := by
  intro env operations
  have haudit := audit_of_missing_nil (sound_reached operations).tables
  have hhealthy : (Audit.ofStore (reached operations)).isHealthy = true := by decide +kernel
  have hnone : (Audit.ofStore (reached operations)).nullIndexedHash = 0 := by decide +kernel
  obtain ⟨-, -, -, hidle⟩ := healthy_counts_candidates operations haudit hhealthy 1 10 env
  exact ⟨_, haudit, hhealthy, by decide +kernel, (hidle hnone).1⟩

/-- A run that makes a document stale and is cancelled leaves a healthy index with something to
do. -/
theorem exists_healthy_with_candidates :
    let env : Surroundings :=
      ⟨fun _ => some ⟨['n'], [], [], [], [], [], none⟩, fun _ => false, fun _ => [], 7⟩
    let operations : List Operation :=
      [.upsert ⟨['a'], some ['h'], none, none, none⟩, .reindex (overAll 1 10) env,
        .reindex ⟨.all, true, 1, 10⟩ { env with cancelled := fun _ => true }]
    ∃ a, (audit (reached operations)).1 = .ok a ∧ a.isHealthy = true ∧
      (Run.complete (overAll 1 10) env (reached operations)).outcome? =
        some (.ok ⟨.completed, 1, 1, 0, 0, 1, 2⟩) := by
  intro env operations
  have haudit := audit_of_missing_nil (sound_reached operations).tables
  exact ⟨_, haudit, by decide +kernel, by decide +kernel⟩

end MailIndex.Check
