import MailIndex.Check.Audit
import MailIndex.Proofs.Reindex.Overtaking
import MailIndex.Proofs.Store.Groups
import MailIndex.Store.Stats

/-!
# One notion of staleness

Whether a document is fresh is asked in several places: of a document by itself, where a run selects
its candidates, where an audit lists what is stale, and where documents are counted. With nulls, a
condition and its opposite may both be undecided; still all of these agree on every document, and
the counts of the accounts add up to those of the store.
-/

namespace MailIndex

open Reindex Check

variable {s : Store} {d : Document}

/-! ## Counts -/

theorem freshIn_eq (documents : List Document) :
    Stats.freshIn documents = documents.countP (·.isFresh) := by
  unfold Stats.freshIn
  rw [Ternary.sum_getD, List.countP_map]
  simp only [Function.comp_def, Document.holds_freshness]

theorem unindexedIn_eq (documents : List Document) :
    Stats.unindexedIn documents = documents.countP (·.indexedHash.isNone) := by
  unfold Stats.unindexedIn
  rw [Ternary.sum_getD, List.countP_map]
  simp only [Function.comp_def, Ternary.holds_isNull]

theorem freshIn_add_unindexedIn_le (documents : List Document) :
    Stats.freshIn documents + Stats.unindexedIn documents ≤ documents.length := by
  have hstale (d : Document) (hnone : d.indexedHash.isNone = true) :
      decide (¬ d.isFresh = true) = true := by
    unfold Document.isFresh
    rw [Option.isNone_iff_eq_none.mp hnone]
    cases d.contentHash <;> simp
  have hle := List.countP_mono_left (l := documents) fun d _ => hstale d
  have hsplit := List.length_eq_countP_add_countP (fun d : Document => d.isFresh) (l := documents)
  rw [freshIn_eq, unindexedIn_eq]
  omega

theorem sum_accounts (s : Store) {f : AccountStats → Nat} (rows : List Document)
    (hrows : rows ⊆ s.documents)
    (hf : ∀ account, f (Stats.ofAccount s.documents account) =
      rows.countP fun d => d.account = account) :
    ((Stats.ofStore s).accounts.map f).sum = rows.length := by
  have hperm := (List.mergeSort_perm
    ((Stats.accountsOf s.documents).map (Stats.ofAccount s.documents)) Stats.listedBefore).map f
  have hcounts : ((Stats.accountsOf s.documents).map (Stats.ofAccount s.documents)).map f =
      (Stats.accountsOf s.documents).map fun account =>
        rows.countP fun d => d.account = account := by
    rw [List.map_map]
    exact List.map_congr_left fun account _ => hf account
  rw [hcounts] at hperm
  exact hperm.sum_nat.trans (sum_countP_eraseDups (·.account) rows hrows)

/-! ## Single documents -/

theorem audit_isStale_iff : Audit.isStale d = true ↔
    d.isFresh = false ∧ d.contentHash.isSome = true ∧ d.indexedHash.isSome = true := by
  unfold Audit.isStale Document.isFresh
  cases d.contentHash with
  | none => simp
  | some content =>
      cases d.indexedHash with
      | none => simp
      | some indexed =>
          by_cases hsame : indexed = content
          · simp [hsame]
          · simp [hsame, Ne.symm hsame]

theorem isFresh_eq_false_iff :
    d.isFresh = false ↔ Audit.isStale d = true ∨ d.contentHash = none ∨ d.indexedHash = none := by
  rw [audit_isStale_iff]
  cases hcontent : d.contentHash with
  | none => simp [Document.isFresh, hcontent]
  | some content =>
      cases hindexed : d.indexedHash with
      | none => simp [Document.isFresh, hcontent, hindexed]
      | some indexed => simp

theorem mem_stale_iff (hs : s.Identified) (hd : d ∈ s.documents) :
    d.id ∈ (Audit.ofStore s).stale ↔ Audit.isStale d = true :=
  hs.mem_ids_filter hd Audit.isStale

theorem candidates_all (s : Store) :
    candidates s .all .all = s.documents.filter fun d => !d.isFresh := by
  unfold candidates
  refine List.filter_congr fun d _ => ?_
  simp [Scope.contains]

/-! ## The main result -/

/-- The candidates of a run, an audit and statistics tell the same documents from the fresh ones. -/
structure Concordant (s : Store) (found : List Document) (a : Audit) (st : Stats) : Prop where
  unfresh : found = s.documents.filter fun d => !d.isFresh
  audited : ∀ d ∈ s.documents,
    d ∈ found ↔ d.id ∈ a.stale ∨ d.contentHash = none ∨ d.indexedHash = none
  listed : ∀ id ∈ a.stale, ∃ d ∈ found, d.id = id
  length : (found.length : Int) = st.documents - st.fresh
  parts : (found.length : Int) = st.stale + st.unindexed
  nonneg : 0 ≤ st.stale
  accountDocuments : (st.accounts.map (·.documents)).sum = st.documents
  accountFresh : (st.accounts.map (·.fresh)).sum = st.fresh

theorem concordant_candidates (hs : s.Identified) :
    Concordant s (candidates s .all .all) (Audit.ofStore s) (Stats.ofStore s) := by
  have hlength : (candidates s .all .all).length + Stats.freshIn s.documents =
      s.documents.length := by
    have hsplit := List.length_eq_countP_add_countP (fun d : Document => d.isFresh)
      (l := s.documents)
    rw [candidates_all, freshIn_eq, ← List.countP_eq_length_filter, hsplit, Nat.add_comm]
    simp
  have hle := freshIn_add_unindexedIn_le s.documents
  refine ⟨candidates_all s, fun d hd => ?_, fun id hid => ?_, ?_, ?_, ?_, ?_, ?_⟩
  · rw [mem_stale_iff hs hd, ← isFresh_eq_false_iff, candidates_all, List.mem_filter]
    simp [hd]
  · obtain ⟨d, hd, rfl⟩ := List.mem_map.mp hid
    obtain ⟨hmem, hstale⟩ := List.mem_filter.mp hd
    refine ⟨d, ?_, rfl⟩
    rw [candidates_all, List.mem_filter, (audit_isStale_iff.mp hstale).1]
    exact ⟨hmem, rfl⟩
  · change _ = (s.documents.length : Int) - Stats.freshIn s.documents
    omega
  · change _ = (s.documents.length : Int) - Stats.freshIn s.documents -
      Stats.unindexedIn s.documents + Stats.unindexedIn s.documents
    omega
  · change (0 : Int) ≤ s.documents.length - Stats.freshIn s.documents -
      Stats.unindexedIn s.documents
    omega
  · refine sum_accounts s s.documents (List.Subset.refl _) fun account => ?_
    exact List.countP_eq_length_filter.symm
  · have hfresh := sum_accounts s (s.documents.filter (·.isFresh)) (List.filter_subset_self _)
      (f := (·.fresh)) fun account => by
        change Stats.freshIn (s.documents.filter (·.account = account)) = _
        rw [freshIn_eq, List.countP_filter, List.countP_filter]
        simp only [Bool.and_comm]
    rw [hfresh, ← List.countP_eq_length_filter]
    exact (freshIn_eq _).symm

/-- What a run over all documents selects, what an audit lists and what is counted agree on which
documents are fresh, whatever nulls there are among their hashes. -/
theorem staleness_agrees (hs : s.Identified) (htables : s.lacking? [.documents, .entries] = none)
    {o : Options} (env : Surroundings) (hall : o.selector = .all) (hunforced : o.force = false) :
    ∃ had found a st,
      (Run.advances o env 4 (Run.start s)).stage = .selected .all had found ∧
        (audit s).1 = .ok a ∧ (Statement.stats s).1 = .ok st ∧ Concordant s found a st := by
  have hdocuments : Table.documents ∉ s.missing :=
    not_mem_missing_of_needing_ok (needing_of_lacking htables ()) .documents List.mem_cons_self
  obtain ⟨had, hselected⟩ := exists_selected o env hall hunforced hdocuments
  exact ⟨had, _, _, _, hselected, needing_of_lacking htables _, needing_of_lacking htables _,
    concordant_candidates hs⟩

/-- One document is fresh; of the others one has two hashes that differ, one has no content hash,
one has not been indexed and one has neither hash. Two have no account, and one has an account that
is called so. -/
theorem staleness_agrees_on_nulls :
    let s : Store :=
      ⟨[⟨1, ['a'], some ['p'], none, some ['x'], some ['x'], none, none, some 0⟩,
        ⟨2, ['b'], none, none, some ['x'], some ['y'], none, none, some 0⟩,
        ⟨3, ['c'], some ['p'], none, none, some ['x'], none, none, some 0⟩,
        ⟨4, ['d'], some Stats.noAccount, none, some ['x'], none, none, none, none⟩,
        ⟨5, ['e'], none, none, none, none, none, none, none⟩], 5, [], 0, .empty, []⟩
    let o : Options := ⟨.all, false, 1, 10⟩
    let env : Surroundings := ⟨fun _ => none, fun _ => false, fun _ => [], 0⟩
    (Audit.ofStore s).stale = [['b']] ∧
      ((Stats.ofStore s).documents, (Stats.ofStore s).fresh, (Stats.ofStore s).stale,
        (Stats.ofStore s).unindexed) = (5, 1, 2, 2) ∧
      (Stats.accountsOf s.documents).length = 3 ∧
      ∃ had found a st,
        (Run.advances o env 4 (Run.start s)).stage = .selected .all had found ∧
          (audit s).1 = .ok a ∧ (Statement.stats s).1 = .ok st ∧ Concordant s found a st := by
  intro s o env
  have hs : s.Identified := ⟨by decide, by decide⟩
  exact ⟨by decide, by decide +kernel, by decide +kernel, staleness_agrees hs rfl env rfl rfl⟩

end MailIndex
