import MailIndex.Check.Audit
import MailIndex.Proofs.Reindex.Writes
import MailIndex.Proofs.Store.Groups
import MailIndex.Proofs.Store.Keys

/-!
# What an audit accounts for

An audit puts every document and every row of the ledger where it belongs: a document has no entry,
one or several, and a row has a document or is an orphan. So the rows and the documents without any
are as many as the documents, the orphans and what the documents with several have beyond one.
-/

namespace MailIndex.Check

open Reindex

inductive ExactlyOne (p q r : Prop) : Prop
  | first (hp : p) (hq : ¬ q) (hr : ¬ r)
  | second (hp : ¬ p) (hq : q) (hr : ¬ r)
  | third (hp : ¬ p) (hq : ¬ q) (hr : r)

structure Listed (s : Store) (ids : List Text) : Prop where
  ordered : ∃ rows ⊆ s.documents, rows.Pairwise (·.seq < ·.seq) ∧ rows.map (·.id) = ids
  nodup : ids.Nodup

def joined (entries : List EntryRow) (documents : List Document) : List (EntryRow × Document) :=
  entries.flatMap fun row => (documents.filter (·.seq = row.docSeq)).map fun d => (row, d)

/-- An audit accounts for all that a store holds. -/
structure Audit.Accounts (a : Audit) (s : Store) : Prop where
  documents : a.documents = s.documents.length
  indexEntries : a.indexEntries = s.entries.length
  balance : a.indexEntries + a.missing.length =
    a.documents + a.orphans.length + (a.duplicates.map (·.entries - 1)).sum
  placed : ∀ d ∈ s.documents, ExactlyOne (d.id ∈ a.missing) (d.id ∈ a.duplicates.map (·.id))
    (s.entries.countP (·.docSeq = d.seq) = 1)
  /-- What the ledger, joined with the documents and grouped by them, has several rows for. -/
  grouped : ∀ dup, dup ∈ a.duplicates ↔ 1 < dup.entries ∧ ∃ d ∈ s.documents,
    dup = ⟨d.id, d.seq, (joined s.entries s.documents).countP (·.2.seq = d.seq)⟩
  ownerless : ∀ row, row ∈ a.orphans ↔ row ∈ s.entries ∧ ∀ d ∈ s.documents, d.seq ≠ row.docSeq
  orphans : a.orphans.Pairwise (·.id < ·.id)
  duplicates : a.duplicates.Pairwise (·.seq < ·.seq)
  missing : Listed s a.missing
  stale : Listed s a.stale

variable {s : Store} {d : Document}

/-! ## Counting -/

theorem length_entriesOf (s : Store) (seq : Nat) :
    (s.entriesOf seq).length = s.entries.countP (·.docSeq = seq) := by
  unfold Store.entriesOf
  rw [List.length_map, List.countP_eq_length_filter]

theorem mem_orphans {row : EntryRow} :
    row ∈ s.orphans ↔ row ∈ s.entries ∧ ∀ d ∈ s.documents, d.seq ≠ row.docSeq := by
  unfold Store.orphans
  simp [List.mem_filter]

theorem countP_seq (hs : s.Identified) (hd : d ∈ s.documents) (seq : Nat) :
    (s.documents.filter (·.seq = seq)).countP (·.seq = d.seq) = if seq = d.seq then 1 else 0 := by
  rw [List.countP_filter]
  by_cases hseq : seq = d.seq
  · have hone := List.count_eq_one_of_mem hs.seqs (List.mem_map_of_mem hd)
    rw [if_pos hseq, ← hone, List.count_eq_countP, List.countP_map]
    refine List.countP_congr fun e _ => ?_
    simp [hseq]
  · rw [if_neg hseq, List.countP_eq_zero]
    intro e _ hboth
    simp only [Bool.and_eq_true, decide_eq_true_eq] at hboth
    exact hseq (hboth.2.symm.trans hboth.1)

theorem countP_joined (hs : s.Identified) (hd : d ∈ s.documents) (entries : List EntryRow) :
    (joined entries s.documents).countP (·.2.seq = d.seq) =
      entries.countP (·.docSeq = d.seq) := by
  induction entries with
  | nil => rfl
  | cons row entries ih =>
      have hrow : ((s.documents.filter (·.seq = row.docSeq)).map fun e => (row, e)).countP
          (·.2.seq = d.seq) = if row.docSeq = d.seq then 1 else 0 := by
        rw [List.countP_map]
        exact countP_seq hs hd row.docSeq
      have hjoined : joined (row :: entries) s.documents =
          ((s.documents.filter (·.seq = row.docSeq)).map fun e => (row, e)) ++
            joined entries s.documents := List.flatMap_cons
      rw [hjoined, List.countP_append, hrow, ih, List.countP_cons, Nat.add_comm]
      simp only [decide_eq_true_eq]

theorem any_seq_eq (documents : List Document) (seq : Nat) :
    documents.any (·.seq = seq) = decide (seq ∈ documents.map (·.seq)) := by
  rw [Bool.eq_iff_iff]
  simp

theorem sum_entries_add_orphans (hs : s.Identified) :
    (s.documents.map fun d => s.entries.countP (·.docSeq = d.seq)).sum + s.orphans.length =
      s.entries.length := by
  have howned : (s.documents.map fun d => s.entries.countP (·.docSeq = d.seq)).sum =
      s.entries.countP fun row => row.docSeq ∈ s.documents.map (·.seq) := by
    rw [← sum_countP_key EntryRow.docSeq hs.seqs s.entries, List.map_map]
    rfl
  have horphans : s.orphans.length =
      s.entries.countP fun row => ¬ row.docSeq ∈ s.documents.map (·.seq) := by
    unfold Store.orphans
    rw [← List.countP_eq_length_filter]
    simp only [any_seq_eq, decide_not]
  have hsplit := List.length_eq_countP_add_countP
    (fun row : EntryRow => decide (row.docSeq ∈ s.documents.map (·.seq))) (l := s.entries)
  simp only [decide_eq_true_eq] at hsplit
  rw [howned, horphans]
  exact hsplit.symm

/-- Counts, and how many of them are 0, come to as much as one each and what is counted beyond. -/
theorem sum_add_length_zero {α : Type} (f : α → Nat) (rows : List α) :
    (rows.map f).sum + (rows.filter fun row => f row = 0).length =
      rows.length + ((rows.filter fun row => 1 < f row).map fun row => f row - 1).sum := by
  induction rows with
  | nil => rfl
  | cons row rows ih =>
      rw [List.map_cons, List.sum_cons, List.length_cons, List.filter_cons, List.filter_cons]
      -- A count of 0 is made up for on the left, what is beyond one on the right.
      by_cases hnone : f row = 0
      · simp only [hnone, decide_true, if_true, List.length_cons]
        simp only [Nat.not_lt_zero, decide_false, Bool.false_eq_true, if_false]
        omega
      · by_cases hmany : 1 < f row
        · simp only [hnone, hmany, decide_true, decide_false, Bool.false_eq_true, if_true, if_false,
            List.map_cons, List.sum_cons]
          omega
        · simp only [hnone, hmany, decide_false, Bool.false_eq_true, if_false]
          omega

/-! ## Lists of an audit -/

theorem listed_filter (hs : s.Identified) (p : Document → Bool) :
    Listed s ((s.documents.filter p).map (·.id)) where
  ordered := ⟨s.documents.filter p, List.filter_subset_self _, hs.ascending.filter _, rfl⟩
  nodup := hs.ids.sublist (List.filter_sublist.map _)

theorem duplicates_ofStore (s : Store) : (Audit.ofStore s).duplicates =
    (s.documents.filter fun d => 1 < s.entries.countP (·.docSeq = d.seq)).map fun d =>
      ⟨d.id, d.seq, s.entries.countP (·.docSeq = d.seq)⟩ := by
  unfold Audit.ofStore
  dsimp only
  simp only [length_entriesOf, List.filter_map, Function.comp_def]

theorem missing_ofStore (s : Store) : (Audit.ofStore s).missing =
    (s.documents.filter fun d => s.entries.countP (·.docSeq = d.seq) = 0).map (·.id) := by
  unfold Audit.ofStore
  dsimp only
  congr 1
  refine List.filter_congr fun d _ => ?_
  rw [← length_entriesOf, Bool.eq_iff_iff, List.isEmpty_iff, decide_eq_true_eq,
    List.length_eq_zero_iff]

theorem placed_ofStore (hs : s.Identified) (hd : d ∈ s.documents) :
    ExactlyOne (d.id ∈ (Audit.ofStore s).missing)
      (d.id ∈ (Audit.ofStore s).duplicates.map (·.id))
      (s.entries.countP (·.docSeq = d.seq) = 1) := by
  have hmissing : d.id ∈ (Audit.ofStore s).missing ↔ s.entries.countP (·.docSeq = d.seq) = 0 := by
    rw [missing_ofStore, hs.mem_ids_filter hd, decide_eq_true_eq]
  have hduplicates : d.id ∈ (Audit.ofStore s).duplicates.map (·.id) ↔
      1 < s.entries.countP (·.docSeq = d.seq) := by
    rw [duplicates_ofStore, List.map_map]
    exact (hs.mem_ids_filter hd _).trans decide_eq_true_iff
  rw [hmissing, hduplicates]
  generalize s.entries.countP (·.docSeq = d.seq) = n
  match n with
  | 0 => exact .first rfl (by decide) (by decide)
  | 1 => exact .third (by decide) (by decide) rfl
  | n + 2 => exact .second (by omega) (by omega) (by omega)

theorem mem_duplicates_ofStore (hs : s.Identified) {dup : Duplicate} :
    dup ∈ (Audit.ofStore s).duplicates ↔ 1 < dup.entries ∧ ∃ d ∈ s.documents,
      dup = ⟨d.id, d.seq, (joined s.entries s.documents).countP (·.2.seq = d.seq)⟩ := by
  rw [duplicates_ofStore, List.mem_map]
  constructor
  · rintro ⟨d, hd, rfl⟩
    obtain ⟨hmem, hmany⟩ := List.mem_filter.mp hd
    exact ⟨of_decide_eq_true hmany, d, hmem, by rw [countP_joined hs hmem]⟩
  · rintro ⟨hmany, d, hd, rfl⟩
    rw [countP_joined hs hd] at hmany ⊢
    exact ⟨d, List.mem_filter.mpr ⟨hd, decide_eq_true hmany⟩, rfl⟩

theorem accounts_ofStore (hid : s.Identified) (hs : s.Numbered) :
    (Audit.ofStore s).Accounts s := by
  refine ⟨rfl, rfl, ?_, fun d hd => placed_ofStore hid hd, fun dup => mem_duplicates_ofStore hid,
    fun row => mem_orphans, hs.ordered.filter _, ?_, ?_, listed_filter hid _⟩
  · have hrows := sum_entries_add_orphans hid
    have hcounts := sum_add_length_zero (fun d : Document => s.entries.countP (·.docSeq = d.seq))
      s.documents
    change s.entries.length + _ = s.documents.length + s.orphans.length + _
    rw [duplicates_ofStore, missing_ofStore, List.map_map, List.length_map]
    change _ = _ + _ + ((s.documents.filter _).map fun d => s.entries.countP _ - 1).sum
    omega
  · rw [duplicates_ofStore, List.pairwise_map]
    exact hid.ascending.filter _
  · rw [missing_ofStore]
    exact listed_filter hid _

/-- An audit accounts for every document and every row of the ledger, however many entries are
superseded, lost or left over. -/
theorem audit_accounts (hid : s.Identified) (hs : s.Numbered)
    (htables : s.lacking? [.documents, .entries] = none) :
    ∃ a, (audit s).1 = .ok a ∧ a.Accounts s :=
  ⟨_, needing_of_lacking htables _, accounts_ofStore hid hs⟩

/-- Of four documents two own several entries and one owns none. A document that is gone has left
two entries, another one has left one. -/
theorem audit_accounts_for_leftovers :
    let s : Store :=
      ⟨[⟨1, ['a'], none, none, some ['x'], some ['y'], none, none, some 0⟩,
        ⟨3, ['b'], none, none, some ['x'], some ['x'], none, none, some 0⟩,
        ⟨4, ['c'], none, none, none, none, none, none, none⟩,
        ⟨6, ['d'], none, none, some ['x'], some ['y'], none, none, some 0⟩], 6,
        [⟨1, 1⟩, ⟨2, 2⟩, ⟨3, 6⟩, ⟨4, 1⟩, ⟨5, 3⟩, ⟨6, 5⟩, ⟨7, 2⟩, ⟨8, 6⟩, ⟨9, 6⟩], 9, .empty, []⟩
    Audit.ofStore s =
        ⟨4, 9, [⟨['a'], 1, 2⟩, ⟨['d'], 6, 3⟩], [⟨2, 2⟩, ⟨6, 5⟩, ⟨7, 2⟩], [['c']], [['a'], ['d']],
          1, 1⟩ ∧
      ∃ a, (audit s).1 = .ok a ∧ a.Accounts s := by
  intro s
  have hid : s.Identified := ⟨by decide, by decide⟩
  have hs : s.Numbered := ⟨by decide, by decide⟩
  exact ⟨by decide, audit_accounts hid hs rfl⟩

end MailIndex.Check
