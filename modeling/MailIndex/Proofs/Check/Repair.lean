import MailIndex.Check.Repair
import MailIndex.Proofs.Reindex.Writes

/-!
# What a repair does

All that a repair does is to take entries out, so it keeps whatever does not depend on them. A
repair that is not cancelled takes out every superseded entry of a document, and every entry without
a document. It looks for the latter in what is durable, which may be behind what it has written; but
nothing that is durable and has a document is among them.
-/

namespace MailIndex.Check

open Store (removeEntry)

namespace Repair

variable {P : Store → Prop} {cancelled : Nat → Bool} {r : Repair} {s : Store}

theorem of_deleteEntry_ok {entry : Nat} {before after : Store}
    (h : Statement.deleteEntry entry before = (.ok (), after)) :
    after = before.removeEntry entry := by
  unfold Statement.deleteEntry Statement.write at h
  dsimp only at h
  cases htext : before.needing [.fullText] (before.removeText entry, ()) with
  | error f => simp [htext] at h
  | ok result =>
      have hremoved := Reindex.of_needing_ok htext
      subst hremoved
      simp only [htext] at h
      cases hrow : (before.removeText entry).needing [.entries]
          ((before.removeText entry).removeEntryRow entry, ()) with
      | error f => simp [hrow] at h
      | ok result =>
          have hremoved := Reindex.of_needing_ok hrow
          subst hremoved
          rw [hrow] at h
          exact (congrArg Prod.snd h).symm

/-! ## Any repair -/

theorem keeps_pruneAll (hP : ∀ (t : Store) (seq : Nat), P t → P (t.prune seq).1)
    (h : r.session.Keeps P) (seqs : List Nat) :
    (pruneAll cancelled seqs r).2.session.Keeps P := by
  induction seqs generalizing r with
  | nil => exact h
  | cons seq seqs ih =>
      unfold pruneAll
      split
      · exact h
      · split
        · exact h
        · next after hprune =>
            have hafter : P after := by
              rw [Reindex.of_prune_ok hprune]
              exact hP _ _ h.view
            exact ih ((h.write hafter).finishOne _)

theorem keeps_duplicates (hP : ∀ (t : Store) (seq : Nat), P t → P (t.prune seq).1)
    (h : r.session.Keeps P) : (duplicates cancelled r).2.session.Keeps P := by
  unfold duplicates
  split
  · exact h
  · exact keeps_pruneAll hP h _

/-- What a repair leaves is what its session saw, or what was durable. -/
theorem of_keeps_run (h : (run cancelled s).2.session.Keeps P) : P (repair cancelled s).2 := by
  unfold repair
  split
  · next r hr =>
      rw [hr] at h
      exact h.commit.durable
  · next f r hr =>
      rw [hr] at h
      exact h.durable

section

variable (hP : ∀ (t : Store) (old : List Nat), P t → P (old.foldl removeEntry t))

include hP

theorem keeps_removeAll (h : r.session.Keeps P) (entries : List Nat) :
    (removeAll cancelled entries r).2.session.Keeps P := by
  induction entries generalizing r with
  | nil => exact h
  | cons entry entries ih =>
      unfold removeAll
      split
      · exact h
      · split
        · exact h
        · next after hdelete =>
            have hafter : P after := by
              rw [of_deleteEntry_ok hdelete]
              exact hP _ [entry] h.view
            exact ih ((h.write hafter).finishOne _)

theorem keeps_orphans (h : r.session.Keeps P) : (orphans cancelled r).2.session.Keeps P := by
  unfold orphans
  split
  · exact h
  · split
    · exact h
    · exact keeps_removeAll hP h _

theorem keeps_run (cancelled : Nat → Bool) (h : P s) : (run cancelled s).2.session.Keeps P := by
  have hduplicates : (duplicates cancelled (start s)).2.session.Keeps P :=
    keeps_duplicates (fun t seq => hP t (t.superseded seq)) ⟨h, h⟩
  unfold run
  split
  · next r hr =>
      rw [hr] at hduplicates
      exact keeps_orphans hP hduplicates
  · exact hduplicates

/-- What does not depend on the entries is true after a repair, however it ends. -/
theorem repair_keeps (cancelled : Nat → Bool) (h : P s) : P (repair cancelled s).2 :=
  of_keeps_run (keeps_run hP cancelled h)

end

/-! ## A repair that is not cancelled -/

structure Lessened (s t : Store) : Prop where
  documents : t.documents = s.documents
  missing : t.missing = s.missing
  entries : t.entries ⊆ s.entries

theorem lessened_removeAll (t : Store) (old : List Nat) (h : Lessened s t) :
    Lessened s (old.foldl removeEntry t) := by
  rw [Store.foldl_removeEntry]
  exact ⟨h.documents, h.missing, fun row hrow => h.entries (List.mem_filter.mp hrow).1⟩

theorem lessened_pruneAll {t : Store} (h : Lessened s t) (seqs : List Nat) :
    Lessened s (t.pruneAll seqs) := by
  induction seqs generalizing t with
  | nil => exact h
  | cons seq seqs ih => exact ih (lessened_removeAll _ _ h)

/-- Nothing is written that is not there to be taken out: all that the session sees is durable. -/
def Behind (w : Session) : Prop := w.view.entries ⊆ w.durable.entries

theorem behind_dealtWith (h : Behind r.session) {t : Store}
    (ht : t.entries ⊆ r.session.view.entries) (summary : RepairSummary) :
    Behind (r.dealtWith t summary).session := by
  have hwritten : Behind (r.session.write t) := fun row hrow => h (ht hrow)
  unfold dealtWith Session.finishOne
  dsimp only
  split
  · unfold Behind
    rw [Session.view_commit, Session.durable_commit]
    exact fun row hrow => hrow
  · exact hwritten

theorem view_dealtWith (r : Repair) (t : Store) (summary : RepairSummary) :
    (r.dealtWith t summary).session.view = t := Session.view_finishOne _ _

theorem prune_of_missing_nil {t : Store} (h : t.missing = []) (seq : Nat) :
    Statement.prune seq t = (.ok (t.prune seq).2, (t.prune seq).1) := by
  unfold Statement.prune Statement.write
  dsimp only
  rw [Store.needing_of_missing_nil h]

theorem deleteEntry_of_missing_nil {t : Store} (h : t.missing = []) (entry : Nat) :
    Statement.deleteEntry entry t = (.ok (), t.removeEntry entry) := by
  have hrow : (t.removeText entry).missing = [] := h
  unfold Statement.deleteEntry Statement.write
  rw [Store.needing_of_missing_nil h]
  dsimp only
  rw [Store.needing_of_missing_nil hrow]
  rfl

theorem pruneAll_uncancelled (hmissing : r.session.view.missing = []) (hbehind : Behind r.session)
    (seqs : List Nat) : ∃ r', pruneAll (fun _ => false) seqs r = (.ok (), r') ∧
      r'.session.view = r.session.view.pruneAll seqs ∧ Behind r'.session ∧
      r'.summary.interrupted = r.summary.interrupted := by
  induction seqs generalizing r with
  | nil => exact ⟨r, rfl, rfl, hbehind, rfl⟩
  | cons seq seqs ih =>
      have hlessened : Lessened r.session.view (r.session.view.prune seq).1 :=
        lessened_removeAll _ _ ⟨rfl, rfl, fun _ hrow => hrow⟩
      have hnext := ih (r := r.dealtWith (r.session.view.prune seq).1
        { r.summary with
          prunedEntries := r.summary.prunedEntries + (r.session.view.prune seq).2 })
        (by rw [view_dealtWith, hlessened.missing, hmissing])
        (behind_dealtWith hbehind hlessened.entries _)
      rw [view_dealtWith] at hnext
      unfold pruneAll
      rw [prune_of_missing_nil hmissing]
      exact hnext

theorem removeAll_uncancelled (hmissing : r.session.view.missing = []) (entries : List Nat) :
    ∃ r', removeAll (fun _ => false) entries r = (.ok (), r') ∧
      r'.session.view = entries.foldl removeEntry r.session.view ∧
      r'.summary.interrupted = r.summary.interrupted := by
  induction entries generalizing r with
  | nil => exact ⟨r, rfl, rfl, rfl⟩
  | cons entry entries ih =>
      have hnext := ih (r := r.dealtWith (r.session.view.removeEntry entry)
        { r.summary with removedOrphans := r.summary.removedOrphans + 1 })
        (by rw [view_dealtWith]; exact hmissing)
      rw [view_dealtWith] at hnext
      unfold removeAll
      rw [deleteEntry_of_missing_nil hmissing]
      exact hnext

/-- A store after a repair: every document has its newest entry, and nothing else is left. -/
structure Repaired (s t : Store) : Prop where
  indexed : t.Indexed
  documents : t.documents = s.documents
  missing : t.missing = s.missing
  own : ∀ d ∈ s.documents, t.entriesOf d.seq = (s.entriesOf d.seq).max?.toList
  others : ∀ seq, (∀ d ∈ s.documents, d.seq ≠ seq) → t.entriesOf seq = []

theorem repaired_of_orphans (hindexed : s.Indexed) {between after : Store}
    (hbetween : Lessened s between) (hafter : after = s.pruneAll (s.duplicates.map (·.1)))
    (hbehind : after.entries ⊆ between.entries) :
    Repaired s ((between.orphans.map (·.id)).foldl removeEntry after) := by
  have horphan : ∀ entry, entry ∈ between.orphans.map (·.id) ↔
      ∃ seq, ⟨entry, seq⟩ ∈ between.entries ∧ ∀ d ∈ s.documents, d.seq ≠ seq := by
    intro entry
    unfold Store.orphans
    rw [List.mem_map]
    simp only [List.mem_filter, hbetween.documents, Bool.not_eq_true', List.any_eq_false,
      decide_eq_true_eq]
    constructor
    · rintro ⟨row, ⟨hrow, hnone⟩, rfl⟩
      exact ⟨row.docSeq, hrow, hnone⟩
    · rintro ⟨seq, hrow, hnone⟩
      exact ⟨_, ⟨hrow, hnone⟩, rfl⟩
  have hlessened : Lessened s ((between.orphans.map (·.id)).foldl removeEntry after) := by
    have hpruned : Lessened s after := hafter ▸ lessened_pruneAll ⟨rfl, rfl, fun _ h => h⟩ _
    exact lessened_removeAll _ _ hpruned
  refine ⟨?_, hlessened.documents, hlessened.missing, fun d hd => ?_, fun seq hnone => ?_⟩
  · rw [hafter]
    exact (hindexed.pruneAll _).removeAll _
  · have hkept : ∀ entry ∈ after.entriesOf d.seq, entry ∉ between.orphans.map (·.id) := by
      intro entry hentry horphaned
      obtain ⟨seq, hrow, hnone⟩ := (horphan entry).mp horphaned
      rw [hafter] at hentry
      have hown : entry ∈ s.entriesOf d.seq := (Store.textOf?_pruneAll hentry).1
      have hother : entry ∈ s.entriesOf seq := Store.mem_entriesOf.mpr (hbetween.entries hrow)
      exact hnone d hd (hindexed.numbered.owner_unique hown hother)
    rw [Store.entriesOf_foldl_removeEntry, List.filter_eq_self.mpr (by simpa using hkept), hafter,
      hindexed.entriesOf_pruneAll]
    by_cases hmany : d.seq ∈ s.duplicates.map (·.1)
    · rw [if_pos hmany]
    · have hfew : (s.entriesOf d.seq).length ≤ 1 :=
        Nat.le_of_not_lt fun hlt => hmany (Store.mem_owners_duplicates.mpr hlt)
      rw [if_neg hmany, Store.max?_toList_of_length_le hfew]
  · rw [Store.entriesOf_foldl_removeEntry, List.filter_eq_nil_iff]
    intro entry hentry
    have hrow := hbehind (Store.mem_entriesOf.mp hentry)
    have horphaned := (horphan entry).mpr ⟨seq, hrow, hnone⟩
    simpa using horphaned

theorem repair_repairs (hindexed : s.Indexed) (hmissing : s.missing = []) :
    ∃ summary t, repair (fun _ => false) s = (.ok summary, t) ∧ summary.interrupted = false ∧
      Repaired s t := by
  obtain ⟨r, hpruned, hview, hbehind, hgoing⟩ := pruneAll_uncancelled (r := start s) hmissing
    (fun _ hrow => hrow) (s.duplicates.map (·.1))
  have hbetween : r.session.Keeps (Lessened s) := by
    have hstart : (start s).session.Keeps (Lessened s) :=
      ⟨⟨rfl, rfl, fun _ h => h⟩, ⟨rfl, rfl, fun _ h => h⟩⟩
    have hkeeps : (pruneAll (fun _ => false) (s.duplicates.map (·.1)) (start s)).2.session.Keeps
        (Lessened s) :=
      keeps_pruneAll (fun t seq => lessened_removeAll t (t.superseded seq)) hstart _
    rw [hpruned] at hkeeps
    exact hkeeps
  obtain ⟨r', hremoved, hview', hdone⟩ := removeAll_uncancelled (r := r)
    (hbetween.view.missing.trans hmissing) (r.session.durable.orphans.map (·.id))
  have hduplicates : duplicates (fun _ => false) (start s) = (.ok (), r) := by
    unfold duplicates Statement.duplicates Statement.read
    rw [show (start s).session.durable = s from rfl, Store.needing_of_missing_nil hmissing]
    exact hpruned
  have horphans : orphans (fun _ => false) r = (.ok (), r') := by
    have hdurable : r.session.durable.missing = [] := hbetween.durable.missing.trans hmissing
    unfold orphans Statement.orphans Statement.read
    rw [hgoing, Store.needing_of_missing_nil hdurable]
    exact hremoved
  have hrun : run (fun _ => false) s = (.ok (), r') := by
    unfold run
    rw [hduplicates]
    exact horphans
  refine ⟨r'.summary, r'.session.commit.durable, ?_, hdone.trans hgoing, ?_⟩
  · unfold repair
    rw [hrun]
  · rw [Session.durable_commit, hview']
    exact repaired_of_orphans hindexed hbetween.durable hview hbehind

/-! ## Entries in their order -/

/-- An entry that belongs to no document and is the oldest of its owner. -/
structure Removable (t : Store) (entry : Nat) : Prop where
  orphan : ∀ d ∈ t.documents, entry ∉ t.entriesOf d.seq
  oldest : ∀ seq, entry ∈ t.entriesOf seq → ∀ other ∈ t.entriesOf seq, entry ≤ other

/-- The entries without a document that are still to be taken out, from the oldest. -/
structure Remaining (t : Store) (entries : List Nat) : Prop where
  ascending : entries.Pairwise (· < ·)
  orphans : ∀ entry ∈ entries, ∀ d ∈ t.documents, entry ∉ t.entriesOf d.seq
  all : ∀ row ∈ t.entries, (∀ d ∈ t.documents, d.seq ≠ row.docSeq) → row.id ∈ entries

theorem Remaining.removable {t : Store} {entry : Nat} {rest : List Nat}
    (h : Remaining t (entry :: rest)) : Removable t entry where
  orphan := h.orphans entry List.mem_cons_self
  oldest seq hentry other hother := by
    have hnone : ∀ d ∈ t.documents, d.seq ≠ seq := by
      rintro d hd rfl
      exact h.orphans entry List.mem_cons_self d hd hentry
    rcases List.mem_cons.mp (h.all _ (Store.mem_entriesOf.mp hother) hnone) with hsame | hlater
    · exact Nat.le_of_eq hsame.symm
    · exact Nat.le_of_lt (List.rel_of_pairwise_cons h.ascending hlater)

theorem Remaining.next {t : Store} {entry : Nat} {rest : List Nat}
    (h : Remaining t (entry :: rest)) : Remaining (t.removeEntry entry) rest where
  ascending := h.ascending.of_cons
  orphans other hother d hd hmem := by
    have hbefore : other ∈ t.entriesOf d.seq :=
      Store.mem_entriesOf.mpr (List.mem_filter.mp (Store.mem_entriesOf.mp hmem)).1
    exact h.orphans other (List.mem_cons_of_mem _ hother) d hd hbefore
  all row hrow hnone := by
    obtain ⟨hbefore, hkept⟩ := List.mem_filter.mp hrow
    rcases List.mem_cons.mp (h.all row hbefore hnone) with hsame | hrest
    · simp [hsame] at hkept
    · exact hrest

theorem remaining_orphans {t found : Store} (hfound : found.Numbered)
    (hentries : t.entries ⊆ found.entries) (hdocuments : t.documents = found.documents) :
    Remaining t (found.orphans.map (·.id)) where
  ascending := List.pairwise_map.mpr (hfound.ordered.filter _)
  orphans entry hentry d hd hmem := by
    obtain ⟨row, hrow, rfl⟩ := List.mem_map.mp hentry
    obtain ⟨hin, hnone⟩ := List.mem_filter.mp hrow
    have hown : row.id ∈ found.entriesOf d.seq :=
      Store.mem_entriesOf.mpr (hentries (Store.mem_entriesOf.mp hmem))
    have hsame := hfound.owner_unique hown (Store.mem_entriesOf.mpr hin)
    rw [hdocuments] at hd
    simp only [Bool.not_eq_true', List.any_eq_false, decide_eq_true_eq] at hnone
    exact hnone d hd hsame
  all row hrow hnone := by
    refine List.mem_map.mpr ⟨row, List.mem_filter.mpr ⟨hentries hrow, ?_⟩, rfl⟩
    rw [hdocuments] at hnone
    simpa using hnone

theorem behind_pruneAll (h : Behind r.session) (seqs : List Nat) :
    Behind (pruneAll cancelled seqs r).2.session := by
  induction seqs generalizing r with
  | nil => exact h
  | cons seq seqs ih =>
      unfold pruneAll
      split
      · exact h
      · split
        · exact h
        · next after hprune =>
            have hlessened : Lessened r.session.view after := by
              rw [Reindex.of_prune_ok hprune]
              exact lessened_removeAll _ _ ⟨rfl, rfl, fun _ hrow => hrow⟩
            exact ih (behind_dealtWith h hlessened.entries _)

theorem behind_duplicates (h : Behind r.session) :
    Behind (duplicates cancelled r).2.session := by
  unfold duplicates
  split
  · exact h
  · exact behind_pruneAll h _

section

variable (hprune : ∀ (t : Store) (seq : Nat), P t → P (t.prune seq).1)
  (hremove : ∀ (t : Store) (entry : Nat), P t → Removable t entry → P (t.removeEntry entry))

include hremove

theorem keeps_removeAll_of_remaining (h : r.session.Keeps P) {entries : List Nat}
    (hremaining : Remaining r.session.view entries) :
    (removeAll cancelled entries r).2.session.Keeps P := by
  induction entries generalizing r with
  | nil => exact h
  | cons entry entries ih =>
      unfold removeAll
      split
      · exact h
      · split
        · exact h
        · next after hdelete =>
            have hafter := of_deleteEntry_ok hdelete
            have hkept : P after := hafter ▸ hremove _ _ h.view hremaining.removable
            refine ih ((h.write hkept).finishOne _) ?_
            rw [view_dealtWith, hafter]
            exact hremaining.next

include hprune

/-- What pruning keeps, and taking the oldest orphans out, is true after a repair, wherever it is
cancelled or broken off. -/
theorem keeps_run_inOrder (cancelled : Nat → Bool) (hnumbered : s.Numbered) (h : P s) :
    (run cancelled s).2.session.Keeps P := by
  have hpruned : (duplicates cancelled (start s)).2.session.Keeps fun t => P t ∧
      t.documents = s.documents ∧ t.Numbered := by
    refine keeps_duplicates (fun t seq ht => ?_) ⟨⟨h, rfl, hnumbered⟩, ⟨h, rfl, hnumbered⟩⟩
    exact ⟨hprune t seq ht.1, (Store.documents_prune t seq).trans ht.2.1, ht.2.2.prune seq⟩
  have hbehind : Behind (duplicates cancelled (start s)).2.session :=
    behind_duplicates fun _ hrow => hrow
  have hkeeps : (duplicates cancelled (start s)).2.session.Keeps P :=
    hpruned.imp fun _ ht => ht.1
  unfold run
  split
  · next r hr =>
      rw [hr] at hpruned hbehind hkeeps
      unfold orphans
      split
      · exact hkeeps
      · split
        · exact hkeeps
        · next found _ hfound =>
            have horphans : found = r.session.durable.orphans :=
              Reindex.of_needing_ok (congrArg Prod.fst hfound)
            rw [horphans]
            have hdocuments : r.session.view.documents = r.session.durable.documents :=
              hpruned.view.2.1.trans hpruned.durable.2.1.symm
            exact keeps_removeAll_of_remaining hremove hkeeps
              (remaining_orphans hpruned.durable.2.2 hbehind hdocuments)
  · exact hkeeps

end

end Repair

end MailIndex.Check
