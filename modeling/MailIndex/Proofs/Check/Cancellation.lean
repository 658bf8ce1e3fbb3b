import MailIndex.Proofs.Check.Repair

/-!
# Cancelled repairs

Wherever a repair is cancelled, it has only taken out entries with which nothing is lost: those that
a newer one supersedes, and those without a document. The newest entry of every document is still
there, so another repair, which is not cancelled, leaves the same store as if it had been the only
one.
-/

namespace MailIndex.Check

open Store (removeEntry)

/-- An entry that a repair may take out: a newer one has the same owner, or the owner is no
document. -/
def Spare (s : Store) (row : EntryRow) : Prop :=
  row.id ∈ s.superseded row.docSeq ∨ ∀ d ∈ s.documents, d.seq ≠ row.docSeq

/-- A store from which nothing but spare entries have been taken out. -/
structure Thinned (s t : Store) : Prop where
  removed : ∃ old : List Nat, t = old.foldl removeEntry s
  spare : ∀ row ∈ s.entries, row ∉ t.entries → Spare s row

namespace Thinned

variable {s t u : Store}

theorem refl (s : Store) : Thinned s s where
  removed := ⟨[], rfl⟩
  spare _ hrow hgone := absurd hrow hgone

theorem lessened (h : Thinned s t) : Repair.Lessened s t := by
  obtain ⟨old, rfl⟩ := h.removed
  exact Repair.lessened_removeAll s old ⟨rfl, rfl, fun _ hrow => hrow⟩

theorem numbered (h : Thinned s t) (hs : s.Numbered) : t.Numbered := by
  obtain ⟨old, rfl⟩ := h.removed
  exact hs.removeAll old

theorem indexed (h : Thinned s t) (hs : s.Indexed) : t.Indexed := by
  obtain ⟨old, rfl⟩ := h.removed
  exact hs.removeAll old

theorem mem_entriesOf (h : Thinned s t) {seq entry : Nat} (hentry : entry ∈ t.entriesOf seq) :
    entry ∈ s.entriesOf seq :=
  Store.mem_entriesOf.mpr (h.lessened.entries (Store.mem_entriesOf.mp hentry))

theorem superseded (h : Thinned s t) {seq entry : Nat} (hentry : entry ∈ t.superseded seq) :
    entry ∈ s.superseded seq := by
  obtain ⟨hown, newer, hnewer, hlt⟩ := Store.mem_superseded.mp hentry
  exact Store.mem_superseded.mpr ⟨h.mem_entriesOf hown, newer, h.mem_entriesOf hnewer, hlt⟩

theorem removeAll (h : Thinned s t) {old : List Nat}
    (hold : ∀ row ∈ t.entries, row.id ∈ old → Spare s row) :
    Thinned s (old.foldl removeEntry t) where
  removed := by
    obtain ⟨before, rfl⟩ := h.removed
    exact ⟨before ++ old, (List.foldl_append ..).symm⟩
  spare row hrow hgone := by
    by_cases hbefore : row ∈ t.entries
    · refine hold row hbefore ?_
      rw [Store.foldl_removeEntry] at hgone
      simpa [hbefore] using hgone
    · exact h.spare row hrow hbefore

theorem prune (h : Thinned s t) (hs : s.Numbered) (seq : Nat) : Thinned s (t.prune seq).1 := by
  refine h.removeAll fun row hrow hold => .inl ?_
  exact h.superseded (((h.numbered hs).mem_superseded_iff hrow seq).mp hold).2

theorem removeEntry (h : Thinned s t) {entry : Nat} (hentry : Repair.Removable t entry) :
    Thinned s (t.removeEntry entry) := by
  change Thinned s ([entry].foldl Store.removeEntry t)
  refine h.removeAll fun row hrow hold => .inr fun d hd hseq => ?_
  rw [← h.lessened.documents] at hd
  refine hentry.orphan d hd (Store.mem_entriesOf.mpr ?_)
  rw [← List.mem_singleton.mp hold, hseq]
  exact hrow

theorem trans (h : Thinned s t) (hu : Thinned t u) : Thinned s u where
  removed := by
    obtain ⟨first, rfl⟩ := h.removed
    obtain ⟨second, rfl⟩ := hu.removed
    exact ⟨first ++ second, (List.foldl_append ..).symm⟩
  spare row hrow hgone := by
    by_cases hbetween : row ∈ t.entries
    · rcases hu.spare row hbetween hgone with hold | hnone
      · exact .inl (h.superseded hold)
      · exact .inr (h.lessened.documents ▸ hnone)
    · exact h.spare row hrow hbetween

theorem max?_entriesOf (h : Thinned s t) {d : Document} (hd : d ∈ s.documents) :
    (t.entriesOf d.seq).max? = (s.entriesOf d.seq).max? := by
  cases hmax : (s.entriesOf d.seq).max? with
  | none =>
      rw [List.max?_eq_none_iff] at hmax ⊢
      refine List.eq_nil_iff_forall_not_mem.mpr fun entry hentry => ?_
      simpa [hmax] using h.mem_entriesOf hentry
  | some newest =>
      obtain ⟨hmem, hbound⟩ := List.max?_eq_some_iff.mp hmax
      refine List.max?_eq_some_iff.mpr ⟨?_, fun entry hentry => hbound _ (h.mem_entriesOf hentry)⟩
      by_contra hgone
      rcases h.spare ⟨newest, d.seq⟩ (Store.mem_entriesOf.mp hmem)
          (fun hrow => hgone (Store.mem_entriesOf.mpr hrow)) with hold | hnone
      · obtain ⟨-, newer, hnewer, hlt⟩ := Store.mem_superseded.mp hold
        exact Nat.not_lt.mpr (hbound newer hnewer) hlt
      · exact hnone d hd rfl

theorem eq_of_entriesOf (ht : Thinned s t) (hu : Thinned s u) (hs : s.Indexed)
    (h : ∀ seq, t.entriesOf seq = u.entriesOf seq) : t = u := by
  obtain ⟨old, rfl⟩ := ht.removed
  obtain ⟨gone, rfl⟩ := hu.removed
  have hsame : ∀ row ∈ s.entries, row.id ∉ old ↔ row.id ∉ gone := by
    intro row hrow
    have hmem : row.id ∈ s.entriesOf row.docSeq := Store.mem_entriesOf.mpr hrow
    have hboth := h row.docSeq
    rw [Store.entriesOf_foldl_removeEntry, Store.entriesOf_foldl_removeEntry] at hboth
    have hiff := congrArg (row.id ∈ ·) hboth
    simpa [hmem] using hiff
  have hrows : ∀ row ∈ s.index.rows, row.id ∉ old ↔ row.id ∉ gone := by
    intro row hrow
    obtain ⟨entry, hentry, hid⟩ := (hs.mem_rows row.id).mp ⟨row, hrow, rfl⟩
    rw [← hid]
    exact hsame entry hentry
  rw [Store.foldl_removeEntry, Store.foldl_removeEntry,
    List.filter_congr fun row hrow => decide_eq_decide.mpr (hsame row hrow),
    List.filter_congr fun row hrow => decide_eq_decide.mpr (hrows row hrow)]

end Thinned

namespace Repair

variable {r : Repair} {s : Store}

theorem thinned_repair (hs : s.Numbered) (cancelled : Nat → Bool) :
    Thinned s (repair cancelled s).2 :=
  of_keeps_run (keeps_run_inOrder (fun _ seq h => h.prune hs seq)
    (fun _ _ h hentry => h.removeEntry hentry) cancelled hs (.refl s))

/-! ## Repairs that give an answer -/

theorem exists_pruneAll (cancelled : Nat → Bool) (hmissing : r.session.view.missing = [])
    (seqs : List Nat) :
    ∃ r', pruneAll cancelled seqs r = (.ok (), r') := by
  induction seqs generalizing r with
  | nil => exact ⟨r, rfl⟩
  | cons seq seqs ih =>
      unfold pruneAll
      split
      · exact ⟨r.interrupt, rfl⟩
      · rw [prune_of_missing_nil hmissing]
        refine ih ?_
        rw [view_dealtWith, Store.fst_prune, Store.foldl_removeEntry]
        exact hmissing

theorem exists_removeAll (cancelled : Nat → Bool) (hmissing : r.session.view.missing = [])
    (entries : List Nat) :
    ∃ r', removeAll cancelled entries r = (.ok (), r') := by
  induction entries generalizing r with
  | nil => exact ⟨r, rfl⟩
  | cons entry entries ih =>
      unfold removeAll
      split
      · exact ⟨r.interrupt, rfl⟩
      · rw [deleteEntry_of_missing_nil hmissing]
        refine ih ?_
        rw [view_dealtWith]
        exact hmissing

/-- Where no table is missing, a repair gives an answer, wherever it is cancelled. -/
theorem exists_repair (hmissing : s.missing = []) (cancelled : Nat → Bool) :
    ∃ summary t, repair cancelled s = (.ok summary, t) := by
  obtain ⟨r, hpruned⟩ := exists_pruneAll cancelled (r := start s) hmissing
    (s.duplicates.map (·.1))
  have hkept : r.session.Keeps (·.missing = []) := by
    have hkeeps : (pruneAll cancelled (s.duplicates.map (·.1)) (start s)).2.session.Keeps
        (·.missing = []) := by
      refine keeps_pruneAll (fun t seq ht => ?_) ⟨hmissing, hmissing⟩ _
      rw [Store.fst_prune, Store.foldl_removeEntry]
      exact ht
    rwa [hpruned] at hkeeps
  have hduplicates : duplicates cancelled (start s) = (.ok (), r) := by
    unfold duplicates Statement.duplicates Statement.read
    rw [show (start s).session.durable = s from rfl, Store.needing_of_missing_nil hmissing]
    exact hpruned
  have horphans : ∃ r', orphans cancelled r = (.ok (), r') := by
    unfold orphans Statement.orphans Statement.read
    split
    · exact ⟨r, rfl⟩
    · rw [Store.needing_of_missing_nil hkept.durable]
      exact exists_removeAll cancelled hkept.view _
  obtain ⟨r', horphans⟩ := horphans
  refine ⟨r'.summary, r'.session.commit.durable, ?_⟩
  unfold repair run
  rw [hduplicates]
  dsimp only
  rw [horphans]

/-! ## What is left -/

/-- What a repair leaves: of every document its newest entry, nothing else in the ledger or in the
index, and the documents as they are. One that is cancelled has taken out spare entries only, and
another one after it, not cancelled, leaves what a single one leaves. -/
theorem repair_resumable (hindexed : s.Indexed) (hmissing : s.missing = []) :
    ∃ summary t, repair (fun _ => false) s = (.ok summary, t) ∧ summary.interrupted = false ∧
      t.documents = s.documents ∧ t.Indexed ∧
      (∀ d ∈ s.documents, t.entriesOf d.seq = (s.entriesOf d.seq).max?.toList) ∧
      (∀ row ∈ t.entries, ∃ d ∈ s.documents, d.seq = row.docSeq) ∧
      (∀ row ∈ t.entries, t.textOf? row.id = s.textOf? row.id) ∧
      ∀ cancelled, ∃ partially u, repair cancelled s = (.ok partially, u) ∧ Thinned s u ∧
        u.documents = s.documents ∧ u.Indexed ∧
        ∃ again, repair (fun _ => false) u = (.ok again, t) := by
  obtain ⟨summary, t, hrun, hdone, hrepaired⟩ := repair_repairs hindexed hmissing
  have hthinned : Thinned s t := by
    have h := thinned_repair hindexed.numbered fun _ => false
    rwa [hrun] at h
  refine ⟨summary, t, hrun, hdone, hrepaired.documents, hrepaired.indexed, hrepaired.own, ?_, ?_,
    fun cancelled => ?_⟩
  · intro row hrow
    by_contra hnone
    have hempty := hrepaired.others row.docSeq fun d hd hseq => hnone ⟨d, hd, hseq⟩
    have hmem : row.id ∈ t.entriesOf row.docSeq := Store.mem_entriesOf.mpr hrow
    simp [hempty] at hmem
  · intro row hrow
    obtain ⟨old, rfl⟩ := hthinned.removed
    refine Store.textOf?_foldl_removeEntry s fun hold => ?_
    rw [Store.foldl_removeEntry] at hrow
    simp [hold] at hrow
  · obtain ⟨partially, u, hcancelled⟩ := exists_repair hmissing cancelled
    have hfirst : Thinned s u := by
      have h := thinned_repair hindexed.numbered cancelled
      rwa [hcancelled] at h
    have hdocuments := hfirst.lessened.documents
    have hu : u.Indexed := hfirst.indexed hindexed
    refine ⟨partially, u, hcancelled, hfirst, hdocuments, hu, ?_⟩
    obtain ⟨again, v, hagain, -, hlast⟩ := repair_repairs hu (hfirst.lessened.missing.trans hmissing)
    have hboth : Thinned s v := by
      have h := thinned_repair hu.numbered fun _ => false
      rw [hagain] at h
      exact hfirst.trans h
    refine ⟨again, ?_⟩
    rw [hagain, hboth.eq_of_entriesOf hthinned hindexed fun seq => ?_]
    by_cases hdocument : ∃ d ∈ s.documents, d.seq = seq
    · obtain ⟨d, hd, rfl⟩ := hdocument
      rw [hlast.own d (hdocuments ▸ hd), hfirst.max?_entriesOf hd, hrepaired.own d hd]
    · rw [hlast.others seq fun d hd hseq => hdocument ⟨d, hdocuments ▸ hd, hseq⟩,
        hrepaired.others seq fun d hd hseq => hdocument ⟨d, hd, hseq⟩]

/-- A document with two entries beside two without a document. A repair that is cancelled after one
owner leaves the orphans, and the next one takes them out. -/
theorem repair_resumable_of_orphans :
    let d : Document := ⟨1, ['a'], none, none, some ['x'], some ['x'], none, none, some 0⟩
    let text : EntryText := ⟨['p'], [], [], [], []⟩
    let s : Store := ⟨[d], 1, [⟨1, 1⟩, ⟨2, 7⟩, ⟨3, 1⟩, ⟨4, 7⟩], 4,
      ⟨[⟨1, text⟩, ⟨2, text⟩, ⟨3, text⟩, ⟨4, text⟩], 4, 4⟩, []⟩
    ∃ t partially u again, (∀ row ∈ t.entries, row.docSeq = 1) ∧ t.entriesOf 1 = [3] ∧
      repair (0 < ·) s = (.ok partially, u) ∧ partially.interrupted = true ∧
      u.entries = [⟨2, 7⟩, ⟨3, 1⟩, ⟨4, 7⟩] ∧ repair (fun _ => false) u = (.ok again, t) := by
  intro d text s
  have hindexed : s.Indexed := by
    refine ⟨by decide, by decide, by decide, fun entry => ?_⟩
    simp [s]
  obtain ⟨-, t, -, -, -, -, hown, howners, -, hcancelled⟩ := repair_resumable hindexed rfl
  obtain ⟨partially, u, hfirst, -, -, -, again, hagain⟩ := hcancelled (0 < ·)
  have hcut : repair (0 < ·) s = (.ok ⟨1, 0, true⟩, s.removeEntry 1) := by decide +kernel
  obtain ⟨⟨⟩, rfl⟩ := Prod.mk.inj (hcut.symm.trans hfirst)
  refine ⟨t, _, _, again, fun row hrow => ?_, hown d List.mem_cons_self, hfirst, rfl, by decide,
    hagain⟩
  obtain ⟨e, he, hseq⟩ := howners row hrow
  rw [← hseq, List.mem_singleton.mp he]

end Repair

end MailIndex.Check
