import MailIndex.Proofs.Check.Cancellation

/-!
# What a repair counts

A repair counts the entries that it prunes, and after that the orphans that it deals with. It looks
for these in what is durable, so an orphan that has been pruned in the transaction that is still open
is found all the same. It is taken out again, which does nothing, and it counts again. This happens to
no other entry: without those the numbers of a repair are the entries that are gone.
-/

namespace MailIndex.Check.Repair

open Store (removeEntry)

/-! ## Owners of several entries -/

/-- The owners of several entries, in the order in which a repair deals with them. -/
def crowded (s : Store) : List Nat := s.duplicates.map (·.1)

def committed (units : Nat) : Nat := units / commitInterval * commitInterval

/-- The owners of several entries whose pruning is durable when the orphans are looked for. -/
def settledOwners (s : Store) : List Nat := (crowded s).take (committed (crowded s).length)

/-- Those whose pruning is not yet committed then. -/
def openOwners (s : Store) : List Nat := (crowded s).drop (committed (crowded s).length)

def foundOrphans (s : Store) : List EntryRow := s.orphans.filter fun row =>
  !(decide (row.docSeq ∈ settledOwners s) && decide (row.id ∈ s.superseded row.docSeq))

/-- An entry that has been pruned when it is found as an orphan. -/
def isRecounted (s : Store) (row : EntryRow) : Bool :=
  decide (row.docSeq ∈ openOwners s) && decide (row.id ∈ s.superseded row.docSeq)

variable {cancelled : Nat → Bool} {r : Repair} {s : Store}

theorem mem_crowded {seq : Nat} : seq ∈ crowded s ↔ seq ∈ settledOwners s ∨ seq ∈ openOwners s := by
  rw [← List.mem_append, settledOwners, openOwners, List.take_append_drop]

/-! ## Pruning -/

structure Pruned (s : Store) (seqs : List Nat) (r : Repair) : Prop where
  view : r.session.view = s.pruneAll seqs
  durable : r.session.durable = s.pruneAll (seqs.take (committed seqs.length))
  pending : r.session.pending = seqs.length % commitInterval
  counted : r.session.view.entries.length + r.summary.prunedEntries = s.entries.length
  removed : r.summary.removedOrphans = 0

theorem pruned_start (s : Store) : Pruned s [] (start s) := ⟨rfl, rfl, rfl, rfl, rfl⟩

theorem Pruned.interrupt {seqs : List Nat} (h : Pruned s seqs r) : Pruned s seqs r.interrupt :=
  ⟨h.view, h.durable, h.pending, h.counted, h.removed⟩

theorem Pruned.next {seqs : List Nat} (h : Pruned s seqs r) (hs : s.Numbered) (seq : Nat) :
    Pruned s (seqs ++ [seq]) (r.dealtWith (r.session.view.prune seq).1
      { r.summary with
        prunedEntries := r.summary.prunedEntries + (r.session.view.prune seq).2 }) where
  view := by
    rw [view_dealtWith, h.view, Store.pruneAll_concat]
  durable := by
    have hview : (r.session.view.prune seq).1 = s.pruneAll (seqs ++ [seq]) := by
      rw [h.view, Store.pruneAll_concat]
    have hpending := h.pending
    unfold dealtWith Session.finishOne
    dsimp only [Session.write]
    rw [hview, List.length_append, List.length_singleton]
    unfold committed
    split
    · next hdue =>
        have hall : seqs.length + 1 = (seqs.length + 1) / commitInterval * commitInterval := by
          unfold commitInterval at *
          omega
        rw [Session.durable_commit, ← hall, List.take_of_length_le (by simp)]
        rfl
    · next hearly =>
        have hsame : (seqs.length + 1) / commitInterval = seqs.length / commitInterval := by
          unfold commitInterval at *
          omega
        have hle : seqs.length / commitInterval * commitInterval ≤ seqs.length :=
          Nat.div_mul_le_self _ _
        rw [hsame, List.take_append_of_le_length hle]
        exact h.durable
  pending := by
    have hpending := h.pending
    unfold dealtWith Session.finishOne
    dsimp only [Session.write]
    rw [List.length_append, List.length_singleton]
    split
    · rw [Session.commit]
      dsimp only
      unfold commitInterval at *
      omega
    · dsimp only
      unfold commitInterval at *
      omega
  counted := by
    have hnumbered : r.session.view.Numbered := h.view ▸ hs.pruneAll seqs
    have hlength := hnumbered.length_prune seq
    have hcounted := h.counted
    rw [view_dealtWith]
    change (r.session.view.prune seq).1.entries.length +
      (r.summary.prunedEntries + (r.session.view.prune seq).2) = _
    omega
  removed := h.removed

/-- Pruning deals with owners from the first one on, and with all of them unless it is cancelled. -/
theorem Pruned.pruneAll {done seqs : List Nat} {r' : Repair} (h : Pruned s done r)
    (hs : s.Numbered) (hrun : pruneAll cancelled seqs r = (.ok (), r')) :
    ∃ n, Pruned s (done ++ seqs.take n) r' ∧
      (r'.summary.interrupted = false → seqs.take n = seqs) := by
  induction seqs generalizing done r with
  | nil =>
      cases hrun
      exact ⟨0, by simpa using h, fun _ => rfl⟩
  | cons seq seqs ih =>
      unfold Repair.pruneAll at hrun
      split at hrun
      · cases hrun
        exact ⟨0, by simpa using h.interrupt, fun hgoing => by cases hgoing⟩
      · split at hrun
        · cases hrun
        · next count after hprune =>
            have hnext := h.next hs seq
            rw [Reindex.prune_eq_of_ok hprune] at hnext
            obtain ⟨n, hpruned, hall⟩ := ih hnext hrun
            refine ⟨n + 1, ?_, fun hgoing => ?_⟩
            · rwa [List.append_assoc] at hpruned
            · rw [List.take_succ_cons, hall hgoing]

/-! ## Orphans -/

theorem of_removeAll_ok {entries : List Nat} {r' : Repair}
    (hrun : removeAll cancelled entries r = (.ok (), r')) :
    ∃ n ≤ entries.length,
      r'.session.view = (entries.take n).foldl removeEntry r.session.view ∧
      r'.summary.prunedEntries = r.summary.prunedEntries ∧
      r'.summary.removedOrphans = r.summary.removedOrphans + n ∧
      (r'.summary.interrupted = false → n = entries.length) := by
  induction entries generalizing r with
  | nil =>
      cases hrun
      exact ⟨0, Nat.le_refl _, rfl, rfl, rfl, fun _ => rfl⟩
  | cons entry entries ih =>
      unfold removeAll at hrun
      split at hrun
      · cases hrun
        exact ⟨0, Nat.zero_le _, rfl, rfl, rfl, fun hgoing => by cases hgoing⟩
      · split at hrun
        · cases hrun
        · next after hdelete =>
            obtain ⟨n, hle, hview, hpruned, hremoved, hall⟩ := ih hrun
            rw [view_dealtWith, of_deleteEntry_ok hdelete] at hview
            refine ⟨n + 1, Nat.succ_le_succ hle, hview, hpruned, ?_, fun hgoing => ?_⟩
            · rw [hremoved]
              exact Nat.add_right_comm r.summary.removedOrphans 1 n
            · rw [hall hgoing, List.length_cons]

theorem orphans_pruneAll_settledOwners (hs : s.Numbered) :
    (s.pruneAll (settledOwners s)).orphans = foundOrphans s := by
  unfold foundOrphans Store.orphans
  rw [hs.entries_pruneAll, Store.documents_pruneAll, List.filter_filter, List.filter_filter]
  exact List.filter_congr fun row _ => Bool.and_comm _ _

/-- An orphan that has been found is still in the ledger unless it has been pruned since. -/
theorem any_pruneAll_crowded (hs : s.Numbered) {row : EntryRow} (hrow : row ∈ foundOrphans s) :
    (s.pruneAll (crowded s)).entries.any (·.id = row.id) = !isRecounted s row := by
  obtain ⟨horphan, hfound⟩ := List.mem_filter.mp hrow
  have hin : row ∈ s.entries := (List.mem_filter.mp horphan).1
  have hkept : (s.pruneAll (crowded s)).entries.any (·.id = row.id) =
      !(decide (row.docSeq ∈ crowded s) && decide (row.id ∈ s.superseded row.docSeq)) := by
    rw [hs.entries_pruneAll, Bool.eq_iff_iff, List.any_eq_true]
    constructor
    · rintro ⟨other, hother, hid⟩
      obtain ⟨hmem, hleft⟩ := List.mem_filter.mp hother
      rwa [hs.row_unique hmem hin (of_decide_eq_true hid)] at hleft
    · exact fun hleft => ⟨row, List.mem_filter.mpr ⟨hin, hleft⟩, by simp⟩
  rw [hkept, isRecounted]
  by_cases hold : row.id ∈ s.superseded row.docSeq
  · have hunsettled : row.docSeq ∉ settledOwners s := by simpa [hold] using hfound
    simp [hold, mem_crowded, hunsettled]
  · simp [hold]

/-- Taking the orphans that have been found out takes out those that have not been pruned since. -/
theorem length_removeAll_foundOrphans (hs : s.Numbered) {n : Nat}
    (hn : n ≤ (foundOrphans s).length) :
    ((((foundOrphans s).map (·.id)).take n).foldl removeEntry
        (s.pruneAll (crowded s))).entries.length + n =
      (s.pruneAll (crowded s)).entries.length +
        ((foundOrphans s).take n).countP (isRecounted s) := by
  have hnodup : (((foundOrphans s).map (·.id)).take n).Nodup := by
    refine (List.Nodup.sublist ?_ hs.ids_nodup).sublist (List.take_sublist _ _)
    exact (List.filter_sublist.trans List.filter_sublist).map _
  have hlength := (hs.pruneAll (crowded s)).length_removeAll hnodup
  have hthere : (((foundOrphans s).map (·.id)).take n).countP
      (fun entry => (s.pruneAll (crowded s)).entries.any (·.id = entry)) =
      ((foundOrphans s).take n).countP fun row => !isRecounted s row := by
    rw [← List.map_take, List.countP_map]
    exact List.countP_congr fun row hrow =>
      Bool.eq_iff_iff.mp (any_pruneAll_crowded hs (List.mem_of_mem_take hrow))
  have hsplit := List.length_eq_countP_add_countP (isRecounted s) (l := (foundOrphans s).take n)
  rw [List.length_take_of_le hn] at hsplit
  simp only [decide_not, Bool.decide_eq_true] at hsplit
  omega

/-! ## The whole repair -/

theorem of_duplicates_ok (hs : s.Numbered)
    (hrun : duplicates cancelled (start s) = (.ok (), r)) :
    ∃ n, Pruned s ((crowded s).take n) r ∧
      (r.summary.interrupted = false → (crowded s).take n = crowded s) := by
  unfold duplicates at hrun
  split at hrun
  · cases hrun
  · next found _ hfound =>
      obtain rfl := Reindex.of_needing_ok (congrArg Prod.fst hfound)
      exact (pruned_start s).pruneAll hs hrun

/-- What a repair has done where it gives an answer: it has dealt with some of the orphans that it
has found, from the first one on, and with all of them unless it was cancelled. -/
theorem of_run_ok (hs : s.Numbered) (hrun : run cancelled s = (.ok (), r)) :
    r.summary.removedOrphans ≤ (foundOrphans s).length ∧
      (r.summary.interrupted = false → r.summary.removedOrphans = (foundOrphans s).length) ∧
      r.summary.prunedEntries + r.summary.removedOrphans + r.session.view.entries.length =
        s.entries.length +
          ((foundOrphans s).take r.summary.removedOrphans).countP (isRecounted s) := by
  unfold run at hrun
  split at hrun
  · next r₀ hduplicates =>
      obtain ⟨k, hpruned, hall⟩ := of_duplicates_ok hs hduplicates
      have hcounted := hpruned.counted
      have hremoved := hpruned.removed
      unfold orphans at hrun
      split at hrun
      · next hinterrupted =>
          cases hrun
          rw [hremoved]
          refine ⟨Nat.zero_le _, fun hgoing => ?_, ?_⟩
          · rw [hinterrupted] at hgoing
            cases hgoing
          · rw [List.take_zero, List.countP_nil]
            omega
      · next hgoing =>
          rw [hall (Bool.not_eq_true _ ▸ hgoing)] at hpruned
          split at hrun
          · cases hrun
          · next found _ hfound =>
              have hdurable : r₀.session.durable.orphans = foundOrphans s := by
                rw [hpruned.durable]
                exact orphans_pruneAll_settledOwners hs
              obtain rfl := (Reindex.of_needing_ok (congrArg Prod.fst hfound)).trans hdurable
              obtain ⟨n, hn, hview, hsame, hremovals, hdone⟩ := of_removeAll_ok hrun
              rw [List.length_map] at hn hdone
              have hlength := length_removeAll_foundOrphans hs hn
              rw [hremoved, Nat.zero_add] at hremovals
              rw [hview, hpruned.view, hsame, hremovals]
              rw [hpruned.view] at hcounted
              exact ⟨hn, hdone, by omega⟩
  · next hfailed => exact absurd hrun (hfailed r)

/-- What the numbers of a repair say, wherever it is cancelled. Where no table is missing there are
such numbers. They add up to more than the entries that are gone by as many as the repair has pruned
and then found as orphans; if no orphan is pruned within the last units of work before the orphans
are looked for, they add up to the entries that are gone. -/
theorem repair_counts (hs : s.Numbered) (cancelled : Nat → Bool) :
    (s.missing = [] → ∃ summary t, repair cancelled s = (.ok summary, t)) ∧
      ∀ summary t, repair cancelled s = (.ok summary, t) →
        summary.prunedEntries + summary.removedOrphans + t.entries.length =
            s.entries.length +
              ((foundOrphans s).take summary.removedOrphans).countP (isRecounted s) ∧
          (summary.interrupted = false →
            summary.removedOrphans = (foundOrphans s).length) ∧
          ((∀ row ∈ s.orphans, isRecounted s row = false) →
            summary.prunedEntries + summary.removedOrphans + t.entries.length =
              s.entries.length) := by
  refine ⟨fun hmissing => exists_repair hmissing cancelled, fun summary t hrepair => ?_⟩
  unfold repair at hrepair
  split at hrepair
  · next r hrun =>
      cases hrepair
      obtain ⟨-, hall, hcounts⟩ := of_run_ok hs hrun
      rw [Session.durable_commit]
      refine ⟨hcounts, hall, fun hnone => ?_⟩
      have hzero : ((foundOrphans s).take r.summary.removedOrphans).countP (isRecounted s) = 0 :=
        List.countP_eq_zero.mpr fun row hrow => by
          simp [hnone row (List.mem_filter.mp (List.mem_of_mem_take hrow)).1]
      omega
  · cases hrepair

/-- Two entries of a document and two without one. The older of these two is pruned and found as an
orphan after that, so the numbers add up to four where three entries are gone. Without it they add up
to what is gone. -/
theorem repair_counts_of_pruned_orphan :
    let d : Document := ⟨1, ['a'], none, none, some ['x'], some ['x'], none, none, some 0⟩
    let text : EntryText := ⟨['p'], [], [], [], []⟩
    let s : Store := ⟨[d], 1, [⟨1, 7⟩, ⟨2, 1⟩, ⟨3, 7⟩, ⟨4, 1⟩], 4,
      ⟨[⟨1, text⟩, ⟨2, text⟩, ⟨3, text⟩, ⟨4, text⟩], 4, 4⟩, []⟩
    let u : Store := s.removeEntry 1
    (∃ t, repair (fun _ => false) s = (.ok ⟨2, 2, false⟩, t) ∧ t.entries.length = 1 ∧
        2 + 2 + t.entries.length = s.entries.length + 1) ∧
      ∃ t, repair (fun _ => false) u = (.ok ⟨1, 1, false⟩, t) ∧
        1 + 1 + t.entries.length = u.entries.length := by
  intro d text s u
  obtain ⟨hanswer, hcounts⟩ := repair_counts (s := s) ⟨by decide, by decide⟩ fun _ => false
  obtain ⟨hanswered, hcounted⟩ := repair_counts (s := u) ⟨by decide, by decide⟩ fun _ => false
  obtain ⟨summary, t, hrepair⟩ := hanswer rfl
  obtain ⟨summary', t', hrepair'⟩ := hanswered rfl
  have hfirst : (repair (fun _ => false) s).1 = .ok ⟨2, 2, false⟩ := by decide +kernel
  have hsecond : (repair (fun _ => false) u).1 = .ok ⟨1, 1, false⟩ := by decide +kernel
  rw [hrepair] at hfirst
  rw [hrepair'] at hsecond
  obtain rfl := Except.ok.inj hfirst
  obtain rfl := Except.ok.inj hsecond
  have htotal := (hcounts _ _ hrepair).1
  have hrecounted : ((foundOrphans s).take 2).countP (isRecounted s) = 1 := by decide
  rw [hrecounted] at htotal
  refine ⟨⟨t, hrepair, ?_, htotal⟩, t', hrepair', (hcounted _ _ hrepair').2.2 (by decide)⟩
  exact Nat.add_left_cancel htotal

end MailIndex.Check.Repair
