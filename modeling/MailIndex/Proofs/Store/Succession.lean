import MailIndex.Proofs.Store.Keys

/-!
# What becomes of a store

A number that has been given out is not given out again: what is found under it later was there
before, under the same name or with the same text. Entries come in the order in which their texts
were loaded, the newest of a document goes last, and no document that has been indexed is without
one. Every write keeps this.
-/

namespace MailIndex

structure Load where
  candidate : Document
  message : Message

def Load.content (l : Load) : Nat × Option EntryText :=
  (l.candidate.seq, some (.ofMessage l.message))

namespace Store

structure LeadsTo (s t : Store) : Prop where
  lastSeq : s.lastSeq ≤ t.lastSeq
  lastEntry : s.lastEntry ≤ t.lastEntry
  /-- A number that had been given out has the document that it had. -/
  documents : ∀ d ∈ t.documents, d.seq ≤ s.lastSeq → ∃ e ∈ s.documents, e.seq = d.seq ∧ e.id = d.id
  /-- An entry whose number had been given out was there, with its owner and its text. -/
  entries : ∀ row ∈ t.entries, row.id ≤ s.lastEntry →
    row ∈ s.entries ∧ t.textOf? row.id = s.textOf? row.id
  /-- While an owner has entries it has one as new as any that it had. -/
  newest : ∀ seq, ∀ entry ∈ s.entriesOf seq, t.entriesOf seq ≠ [] →
    ∃ newer ∈ t.entriesOf seq, entry ≤ newer

variable {s t u : Store}

theorem LeadsTo.refl (s : Store) : s.LeadsTo s where
  lastSeq := Nat.le_refl _
  lastEntry := Nat.le_refl _
  documents d hd _ := ⟨d, hd, rfl, rfl⟩
  entries _ hrow _ := ⟨hrow, rfl⟩
  newest _ entry hentry _ := ⟨entry, hentry, Nat.le_refl _⟩

theorem LeadsTo.trans (hs : s.Numbered) (hst : s.LeadsTo t) (htu : t.LeadsTo u) :
    s.LeadsTo u where
  lastSeq := Nat.le_trans hst.lastSeq htu.lastSeq
  lastEntry := Nat.le_trans hst.lastEntry htu.lastEntry
  documents d hd hseq := by
    obtain ⟨e, he, heseq, heid⟩ := htu.documents d hd (Nat.le_trans hseq hst.lastSeq)
    obtain ⟨f, hf, hfseq, hfid⟩ := hst.documents e he (heseq ▸ hseq)
    exact ⟨f, hf, hfseq.trans heseq, hfid.trans heid⟩
  entries row hrow hid := by
    obtain ⟨hmiddle, htext⟩ := htu.entries row hrow (Nat.le_trans hid hst.lastEntry)
    obtain ⟨hbefore, htext'⟩ := hst.entries row hmiddle hid
    exact ⟨hbefore, htext.trans htext'⟩
  newest seq entry hentry hne := by
    by_cases hmiddle : t.entriesOf seq = []
    · -- All that the owner has now was added after it had lost everything.
      obtain ⟨newer, hnewer⟩ := List.exists_mem_of_ne_nil _ hne
      refine ⟨newer, hnewer, ?_⟩
      have hlater : ¬ newer ≤ t.lastEntry := by
        intro hle
        have hmem := mem_entriesOf.mpr (htu.entries _ (mem_entriesOf.mp hnewer) hle).1
        rw [hmiddle] at hmem
        cases hmem
      have hbefore := hs.le_of_mem_entriesOf hentry
      have hgrown := hst.lastEntry
      omega
    · obtain ⟨middle, hmem, hle⟩ := hst.newest seq entry hentry hmiddle
      obtain ⟨newer, hnewer, hle'⟩ := htu.newest seq middle hmem hne
      exact ⟨newer, hnewer, Nat.le_trans hle hle'⟩

theorem leadsTo_withDocuments {documents : List Document} {lastSeq : Nat}
    (hlast : s.lastSeq ≤ lastSeq)
    (hsame : ∀ d ∈ documents, d.seq ≤ s.lastSeq → ∃ e ∈ s.documents, e.seq = d.seq ∧ e.id = d.id) :
    s.LeadsTo { s with documents, lastSeq } where
  lastSeq := hlast
  lastEntry := Nat.le_refl _
  documents := hsame
  entries _ hrow _ := ⟨hrow, rfl⟩
  newest _ entry hentry _ := ⟨entry, hentry, Nat.le_refl _⟩

theorem leadsTo_change (condition : Document → Bool) {f : Document → Document}
    (hseq : ∀ d, (f d).seq = d.seq) (hid : ∀ d, (f d).id = d.id) :
    s.LeadsTo (s.change condition f) := by
  refine leadsTo_withDocuments (Nat.le_refl _) fun d hd _ => ?_
  obtain ⟨e, he, rfl⟩ := List.mem_map.mp hd
  refine ⟨e, he, ?_⟩
  split
  · exact ⟨(hseq e).symm, (hid e).symm⟩
  · exact ⟨rfl, rfl⟩

theorem leadsTo_deleteDocument (s : Store) (id : Text) : s.LeadsTo (s.deleteDocument id) :=
  leadsTo_withDocuments (Nat.le_refl _) fun d hd _ => ⟨d, (List.mem_filter.mp hd).1, rfl, rfl⟩

/-- A new document takes a number that has not been given out. -/
theorem leadsTo_upsert (s : Store) (record : Record) : s.LeadsTo (s.upsert record).1 := by
  unfold Store.upsert
  dsimp only
  cases s.find? record.id with
  | some known =>
      refine leadsTo_withDocuments (Nat.le_succ _) fun d hd hseq => ?_
      exact (leadsTo_change (s := s) (·.id = record.id) (f := (·.updated record)) (fun _ => rfl)
        fun _ => rfl).documents d hd hseq
  | none =>
      refine leadsTo_withDocuments (Nat.le_succ _) fun d hd hseq => ?_
      rcases List.mem_append.mp hd with hd | hd
      · exact ⟨d, hd, rfl, rfl⟩
      · rw [List.mem_singleton.mp hd] at hseq
        exact absurd hseq (Nat.not_succ_le_self _)

theorem leadsTo_addEntry (s : Store) (seq : Nat) (text : EntryText) :
    s.LeadsTo (s.addEntry seq text).1 where
  lastSeq := Nat.le_refl _
  lastEntry := Nat.le_succ _
  documents d hd _ := ⟨d, hd, rfl, rfl⟩
  entries row hrow hid := by
    have hold : row ∈ s.entries := by
      rcases List.mem_append.mp hrow with hold | hnew
      · exact hold
      · rw [List.mem_singleton.mp hnew] at hid
        exact absurd hid (Nat.not_succ_le_self _)
    refine ⟨hold, ?_⟩
    rw [textOf?_addEntry, if_neg (Nat.ne_of_lt (Nat.lt_succ_of_le hid))]
  newest q entry hentry _ := by
    refine ⟨entry, ?_, Nat.le_refl _⟩
    rw [entriesOf_addEntry]
    exact List.mem_append_left _ hentry

/-- Entries may be taken out if those of an owner that stay are newer than those that go. -/
theorem leadsTo_removeAll {old : List Nat}
    (hnewest : ∀ seq, ∀ entry ∈ s.entriesOf seq, (∃ kept ∈ s.entriesOf seq, kept ∉ old) →
      ∃ newer ∈ s.entriesOf seq, newer ∉ old ∧ entry ≤ newer) :
    s.LeadsTo (old.foldl removeEntry s) where
  lastSeq := Nat.le_of_eq (by rw [foldl_removeEntry])
  lastEntry := Nat.le_of_eq (by rw [foldl_removeEntry])
  documents d hd _ := by
    rw [foldl_removeEntry] at hd
    exact ⟨d, hd, rfl, rfl⟩
  entries row hrow _ := by
    rw [foldl_removeEntry] at hrow
    obtain ⟨hold, hkept⟩ := List.mem_filter.mp hrow
    exact ⟨hold, textOf?_foldl_removeEntry s (by simpa using hkept)⟩
  newest seq entry hentry hne := by
    rw [entriesOf_foldl_removeEntry] at hne ⊢
    obtain ⟨kept, hkept⟩ := List.exists_mem_of_ne_nil _ hne
    obtain ⟨hmem, hstays⟩ := List.mem_filter.mp hkept
    obtain ⟨newer, hnewer, hnot, hle⟩ :=
      hnewest seq entry hentry ⟨kept, hmem, by simpa using hstays⟩
    exact ⟨newer, List.mem_filter.mpr ⟨hnewer, by simpa using hnot⟩, hle⟩

theorem exists_not_superseded (h : s.Numbered) (seq : Nat) {q entry : Nat}
    (hentry : entry ∈ s.entriesOf q) :
    ∃ newer ∈ s.entriesOf q, newer ∉ s.superseded seq ∧ entry ≤ newer := by
  obtain ⟨newest, hnewest⟩ := Option.isSome_iff_exists.mp
    (List.isSome_max?_of_mem hentry)
  obtain ⟨hmem, hall⟩ := List.max?_eq_some_iff.mp hnewest
  refine ⟨newest, hmem, fun hsuperseded => ?_, hall entry hentry⟩
  obtain ⟨hown, newer, hnewer, hlt⟩ := mem_superseded.mp hsuperseded
  have hsame : q = seq := h.owner_unique hmem hown
  exact Nat.not_lt_of_le (hall newer (hsame ▸ hnewer)) hlt

theorem leadsTo_prune (h : s.Numbered) (seq : Nat) : s.LeadsTo (s.prune seq).1 :=
  leadsTo_removeAll fun _ _ hentry _ => exists_not_superseded h seq hentry

/-- The oldest entry of an owner goes before the others. -/
theorem leadsTo_removeEntry {entry : Nat}
    (holdest : ∀ seq, entry ∈ s.entriesOf seq → ∀ other ∈ s.entriesOf seq, entry ≤ other) :
    s.LeadsTo (s.removeEntry entry) := by
  have hone : s.removeEntry entry = [entry].foldl removeEntry s := rfl
  rw [hone]
  refine leadsTo_removeAll fun seq own hown hkept => ?_
  by_cases hsame : own = entry
  · obtain ⟨kept, hmem, hnot⟩ := hkept
    exact ⟨kept, hmem, hnot, hsame ▸ holdest seq (hsame ▸ hown) kept hmem⟩
  · exact ⟨own, hown, by simpa using hsame, Nat.le_refl _⟩

/-! ## Consistent stores -/

def contents (s : Store) : List (Nat × Option EntryText) :=
  s.entries.map fun row => (row.docSeq, s.textOf? row.id)

/-- A store in step with its index, after some loads. -/
structure Consistent (loads : List Load) (s : Store) : Prop where
  keyed : s.Keyed
  indexed : s.Indexed
  /-- A document that has been indexed is not without an entry. -/
  owned : ∀ d ∈ s.documents, d.indexedHash.isSome = true ∨ d.indexedAt.isSome = true →
    s.entriesOf d.seq ≠ []
  /-- What is in the index was loaded, in this order. -/
  contents : s.contents.Sublist (loads.map Load.content)

variable {loads : List Load}

theorem consistent_empty : empty.Consistent [] where
  keyed := ⟨⟨.nil, .nil⟩, ⟨.nil, by simp [empty]⟩, by simp [empty]⟩
  indexed := ⟨.nil, by simp [empty], .nil, by simp [empty, Index.empty]⟩
  owned _ hd := by cases hd
  contents := .slnil

theorem Consistent.loadMore (h : s.Consistent loads) (more : List Load) :
    s.Consistent (loads ++ more) where
  keyed := h.keyed
  indexed := h.indexed
  owned := h.owned
  contents := by
    rw [List.map_append]
    exact h.contents.trans (List.sublist_append_left _ _)

theorem Consistent.withDocuments (h : s.Consistent loads) {documents : List Document}
    {lastSeq : Nat} (hkeyed : Keyed { s with documents, lastSeq })
    (howned : ∀ d ∈ documents, d.indexedHash.isSome = true ∨ d.indexedAt.isSome = true →
      ∃ e ∈ s.documents, e.seq = d.seq ∧
        (e.indexedHash.isSome = true ∨ e.indexedAt.isSome = true)) :
    Consistent loads { s with documents, lastSeq } where
  keyed := hkeyed
  indexed := h.indexed.withDocuments _ _
  owned d hd hindexed := by
    obtain ⟨e, he, hseq, hbefore⟩ := howned d hd hindexed
    exact hseq ▸ h.owned e he hbefore
  contents := h.contents

theorem Consistent.change (h : s.Consistent loads) (condition : Document → Bool)
    {f : Document → Document} (hseq : ∀ d, (f d).seq = d.seq) (hid : ∀ d, (f d).id = d.id)
    (hindexed : ∀ d, (f d).indexedHash.isSome = true ∨ (f d).indexedAt.isSome = true →
      d.indexedHash.isSome = true ∨ d.indexedAt.isSome = true) :
    (s.change condition f).Consistent loads := by
  refine h.withDocuments (h.keyed.change hseq hid) fun d hd hmarked => ?_
  obtain ⟨e, he, rfl⟩ := List.mem_map.mp hd
  refine ⟨e, he, ?_⟩
  split at hmarked
  · next hchanged =>
      rw [if_pos hchanged]
      exact ⟨(hseq e).symm, hindexed e hmarked⟩
  · next hsame =>
      rw [if_neg hsame]
      exact ⟨rfl, hmarked⟩

theorem Consistent.deleteDocument (h : s.Consistent loads) (id : Text) :
    (s.deleteDocument id).Consistent loads := by
  refine h.withDocuments (h.keyed.deleteDocument id) fun d hd hmarked => ?_
  exact ⟨d, (List.mem_filter.mp hd).1, rfl, hmarked⟩

theorem Consistent.upsert (h : s.Consistent loads) (record : Record) :
    (s.upsert record).1.Consistent loads := by
  have hkeyed := h.keyed.upsert record
  unfold Store.upsert at hkeyed ⊢
  dsimp only at hkeyed ⊢
  cases hfind : s.find? record.id with
  | some known =>
      rw [hfind] at hkeyed
      refine h.withDocuments hkeyed fun d hd hmarked => ?_
      obtain ⟨e, he, rfl⟩ := List.mem_map.mp hd
      refine ⟨e, he, ?_⟩
      split at hmarked
      · next hchanged => exact ⟨by rw [if_pos hchanged]; rfl, hmarked⟩
      · next hsame => exact ⟨by rw [if_neg hsame], hmarked⟩
  | none =>
      rw [hfind] at hkeyed
      refine h.withDocuments hkeyed fun d hd hmarked => ?_
      rcases List.mem_append.mp hd with hd | hd
      · exact ⟨d, hd, rfl, hmarked⟩
      · -- A new document has not been indexed.
        rw [List.mem_singleton.mp hd] at hmarked
        simp [Document.ofRecord] at hmarked

/-- Entries may be taken out if no document loses all of them. -/
theorem Consistent.removeAll (h : s.Consistent loads) {old : List Nat}
    (howned : ∀ d ∈ s.documents, s.entriesOf d.seq ≠ [] →
      ∃ entry ∈ s.entriesOf d.seq, entry ∉ old) :
    (old.foldl removeEntry s).Consistent loads where
  keyed := h.keyed.removeAll old
  indexed := h.indexed.removeAll old
  owned d hd hmarked := by
    rw [entriesOf_foldl_removeEntry]
    rw [foldl_removeEntry] at hd
    obtain ⟨entry, hentry, hkept⟩ := howned d hd (h.owned d hd hmarked)
    exact List.ne_nil_of_mem (List.mem_filter.mpr ⟨hentry, by simpa using hkept⟩)
  contents := by
    refine List.Sublist.trans ?_ h.contents
    have hrows : (old.foldl removeEntry s).entries = s.entries.filter fun row => row.id ∉ old := by
      rw [foldl_removeEntry]
    have hsame : (old.foldl removeEntry s).contents =
        (s.entries.filter fun row => row.id ∉ old).map fun row =>
          (row.docSeq, s.textOf? row.id) := by
      unfold Store.contents
      rw [hrows]
      refine List.map_congr_left fun row hrow => ?_
      rw [textOf?_foldl_removeEntry s (by simpa using (List.mem_filter.mp hrow).2)]
    rw [hsame]
    exact List.filter_sublist.map _

theorem Consistent.prune (h : s.Consistent loads) (seq : Nat) :
    (s.prune seq).1.Consistent loads := by
  refine h.removeAll fun d _ hne => ?_
  obtain ⟨entry, hentry⟩ := List.exists_mem_of_ne_nil _ hne
  obtain ⟨newer, hnewer, hkept, -⟩ :=
    exists_not_superseded h.keyed.toNumbered seq hentry
  exact ⟨newer, hnewer, hkept⟩

theorem contents_addEntry (h : s.Numbered) (seq : Nat) (text : EntryText) :
    (s.addEntry seq text).1.contents = s.contents ++ [(seq, some text)] := by
  have hentries : (s.addEntry seq text).1.entries = s.entries ++ [⟨s.lastEntry + 1, seq⟩] := rfl
  unfold contents
  rw [hentries, List.map_append]
  congr 1
  · refine List.map_congr_left fun row hrow => ?_
    have hold : row.id ≠ s.lastEntry + 1 :=
      Nat.ne_of_lt (Nat.lt_succ_of_le (h.le_lastEntry row hrow))
    rw [textOf?_addEntry, if_neg hold]
  · rw [List.map_singleton, textOf?_addEntry, if_pos rfl]

theorem Consistent.removeEntry (h : s.Consistent loads) {entry : Nat}
    (horphan : ∀ d ∈ s.documents, entry ∉ s.entriesOf d.seq) :
    (s.removeEntry entry).Consistent loads := by
  have hone : s.removeEntry entry = [entry].foldl Store.removeEntry s := rfl
  rw [hone]
  refine h.removeAll fun d hd hne => ?_
  obtain ⟨own, hown⟩ := List.exists_mem_of_ne_nil _ hne
  refine ⟨own, hown, ?_⟩
  rw [List.mem_singleton]
  rintro rfl
  exact horphan d hd hown

end Store

end MailIndex
