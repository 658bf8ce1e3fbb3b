import MailIndex.Proofs.Store.Ledger

/-!
# Keys

What the keys of the tables ensure of every store: no two documents share a number or an identifier,
the ledger is in order, and numbers that have been given out are not given out again. Every write
keeps this, whatever it finds in the index.
-/

namespace MailIndex

/-- The documents are in the order of their numbers, and no two of them have the same number or
the same identifier. -/
structure Store.Identified (s : Store) : Prop where
  ascending : s.documents.Pairwise (·.seq < ·.seq)
  ids : (s.documents.map (·.id)).Nodup

theorem Store.Identified.seqs {s : Store} (h : s.Identified) : (s.documents.map (·.seq)).Nodup :=
  List.pairwise_map.mpr (h.ascending.imp Nat.ne_of_lt)

theorem Store.Identified.eq_of_seq {s : Store} (h : s.Identified) {d e : Document}
    (hd : d ∈ s.documents) (he : e ∈ s.documents) (hseq : d.seq = e.seq) : d = e :=
  List.inj_on_of_nodup_map h.seqs hd he hseq

theorem Store.Identified.eq_of_id {s : Store} (h : s.Identified) {d e : Document}
    (hd : d ∈ s.documents) (he : e ∈ s.documents) (hid : d.id = e.id) : d = e :=
  List.inj_on_of_nodup_map h.ids hd he hid

theorem Store.Identified.mem_ids_filter {s : Store} (h : s.Identified) {d : Document}
    (hd : d ∈ s.documents) (p : Document → Bool) :
    d.id ∈ (s.documents.filter p).map (·.id) ↔ p d = true := by
  rw [List.mem_map]
  constructor
  · rintro ⟨e, he, hid⟩
    obtain ⟨hmem, hp⟩ := List.mem_filter.mp he
    rwa [← h.eq_of_id hmem hd hid]
  · exact fun hp => ⟨d, List.mem_filter.mpr ⟨hd, hp⟩, rfl⟩

theorem findSeq?_isSome {s : Store} {seq : Nat} :
    (s.findSeq? seq).isSome = true ↔ ∃ d ∈ s.documents, d.seq = seq := by
  unfold Store.findSeq?
  simp [List.find?_isSome]

namespace Store

theorem Identified.findSeq? {s : Store} (h : s.Identified) {d : Document} (hd : d ∈ s.documents) :
    s.findSeq? d.seq = some d := by
  cases hfind : s.findSeq? d.seq with
  | none =>
      have hsome := findSeq?_isSome.mpr ⟨d, hd, rfl⟩
      rw [hfind] at hsome
      cases hsome
  | some e =>
      have he : e ∈ s.documents := List.mem_of_find?_eq_some hfind
      have hseq : e.seq = d.seq := by simpa using List.find?_some hfind
      rw [h.eq_of_seq he hd hseq]

theorem Identified.find? {s : Store} (h : s.Identified) {d : Document} (hd : d ∈ s.documents) :
    s.find? d.id = some d := by
  cases hfind : s.find? d.id with
  | none =>
      have hother := List.find?_eq_none.mp hfind d hd
      simp at hother
  | some e =>
      have he : e ∈ s.documents := List.mem_of_find?_eq_some hfind
      have hid : e.id = d.id := by simpa using List.find?_some hfind
      rw [h.eq_of_id he hd hid]

/-- What every store satisfies by the keys of its tables. -/
structure Keyed (s : Store) : Prop extends s.Identified, s.Numbered where
  le_lastSeq : ∀ d ∈ s.documents, d.seq ≤ s.lastSeq

variable {s : Store}

theorem Keyed.map (h : s.Keyed) {f : Document → Document} (hseq : ∀ d, (f d).seq = d.seq)
    (hid : ∀ d, (f d).id = d.id) : Keyed { s with documents := s.documents.map f } where
  ascending := by
    have hsame : ∀ a b : Document, a.seq < b.seq → (f a).seq < (f b).seq := by
      intro a b hlt
      rwa [hseq, hseq]
    exact List.pairwise_map.mpr (h.ascending.imp (hsame _ _))
  ids := by
    have hsame : (s.documents.map f).map (·.id) = s.documents.map (·.id) := by
      rw [List.map_map]
      exact List.map_congr_left fun d _ => hid d
    exact hsame ▸ h.ids
  toNumbered := h.toNumbered.withDocuments _ _
  le_lastSeq d hd := by
    obtain ⟨e, he, rfl⟩ := List.mem_map.mp hd
    exact Nat.le_trans (Nat.le_of_eq (hseq e)) (h.le_lastSeq e he)

theorem Keyed.change (h : s.Keyed) {condition : Document → Bool} {f : Document → Document}
    (hseq : ∀ d, (f d).seq = d.seq) (hid : ∀ d, (f d).id = d.id) : (s.change condition f).Keyed := by
  refine h.map (fun d => ?_) fun d => ?_
  · split
    · exact hseq d
    · rfl
  · split
    · exact hid d
    · rfl

theorem Keyed.markIndexed (h : s.Keyed) (seq : Nat) (derived : Derived) (hash : Text) (now : Int) :
    (s.markIndexed seq derived hash now).Keyed := h.change (fun _ => rfl) fun _ => rfl

theorem Keyed.addEntry (h : s.Keyed) (seq : Nat) (text : EntryText) :
    (s.addEntry seq text).1.Keyed where
  toIdentified := ⟨h.ascending, h.ids⟩
  toNumbered := h.toNumbered.addEntry seq text
  le_lastSeq := h.le_lastSeq

theorem lastSeq_prune (s : Store) (seq : Nat) : (s.prune seq).1.lastSeq = s.lastSeq := by
  rw [fst_prune, foldl_removeEntry]

theorem Keyed.removeAll (h : s.Keyed) (old : List Nat) : (old.foldl removeEntry s).Keyed := by
  have hnumbered := h.toNumbered.removeAll old
  rw [foldl_removeEntry] at hnumbered ⊢
  exact ⟨⟨h.ascending, h.ids⟩, hnumbered, h.le_lastSeq⟩

theorem Keyed.prune (h : s.Keyed) (seq : Nat) : (s.prune seq).1.Keyed :=
  h.removeAll (s.superseded seq)

theorem Keyed.deleteDocument (h : s.Keyed) (id : Text) : (s.deleteDocument id).Keyed where
  ascending := h.ascending.filter _
  ids := h.ids.sublist (List.filter_sublist.map _)
  toNumbered := h.toNumbered.withDocuments _ _
  le_lastSeq d hd := h.le_lastSeq d (List.mem_filter.mp hd).1

theorem Keyed.upsert (h : s.Keyed) (record : Record) : (s.upsert record).1.Keyed := by
  unfold Store.upsert
  dsimp only
  cases hfind : s.find? record.id with
  | some known =>
      have hchanged : (s.change (·.id = record.id) (·.updated record)).Keyed :=
        h.change (fun _ => rfl) fun _ => rfl
      refine ⟨⟨hchanged.ascending, hchanged.ids⟩, hchanged.toNumbered.withDocuments _ _,
        fun d hd => ?_⟩
      exact Nat.le_succ_of_le (hchanged.le_lastSeq d hd)
  | none =>
      refine ⟨⟨?_, ?_⟩, h.toNumbered.withDocuments _ _, fun d hd => ?_⟩
      · refine List.pairwise_append.mpr
          ⟨h.ascending, List.pairwise_singleton _ _, ?_⟩
        intro d hd new hnew
        rw [List.mem_singleton.mp hnew]
        exact Nat.lt_succ_of_le (h.le_lastSeq d hd)
      · have hother := List.find?_eq_none.mp hfind
        rw [List.map_append, List.nodup_append]
        refine ⟨h.ids, List.pairwise_singleton _ _, ?_⟩
        intro id hid new hnew
        obtain ⟨d, hd, rfl⟩ := List.mem_map.mp hid
        rw [List.mem_singleton.mp hnew]
        simpa [Document.ofRecord] using hother d hd
      · rcases List.mem_append.mp hd with hd | hd
        · exact Nat.le_succ_of_le (h.le_lastSeq d hd)
        · rw [List.mem_singleton.mp hd]
          exact Nat.le_refl _

end Store

end MailIndex
