import MailIndex.Store.Statement
import Mathlib.Data.List.Nodup

/-!
# The ledger and the index

Entries are only ever added with a number above all others, and taken out by number. So adding one
for a document leaves every other document's entries as they are, and taking out the superseded
entries of a document leaves its newest one and nothing else changed.
-/

namespace MailIndex

namespace Store

def textOf? (s : Store) (entry : Nat) : Option EntryText :=
  (s.index.rows.find? (·.id = entry)).map (·.text)

/-- The ledger is in ascending order, numbers are not given out twice, and the index has a text
for exactly the entries of the ledger. -/
structure Indexed (s : Store) : Prop where
  ascending : s.entries.Pairwise (·.id < ·.id)
  le_lastEntry : ∀ row ∈ s.entries, row.id ≤ s.lastEntry
  rows : (s.index.rows.map (·.id)).Nodup
  mem_rows : ∀ entry, (∃ row ∈ s.index.rows, row.id = entry) ↔ ∃ row ∈ s.entries, row.id = entry

/-- The ledger is in ascending order and no number in it is still to be given out. The key of the
table ensures this much of every store, whatever has become of the index. -/
structure Numbered (s : Store) : Prop where
  ordered : s.entries.Pairwise (·.id < ·.id)
  le_lastEntry : ∀ row ∈ s.entries, row.id ≤ s.lastEntry

theorem Indexed.numbered {s : Store} (h : s.Indexed) : s.Numbered :=
  ⟨h.ascending, h.le_lastEntry⟩

theorem Numbered.withDocuments {s : Store} (h : s.Numbered) (documents : List Document)
    (lastSeq : Nat) : Numbered { s with documents, lastSeq } := ⟨h.ordered, h.le_lastEntry⟩

theorem Indexed.withDocuments {s : Store} (h : s.Indexed) (documents : List Document)
    (lastSeq : Nat) : Indexed { s with documents, lastSeq } :=
  ⟨h.ascending, h.le_lastEntry, h.rows, h.mem_rows⟩

theorem Indexed.change {s : Store} (h : s.Indexed) (condition : Document → Bool)
    (f : Document → Document) : (s.change condition f).Indexed := h.withDocuments _ _

theorem mem_entriesOf {s : Store} {seq entry : Nat} :
    entry ∈ s.entriesOf seq ↔ ⟨entry, seq⟩ ∈ s.entries := by
  unfold entriesOf
  simp only [List.mem_map, List.mem_filter, decide_eq_true_eq]
  constructor
  · rintro ⟨⟨id, docSeq⟩, ⟨hrow, rfl⟩, rfl⟩
    exact hrow
  · intro hrow
    exact ⟨⟨entry, seq⟩, ⟨hrow, rfl⟩, rfl⟩

theorem Numbered.ids_nodup {s : Store} (h : s.Numbered) : (s.entries.map (·.id)).Nodup :=
  List.pairwise_map.mpr (h.ordered.imp Nat.ne_of_lt)

theorem Numbered.row_unique {s : Store} (h : s.Numbered) {row other : EntryRow}
    (hrow : row ∈ s.entries) (hother : other ∈ s.entries) (hid : row.id = other.id) :
    row = other :=
  List.inj_on_of_nodup_map h.ids_nodup hrow hother hid

theorem Numbered.owner_unique {s : Store} (h : s.Numbered) {entry seq q : Nat}
    (hseq : entry ∈ s.entriesOf seq) (hq : entry ∈ s.entriesOf q) : seq = q := by
  have hsame := h.row_unique (mem_entriesOf.mp hseq) (mem_entriesOf.mp hq) rfl
  exact congrArg EntryRow.docSeq hsame

theorem Numbered.entriesOf_ascending {s : Store} (h : s.Numbered) (seq : Nat) :
    (s.entriesOf seq).Pairwise (· < ·) := by
  unfold entriesOf
  rw [List.pairwise_map]
  exact h.ordered.filter _

theorem Numbered.le_of_mem_entriesOf {s : Store} (h : s.Numbered) {entry seq : Nat}
    (hmem : entry ∈ s.entriesOf seq) : entry ≤ s.lastEntry :=
  h.le_lastEntry _ (mem_entriesOf.mp hmem)

theorem mem_owners_duplicates {s : Store} {seq : Nat} :
    seq ∈ s.duplicates.map (·.1) ↔ 1 < (s.entriesOf seq).length := by
  have howns : ∀ entry ∈ s.entriesOf seq, seq ∈ s.entries.map (·.docSeq) := by
    intro entry hentry
    exact List.mem_map.mpr ⟨_, mem_entriesOf.mp hentry, rfl⟩
  unfold duplicates owners
  simp only [List.mem_map, List.mem_filter, SeqSet.mem_ofList, decide_eq_true_eq]
  constructor
  · rintro ⟨_, ⟨⟨q, -, rfl⟩, hmany⟩, rfl⟩
    exact hmany
  · intro hmany
    obtain ⟨entry, rest, hentries⟩ := List.exists_cons_of_length_pos (Nat.zero_lt_of_lt hmany)
    have hmem : entry ∈ s.entriesOf seq := by simp [hentries]
    exact ⟨_, ⟨⟨seq, List.mem_map.mp (howns entry hmem), rfl⟩, hmany⟩, rfl⟩

/-! ## Adding an entry -/

theorem entriesOf_addEntry (s : Store) (seq : Nat) (text : EntryText) (q : Nat) :
    (s.addEntry seq text).1.entriesOf q =
      s.entriesOf q ++ if q = seq then [s.lastEntry + 1] else [] := by
  unfold entriesOf addEntry addEntryRow addText
  by_cases hq : q = seq
  · simp [hq]
  · simp [hq, Ne.symm hq]

theorem documents_addEntry (s : Store) (seq : Nat) (text : EntryText) :
    (s.addEntry seq text).1.documents = s.documents := rfl

theorem textOf?_addEntry (s : Store) (seq : Nat) (text : EntryText) (entry : Nat) :
    (s.addEntry seq text).1.textOf? entry =
      if entry = s.lastEntry + 1 then some text else s.textOf? entry := by
  unfold textOf? addEntry addEntryRow addText Index.insert
  by_cases hentry : entry = s.lastEntry + 1
  · have hgone : (s.index.rows.filter (·.id ≠ s.lastEntry + 1)).find?
        (·.id = s.lastEntry + 1) = none := by
      rw [List.find?_eq_none]
      intro row hrow
      simpa using (List.mem_filter.mp hrow).2
    rw [if_pos hentry, hentry, List.find?_append, hgone]
    simp
  · have hkept : (s.index.rows.filter (·.id ≠ s.lastEntry + 1)).find? (·.id = entry) =
        s.index.rows.find? (·.id = entry) := by
      rw [List.find?_filter]
      congr 1
      funext row
      by_cases hrow : row.id = entry
      · simp [hrow, hentry]
      · simp [hrow]
    rw [if_neg hentry, List.find?_append, hkept]
    simp [Ne.symm hentry]

theorem Numbered.addEntry {s : Store} (h : s.Numbered) (seq : Nat) (text : EntryText) :
    (s.addEntry seq text).1.Numbered where
  ordered := by
    have hnew : ∀ row ∈ s.entries, row.id < s.lastEntry + 1 :=
      fun row hrow => Nat.lt_succ_of_le (h.le_lastEntry row hrow)
    refine List.pairwise_append.mpr ⟨h.ordered, List.pairwise_singleton _ _, ?_⟩
    intro row hrow new hnew'
    rw [List.mem_singleton.mp hnew']
    exact hnew row hrow
  le_lastEntry row hrow := by
    rcases List.mem_append.mp hrow with hold | hnew
    · exact Nat.le_succ_of_le (h.le_lastEntry row hold)
    · rw [List.mem_singleton.mp hnew]
      exact Nat.le_refl _

theorem Indexed.addEntry {s : Store} (h : s.Indexed) (seq : Nat) (text : EntryText) :
    (s.addEntry seq text).1.Indexed where
  ascending := (h.numbered.addEntry seq text).ordered
  le_lastEntry := (h.numbered.addEntry seq text).le_lastEntry
  rows := by
    have hkept : ((s.index.rows.filter (·.id ≠ s.lastEntry + 1)).map (·.id)).Nodup :=
      h.rows.sublist (List.filter_sublist.map _)
    simp only [Store.addEntry, addEntryRow, addText, Index.insert, List.map_append, List.map_cons,
      List.map_nil]
    refine List.pairwise_append.mpr ⟨hkept, List.pairwise_singleton _ _, ?_⟩
    intro id hid new hnew
    obtain ⟨row, hrow, rfl⟩ := List.mem_map.mp hid
    rw [List.mem_singleton.mp hnew]
    exact of_decide_eq_true (List.mem_filter.mp hrow).2
  mem_rows entry := by
    have hold := h.mem_rows entry
    have hbound : (∃ row ∈ s.entries, row.id = entry) → entry ≠ s.lastEntry + 1 := by
      rintro ⟨row, hrow, rfl⟩
      have hle := h.le_lastEntry row hrow
      omega
    simp only [Store.addEntry, addEntryRow, addText, Index.insert, List.mem_append,
      List.mem_filter, List.mem_singleton]
    constructor
    · rintro ⟨row, ⟨hrow, -⟩ | rfl, rfl⟩
      · obtain ⟨r, hr, hid⟩ := hold.mp ⟨row, hrow, rfl⟩
        exact ⟨r, .inl hr, hid⟩
      · exact ⟨_, .inr rfl, rfl⟩
    · rintro ⟨row, hrow | rfl, rfl⟩
      · obtain ⟨r, hr, hid⟩ := hold.mpr ⟨row, hrow, rfl⟩
        exact ⟨r, .inl ⟨hr, by simpa [hid] using hbound ⟨row, hrow, rfl⟩⟩, hid⟩
      · exact ⟨_, .inr rfl, rfl⟩

/-! ## Taking entries out -/

theorem foldl_removeEntry (s : Store) (old : List Nat) :
    old.foldl removeEntry s = { s with
      entries := s.entries.filter fun row => row.id ∉ old
      index := { s.index with rows := s.index.rows.filter fun row => row.id ∉ old } } := by
  induction old generalizing s with
  | nil => simp
  | cons entry old ih =>
      rw [List.foldl_cons, ih]
      simp [removeEntry, removeText, removeEntryRow, Index.erase, List.filter_filter, not_or,
        Bool.and_comm]

theorem mem_superseded {s : Store} {seq entry : Nat} :
    entry ∈ s.superseded seq ↔
      entry ∈ s.entriesOf seq ∧ ∃ newer ∈ s.entriesOf seq, entry < newer := by
  simp [superseded]

theorem fst_prune (s : Store) (seq : Nat) :
    (s.prune seq).1 = (s.superseded seq).foldl removeEntry s := rfl

theorem documents_prune (s : Store) (seq : Nat) : (s.prune seq).1.documents = s.documents := by
  rw [fst_prune, foldl_removeEntry]

theorem entriesOf_foldl_removeEntry (s : Store) (old : List Nat) (q : Nat) :
    (old.foldl removeEntry s).entriesOf q = (s.entriesOf q).filter fun entry => entry ∉ old := by
  rw [foldl_removeEntry]
  unfold entriesOf
  simp only [List.filter_map, List.filter_filter]
  congr 1
  apply List.filter_congr
  intro row _
  simp [Bool.and_comm]

theorem max?_concat {front : List Nat} {last : Nat} (h : ∀ entry ∈ front, entry < last) :
    (front ++ [last]).max? = some last := by
  rw [List.max?_eq_some_iff]
  refine ⟨by simp, fun entry hentry => ?_⟩
  rcases List.mem_append.mp hentry with hfront | hlast
  · exact Nat.le_of_lt (h entry hfront)
  · exact Nat.le_of_eq (List.mem_singleton.mp hlast)

/-- A list of at most one number is what its greatest number makes of it. -/
theorem max?_toList_of_length_le {own : List Nat} (h : own.length ≤ 1) : own.max?.toList = own := by
  match own, h with
  | [], _ => rfl
  | [_], _ => rfl

theorem filter_not_below {own : List Nat} (h : own.Pairwise (· < ·)) :
    (own.filter fun entry => !own.any (entry < ·)) = own.max?.toList := by
  rcases List.eq_nil_or_concat' own with rfl | ⟨front, last, rfl⟩
  · rfl
  · have hbelow : ∀ entry ∈ front, entry < last := by
      intro entry hentry
      exact (List.pairwise_append.mp h).2.2 entry hentry last (List.mem_singleton_self _)
    have hfront : (front.filter fun entry => !(front ++ [last]).any (entry < ·)) = [] := by
      rw [List.filter_eq_nil_iff]
      intro entry hentry
      simp [hbelow entry hentry]
    have hlast : ([last].filter fun entry => !(front ++ [last]).any (entry < ·)) = [last] := by
      have hnone : (!(front ++ [last]).any (last < ·)) = true := by
        simp only [Bool.not_eq_true', List.any_eq_false, List.mem_append, List.mem_singleton,
          decide_eq_true_eq, Nat.not_lt]
        rintro entry (hentry | rfl)
        · exact Nat.le_of_lt (hbelow entry hentry)
        · exact Nat.le_refl _
      rw [List.filter_cons, if_pos hnone]
      rfl
    rw [List.filter_append, hfront, hlast, max?_concat hbelow]
    rfl

/-- Pruning leaves a document its newest entry, and other documents all of theirs. -/
theorem Numbered.entriesOf_prune {s : Store} (h : s.Numbered) (seq q : Nat) :
    (s.prune seq).1.entriesOf q =
      if q = seq then (s.entriesOf seq).max?.toList else s.entriesOf q := by
  rw [fst_prune, entriesOf_foldl_removeEntry]
  by_cases hq : q = seq
  · subst hq
    rw [if_pos rfl, ← filter_not_below (h.entriesOf_ascending q)]
    apply List.filter_congr
    intro entry hentry
    have hiff : entry ∈ s.superseded q ↔ (s.entriesOf q).any (entry < ·) = true := by
      simp [mem_superseded, hentry]
    cases hany : (s.entriesOf q).any (entry < ·) with
    | true => simp [hiff.mpr hany]
    | false =>
        have hnewest : entry ∉ s.superseded q := by
          rw [hiff, hany]
          decide
        simp [hnewest]
  · rw [if_neg hq, List.filter_eq_self]
    intro entry hentry
    have hother : entry ∉ s.superseded seq := by
      intro hsuperseded
      exact hq (h.owner_unique hentry (mem_superseded.mp hsuperseded).1)
    simpa using hother

theorem textOf?_foldl_removeEntry (s : Store) {old : List Nat} {entry : Nat}
    (hkept : entry ∉ old) : (old.foldl removeEntry s).textOf? entry = s.textOf? entry := by
  rw [foldl_removeEntry]
  unfold textOf?
  dsimp only
  rw [List.find?_filter]
  congr 2
  funext row
  by_cases hrow : row.id = entry
  · simp [hrow, hkept]
  · simp [hrow]

theorem textOf?_prune (s : Store) {seq entry : Nat} (hkept : entry ∉ s.superseded seq) :
    (s.prune seq).1.textOf? entry = s.textOf? entry := textOf?_foldl_removeEntry s hkept

theorem Numbered.removeAll {s : Store} (h : s.Numbered) (old : List Nat) :
    (old.foldl removeEntry s).Numbered := by
  rw [foldl_removeEntry]
  refine ⟨h.ordered.filter _, ?_⟩
  intro row hrow
  exact h.le_lastEntry row (List.mem_filter.mp hrow).1

theorem Indexed.removeAll {s : Store} (h : s.Indexed) (old : List Nat) :
    (old.foldl removeEntry s).Indexed := by
  have hnumbered := h.numbered.removeAll old
  rw [foldl_removeEntry] at hnumbered ⊢
  refine ⟨hnumbered.ordered, hnumbered.le_lastEntry,
    h.rows.sublist (List.filter_sublist.map _), fun entry => ?_⟩
  have hboth := h.mem_rows entry
  simp only [List.mem_filter, decide_not, Bool.not_eq_true', decide_eq_false_iff_not]
  constructor
  · rintro ⟨row, ⟨hrow, hkept⟩, rfl⟩
    obtain ⟨r, hr, hid⟩ := hboth.mp ⟨row, hrow, rfl⟩
    exact ⟨r, ⟨hr, by rw [hid]; exact hkept⟩, hid⟩
  · rintro ⟨row, ⟨hrow, hkept⟩, rfl⟩
    obtain ⟨r, hr, hid⟩ := hboth.mpr ⟨row, hrow, rfl⟩
    exact ⟨r, ⟨hr, by rw [hid]; exact hkept⟩, hid⟩

theorem Numbered.prune {s : Store} (h : s.Numbered) (seq : Nat) : (s.prune seq).1.Numbered :=
  h.removeAll (s.superseded seq)

theorem Indexed.prune {s : Store} (h : s.Indexed) (seq : Nat) : (s.prune seq).1.Indexed :=
  h.removeAll (s.superseded seq)

theorem of_mem_entriesOf_prune {s : Store} {seq q entry : Nat}
    (h : entry ∈ (s.prune seq).1.entriesOf q) :
    entry ∈ s.entriesOf q ∧ entry ∉ s.superseded seq := by
  rw [fst_prune, entriesOf_foldl_removeEntry] at h
  obtain ⟨hmem, hkept⟩ := List.mem_filter.mp h
  exact ⟨hmem, of_decide_eq_true hkept⟩

/-! ## The newest entry -/

def newestText? (s : Store) (seq : Nat) : Option EntryText := (s.entriesOf seq).max?.bind s.textOf?

theorem Numbered.newestText?_addEntry {s : Store} (h : s.Numbered) (seq : Nat) (text : EntryText)
    (q : Nat) : (s.addEntry seq text).1.newestText? q =
      if q = seq then some text else s.newestText? q := by
  unfold newestText?
  rw [entriesOf_addEntry]
  by_cases hq : q = seq
  · have hbelow : ∀ entry ∈ s.entriesOf q, entry < s.lastEntry + 1 := fun entry hentry =>
      Nat.lt_succ_of_le (h.le_of_mem_entriesOf hentry)
    rw [if_pos hq, if_pos hq, max?_concat hbelow, Option.bind_some, textOf?_addEntry, if_pos rfl]
  · rw [if_neg hq, if_neg hq, List.append_nil]
    cases hmax : (s.entriesOf q).max? with
    | none => rfl
    | some newest =>
        have hmem : newest ∈ s.entriesOf q := (List.max?_eq_some_iff.mp hmax).1
        have hold : newest ≠ s.lastEntry + 1 := by
          have hle := h.le_of_mem_entriesOf hmem
          omega
        rw [Option.bind_some, Option.bind_some, textOf?_addEntry, if_neg hold]

theorem Numbered.max?_entriesOf_prune {s : Store} (h : s.Numbered) (seq q : Nat) :
    ((s.prune seq).1.entriesOf q).max? = (s.entriesOf q).max? := by
  rw [h.entriesOf_prune]
  by_cases hq : q = seq
  · rw [if_pos hq, hq]
    cases (s.entriesOf seq).max? <;> rfl
  · rw [if_neg hq]

theorem Numbered.newestText?_prune {s : Store} (h : s.Numbered) (seq q : Nat) :
    (s.prune seq).1.newestText? q = s.newestText? q := by
  have hmax := h.max?_entriesOf_prune seq q
  unfold newestText?
  rw [hmax]
  cases hnewest : (s.entriesOf q).max? with
  | none => rfl
  | some newest =>
      have hmem : newest ∈ (s.prune seq).1.entriesOf q :=
        (List.max?_eq_some_iff.mp (hmax.trans hnewest)).1
      exact textOf?_prune s (of_mem_entriesOf_prune hmem).2

/-! ## Pruning several documents -/

def pruneAll (s : Store) (seqs : List Nat) : Store := seqs.foldl (fun s seq => (s.prune seq).1) s

theorem pruneAll_cons (s : Store) (seq : Nat) (seqs : List Nat) :
    s.pruneAll (seq :: seqs) = (s.prune seq).1.pruneAll seqs := rfl

theorem pruneAll_concat (s : Store) (seqs : List Nat) (seq : Nat) :
    s.pruneAll (seqs ++ [seq]) = ((s.pruneAll seqs).prune seq).1 := by
  unfold pruneAll
  rw [List.foldl_append]
  rfl

theorem documents_pruneAll (s : Store) (seqs : List Nat) :
    (s.pruneAll seqs).documents = s.documents := by
  induction seqs generalizing s with
  | nil => rfl
  | cons seq seqs ih => rw [pruneAll_cons, ih, documents_prune]

theorem Indexed.pruneAll {s : Store} (h : s.Indexed) (seqs : List Nat) :
    (s.pruneAll seqs).Indexed := by
  induction seqs generalizing s with
  | nil => exact h
  | cons seq seqs ih => exact ih (h.prune seq)

theorem Indexed.entriesOf_pruneAll {s : Store} (h : s.Indexed) (seqs : List Nat) (q : Nat) :
    (s.pruneAll seqs).entriesOf q =
      if q ∈ seqs then (s.entriesOf q).max?.toList else s.entriesOf q := by
  induction seqs generalizing s with
  | nil => rfl
  | cons seq seqs ih =>
      rw [pruneAll_cons, ih (h.prune seq), h.numbered.entriesOf_prune seq q]
      by_cases hq : q = seq
      · subst hq
        cases hmax : (s.entriesOf q).max? with
        | none => simp
        | some newest => simp
      · simp [hq]

theorem textOf?_pruneAll {s : Store} {seqs : List Nat} {q entry : Nat}
    (h : entry ∈ (s.pruneAll seqs).entriesOf q) :
    entry ∈ s.entriesOf q ∧ (s.pruneAll seqs).textOf? entry = s.textOf? entry := by
  induction seqs generalizing s with
  | nil => exact ⟨h, rfl⟩
  | cons seq seqs ih =>
      rw [pruneAll_cons] at h ⊢
      obtain ⟨hmem, htext⟩ := ih h
      obtain ⟨hbefore, hkept⟩ := of_mem_entriesOf_prune hmem
      exact ⟨hbefore, htext.trans (textOf?_prune s hkept)⟩

theorem Numbered.pruneAll {s : Store} (h : s.Numbered) (seqs : List Nat) :
    (s.pruneAll seqs).Numbered := by
  induction seqs generalizing s with
  | nil => exact h
  | cons seq seqs ih => exact ih (h.prune seq)

theorem Numbered.mem_superseded_iff {s : Store} (h : s.Numbered) {row : EntryRow}
    (hrow : row ∈ s.entries) (seq : Nat) :
    row.id ∈ s.superseded seq ↔ row.docSeq = seq ∧ row.id ∈ s.superseded row.docSeq := by
  constructor
  · intro hold
    obtain rfl := h.owner_unique (mem_entriesOf.mpr hrow) (mem_superseded.mp hold).1
    exact ⟨rfl, hold⟩
  · rintro ⟨rfl, hold⟩
    exact hold

theorem Numbered.superseded_prune {s : Store} (h : s.Numbered) (seq q : Nat) :
    (s.prune seq).1.superseded q = if q = seq then [] else s.superseded q := by
  unfold superseded
  rw [h.entriesOf_prune]
  by_cases hq : q = seq
  · rw [if_pos hq, if_pos hq]
    cases (s.entriesOf seq).max? with
    | none => rfl
    | some newest => simp
  · rw [if_neg hq, if_neg hq]

theorem Numbered.entries_pruneAll {s : Store} (h : s.Numbered) (seqs : List Nat) :
    (s.pruneAll seqs).entries = s.entries.filter fun row =>
      !(decide (row.docSeq ∈ seqs) && decide (row.id ∈ s.superseded row.docSeq)) := by
  induction seqs generalizing s with
  | nil => simp [Store.pruneAll]
  | cons seq seqs ih =>
      have hfirst : (s.prune seq).1.entries =
          s.entries.filter fun row => row.id ∉ s.superseded seq := by
        rw [fst_prune, foldl_removeEntry]
      rw [pruneAll_cons, ih (h.prune seq), hfirst, List.filter_filter]
      refine List.filter_congr fun row hrow => ?_
      have hown := h.mem_superseded_iff hrow seq
      rw [h.superseded_prune]
      by_cases hseq : row.docSeq = seq
      · subst hseq
        simp
      · simp [hown, hseq]

/-! ## Counting entries -/

theorem Numbered.superseded_nodup {s : Store} (h : s.Numbered) (seq : Nat) :
    (s.superseded seq).Nodup :=
  ((h.entriesOf_ascending seq).imp Nat.ne_of_lt).filter _

/-- Of the entries that are to be taken out, those that are there count. -/
theorem Numbered.length_removeAll {s : Store} (h : s.Numbered) {old : List Nat}
    (hold : old.Nodup) : (old.foldl removeEntry s).entries.length +
      old.countP (fun entry => s.entries.any (·.id = entry)) = s.entries.length := by
  have hperm : ((s.entries.map (·.id)).filter (· ∈ old)).Perm
      (old.filter fun entry => s.entries.any (·.id = entry)) := by
    refine (List.perm_ext_iff_of_nodup (h.ids_nodup.filter _) (hold.filter _)).mpr fun entry => ?_
    simp only [List.mem_filter, List.mem_map, decide_eq_true_eq, List.any_eq_true]
    exact and_comm
  have hgone : old.countP (fun entry => s.entries.any (·.id = entry)) =
      s.entries.countP fun row => row.id ∈ old := by
    rw [List.countP_eq_length_filter, ← hperm.length_eq, ← List.countP_eq_length_filter,
      List.countP_map]
    rfl
  rw [hgone, foldl_removeEntry, ← List.countP_eq_length_filter, Nat.add_comm]
  have hsplit := List.length_eq_countP_add_countP (fun row : EntryRow => decide (row.id ∈ old))
    (l := s.entries)
  simpa using hsplit.symm

theorem Numbered.length_prune {s : Store} (h : s.Numbered) (seq : Nat) :
    (s.prune seq).1.entries.length + (s.prune seq).2 = s.entries.length := by
  have hlength := h.length_removeAll (h.superseded_nodup seq)
  have hall : ∀ entry ∈ s.superseded seq, s.entries.any (·.id = entry) = true := by
    intro entry hentry
    exact List.any_eq_true.mpr ⟨_, mem_entriesOf.mp (mem_superseded.mp hentry).1, by simp⟩
  rw [List.countP_eq_length.mpr hall] at hlength
  exact hlength

end Store

end MailIndex
