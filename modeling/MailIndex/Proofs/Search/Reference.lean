import MailIndex.Proofs.Store.Ledger
import MailIndex.Search.Results
import Mathlib.Data.Char
import Mathlib.Data.List.Lex
import Mathlib.Data.Prod.Lex

/-!
# What a search is to list

The rows that a search selects, told by the tables alone: a join of the index, the ledger and the
documents, the conditions on a document, and the order of the rows. Nothing is said of pages.
-/

namespace MailIndex

open Match

/-- What the schema ensures: all tables exist, and no two rows of a table have the same key. -/
structure Store.Schema (s : Store) : Prop where
  missing : s.missing = []
  seqs : (s.documents.map (·.seq)).Nodup
  ids : (s.documents.map (·.id)).Nodup
  entries : (s.entries.map (·.id)).Nodup
  rows : (s.index.rows.map (·.id)).Nodup

/-! ## Conditions -/

/-- What a structured filter asks of a document. A missing value satisfies no comparison, and is
not what a negated filter names. -/
def Query.Predicate.Accepts (d : Document) : Query.Predicate → Prop
  | .senderIs email false => d.senderEmail = some email
  | .senderIs email true => d.senderEmail ≠ some email
  | .recipientIs email false => ∃ list, d.recipientEmails = some list ∧ fenced email <:+: list
  | .recipientIs email true => ∀ list, d.recipientEmails = some list → ¬ fenced email <:+: list
  | .labelled text false =>
    ∃ labels, d.labels = some labels ∧ Text.asciiLower text <:+: Text.asciiLower labels
  | .labelled text true =>
    ∀ labels, d.labels = some labels → ¬ Text.asciiLower text <:+: Text.asciiLower labels
  | .dated .before day => ∃ date, d.eventDate = some date ∧ date < day
  | .dated .onOrAfter day => ∃ date, d.eventDate = some date ∧ ¬ date < day
  | .hasAttachments wanted => d.hasAttachments = wanted

theorem Text.occursIn_iff {part whole : Text} :
    Text.occursIn part whole = true ↔ part <:+: whole := by
  induction whole with
  | nil => simp [Text.occursIn]
  | cons c rest ih => simp [Text.occursIn, ih, List.infix_cons_iff]

theorem Query.Predicate.selects_iff {p : Query.Predicate} {d : Document} :
    p.selects d = true ↔ p.Accepts d := by
  unfold Query.Predicate.selects
  cases p with
  | senderIs email negated =>
      cases negated with
      | false => cases h : d.senderEmail <;> simp [truth, Accepts, h]
      | true => simp [truth, Accepts]
  | recipientIs email negated =>
      cases h : d.recipientEmails <;> cases negated <;>
        simp [truth, Accepts, h, ← Text.occursIn_iff]
  | labelled text negated =>
      cases h : d.labels <;> cases negated <;> simp [truth, Accepts, h, ← Text.occursIn_iff]
  | dated op day =>
      cases h : d.eventDate <;> cases op <;> simp [truth, Accepts, h]
  | hasAttachments wanted => simp [truth, Accepts]

namespace Search

structure Qualifies (r : SearchRequest) (c : SearchConfig) (q : Query) (d : Document) : Prop where
  indexed : d.indexedAt ≠ none
  account : ∀ account, r.account = some account → d.account = some account
  dated : r.includeUndated.getD c.includeUndated = false → d.eventDate ≠ none
  predicates : ∀ p ∈ q.predicates, p.Accepts d

theorem admits_iff {r : SearchRequest} {c : SearchConfig} {q : Query} {d : Document} :
    admits r c q d = true ↔ Qualifies r c q d := by
  have haccount : r.account.all (fun account => d.account == some account) = true ↔
      ∀ account, r.account = some account → d.account = some account := by
    cases h : r.account <;> simp
  have hdated : (r.wantsUndated c || d.eventDate.isSome) = true ↔
      (r.includeUndated.getD c.includeUndated = false → d.eventDate ≠ none) := by
    unfold SearchRequest.wantsUndated
    cases r.includeUndated.getD c.includeUndated <;> simp [Option.isSome_iff_ne_none]
  unfold admits
  simp only [Bool.and_eq_true, haccount, hdated, List.all_eq_true, Query.Predicate.selects_iff,
    Option.isSome_iff_ne_none]
  constructor
  · rintro ⟨⟨⟨hindexed, haccount⟩, hdated⟩, hpredicates⟩
    exact ⟨hindexed, haccount, hdated, hpredicates⟩
  · rintro ⟨hindexed, haccount, hdated, hpredicates⟩
    exact ⟨⟨⟨hindexed, haccount⟩, hdated⟩, hpredicates⟩

instance (r : SearchRequest) (c : SearchConfig) (q : Query) (d : Document) :
    Decidable (Qualifies r c q d) := decidable_of_iff (admits r c q d = true) admits_iff

/-! ## Rows -/

/-- The rows that a search selects from: every document, or every entry that an expression selects,
joined with the ledger and the documents. The rank is that of the entry. -/
def joined (s : Store) : Option Expression → List Found
  | none => s.documents.map fun d => ⟨d, 0⟩
  | some e =>
    (s.index.rows.filter (e.selects ·.text)).flatMap fun row =>
      (s.entries.filter (·.id = row.id)).flatMap fun entry =>
        (s.documents.filter (·.seq = entry.docSeq)).map fun d =>
          ⟨d, s.index.rank e (s.index.weights e) row⟩

/-- At most one row of a table has a given key. -/
theorem filter_key {α : Type} {key : α → Nat} {rows : List α} (h : (rows.map key).Nodup) (k : Nat) :
    rows.filter (key · = k) = (rows.find? (key · = k)).toList := by
  induction rows with
  | nil => rfl
  | cons row rows ih =>
      obtain ⟨hfresh, hrest⟩ := List.nodup_cons.mp h
      by_cases hkey : key row = k
      · have hnone : rows.filter (key · = k) = [] := by
          rw [List.filter_eq_nil_iff]
          intro other hother hsame
          have hsame' : key other = k := by simpa using hsame
          exact hfresh (List.mem_map.mpr ⟨other, hother, hsame'.trans hkey.symm⟩)
        simp [hkey, hnone]
      · simp [hkey, ih hrest]

theorem joined_eq {s : Store} (h : s.Schema) (e : Option Expression) :
    joined s e = everything s e := by
  cases e with
  | none => rfl
  | some e =>
      unfold joined everything matching
      dsimp only
      rw [List.filterMap_eq_flatMap_toList]
      congr 1
      funext row
      rw [filter_key h.entries row.id]
      unfold documentOf?
      cases hentry : s.entries.find? (·.id = row.id) with
      | none => rfl
      | some entry =>
          simp only [Option.toList_some, List.flatMap_cons, List.flatMap_nil, List.append_nil,
            filter_key h.seqs]
          have hdocument : s.findSeq? entry.docSeq = s.documents.find? (·.seq = entry.docSeq) := rfl
          cases hfind : s.documents.find? (·.seq = entry.docSeq) with
          | none => simp [hdocument, hfind]
          | some d => simp [hdocument, hfind]

end Search

/-! ## Order -/

namespace Found

/-- What rows are ordered by: the rank from the highest, whether there is no date, the date from the
latest or from the earliest, and the number from the highest. What an order leaves out is the same
for all rows. -/
abbrev Key := ℕᵒᵈ ×ₗ Bool ×ₗ Textᵒᵈ ×ₗ Text ×ₗ ℕᵒᵈ

def Key.of (rank : Nat) (undated : Bool) (latest earliest : Text) (seq : Nat) : Key :=
  toLex (.toDual rank, toLex (undated, toLex (.toDual latest, toLex (earliest, .toDual seq))))

def key : SortOrder → Found → Key
  | .relevance, ⟨d, rank⟩ => .of rank false [] [] d.seq
  | .newestFirst, ⟨d, _⟩ => .of 0 d.eventDate.isNone (d.eventDate.getD []) [] d.seq
  | .oldestFirst, ⟨d, _⟩ => .of 0 d.eventDate.isNone [] (d.eventDate.getD []) d.seq

theorem listedBefore_iff {order : SortOrder} {a b : Found} :
    listedBefore order a b = true ↔ key order a ≤ key order b := by
  cases order with
  | relevance => simp [listedBefore, key, Key.of, Prod.Lex.le_iff]
  | newestFirst =>
      cases ha : a.document.eventDate <;> cases hb : b.document.eventDate <;>
        simp [listedBefore, datedBefore, key, Key.of, Prod.Lex.le_iff, ha, hb]
  | oldestFirst =>
      cases ha : a.document.eventDate <;> cases hb : b.document.eventDate <;>
        simp [listedBefore, datedBefore, key, Key.of, Prod.Lex.le_iff, ha, hb]

def Key.seq (k : Key) : Nat := OrderDual.ofDual (ofLex (ofLex (ofLex (ofLex k).2).2).2).2

theorem seq_key (order : SortOrder) (f : Found) : (key order f).seq = f.document.seq := by
  cases order <;> rfl

def hit (f : Found) : Hit := .ofDocument f.document

end Found

/-! ## Listings -/

namespace Search

/-- All rows that a search selects and that qualify, in the order of the search. Rows that agree in
everything the order looks at may stand in either order. -/
structure IsListing (s : Store) (c : SearchConfig) (r : SearchRequest) (q : Query)
    (e : Option Expression) (full : List Found) : Prop where
  rows : full.Perm ((joined s e).filter fun f => Qualifies r c q f.document)
  order : full.Pairwise fun a b => a.key (r.effectiveSort c q) ≤ b.key (r.effectiveSort c q)

variable {s : Store} {c : SearchConfig} {r : SearchRequest} {q : Query} {e : Option Expression}

theorem isListing_results (h : s.Schema) (c : SearchConfig) (r : SearchRequest) (q : Query)
    (e : Option Expression) : IsListing s c r q e (results s c r q e) where
  rows := by
    have hfilter : (joined s e).filter (fun f => Qualifies r c q f.document) =
        (everything s e).filter fun f => admits r c q f.document := by
      rw [joined_eq h]
      refine List.filter_congr fun f _ => ?_
      rw [Bool.eq_iff_iff, decide_eq_true_eq, admits_iff]
    rw [hfilter]
    exact List.mergeSort_perm _ _
  order := by
    have hsorted : (results s c r q e).Pairwise
        fun a b => Found.listedBefore (r.effectiveSort c q) a b = true := by
      refine List.pairwise_mergeSort (fun a b d hab hbd => ?_) (fun a b => ?_) _
      · rw [Found.listedBefore_iff] at hab hbd ⊢
        exact le_trans hab hbd
      · rw [Bool.or_eq_true, Found.listedBefore_iff, Found.listedBefore_iff]
        exact le_total _ _
    exact hsorted.imp Found.listedBefore_iff.mp

theorem mem_documents_of_joined {f : Found} (h : f ∈ joined s e) : f.document ∈ s.documents := by
  unfold joined at h
  cases e with
  | none =>
      obtain ⟨d, hd, rfl⟩ := List.mem_map.mp h
      exact hd
  | some e =>
      obtain ⟨row, -, hrow⟩ := List.mem_flatMap.mp h
      obtain ⟨entry, -, hentry⟩ := List.mem_flatMap.mp hrow
      obtain ⟨d, hd, rfl⟩ := List.mem_map.mp hentry
      exact (List.mem_filter.mp hd).1

theorem findSeq?_of_schema (h : s.Schema) {d : Document} (hd : d ∈ s.documents) :
    s.findSeq? d.seq = some d := by
  have hmem : d ∈ s.documents.filter (·.seq = d.seq) := List.mem_filter.mpr ⟨hd, by simp⟩
  rw [filter_key h.seqs] at hmem
  exact Option.mem_toList.mp hmem

theorem IsListing.hits_eq (h : s.Schema) {full : List Found} (hfull : IsListing s c r q e full) :
    full.map Found.hit =
      (full.map (Found.key (r.effectiveSort c q))).filterMap fun k =>
        (s.findSeq? k.seq).map Hit.ofDocument := by
  rw [List.filterMap_map, ← List.filterMap_eq_map]
  refine List.filterMap_congr fun f hf => ?_
  have hjoined : f ∈ joined s e := (List.mem_filter.mp (hfull.rows.mem_iff.mp hf)).1
  simp [Found.seq_key, findSeq?_of_schema h (mem_documents_of_joined hjoined), Found.hit]

/-- All listings of a search show the same. -/
theorem IsListing.unique (h : s.Schema) {full other : List Found}
    (hfull : IsListing s c r q e full) (hother : IsListing s c r q e other) :
    full.map Found.hit = other.map Found.hit := by
  have hkeys : full.map (Found.key (r.effectiveSort c q)) =
      other.map (Found.key (r.effectiveSort c q)) := by
    refine List.Perm.eq_of_pairwise (fun a b _ _ hab hba => le_antisymm hab hba)
      (List.pairwise_map.mpr hfull.order) (List.pairwise_map.mpr hother.order) ?_
    exact (hfull.rows.trans hother.rows.symm).map _
  rw [hfull.hits_eq h, hother.hits_eq h, hkeys]

theorem mem_entriesOf_of_documentOf? {entry : Nat} {d : Document}
    (h : documentOf? s entry = some d) : entry ∈ s.entriesOf d.seq ∧ d ∈ s.documents := by
  unfold documentOf? at h
  cases hentry : s.entries.find? (·.id = entry) with
  | none => simp [hentry] at h
  | some row =>
      have hfind : s.findSeq? row.docSeq = some d := by simpa [hentry] using h
      have hseq : d.seq = row.docSeq := by simpa using List.find?_some hfind
      have hid : row.id = entry := by simpa using List.find?_some hentry
      refine ⟨Store.mem_entriesOf.mpr ?_, List.mem_of_find?_eq_some hfind⟩
      rw [hseq, ← hid]
      exact List.mem_of_find?_eq_some hentry

/-- A document without a second entry has at most one row. -/
theorem nodup_joined (h : s.Schema) (e : Option Expression)
    (hsingle : ∀ d ∈ s.documents, (s.entriesOf d.seq).length ≤ 1) :
    ((joined s e).map (·.document.seq)).Nodup := by
  rw [joined_eq h]
  cases e with
  | none =>
      have hseqs : (everything s none).map (·.document.seq) = s.documents.map (·.seq) := by
        simp [everything, Function.comp_def]
      exact hseqs ▸ h.seqs
  | some e =>
      have hrows : s.index.rows.Pairwise fun a b => a.id ≠ b.id := List.pairwise_map.mp h.rows
      refine List.pairwise_map.mpr (List.pairwise_filterMap.mpr ((hrows.filter _).imp ?_))
      intro a b hne found hfound other hother hseq
      obtain ⟨d, hd, rfl⟩ := Option.map_eq_some_iff.mp hfound
      obtain ⟨d', hd', rfl⟩ := Option.map_eq_some_iff.mp hother
      obtain ⟨hfirst, hdocument⟩ := mem_entriesOf_of_documentOf? hd
      obtain ⟨hsecond, -⟩ := mem_entriesOf_of_documentOf? hd'
      rw [← show d.seq = d'.seq from hseq] at hsecond
      have hlength := hsingle d hdocument
      cases hentries : s.entriesOf d.seq with
      | nil => simp [hentries] at hfirst
      | cons entry rest =>
          have hnone : rest = [] := by simpa [hentries] using hlength
          rw [hentries, hnone, List.mem_singleton] at hfirst hsecond
          exact hne (hfirst.trans hsecond.symm)

theorem IsListing.nodup (h : s.Schema) {full : List Found} (hfull : IsListing s c r q e full)
    (hsingle : ∀ d ∈ s.documents, (s.entriesOf d.seq).length ≤ 1) :
    (full.map (·.hit.id)).Nodup := by
  have hmem {f : Found} (hf : f ∈ full) : f.document ∈ s.documents :=
    mem_documents_of_joined (List.mem_filter.mp (hfull.rows.mem_iff.mp hf)).1
  have hseqs : (full.map (·.document.seq)).Nodup := by
    rw [(hfull.rows.map _).nodup_iff]
    exact (nodup_joined h e hsingle).sublist (List.filter_sublist.map _)
  refine List.pairwise_map.mpr ((List.pairwise_map.mp hseqs).imp_of_mem ?_)
  intro a b ha hb hne hid
  have hsame : a.document = b.document := List.inj_on_of_nodup_map h.ids (hmem ha) (hmem hb) hid
  exact hne (congrArg Document.seq hsame)

end Search

end MailIndex
