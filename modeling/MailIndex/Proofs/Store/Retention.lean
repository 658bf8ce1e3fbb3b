import MailIndex.Proofs.Store.Keys
import MailIndex.Proofs.Store.Recording

/-!
# What recording keeps

Documents are recorded in any order, and as often as one likes. Every identifier keeps its one row
and the number of that row; each column that records are about holds the last value that was given
for it. What indexing has written stays, and so does everything else in the store.
-/

namespace MailIndex

/-! ## Values -/

inductive Record.Column where
  | contentHash
  | account
  | eventDate
  | sourcePath
  deriving DecidableEq, Repr

def Record.value (r : Record) : Record.Column → Option Text
  | .contentHash => r.contentHash
  | .account => r.account
  | .eventDate => r.eventDate
  | .sourcePath => r.sourcePath

/-- The last value that some records give to a column of a document. -/
def lastGiven (records : List Record) (id : Text) (column : Record.Column) : Option Text :=
  ((records.filter (·.id = id)).filterMap (·.value column)).getLast?

theorem lastGiven_cons_self (r : Record) (records : List Record) :
    lastGiven (r :: records) r.id =
      fun column => (lastGiven records r.id column).or (r.value column) := by
  funext column
  unfold lastGiven
  rw [List.filter_cons_of_pos (by simp), List.filterMap_cons]
  cases r.value column with
  | none => rw [Option.or_none]
  | some value => rw [List.getLast?_cons, Option.or_some]

theorem lastGiven_cons_of_ne {r : Record} {id : Text} (h : r.id ≠ id) (records : List Record) :
    lastGiven (r :: records) id = lastGiven records id := by
  funext column
  unfold lastGiven
  rw [List.filter_cons_of_neg (by simpa using h)]

namespace Document

def unknown (seq : Nat) (id : Text) : Document := ⟨seq, id, none, none, none, none, none, none, none⟩

/-- The document with the values that are given; the other columns stay as they are. -/
def filled (d : Document) (given : Record.Column → Option Text) : Document :=
  { d with
    contentHash := (given .contentHash).or d.contentHash
    account := (given .account).or d.account
    eventDate := (given .eventDate).or d.eventDate
    sourcePath := (given .sourcePath).or d.sourcePath }

theorem filled_none (d : Document) : d.filled (fun _ => none) = d := by
  simp only [filled, Option.none_or]

theorem filled_filled (d : Document) (first second : Record.Column → Option Text) :
    (d.filled first).filled second = d.filled fun column => (second column).or (first column) := by
  simp only [filled, Option.or_assoc]

theorem updated_eq_filled (d : Document) (r : Record) : d.updated r = d.filled r.value := by
  simp only [updated, filled, Record.value, Option.orElse_eq_orElse, Option.orElse_eq_or]

theorem ofRecord_eq_filled (seq : Nat) (r : Record) :
    ofRecord seq r = (unknown seq r.id).filled r.value := by
  simp only [ofRecord, unknown, filled, Record.value, Option.or_none]

theorem keeps_foldl_noting {α : Type} {f : Document → α} (h : ∀ d r, f (updated d r) = f d)
    (records : List Record) (d : Document) : f (records.foldl noting d) = f d := by
  induction records generalizing d with
  | nil => rfl
  | cons r records ih =>
      rw [List.foldl_cons, ih, noting]
      split
      · exact h d r
      · rfl

theorem seq_foldl_noting (records : List Record) (d : Document) :
    (records.foldl noting d).seq = d.seq :=
  keeps_foldl_noting (f := Document.seq) (fun _ _ => rfl) records d

theorem indexedHash_foldl_noting (records : List Record) (d : Document) :
    (records.foldl noting d).indexedHash = d.indexedHash :=
  keeps_foldl_noting (f := Document.indexedHash) (fun _ _ => rfl) records d

/-- What one more record gives is the value, unless a later one gives another. -/
theorem filled_noting (d : Document) (r : Record) (records : List Record) :
    (d.noting r).filled (lastGiven records d.id) = d.filled (lastGiven (r :: records) d.id) := by
  by_cases h : d.id = r.id
  · rw [noting, if_pos h, updated_eq_filled, filled_filled, h, lastGiven_cons_self]
  · rw [noting_of_ne h, lastGiven_cons_of_ne (Ne.symm h)]

theorem isStale_iff {d : Document} :
    d.isStale = true ↔ d.indexedHash = none ∨ d.contentHash ≠ d.indexedHash := by
  rw [isStale_eq, isFresh]
  cases hindexed : d.indexedHash with
  | none => cases d.contentHash <;> simp
  | some indexed =>
      cases d.contentHash with
      | none => simp
      | some content => simp [eq_comm (a := content)]

end Document

/-! ## Rows -/

namespace Store

variable {s : Store}

theorem Keyed.recorded (h : s.Keyed) (records : List Record) : (s.recorded records).Keyed := by
  induction records generalizing s with
  | nil => exact h
  | cons r records ih => exact ih (h.upsert r)

theorem find?_upsert_of_some {id : Text} {d : Document} (h : s.find? id = some d) (r : Record) :
    (s.upsert r).1.find? id = some (d.noting r) := by
  rw [find?_upsert, h, Option.map_some, Option.some_or]

theorem find?_upsert_of_ne {r : Record} {id : Text} (h : s.find? id = none) (hne : r.id ≠ id) :
    (s.upsert r).1.find? id = none := by
  rw [find?_upsert, h, Option.map_none, Option.none_or, added]
  split
  · rfl
  · simpa [Document.ofRecord] using hne

theorem find?_upsert_of_none {r : Record} (h : s.find? r.id = none) :
    (s.upsert r).1.find? r.id = some (.ofRecord (s.lastSeq + 1) r) := by
  rw [find?_upsert, h, added_of_unknown h]
  simp [Document.ofRecord]

theorem exists_find?_upsert (s : Store) (r : Record) :
    ∃ d, (s.upsert r).1.find? r.id = some d ∧ d.seq = (s.upsert r).2 := by
  cases hfind : s.find? r.id with
  | some d =>
      refine ⟨d.noting r, find?_upsert_of_some hfind r, ?_⟩
      rw [upsert, hfind]
      exact Document.seq_foldl_noting [r] d
  | none =>
      refine ⟨_, find?_upsert_of_none hfind, ?_⟩
      rw [upsert, hfind]
      rfl

theorem find?_recorded {id : Text} {d : Document} (h : s.find? id = some d)
    (records : List Record) :
    (s.recorded records).find? id = some (records.foldl Document.noting d) := by
  induction records generalizing s d with
  | nil => exact h
  | cons r records ih => exact ih (find?_upsert_of_some h r)

def rowOr (s : Store) (seq : Nat) (id : Text) : Document := (s.find? id).getD (.unknown seq id)

theorem eq_filled_of_upsert {r : Record} {records : List Record} {e : Document}
    (h : e = ((s.upsert r).1.rowOr e.seq e.id).filled (lastGiven records e.id)) :
    e = (s.rowOr e.seq e.id).filled (lastGiven (r :: records) e.id) := by
  unfold rowOr at h ⊢
  cases hfind : s.find? e.id with
  | some d =>
      rw [find?_upsert_of_some hfind, ← id_of_find? hfind] at h
      rw [← id_of_find? hfind]
      exact h.trans (d.filled_noting r records)
  | none =>
      by_cases hid : r.id = e.id
      · rw [← hid] at hfind h ⊢
        rw [find?_upsert_of_none hfind, Option.getD_some, Document.ofRecord_eq_filled,
          Document.filled_filled, ← lastGiven_cons_self] at h
        -- a new row has the number that was given out for it
        have hseq : e.seq = s.lastSeq + 1 := congrArg Document.seq h
        rw [hseq]
        exact h
      · rw [find?_upsert_of_ne hfind hid] at h
        rw [lastGiven_cons_of_ne hid]
        exact h

/-- After any records each row holds the values that were given last, and otherwise what it held
before. -/
theorem Keyed.eq_filled (hs : s.Keyed) (records : List Record) {e : Document}
    (he : e ∈ (s.recorded records).documents) :
    e = (s.rowOr e.seq e.id).filled (lastGiven records e.id) := by
  induction records generalizing s with
  | nil =>
      have hfind : s.find? e.id = some e := hs.toIdentified.find? he
      rw [rowOr, hfind]
      exact e.filled_none.symm
  | cons r records ih => exact eq_filled_of_upsert (ih (hs.upsert r) he)

theorem filter_upsert (s : Store) {r : Record} {p : Text → Bool} (h : p r.id = false) :
    (s.upsert r).1.documents.filter (p ·.id) = s.documents.filter (p ·.id) := by
  have hadded : (s.added r).filter (p ·.id) = [] := by
    unfold added
    split
    · rfl
    · simp [Document.ofRecord, h]
  have hkept : ∀ d ∈ s.documents.filter (p ·.id), d.noting r = d := by
    intro d hd
    refine Document.noting_of_ne fun hid => ?_
    have hp : p d.id = true := by simpa using (List.mem_filter.mp hd).2
    rw [hid, h] at hp
    cases hp
  have hids : (p ·.id) ∘ (Document.noting · r) = (p ·.id) := by
    funext d
    simp
  rw [fst_upsert, List.filter_append, hadded, List.append_nil, List.filter_map, hids]
  exact (List.map_congr_left hkept).trans (List.map_id _)

theorem filter_recorded (s : Store) {records : List Record} {p : Text → Bool}
    (h : ∀ r ∈ records, p r.id = false) :
    (s.recorded records).documents.filter (p ·.id) = s.documents.filter (p ·.id) := by
  induction records generalizing s with
  | nil => rfl
  | cons r records ih =>
      obtain ⟨hr, hrecords⟩ := List.forall_mem_cons.mp h
      rw [recorded_cons, ih _ hrecords, filter_upsert s hr]

/-! ## Calls -/

/-- The numbers that recording gives, record by record. -/
def numbersGiven (s : Store) : List Record → List Nat
  | [] => []
  | r :: records => (s.upsert r).2 :: (s.upsert r).1.numbersGiven records

theorem numbersGiven_told (s : Store) (records : List Record) :
    List.Forall₂ (fun r number => ∃ e, (s.recorded records).find? r.id = some e ∧ e.seq = number)
      records (s.numbersGiven records) := by
  induction records generalizing s with
  | nil => exact .nil
  | cons r records ih =>
      obtain ⟨d, hfind, hseq⟩ := exists_find?_upsert s r
      refine .cons ⟨_, find?_recorded hfind records, ?_⟩ (ih (s.upsert r).1)
      rw [Document.seq_foldl_noting, hseq]

end Store

namespace Statement

/-- Statements one after the other, whatever becomes of each: their results, and the store after
them. -/
def inTurn {α : Type} : List (Statement α) → Store → List (Except Failure α) × Store
  | [], s => ([], s)
  | statement :: statements, s =>
    let (result, s) := statement s
    let (results, s) := inTurn statements s
    (result :: results, s)

theorem upsert_of_present {s : Store} (h : .documents ∉ s.missing) (r : Record) :
    upsert r s = (.ok (s.upsert r).2, (s.upsert r).1) := by
  rw [upsert, write, Store.needing_of_present h]

theorem upsert_of_absent {s : Store} (h : .documents ∈ s.missing) (r : Record) :
    upsert r s = (.error (.noTable .documents), s) := by
  rw [upsert, write, Store.needing_of_absent h]

theorem inTurn_upsert_of_present {s : Store} (h : .documents ∉ s.missing) (records : List Record) :
    inTurn (records.map upsert) s = ((s.numbersGiven records).map .ok, s.recorded records) := by
  induction records generalizing s with
  | nil => rfl
  | cons r records ih =>
      have hstill : .documents ∉ (s.upsert r).1.missing := by rwa [Store.fst_upsert]
      rw [List.map_cons, inTurn, upsert_of_present h]
      dsimp only
      rw [ih hstill]
      rfl

theorem inTurn_upsert_of_absent {s : Store} (h : .documents ∈ s.missing) (records : List Record) :
    inTurn (records.map upsert) s = (records.map fun _ => .error (.noTable .documents), s) := by
  induction records with
  | nil => rfl
  | cons r records ih =>
      rw [List.map_cons, inTurn, upsert_of_absent h]
      dsimp only
      rw [ih]
      rfl

end Statement

/-- What is left of a store and what is new in it after some records, `numbers` being the results
of the calls. -/
structure Store.Retains (s : Store) (records : List Record) (numbers : List Nat) (t : Store) :
    Prop where
  /-- No two rows have an identifier or a number in common. -/
  identified : t.Identified
  known : ∀ d ∈ s.documents, ∃ e, t.find? d.id = some e ∧ e.seq = d.seq
  told : List.Forall₂ (fun r number => ∃ e, t.find? r.id = some e ∧ e.seq = number) records numbers
  /-- Each value is the last one given, or what it was; the other columns are what they were. -/
  rows : ∀ e ∈ t.documents, e = (s.rowOr e.seq e.id).filled (lastGiven records e.id)
  others : t.documents.filter (·.id ∉ records.map (·.id)) =
    s.documents.filter (·.id ∉ records.map (·.id))
  rest : t = { s with documents := t.documents, lastSeq := s.lastSeq + records.length }
  stale : ∀ e ∈ t.documents, e.isStale = true ↔ e.indexedHash = none ∨ e.contentHash ≠ e.indexedHash
  /-- A document that was fresh becomes stale exactly if its hash ends up as another than the one
  that it was indexed under. -/
  becomesStale : ∀ d ∈ s.documents, d.isStale = false → ∀ e, t.find? d.id = some e →
    (e.isStale = true ↔ e.contentHash ≠ d.indexedHash)

/-- Recording keeps the last value given and the identity of every document: calls for any
documents in any order all succeed if the table is there, and otherwise none does and nothing
changes. -/
theorem upserts_retain {s : Store} (hs : s.Keyed) (records : List Record) :
    (.documents ∉ s.missing → ∃ numbers t,
        Statement.inTurn (records.map Statement.upsert) s = (numbers.map .ok, t) ∧
          s.Retains records numbers t) ∧
      (.documents ∈ s.missing → Statement.inTurn (records.map Statement.upsert) s =
        (records.map fun _ => .error (.noTable .documents), s)) := by
  refine ⟨fun hpresent => ?_, fun habsent => Statement.inTurn_upsert_of_absent habsent records⟩
  refine ⟨_, _, Statement.inTurn_upsert_of_present hpresent records, ?_⟩
  have hrow {d : Document} (hd : d ∈ s.documents) :
      (s.recorded records).find? d.id = some (records.foldl Document.noting d) :=
    Store.find?_recorded (hs.toIdentified.find? hd) records
  refine {
    identified := (hs.recorded records).toIdentified
    known := fun d hd => ⟨_, hrow hd, Document.seq_foldl_noting records d⟩
    told := s.numbersGiven_told records
    rows := fun e he => hs.eq_filled records he
    others := ?_
    rest := s.recorded_eq records
    stale := fun _ _ => Document.isStale_iff
    becomesStale := ?_ }
  · have hmentioned : ∀ r ∈ records, decide (r.id ∉ records.map (·.id)) = false := by
      intro r hr
      simpa using ⟨r, hr, rfl⟩
    exact s.filter_recorded (p := fun id => decide (id ∉ records.map (·.id))) hmentioned
  · intro d hd hfresh e hfind
    rw [hrow hd, Option.some.injEq] at hfind
    have hsame : e.indexedHash = d.indexedHash := by
      rw [← hfind, Document.indexedHash_foldl_noting]
    have hindexed : d.indexedHash ≠ none := by
      intro hnone
      rw [Document.isStale_iff.mpr (.inl hnone)] at hfresh
      cases hfresh
    rw [Document.isStale_iff, hsame]
    exact or_iff_right hindexed

/-- A document that was fresh is recorded twice, with a new one in between that is recorded twice
as well; a third one stays as it is. -/
theorem upserts_retain_of_mixed_calls :
    let a : Document := ⟨2, ['a'], some ['m'], none, some ['h'], some ['h'], none, none, some 7⟩
    let b : Document := ⟨4, ['b'], none, none, none, some ['h'], none, none, some 7⟩
    let s : Store := ⟨[a, b], 5, [⟨1, 2⟩, ⟨2, 4⟩], 2, .empty, []⟩
    let records : List Record :=
      [⟨['a'], none, none, some ['d'], none⟩, ⟨['c'], some ['i'], none, none, some ['p']⟩,
        ⟨['a'], some ['k'], none, none, none⟩, ⟨['c'], none, some ['n'], none, some ['q']⟩]
    ∃ t, Statement.inTurn (records.map Statement.upsert) s = ([.ok 2, .ok 7, .ok 2, .ok 7], t) ∧
      s.Retains records [2, 7, 2, 7] t ∧
      t.documents =
        [{ a with contentHash := some ['k'], eventDate := some ['d'] }, b,
          ⟨7, ['c'], some ['n'], some ['q'], some ['i'], none, none, none, none⟩] := by
  intro a b s records
  have hs : s.Keyed := ⟨⟨by decide, by decide⟩, ⟨by decide, by decide⟩, by decide⟩
  obtain ⟨numbers, t, hrun, hretains⟩ := (upserts_retain hs records).1 (by decide)
  have hconcrete : Statement.inTurn (records.map Statement.upsert) s =
      ([2, 7, 2, 7].map .ok, s.recorded records) := rfl
  rw [hconcrete, Prod.mk.injEq] at hrun
  have hok : Function.Injective (Except.ok : Nat → Except Failure Nat) := fun _ _ => Except.ok.inj
  obtain rfl := hok.list_map hrun.1
  obtain rfl := hrun.2
  exact ⟨_, hconcrete, hretains, by decide⟩

end MailIndex
