import MailIndex.Store.Basic

/-!
# Recording again

A record gives a document the values that it holds, and leaves it the others. So records that have
been given once change nothing when they are given a second time in the same order: what one of them
overwrites, a later one writes again.
-/

namespace MailIndex

/-! ## One document -/

namespace Document

@[simp] theorem id_updated (d : Document) (r : Record) : (d.updated r).id = d.id := rfl

theorem orElse_self {α : Type} (a : Option α) : (a <|> a) = a := by
  cases a <;> rfl

theorem orElse_orElse_self {α : Type} (a b : Option α) : (a <|> (a <|> b)) = (a <|> b) := by
  cases a <;> rfl

theorem orElse_orElse_orElse {α : Type} (a b c : Option α) :
    (a <|> (b <|> (a <|> c))) = (a <|> (b <|> c)) := by
  cases a <;> rfl

theorem updated_ofRecord (seq : Nat) (r : Record) :
    (ofRecord seq r).updated r = ofRecord seq r := by
  simp only [updated, ofRecord, orElse_self]

theorem updated_updated (d : Document) (r : Record) : (d.updated r).updated r = d.updated r := by
  simp only [updated, orElse_orElse_self]

theorem updated_updated_updated (d : Document) (r q : Record) :
    ((d.updated r).updated q).updated r = (d.updated q).updated r := by
  simp only [updated, orElse_orElse_orElse]

/-- What a record makes of a document. One of another document leaves it as it is. -/
def noting (d : Document) (r : Record) : Document := if d.id = r.id then d.updated r else d

@[simp] theorem id_noting (d : Document) (r : Record) : (d.noting r).id = d.id := by
  unfold noting
  split <;> rfl

theorem noting_of_ne {d : Document} {r : Record} (h : d.id ≠ r.id) : d.noting r = d := if_neg h

theorem noting_ofRecord (seq : Nat) (r : Record) : (ofRecord seq r).noting r = ofRecord seq r := by
  unfold noting
  rw [updated_ofRecord, ite_self]

theorem noting_noting (d : Document) (r : Record) : (d.noting r).noting r = d.noting r := by
  by_cases h : d.id = r.id
  · simp only [noting, id_updated, if_pos h, updated_updated]
  · rw [noting_of_ne h, noting_of_ne h]

/-- A record that comes a second time has the last word, and the first time does not matter. -/
theorem noting_noting_noting (d : Document) (r q : Record) :
    ((d.noting r).noting q).noting r = (d.noting q).noting r := by
  by_cases hr : d.id = r.id
  · by_cases hq : d.id = q.id
    · simp only [noting, id_updated, if_pos hr, if_pos hq, updated_updated_updated]
    · simp only [noting, id_updated, if_pos hr, if_neg hq, updated_updated]
  · rw [noting_of_ne hr]

/-- The same with any records in between, on which the induction is. -/
theorem foldl_noting_noting (records : List Record) (d : Document) (r : Record) :
    (records.foldl noting (d.noting r)).noting r = (records.foldl noting d).noting r := by
  induction records generalizing d with
  | nil => exact noting_noting d r
  | cons q records ih =>
      calc (records.foldl noting ((d.noting r).noting q)).noting r
          = (records.foldl noting (((d.noting r).noting q).noting r)).noting r := (ih _).symm
        _ = (records.foldl noting ((d.noting q).noting r)).noting r := by
            rw [noting_noting_noting]
        _ = (records.foldl noting (d.noting q)).noting r := ih _

theorem contentHash_noting {d : Document} {r : Record} (h : d.id = r.id)
    (hhash : r.contentHash.isSome = true) : (d.noting r).contentHash = r.contentHash := by
  obtain ⟨hash, hhash⟩ := Option.isSome_iff_exists.mp hhash
  rw [noting, if_pos h, updated, hhash]
  rfl

theorem foldl_noting_of_ne {records : List Record} {d : Document}
    (h : ∀ r ∈ records, d.id ≠ r.id) : records.foldl noting d = d := by
  induction records with
  | nil => rfl
  | cons r records ih =>
      rw [List.foldl_cons, noting_of_ne (h r List.mem_cons_self)]
      exact ih fun q hq => h q (List.mem_cons_of_mem _ hq)

end Document

/-! ## The store -/

namespace Store

def added (s : Store) (r : Record) : List Document :=
  if (s.find? r.id).isSome then [] else [Document.ofRecord (s.lastSeq + 1) r]

theorem added_of_known {s : Store} {r : Record} (h : (s.find? r.id).isSome = true) :
    s.added r = [] := if_pos h

theorem added_of_unknown {s : Store} {r : Record} (h : s.find? r.id = none) :
    s.added r = [Document.ofRecord (s.lastSeq + 1) r] := by
  rw [added, h]
  rfl

theorem id_of_find? {s : Store} {id : Text} {d : Document} (h : s.find? id = some d) :
    d.id = id := by
  simpa using List.find?_some h

theorem fst_upsert (s : Store) (r : Record) :
    (s.upsert r).1 = { s with
      documents := s.documents.map (·.noting r) ++ s.added r
      lastSeq := s.lastSeq + 1 } := by
  unfold upsert
  cases hfind : s.find? r.id with
  | some d =>
      rw [added_of_known (by rw [hfind]; rfl), List.append_nil]
      simp only [change, Document.noting, decide_eq_true_eq]
  | none =>
      have hsame : s.documents.map (·.noting r) = s.documents := by
        refine (List.map_congr_left fun d hd => ?_).trans (List.map_id _)
        have hother := List.find?_eq_none.mp hfind d hd
        exact Document.noting_of_ne (by simpa using hother)
      rw [added_of_unknown hfind, hsame]

theorem find?_upsert (s : Store) (r : Record) (id : Text) :
    (s.upsert r).1.find? id =
      ((s.find? id).map (·.noting r)).or ((s.added r).find? (·.id = id)) := by
  have hids : (fun d => decide (d.id = id)) ∘ (fun d => Document.noting d r) =
      fun d => decide (d.id = id) := by
    funext d
    simp only [Function.comp_apply, Document.id_noting]
  rw [fst_upsert, find?, find?, List.find?_append, List.find?_map, hids]

def recorded (s : Store) (records : List Record) : Store :=
  records.foldl (fun s r => (s.upsert r).1) s

@[simp] theorem recorded_cons (s : Store) (r : Record) (records : List Record) :
    s.recorded (r :: records) = (s.upsert r).1.recorded records := rfl

def lastHash (records : List Record) (id : Text) : Option Text :=
  (records.reverse.find? (·.id = id)).bind (·.contentHash)

theorem lastHash_append_self (records : List Record) (r : Record) :
    lastHash (records ++ [r]) r.id = r.contentHash := by
  simp [lastHash]

theorem lastHash_append_of_ne (records : List Record) {r : Record} {id : Text} (h : r.id ≠ id) :
    lastHash (records ++ [r]) id = lastHash records id := by
  simp [lastHash, h]

/-- The store holds what some records say: it has the content hash that was given last, and giving
it all of them again makes nothing else of its documents. -/
structure Settled (records : List Record) (s : Store) : Prop where
  known : ∀ r ∈ records, ∃ d, s.find? r.id = some d ∧ d.contentHash = lastHash records r.id
  told : ∀ d ∈ s.documents, records.foldl Document.noting d = d

theorem settled_nil (s : Store) : s.Settled [] :=
  ⟨fun _ hr => (nomatch hr), fun _ _ => rfl⟩

variable {records : List Record} {s : Store}

theorem Settled.isSome_find? (h : s.Settled records) {r : Record} (hr : r ∈ records) :
    (s.find? r.id).isSome = true := by
  obtain ⟨d, hd, -⟩ := h.known r hr
  rw [hd]
  rfl

theorem Settled.known_upsert (h : s.Settled records) {r : Record}
    (hhash : r.contentHash.isSome = true) {q : Record} (hq : q ∈ records ++ [r]) :
    ∃ d, (s.upsert r).1.find? q.id = some d ∧ d.contentHash = lastHash (records ++ [r]) q.id := by
  by_cases hid : r.id = q.id
  · rw [← hid, lastHash_append_self, find?_upsert]
    cases hfind : s.find? r.id with
    | some d =>
        exact ⟨d.noting r, rfl, Document.contentHash_noting (id_of_find? hfind) hhash⟩
    | none =>
        refine ⟨Document.ofRecord (s.lastSeq + 1) r, ?_, rfl⟩
        simp [added_of_unknown hfind, Document.ofRecord]
  · have hold : q ∈ records := by
      rcases List.mem_append.mp hq with hq | hq
      · exact hq
      · exact absurd (by rw [List.mem_singleton.mp hq]) hid
    obtain ⟨d, hfind, hd⟩ := h.known q hold
    refine ⟨d, ?_, by rw [hd, lastHash_append_of_ne _ hid]⟩
    have hne : d.id ≠ r.id := fun hsame => hid (hsame.symm.trans (id_of_find? hfind))
    rw [find?_upsert, hfind, Option.map_some, Document.noting_of_ne hne, Option.some_or]

theorem Settled.upsert (h : s.Settled records) {r : Record}
    (hhash : r.contentHash.isSome = true) : (s.upsert r).1.Settled (records ++ [r]) where
  known _ hq := h.known_upsert hhash hq
  told d hd := by
    rw [fst_upsert] at hd
    rw [List.foldl_append, List.foldl_cons, List.foldl_nil]
    rcases List.mem_append.mp hd with hd | hd
    · obtain ⟨old, hold, rfl⟩ := List.mem_map.mp hd
      rw [Document.foldl_noting_noting, h.told old hold]
    · -- a record that makes a document is the first one of it
      cases hfind : s.find? r.id with
      | some known => simp [added, hfind] at hd
      | none =>
          rw [added_of_unknown hfind, List.mem_singleton] at hd
          have hothers : ∀ q ∈ records, d.id ≠ q.id := by
            intro q hq hid
            have hknown := h.isSome_find? hq
            rw [← hid, hd, show (Document.ofRecord (s.lastSeq + 1) r).id = r.id from rfl, hfind]
              at hknown
            cases hknown
          rw [Document.foldl_noting_of_ne hothers, hd, Document.noting_ofRecord]

theorem Settled.recorded (h : s.Settled records) {more : List Record}
    (hhash : ∀ r ∈ more, r.contentHash.isSome = true) :
    (s.recorded more).Settled (records ++ more) := by
  induction more generalizing s records with
  | nil => rwa [List.append_nil]
  | cons r more ih =>
      have hstep := h.upsert (hhash r List.mem_cons_self)
      have hrest := ih hstep fun q hq => hhash q (List.mem_cons_of_mem _ hq)
      rwa [List.append_assoc, List.singleton_append] at hrest

theorem documents_recorded (h : ∀ r ∈ records, (s.find? r.id).isSome = true) :
    (s.recorded records).documents = s.documents.map (records.foldl Document.noting) := by
  induction records generalizing s with
  | nil => exact (List.map_id _).symm
  | cons r records ih =>
      have hdocuments : (s.upsert r).1.documents = s.documents.map (·.noting r) := by
        rw [fst_upsert, added_of_known (h r List.mem_cons_self), List.append_nil]
      have hknown : ∀ q ∈ records, ((s.upsert r).1.find? q.id).isSome = true := by
        intro q hq
        have hold := h q (List.mem_cons_of_mem _ hq)
        simp [find?_upsert, hold]
      rw [recorded_cons, ih hknown, hdocuments, List.map_map]
      rfl

theorem recorded_eq (s : Store) (records : List Record) :
    s.recorded records = { s with
      documents := (s.recorded records).documents
      lastSeq := s.lastSeq + records.length } := by
  induction records generalizing s with
  | nil => rfl
  | cons r records ih =>
      rw [recorded_cons, ih, fst_upsert, List.length_cons, Nat.add_right_comm, Nat.add_assoc]

theorem Settled.documents_again (h : s.Settled records) :
    (s.recorded records).documents = s.documents := by
  rw [documents_recorded fun r hr => h.isSome_find? hr]
  exact (List.map_congr_left fun d hd => h.told d hd).trans (List.map_id _)

/-! ### Records that overturn earlier ones -/

/-- How many of some records do not give the hash that was given last. -/
def overturned : List Record → List Record → Nat
  | _, [] => 0
  | before, r :: rest =>
    (if lastHash before r.id = r.contentHash then 0 else 1) + overturned (before ++ [r]) rest

/-- A record that gives the hash that was given last does not change it for the others. -/
theorem lastHash_append_same {before : List Record} {r : Record}
    (h : lastHash before r.id = r.contentHash) (id : Text) :
    lastHash (before ++ [r]) id = lastHash before id := by
  by_cases hid : r.id = id
  · rw [← hid, lastHash_append_self, h]
  · exact lastHash_append_of_ne before hid

theorem overturned_eq_zero {before rest : List Record} :
    overturned before rest = 0 ↔ ∀ r ∈ rest, lastHash before r.id = r.contentHash := by
  induction rest generalizing before with
  | nil => exact ⟨fun _ _ hr => (nomatch hr), fun _ => rfl⟩
  | cons r rest ih =>
      rw [overturned, List.forall_mem_cons]
      by_cases h : lastHash before r.id = r.contentHash
      · rw [if_pos h, Nat.zero_add, ih]
        simp only [lastHash_append_same h, h, true_and]
      · rw [if_neg h]
        exact ⟨fun hsum => by omega, fun hall => absurd hall.1 h⟩

theorem lastHash_of_mem {records : List Record} {id : Text} (h : ∃ r ∈ records, r.id = id) :
    ∃ r ∈ records, r.id = id ∧ lastHash records id = r.contentHash := by
  unfold lastHash
  cases hfind : records.reverse.find? (·.id = id) with
  | none =>
      obtain ⟨r, hr, hid⟩ := h
      have hother := List.find?_eq_none.mp hfind r (List.mem_reverse.mpr hr)
      simp [hid] at hother
  | some r =>
      have hid : r.id = id := by simpa using List.find?_some hfind
      exact ⟨r, List.mem_reverse.mp (List.mem_of_find?_eq_some hfind), hid, rfl⟩

/-- Nothing is overturned by the same records exactly if those of one document agree. -/
theorem overturned_self_eq_zero {records : List Record} :
    overturned records records = 0 ↔
      ∀ r ∈ records, ∀ q ∈ records, r.id = q.id → r.contentHash = q.contentHash := by
  rw [overturned_eq_zero]
  constructor
  · intro h r hr q hq hid
    rw [← h r hr, ← h q hq, hid]
  · intro h r hr
    obtain ⟨q, hq, hid, hlast⟩ := lastHash_of_mem ⟨r, hr, rfl⟩
    rw [hlast, h q hq r hr hid]

end Store

end MailIndex
