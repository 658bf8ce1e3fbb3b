import MailIndex.Ingest.Basic
import MailIndex.Proofs.Reindex.Writes
import MailIndex.Proofs.Store.Recording

/-!
# Ingesting again

What an ingestion does to the store is what the records of its files do, one after the other, and
its summary counts each of them under what the store knew when it came. So the same files, ingested
a second time, change no document. They are all counted as unchanged as long as files of one
document agree; where they do not, each of them overturns the one before, the second time as well.
-/

namespace MailIndex.Ingest

open Store

/-! ## The records of the files -/

def record? (f : ScannedFile) : Option Record := (Envelope.ofBytes? f.bytes).map (recordOf · f)

def records (files : List ScannedFile) : List Record := files.filterMap record?

def strays (files : List ScannedFile) : List ScannedFile :=
  files.filter fun f => (Envelope.ofBytes? f.bytes).isNone

variable {f : ScannedFile} {files : List ScannedFile} {r : Record} {s : Store}

theorem cons_stray (h : record? f = none) (files : List ScannedFile) :
    records (f :: files) = records files ∧ strays (f :: files) = f :: strays files := by
  have hparsed : Envelope.ofBytes? f.bytes = none := Option.map_eq_none_iff.mp h
  exact ⟨List.filterMap_cons_none h, List.filter_cons_of_pos (by rw [hparsed]; rfl)⟩

theorem cons_record (h : record? f = some r) (files : List ScannedFile) :
    records (f :: files) = r :: records files ∧ strays (f :: files) = strays files := by
  obtain ⟨e, hparsed, -⟩ := Option.map_eq_some_iff.mp h
  exact ⟨List.filterMap_cons_some h, List.filter_cons_of_neg (by simp [hparsed])⟩

theorem length_records_add_length_strays (files : List ScannedFile) :
    (records files).length + (strays files).length = files.length := by
  induction files with
  | nil => rfl
  | cons f files ih =>
      cases hf : record? f with
      | none =>
          obtain ⟨hrecords, hstrays⟩ := cons_stray hf files
          rw [hrecords, hstrays, List.length_cons, List.length_cons]
          omega
      | some r =>
          obtain ⟨hrecords, hstrays⟩ := cons_record hf files
          rw [hrecords, hstrays, List.length_cons, List.length_cons]
          omega

theorem isSome_contentHash (h : r ∈ records files) :
    r.contentHash.isSome = true := by
  obtain ⟨f, -, hf⟩ := List.mem_filterMap.mp h
  obtain ⟨e, -, rfl⟩ := Option.map_eq_some_iff.mp hf
  rfl

/-! ## The summary -/

@[simp] theorem scanned_count (summary : Summary) (known : Option Document) (hash : Option Text) :
    (summary.count known hash).scanned = summary.scanned := by
  unfold Summary.count
  split
  · rfl
  · split <;> rfl

theorem count_withInvalid (summary : Summary) (n : Nat) (known : Option Document)
    (hash : Option Text) :
    Summary.count { summary with invalid := n } known hash =
      { summary.count known hash with invalid := n } := by
  unfold Summary.count
  split
  · rfl
  · split <;> rfl

theorem invalid_count (summary : Summary) (known : Option Document) (hash : Option Text) :
    (summary.count known hash).invalid = summary.invalid := by
  have hsame := congrArg Summary.invalid (count_withInvalid summary summary.invalid known hash)
  exact hsame

theorem count_balance (summary : Summary) (known : Option Document) (hash : Option Text) :
    let counted := summary.count known hash
    counted.new = summary.new + (if known.isSome then 0 else 1) ∧
      counted.new + counted.changed + counted.unchanged =
        summary.new + summary.changed + summary.unchanged + 1 := by
  intro counted
  cases known with
  | none => exact ⟨rfl, by simp only [counted, Summary.count]; omega⟩
  | some d =>
      simp only [counted, Summary.count]
      split <;> exact ⟨rfl, by dsimp only; omega⟩

theorem changed_count_some (summary : Summary) (d : Document) (hash : Option Text) :
    (summary.count (some d) hash).changed =
      summary.changed + if d.contentHash = hash then 0 else 1 := by
  simp only [Summary.count]
  split <;> rfl

/-- The summary after some records, each counted under what the store knew when it came. -/
def counted : List Record → Summary → Store → Summary
  | [], summary, _ => summary
  | r :: rest, summary, s =>
    counted rest (summary.count (s.find? r.id) r.contentHash) (s.upsert r).1

@[simp] theorem scanned_counted (rs : List Record) (summary : Summary) (s : Store) :
    (counted rs summary s).scanned = summary.scanned := by
  induction rs generalizing summary s with
  | nil => rfl
  | cons r rs ih => rw [counted, ih, scanned_count]

theorem counted_withInvalid (rs : List Record) (summary : Summary) (n : Nat) (s : Store) :
    counted rs { summary with invalid := n } s =
      { counted rs summary s with invalid := n } := by
  induction rs generalizing summary s with
  | nil => rfl
  | cons r rs ih => rw [counted, count_withInvalid, ih, counted]

theorem counted_balance (rs : List Record) (summary : Summary) (s : Store) :
    (counted rs summary s).new + (counted rs summary s).changed +
        (counted rs summary s).unchanged =
      summary.new + summary.changed + summary.unchanged + rs.length := by
  induction rs generalizing summary s with
  | nil => rfl
  | cons r rs ih =>
      have hstep := (count_balance summary (s.find? r.id) r.contentHash).2
      rw [counted, ih, List.length_cons]
      omega

theorem length_added (s : Store) (r : Record) :
    (s.added r).length = if (s.find? r.id).isSome then 0 else 1 := by
  unfold added
  split <;> rfl

theorem counted_growth (rs : List Record) (summary : Summary) (s : Store) :
    (counted rs summary s).new + s.documents.length =
      summary.new + (s.recorded rs).documents.length := by
  induction rs generalizing summary s with
  | nil => rfl
  | cons r rs ih =>
      have hnew := (count_balance summary (s.find? r.id) r.contentHash).1
      have hlength : (s.upsert r).1.documents.length =
          s.documents.length + if (s.find? r.id).isSome then 0 else 1 := by
        rw [fst_upsert, List.length_append, List.length_map, length_added]
      have hrest := ih (summary.count (s.find? r.id) r.contentHash) (s.upsert r).1
      rw [counted, recorded_cons]
      omega

/-- Records that a store has been given before are none of them new, and those count as changed
that do not give the hash that was given last. -/
theorem counted_again {before rest : List Record} {s : Store} (h : s.Settled before)
    (hrest : ∀ r ∈ rest, r ∈ before ∧ r.contentHash.isSome = true) (summary : Summary) :
    (counted rest summary s).new = summary.new ∧
      (counted rest summary s).changed = summary.changed + overturned before rest := by
  induction rest generalizing before s summary with
  | nil => exact ⟨rfl, rfl⟩
  | cons r rest ih =>
      obtain ⟨hmem, hhash⟩ := hrest r List.mem_cons_self
      obtain ⟨d, hfind, hd⟩ := h.known r hmem
      have hlater : ∀ q ∈ rest, q ∈ before ++ [r] ∧ q.contentHash.isSome = true := by
        intro q hq
        obtain ⟨hold, hq⟩ := hrest q (List.mem_cons_of_mem _ hq)
        exact ⟨List.mem_append_left _ hold, hq⟩
      obtain ⟨hnew, hchanged⟩ :=
        ih (h.upsert hhash) hlater (summary.count (s.find? r.id) r.contentHash)
      rw [counted, hnew, hchanged, hfind, changed_count_some, overturned, hd, Nat.add_assoc]
      exact ⟨(count_balance summary (some d) r.contentHash).1, rfl⟩

/-! ## A run over the files -/

theorem ingestFile_stray (h : record? f = none) (summary : Summary) (s : Store) :
    ingestFile f summary s = (.ok { summary with invalid := summary.invalid + 1 }, s) := by
  have hparsed : Envelope.ofBytes? f.bytes = none := Option.map_eq_none_iff.mp h
  rw [ingestFile, hparsed]

theorem ingestFile_record (h : record? f = some r) (hpresent : .documents ∉ s.missing)
    (summary : Summary) :
    ingestFile f summary s =
      (.ok (summary.count (s.find? r.id) r.contentHash), (s.upsert r).1) := by
  obtain ⟨e, hparsed, rfl⟩ := Option.map_eq_some_iff.mp h
  simp only [ingestFile, hparsed, Statement.find, Statement.read, Statement.upsert,
    Statement.write, Store.needing_of_present hpresent]

theorem present_of_ingestFile_ok {s' : Store} {summary counted : Summary}
    (hrecord : record? f = some r) (h : ingestFile f summary s = (.ok counted, s')) :
    .documents ∉ s.missing := by
  obtain ⟨e, hparsed, rfl⟩ := Option.map_eq_some_iff.mp hrecord
  unfold ingestFile Statement.find Statement.read at h
  rw [hparsed] at h
  dsimp only at h
  cases hneeding : s.needing [.documents] (s.find? (recordOf e f).id) with
  | ok known => exact Reindex.not_mem_missing_of_needing_ok hneeding _ List.mem_cons_self
  | error failure =>
      rw [hneeding] at h
      cases h

theorem ingestFiles_eq (h : records files = [] ∨ .documents ∉ s.missing) (summary : Summary) :
    ingestFiles files summary s =
      (.ok { counted (records files) summary s with
          invalid := summary.invalid + (strays files).length },
        s.recorded (records files)) := by
  induction files generalizing summary s with
  | nil => rfl
  | cons f files ih =>
      cases hf : record? f with
      | none =>
          obtain ⟨hrecords, hstrays⟩ := cons_stray hf files
          rw [hrecords] at h ⊢
          rw [ingestFiles, ingestFile_stray hf]
          dsimp only
          rw [ih h, counted_withInvalid, hstrays, List.length_cons, Nat.add_assoc, Nat.add_comm 1]
      | some r =>
          obtain ⟨hrecords, hstrays⟩ := cons_record hf files
          have hpresent : .documents ∉ s.missing := by
            rcases h with h | h
            · rw [hrecords] at h
              cases h
            · exact h
          have hlater : .documents ∉ (s.upsert r).1.missing := by rwa [fst_upsert]
          rw [ingestFiles, ingestFile_record hf hpresent]
          dsimp only
          rw [ih (.inr hlater), hrecords, counted, recorded_cons, hstrays, invalid_count]

theorem recordable_of_ingestFiles_ok {s' : Store} {summary total : Summary}
    (h : ingestFiles files summary s = (.ok total, s')) :
    records files = [] ∨ .documents ∉ s.missing := by
  induction files generalizing summary with
  | nil => exact .inl rfl
  | cons f files ih =>
      cases hf : record? f with
      | none =>
          rw [ingestFiles, ingestFile_stray hf] at h
          rw [(cons_stray hf files).1]
          exact ih h
      | some r =>
          right
          cases hstep : ingestFile f summary s with
          | mk result s₁ =>
              cases result with
              | ok counted => exact present_of_ingestFile_ok hf hstep
              | error failure =>
                  rw [ingestFiles, hstep] at h
                  cases h

/-! ## The whole ingestion -/

def matching (t : FileTree) (base : Path) (c : SourceConfig) :
    Except ScanError (List ScannedFile) := do
  if !t.contains (Path.resolve base c.root) then throw (.missingRoot c.root)
  let included ← globs c.includeGlobs
  let excluded ← globs c.excludeGlobs
  let all := (t.below (Path.resolve base c.root)).map fun (p, bytes) =>
    (⟨relativeText p, bytes⟩ : ScannedFile)
  return all.filter fun f =>
    !Glob.anyMatches excluded f.relativePath && Glob.anyMatches included f.relativePath

theorem scan_eq (t : FileTree) (base : Path) (c : SourceConfig) :
    scan t base c = (matching t base c).map fun wanted =>
      wanted.mergeSort fun a b => Text.le a.relativePath b.relativePath := by
  unfold scan matching
  by_cases hroot : t.contains (Path.resolve base c.root) = true
  · simp only [hroot]
    cases globs c.includeGlobs with
    | error e => rfl
    | ok included =>
        cases globs c.excludeGlobs with
        | error e => rfl
        | ok excluded => rfl
  · simp only [hroot]
    rfl

theorem scan_of_sorted {t : FileTree} {base : Path} {c : SourceConfig}
    (h : matching t base c = .ok files)
    (hsorted : files.Pairwise fun a b => Text.le a.relativePath b.relativePath = true) :
    scan t base c = .ok files := by
  rw [scan_eq, h, Except.map, List.mergeSort_of_pairwise hsorted]

theorem mapError_eq_ok {result : Except Failure Summary} {summary : Summary} :
    result.mapError Error.storage = .ok summary ↔ result = .ok summary := by
  cases result <;> simp [Except.mapError]

theorem ingest_of_scan {t : FileTree} {base : Path} {c : SourceConfig}
    (h : scan t base c = .ok files) (s : Store) :
    ingest t base c s =
      ((ingestFiles files ⟨files.length, 0, 0, 0, 0⟩ s).1.mapError .storage,
        (ingestFiles files ⟨files.length, 0, 0, 0, 0⟩ s).2) := by
  rw [ingest, h]

theorem ingest_ok {t : FileTree} {base : Path} {c : SourceConfig} {s s' : Store}
    {summary : Summary} :
    ingest t base c s = (.ok summary, s') ↔
      ∃ files, scan t base c = .ok files ∧
        ingestFiles files ⟨files.length, 0, 0, 0, 0⟩ s = (.ok summary, s') := by
  constructor
  · intro h
    cases hscan : scan t base c with
    | error e =>
        rw [ingest, hscan] at h
        cases h
    | ok files =>
        rw [ingest_of_scan hscan, Prod.mk.injEq, mapError_eq_ok] at h
        exact ⟨files, rfl, Prod.ext h.1 h.2⟩
  · rintro ⟨files, hscan, hrun⟩
    rw [ingest_of_scan hscan, hrun]
    rfl

/-- A summary accounts for the files, and for the growth of the table. -/
structure Summary.Accounts (summary : Summary) (files : List ScannedFile) (before after : Store) :
    Prop where
  scanned : summary.scanned = files.length
  invalid : summary.invalid = (strays files).length
  balance : summary.scanned =
    summary.new + summary.changed + summary.unchanged + summary.invalid
  growth : after.documents.length = before.documents.length + summary.new

def total (files : List ScannedFile) (s : Store) : Summary :=
  { counted (records files) ⟨files.length, 0, 0, 0, 0⟩ s with invalid := (strays files).length }

theorem accounts_total (files : List ScannedFile) (s : Store) :
    (total files s).Accounts files s (s.recorded (records files)) where
  scanned := scanned_counted _ _ _
  invalid := rfl
  balance := by
    have hfiles := length_records_add_length_strays files
    have hbalance := counted_balance (records files) ⟨files.length, 0, 0, 0, 0⟩ s
    simp only [total, scanned_counted] at hbalance ⊢
    omega
  growth := by
    have hgrowth := counted_growth (records files) ⟨files.length, 0, 0, 0, 0⟩ s
    simp only [total] at hgrowth ⊢
    omega

theorem ingest_eq {t : FileTree} {base : Path} {c : SourceConfig} {s s' : Store}
    {summary : Summary} (h : ingest t base c s = (.ok summary, s')) :
    ∃ files, scan t base c = .ok files ∧ (records files = [] ∨ .documents ∉ s.missing) ∧
      summary = total files s ∧ s' = s.recorded (records files) := by
  obtain ⟨files, hscan, hrun⟩ := ingest_ok.mp h
  have hrecordable := recordable_of_ingestFiles_ok hrun
  rw [ingestFiles_eq hrecordable, Nat.zero_add] at hrun
  cases hrun
  exact ⟨files, hscan, hrecordable, rfl, rfl⟩

/-- Records of one document agree if they give the same content hash. -/
def Agree (rs : List Record) : Prop :=
  ∀ r ∈ rs, ∀ q ∈ rs, r.id = q.id → r.contentHash = q.contentHash

/-- Ingesting the same files again succeeds and leaves every row of the store as it is. Both
summaries account for the files and for the growth of the table; the second one has nothing new in
it, and as changed those records that do not give the hash that was given last for their document:
none exactly if the records of each document agree. -/
theorem ingest_again {t : FileTree} {base : Path} {c : SourceConfig} {s s₁ : Store}
    {first : Summary} (h : ingest t base c s = (.ok first, s₁)) :
    ∃ files second s₂, scan t base c = .ok files ∧ ingest t base c s₁ = (.ok second, s₂) ∧
      s₂ = { s₁ with lastSeq := s₁.lastSeq + (records files).length } ∧
      first.Accounts files s s₁ ∧ second.Accounts files s₁ s₂ ∧
      second.new = 0 ∧ second.changed = overturned (records files) (records files) ∧
      (second.changed = 0 ↔ Agree (records files)) ∧
      (second.unchanged = second.scanned - second.invalid ↔ Agree (records files)) := by
  obtain ⟨files, hscan, hrecordable, rfl, rfl⟩ := ingest_eq h
  have hhash : ∀ r ∈ records files, r.contentHash.isSome = true := fun r => isSome_contentHash
  have hsettled : (s.recorded (records files)).Settled (records files) :=
    (settled_nil s).recorded hhash
  have hagain : records files = [] ∨ .documents ∉ (s.recorded (records files)).missing := by
    rwa [recorded_eq]
  obtain ⟨hnew, hchanged⟩ := counted_again hsettled (fun r hr => ⟨hr, hhash r hr⟩)
    ⟨files.length, 0, 0, 0, 0⟩
  have hstore : (s.recorded (records files)).recorded (records files) =
      { s.recorded (records files) with
        lastSeq := (s.recorded (records files)).lastSeq + (records files).length } := by
    rw [recorded_eq (s.recorded (records files)), hsettled.documents_again]
  have hsecond := accounts_total files (s.recorded (records files))
  have hzero : overturned (records files) (records files) = 0 ↔ Agree (records files) :=
    overturned_self_eq_zero
  rw [hstore] at hsecond
  rw [Nat.zero_add] at hchanged
  refine ⟨files, total files (s.recorded (records files)), _, hscan,
    ingest_ok.mpr ⟨files, hscan, ?_⟩, rfl, accounts_total files s, hsecond, hnew, hchanged, ?_, ?_⟩
  · rw [ingestFiles_eq hagain, hstore, Nat.zero_add]
    rfl
  · exact hchanged ▸ hzero
  · have hbalance := hsecond.balance
    rw [← hzero, ← hchanged]
    change _ ↔ (total files _).changed = 0
    have hnone : (total files (s.recorded (records files))).new = 0 := hnew
    omega

/-- An envelope and a file that is none, in an empty store. -/
theorem ingest_again_after_one :
    let t : FileTree := ⟨[([['m'], ['f']],
        Text.toBytes "[\"a\",null,null,\"one\",\"\",\"\",\"\",[],[]]".toList),
      ([['m'], ['g']], [])], [[], [['m']]]⟩
    let c : SourceConfig := ⟨['m'], [['*']], []⟩
    ∃ s₁, ingest t [] c .empty = (.ok ⟨2, 1, 0, 0, 1⟩, s₁) ∧
      ∃ second s₂, ingest t [] c s₁ = (.ok second, s₂) ∧ s₂.documents = s₁.documents ∧
        second.new = 0 ∧ second.invalid = 1 ∧ second.scanned = 2 := by
  intro t c
  let files : List ScannedFile := [⟨['f'],
    Text.toBytes "[\"a\",null,null,\"one\",\"\",\"\",\"\",[],[]]".toList⟩, ⟨['g'], []⟩]
  have hscan : scan t [] c = .ok files :=
    scan_of_sorted (by decide +kernel) (by decide +kernel)
  have hrun : (ingestFiles files ⟨2, 0, 0, 0, 0⟩ .empty).1 = .ok ⟨2, 1, 0, 0, 1⟩ := by
    decide +kernel
  have h := ingest_ok.mpr ⟨files, hscan, Prod.ext hrun rfl⟩
  obtain ⟨_, second, _, -, hsecond, rfl, hfirst, hagain, hnew, -⟩ := ingest_again h
  refine ⟨_, h, second, _, hsecond, rfl, hnew, ?_, ?_⟩
  · rw [hagain.invalid, ← hfirst.invalid]
  · rw [hagain.scanned, ← hfirst.scanned]

/-- Two files of one document that differ: each run changes it back and forth. -/
theorem files_of_one_document_change_again :
    ¬ ∀ (t : FileTree) (base : Path) (c : SourceConfig) (s s₁ s₂ : Store)
      (first second : Summary), ingest t base c s = (.ok first, s₁) →
        ingest t base c s₁ = (.ok second, s₂) →
          second.changed = 0 ∧ second.unchanged = second.scanned - second.invalid := by
  intro hall
  let one := Text.toBytes "[\"a\",null,null,\"one\",\"\",\"\",\"\",[],[]]".toList
  let two := Text.toBytes "[\"a\",null,null,\"two\",\"\",\"\",\"\",[],[]]".toList
  let t : FileTree := ⟨[([['m'], ['f']], one), ([['m'], ['g']], two)], [[], [['m']]]⟩
  let c : SourceConfig := ⟨['m'], [['*']], []⟩
  let files : List ScannedFile := [⟨['f'], one⟩, ⟨['g'], two⟩]
  have hscan : scan t [] c = .ok files :=
    scan_of_sorted (by decide +kernel) (by decide +kernel)
  let s₁ := (ingestFiles files ⟨2, 0, 0, 0, 0⟩ .empty).2
  have hfirst : (ingestFiles files ⟨2, 0, 0, 0, 0⟩ .empty).1 = .ok ⟨2, 1, 1, 0, 0⟩ := by
    decide +kernel
  have hsecond : (ingestFiles files ⟨2, 0, 0, 0, 0⟩ s₁).1 = .ok ⟨2, 0, 2, 0, 0⟩ := by
    decide +kernel
  have hnone := hall t [] c .empty s₁ _ _ _
    (ingest_ok.mpr ⟨files, hscan, Prod.ext hfirst rfl⟩)
    (ingest_ok.mpr ⟨files, hscan, Prod.ext hsecond rfl⟩)
  exact absurd hnone.1 (by decide)

end MailIndex.Ingest
