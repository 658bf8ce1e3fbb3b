import MailIndex.Ingest.Basic
import MailIndex.Proofs.Reindex.Writes
import Mathlib.Data.List.Induction

/-!
# What freshness says

Files are written and removed, ingested and reindexed in any order. The text under which a document
is found is that of the file as it was when the document was indexed; the hash that is kept with it
is the one that ingestion had recorded. So the hash speaks of the text as long as the file has not
been changed between the two.
-/

namespace MailIndex

structure Loaded where
  candidate : Document
  bytes : List UInt8
  envelope : Envelope
  snippetChars : Nat
  parsed : Envelope.ofBytes? bytes = some envelope

def Loaded.message (l : Loaded) : Message := l.envelope.toMessage (bytesHash l.bytes)

def loaded? (t : FileTree) (root : Path) (snippetChars : Nat) (d : Document) : Option Loaded := do
  let bytes ← t.read? (Path.resolve root (← d.sourcePath))
  match h : Envelope.ofBytes? bytes with
  | some e => some ⟨d, bytes, e, snippetChars, h⟩
  | none => none

theorem exists_loaded {t : FileTree} {root : Path} (snippetChars : Nat) {d : Document} {m : Message}
    (h : Ingest.loadFrom t root d = some m) :
    ∃ l, loaded? t root snippetChars d = some l ∧ l.candidate = d ∧ l.message = m ∧
      l.snippetChars = snippetChars := by
  unfold Ingest.loadFrom at h
  unfold loaded?
  cases hpath : d.sourcePath with
  | none => simp [hpath] at h
  | some path =>
      cases hbytes : t.read? (Path.resolve root path) with
      | none => simp [hpath, hbytes] at h
      | some bytes =>
          cases hparsed : Envelope.ofBytes? bytes with
          | none => simp [hpath, hbytes, hparsed] at h
          | some e =>
              have hm : e.toMessage (bytesHash bytes) = m := by
                simpa [hpath, hbytes, hparsed] using h
              refine ⟨⟨d, bytes, e, snippetChars, hparsed⟩, ?_, rfl, hm, rfl⟩
              simp only [Option.bind_eq_bind, Option.bind_some, hbytes]
              split
              · next e' he' =>
                  rw [hparsed] at he'
                  cases he'
                  rfl
              · next he' =>
                  rw [hparsed] at he'
                  cases he'

namespace Reindex

def Recorded (ingested : List (List UInt8)) (d : Document) : Prop :=
  ∃ bytes ∈ ingested, (Envelope.ofBytes? bytes).isSome = true ∧
    d.contentHash = some (bytesHash bytes)

theorem Recorded.append {ingested : List (List UInt8)} {d : Document} (h : Recorded ingested d)
    (more : List (List UInt8)) : Recorded (ingested ++ more) d := by
  obtain ⟨bytes, hbytes, hrest⟩ := h
  exact ⟨bytes, List.mem_append_left _ hbytes, hrest⟩

/-- The index and the columns of a document hold what was loaded for it. -/
structure Describes (s : Store) (l : Loaded) (d : Document) : Prop where
  seq : l.candidate.seq = d.seq
  text : s.newestText? d.seq = some (.ofMessage l.message)
  derived : d.derived = some (Derived.ofMessage l.message l.snippetChars)
  indexedHash : d.indexedHash = some (Run.hashFor l.candidate l.message)

/-- Content hashes come from what has been ingested, and every document that has been indexed is
described by something that was loaded. -/
structure Faithful (ingested : List (List UInt8)) (log : List Loaded) (s : Store) : Prop where
  indexed : s.Indexed
  recorded : ∀ d ∈ s.documents, Recorded ingested d
  selected : ∀ l ∈ log, Recorded ingested l.candidate
  described : ∀ d ∈ s.documents, d.indexedHash ≠ none → ∃ l ∈ log, Describes s l d

variable {ingested : List (List UInt8)} {log : List Loaded} {s : Store}

theorem faithful_empty : Faithful [] [] Store.empty where
  indexed := ⟨.nil, by simp [Store.empty], .nil, by simp [Store.empty, Index.empty]⟩
  recorded d hd := by cases hd
  selected l hl := by cases hl
  described d hd := by cases hd

theorem Faithful.ingestMore (h : Faithful ingested log s) (more : List (List UInt8)) :
    Faithful (ingested ++ more) log s where
  indexed := h.indexed
  recorded d hd := (h.recorded d hd).append more
  selected l hl := (h.selected l hl).append more
  described := h.described

theorem Faithful.loadMore (h : Faithful ingested log s) {more : List Loaded}
    (hmore : ∀ l ∈ more, Recorded ingested l.candidate) : Faithful ingested (log ++ more) s where
  indexed := h.indexed
  recorded := h.recorded
  selected l hl := by
    rcases List.mem_append.mp hl with hl | hl
    · exact h.selected l hl
    · exact hmore l hl
  described d hd hhash := by
    obtain ⟨l, hl, hdescribes⟩ := h.described d hd hhash
    exact ⟨l, List.mem_append_left _ hl, hdescribes⟩

theorem Faithful.withDocuments (h : Faithful ingested log s) {documents : List Document}
    {lastSeq : Nat} (hrecorded : ∀ d ∈ documents, Recorded ingested d)
    (hkept : ∀ d ∈ documents, d.indexedHash ≠ none → ∃ e ∈ s.documents,
      e.seq = d.seq ∧ e.derived = d.derived ∧ e.indexedHash = d.indexedHash) :
    Faithful ingested log { s with documents, lastSeq } where
  indexed := h.indexed.withDocuments _ _
  recorded := hrecorded
  selected := h.selected
  described d hd hhash := by
    obtain ⟨e, he, hseq, hderived, hsame⟩ := hkept d hd hhash
    obtain ⟨l, hl, hdescribes⟩ := h.described e he (hsame ▸ hhash)
    refine ⟨l, hl, hdescribes.seq.trans hseq, ?_, hderived.symm.trans hdescribes.derived,
      hsame.symm.trans hdescribes.indexedHash⟩
    rw [← hseq]
    exact hdescribes.text

theorem Faithful.unindexed (h : Faithful ingested log s) (scope : Scope) :
    Faithful ingested log (Run.unindexed s scope) := by
  refine h.withDocuments (fun d hd => ?_) fun d hd hhash => ?_
  · obtain ⟨e, he, rfl⟩ := List.mem_map.mp hd
    have hrecorded := h.recorded e he
    split
    · exact hrecorded
    · exact hrecorded
  · obtain ⟨e, he, rfl⟩ := List.mem_map.mp hd
    refine ⟨e, he, ?_⟩
    split at hhash
    · exact absurd rfl hhash
    · next hout => simp [hout]

theorem Faithful.upsert (h : Faithful ingested log s) {record : Record} {bytes : List UInt8}
    (hbytes : bytes ∈ ingested) (hparsed : (Envelope.ofBytes? bytes).isSome = true)
    (hhash : record.contentHash = some (bytesHash bytes)) :
    Faithful ingested log (s.upsert record).1 := by
  have hupdated : ∀ e : Document, Recorded ingested (e.updated record) := by
    intro e
    refine ⟨bytes, hbytes, hparsed, ?_⟩
    unfold Document.updated
    rw [hhash]
    rfl
  unfold Store.upsert
  dsimp only
  cases s.find? record.id with
  | some known =>
      refine h.withDocuments (fun d hd => ?_) fun d hd _ => ?_
      · obtain ⟨e, he, rfl⟩ := List.mem_map.mp hd
        have hrecorded := h.recorded e he
        split
        · exact hupdated e
        · exact hrecorded
      · obtain ⟨e, he, rfl⟩ := List.mem_map.mp hd
        refine ⟨e, he, ?_⟩
        split <;> exact ⟨rfl, rfl, rfl⟩
  | none =>
      refine h.withDocuments (fun d hd => ?_) fun d hd hindexed => ?_
      · rcases List.mem_append.mp hd with hd | hd
        · exact h.recorded d hd
        · rw [List.mem_singleton.mp hd]
          exact ⟨bytes, hbytes, hparsed, hhash⟩
      · -- A new document has not been indexed.
        rcases List.mem_append.mp hd with hd | hd
        · exact ⟨d, hd, rfl, rfl, rfl⟩
        · rw [List.mem_singleton.mp hd] at hindexed
          exact absurd rfl hindexed

theorem Faithful.prune (h : Faithful ingested log s) (seq : Nat) :
    Faithful ingested log (s.prune seq).1 where
  indexed := h.indexed.prune seq
  recorded d hd := h.recorded d (by rwa [Store.documents_prune] at hd)
  selected := h.selected
  described d hd hhash := by
    rw [Store.documents_prune] at hd
    obtain ⟨l, hl, hdescribes⟩ := h.described d hd hhash
    refine ⟨l, hl, hdescribes.seq, ?_, hdescribes.derived, hdescribes.indexedHash⟩
    rw [h.indexed.numbered.newestText?_prune]
    exact hdescribes.text

/-- Indexing a candidate: its newest entry is the one that has just been added. -/
theorem Faithful.index (h : Faithful ingested log s) {o : Options} {now : Int} {l : Loaded}
    (hchars : l.snippetChars = o.snippetChars) (hl : Recorded ingested l.candidate)
    {written : Store}
    (hwritten : Run.indexed? o now s l.candidate l.message = some written) :
    Faithful ingested (log ++ [l]) written := by
  have hadds := adds_of_indexed? hwritten
  have htext := hadds.newestText? h.indexed.numbered
  refine ⟨hadds.indexed h.indexed, fun d hd => ?_, fun l' hl' => ?_, fun d hd hhash => ?_⟩
  · rw [hadds.documents] at hd
    obtain ⟨e, he, rfl⟩ := List.mem_map.mp hd
    obtain ⟨bytes, hbytes, hparsed, hhash⟩ := h.recorded e he
    refine ⟨bytes, hbytes, hparsed, ?_⟩
    split
    · simp [Document.indexed, hhash]
    · exact hhash
  · rcases List.mem_append.mp hl' with hl' | hl'
    · exact h.selected l' hl'
    · rw [List.mem_singleton.mp hl']
      exact hl
  · rw [hadds.documents] at hd
    obtain ⟨e, he, rfl⟩ := List.mem_map.mp hd
    by_cases hseq : e.seq = l.candidate.seq
    · rw [if_pos hseq]
      refine ⟨l, List.mem_append_right _ (List.mem_singleton_self l), hseq.symm, ?_, ?_, rfl⟩
      · exact (htext _).trans (if_pos hseq)
      · rw [hchars]
        rfl
    · rw [if_neg hseq] at hhash ⊢
      obtain ⟨l', hl', hdescribes⟩ := h.described e he hhash
      refine ⟨l', List.mem_append_left _ hl', hdescribes.seq, ?_, hdescribes.derived,
        hdescribes.indexedHash⟩
      exact (htext _).trans ((if_neg hseq).trans hdescribes.text)

theorem candidate_of_loaded {t : FileTree} {root : Path} {snippetChars : Nat} {d : Document}
    {l : Loaded} (h : loaded? t root snippetChars d = some l) : l.candidate = d := by
  unfold loaded? at h
  cases hpath : d.sourcePath with
  | none => simp [hpath] at h
  | some path =>
      cases hbytes : t.read? (Path.resolve root path) with
      | none => simp [hpath, hbytes] at h
      | some bytes =>
          simp only [hpath, hbytes, Option.bind_eq_bind, Option.bind_some] at h
          split at h
          · cases h
            rfl
          · cases h

theorem preserves_faithful (ingested : List (List UInt8)) (log : List Loaded) (t : FileTree)
    (root : Path) (o : Options) (cancelled : Nat → Bool) (now : Int) :
    Preserves o ⟨Ingest.loadFrom t root, cancelled, fun _ => [], now⟩
      (fun asked s => Faithful ingested (log ++ asked.filterMap (loaded? t root o.snippetChars)) s)
      (Recorded ingested) where
  candidate h hd := h.recorded _ hd
  unindexed scope h := h.unindexed scope
  ask := by
    intro asked s d hd h
    rw [List.filterMap_append, ← List.append_assoc]
    refine h.loadMore fun l hl => ?_
    obtain ⟨e, he, hloaded⟩ := List.mem_filterMap.mp hl
    rw [candidate_of_loaded hloaded, List.mem_singleton.mp he]
    exact hd
  index := by
    intro asked s d m written hd hm hwritten h
    obtain ⟨l, hl, rfl, rfl, hchars⟩ := exists_loaded o.snippetChars hm
    rw [List.filterMap_append, ← List.append_assoc]
    simp only [List.filterMap_cons, hl, List.filterMap_nil]
    exact h.index hchars hd hwritten
  prune seq h := h.prune seq
  outside hwrite := by cases hwrite

/-! ## Ingestion -/

theorem Faithful.ingestFile (h : Faithful ingested log s) {file : Ingest.ScannedFile}
    (hfile : file.bytes ∈ ingested) (summary : Ingest.Summary) :
    Faithful ingested log (Ingest.ingestFile file summary s).2 := by
  unfold Ingest.ingestFile
  cases hparsed : Envelope.ofBytes? file.bytes with
  | none => exact h
  | some e =>
      have hupserted : Faithful ingested log (Statement.upsert (Ingest.recordOf e file) s).2 :=
        snd_write _ h (h.upsert hfile (by rw [hparsed]; rfl) rfl)
      dsimp only [Statement.find, Statement.read]
      cases s.needing [.documents] (s.find? (Ingest.recordOf e file).id) with
      | error failure => exact h
      | ok known =>
          dsimp only
          split
          · next hupsert =>
              rw [hupsert] at hupserted
              exact hupserted
          · next hupsert =>
              rw [hupsert] at hupserted
              exact hupserted

theorem Faithful.ingestFiles (h : Faithful ingested log s) {files : List Ingest.ScannedFile}
    (hfiles : ∀ file ∈ files, file.bytes ∈ ingested) (summary : Ingest.Summary) :
    Faithful ingested log (Ingest.ingestFiles files summary s).2 := by
  induction files generalizing s summary with
  | nil => exact h
  | cons file files ih =>
      have hone := h.ingestFile (hfiles file List.mem_cons_self) summary
      unfold Ingest.ingestFiles
      split
      · next hresult =>
          rw [hresult] at hone
          exact ih hone (fun f hf => hfiles f (List.mem_cons_of_mem _ hf)) _
      · exact hone

def scanned (t : FileTree) (base : Path) (c : SourceConfig) : List (List UInt8) :=
  match Ingest.scan t base c with
  | .ok files => files.map (·.bytes)
  | .error _ => []

theorem Faithful.ingest (h : Faithful ingested log s) (t : FileTree) (base : Path)
    (c : SourceConfig) :
    Faithful (ingested ++ scanned t base c) log (Ingest.ingest t base c s).2 := by
  have hmore := h.ingestMore (scanned t base c)
  unfold Ingest.ingest
  unfold scanned at hmore ⊢
  cases hscan : Ingest.scan t base c with
  | error e =>
      rw [hscan] at hmore
      exact hmore
  | ok files =>
      rw [hscan] at hmore
      refine hmore.ingestFiles (fun file hfile => ?_) _
      exact List.mem_append_right _ (List.mem_map_of_mem hfile)

/-! ## Runs of a site -/

/-- Files and a store, with all that has been ingested and loaded so far. -/
structure Site where
  files : FileTree
  store : Store
  ingested : List (List UInt8)
  log : List Loaded

inductive Act where
  | write (p : Path) (bytes : List UInt8)
  | remove (p : Path)
  | ingest (base : Path) (c : SourceConfig)
  | reindex (root : Path) (o : Options) (cancelled : Nat → Bool) (now : Int)

namespace Site

def start : Site := ⟨.empty, .empty, [], []⟩

def apply (w : Site) : Act → Site
  | .write p bytes => { w with files := w.files.write p bytes }
  | .remove p => { w with files := w.files.remove p }
  | .ingest base c =>
    { w with
      store := (Ingest.ingest w.files base c w.store).2
      ingested := w.ingested ++ scanned w.files base c }
  | .reindex root o cancelled now =>
    let r := Run.complete o ⟨Ingest.loadFrom w.files root, cancelled, fun _ => [], now⟩ w.store
    { w with
      store := r.session.durable
      log := w.log ++ r.asked.filterMap (loaded? w.files root o.snippetChars) }

def run (acts : List Act) : Site := acts.foldl apply start

end Site

theorem faithful_apply {w : Site} (h : Faithful w.ingested w.log w.store) (act : Act) :
    Faithful (w.apply act).ingested (w.apply act).log (w.apply act).store := by
  cases act with
  | write p bytes => exact h
  | remove p => exact h
  | ingest base c => exact h.ingest w.files base c
  | reindex root o cancelled now =>
      have hpreserves := preserves_faithful w.ingested w.log w.files root o cancelled now
      have hstart : Faithful w.ingested
          (w.log ++ [].filterMap (loaded? w.files root o.snippetChars)) w.store :=
        h.loadMore fun l hl => by cases hl
      exact (hpreserves.complete hstart).session.durable

/-- The induction is on the acts from the last one back. -/
theorem faithful_run (acts : List Act) :
    Faithful (Site.run acts).ingested (Site.run acts).log (Site.run acts).store := by
  induction acts using List.reverseRecOn with
  | nil => exact faithful_empty
  | append_singleton acts act ih =>
      unfold Site.run
      rw [List.foldl_append]
      exact faithful_apply ih act

/-! ## What the hash says -/

/-- The hash kept with a document is that of an envelope whose text is in the index. -/
def Reflects (s : Store) (d : Document) : Prop :=
  ∃ bytes e snippetChars, Envelope.ofBytes? bytes = some e ∧
    d.indexedHash = some (bytesHash bytes) ∧
    s.newestText? d.seq = some (.ofMessage (e.toMessage (bytesHash bytes))) ∧
    d.derived = some (Derived.ofMessage (e.toMessage (bytesHash bytes)) snippetChars)

/-- A file says what was loaded: the same text, and the same derived columns. -/
def SaidBy (l : Loaded) (bytes : List UInt8) : Prop :=
  ∃ e snippetChars, Envelope.ofBytes? bytes = some e ∧
    EntryText.ofMessage l.message = .ofMessage (e.toMessage (bytesHash bytes)) ∧
    Derived.ofMessage l.message l.snippetChars =
      .ofMessage (e.toMessage (bytesHash bytes)) snippetChars

theorem saidBy_self (l : Loaded) : SaidBy l l.bytes :=
  ⟨l.envelope, l.snippetChars, l.parsed, rfl, rfl⟩

theorem reflects_iff_saidBy {s : Store} {l : Loaded} {d : Document} (h : Describes s l d)
    {bytes : List UInt8} (hhash : d.indexedHash = some (bytesHash bytes)) :
    Reflects s d ↔ ∃ same, bytesHash same = bytesHash bytes ∧ SaidBy l same := by
  unfold Reflects SaidBy
  rw [hhash, h.text, h.derived]
  simp only [Option.some.injEq]
  constructor
  · rintro ⟨same, e, chars, hparsed, hsame, htext, hderived⟩
    exact ⟨same, hsame.symm, e, chars, hparsed, htext, hderived⟩
  · rintro ⟨same, hsame, e, chars, hparsed, htext, hderived⟩
    exact ⟨same, e, chars, hparsed, hsame.symm, htext, hderived⟩

theorem indexedHash_ne_none {d : Document} (hfresh : d.isFresh = true) : d.indexedHash ≠ none := by
  intro hnone
  unfold Document.isFresh at hfresh
  rw [hnone] at hfresh
  cases hhash : d.contentHash <;> simp [hhash] at hfresh

theorem hashFor_of_recorded {d : Document} {hash : Text} (h : d.contentHash = some hash)
    (m : Message) : Run.hashFor d m = hash := by
  unfold Run.hashFor
  rw [h]
  rfl

/-- A document counted as fresh has the text of one file, which was loaded for it, and the hash of
another, which had been ingested when it was selected. So its hash is that of its text exactly if
some file with the hash of the other says the same as the one, and in particular if both have the
same hash. -/
theorem fresh_reflects_iff (acts : List Act) {d : Document}
    (hd : d ∈ (Site.run acts).store.documents) (hfresh : d.isFresh = true) :
    ∃ l ∈ (Site.run acts).log, ∃ bytes ∈ (Site.run acts).ingested,
      Describes (Site.run acts).store l d ∧ l.candidate.contentHash = some (bytesHash bytes) ∧
      d.indexedHash = some (bytesHash bytes) ∧
      (bytesHash l.bytes = bytesHash bytes → Reflects (Site.run acts).store d) ∧
      (Reflects (Site.run acts).store d ↔
        ∃ same, bytesHash same = bytesHash bytes ∧ SaidBy l same) := by
  have hfaithful := faithful_run acts
  obtain ⟨l, hl, hdescribes⟩ := hfaithful.described d hd (indexedHash_ne_none hfresh)
  obtain ⟨bytes, hbytes, -, hrecorded⟩ := hfaithful.selected l hl
  have hhash : d.indexedHash = some (bytesHash bytes) :=
    hdescribes.indexedHash.trans (congrArg some (hashFor_of_recorded hrecorded _))
  have hiff := reflects_iff_saidBy hdescribes hhash
  refine ⟨l, hl, bytes, hbytes, hdescribes, hrecorded, hhash, fun hsame => ?_, hiff⟩
  rw [hiff]
  exact ⟨l.bytes, hsame, saidBy_self l⟩

/-- A file that is changed after it was ingested: the document is fresh by the hash of the old
version and has the text of the new one. -/
theorem fresh_reflects_iff_of_change :
    let old := Text.toBytes "[\"a\",null,null,\"old\",\"\",\"\",\"\",[],[]]".toList
    let new := Text.toBytes "[\"a\",null,null,\"new\",\"\",\"\",\"\",[],[]]".toList
    let acts : List Act := [.write [['m'], ['f']] old, .ingest [] ⟨['m'], [['*']], []⟩,
      .write [['m'], ['f']] new, .reindex [['m']] ⟨.all, false, 1, 10⟩ (fun _ => false) 0]
    let w := Site.run acts
    ∃ d ∈ w.store.documents, d.isFresh = true ∧ d.indexedHash = some (bytesHash old) ∧
      ∃ l ∈ w.log, Describes w.store l d ∧ l.bytes = new ∧ bytesHash l.bytes ≠ bytesHash old := by
  intro old new acts w
  have hfresh : ∃ d ∈ w.store.documents,
      d.isFresh = true ∧ d.indexedHash = some (bytesHash old) := by
    decide +kernel
  have hlog : ∀ l ∈ w.log, l.bytes = new := by decide +kernel
  have hdifferent : bytesHash new ≠ bytesHash old := by decide +kernel
  obtain ⟨d, hd, hd', hhash⟩ := hfresh
  obtain ⟨l, hl, -, -, hdescribes, -⟩ := fresh_reflects_iff acts hd hd'
  refine ⟨d, hd, hd', hhash, l, hl, hdescribes, hlog l hl, ?_⟩
  rw [hlog l hl]
  exact hdifferent

end Reindex

end MailIndex
