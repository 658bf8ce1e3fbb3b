import MailIndex.Proofs.Check.Health
import MailIndex.Proofs.Reindex.Loads

/-!
# Chronicles

Records come in and documents are deleted; runs and repairs come to their end, are cancelled or
break off. A chronicle of this has everything that was ever durable, and every message that was
loaded. In all that was durable the index is in step with the ledger, no document that was indexed
is without an entry, and the entries have the texts that were loaded, in the order in which they
were. And no number means one thing now and another later.
-/

namespace MailIndex.Check

open Reindex

inductive Occurrence where
  | upsert (r : Record)
  | delete (id : Text)
  | ingest (t : FileTree) (base : Path) (c : SourceConfig)
  /-- A run of so many steps. One that has ended stays as it is; one that has not has broken off. -/
  | reindex (o : Options) (env : Surroundings) (steps : Nat)
  | repair (cancelled : Nat → Bool)
  /-- A repair that breaks off where it would be found cancelled, or fails. -/
  | brokenRepair (cancelled : Nat → Bool)

/-- What is durable when so many of the files to be ingested have been dealt with. -/
def ingestedAfter (files : List Ingest.ScannedFile) (s : Store) (n : Nat) : Store :=
  (Ingest.ingestFiles (files.take n) ⟨files.length, 0, 0, 0, 0⟩ s).2

def ingestCourse (t : FileTree) (base : Path) (c : SourceConfig) (s : Store) : List Store :=
  match Ingest.scan t base c with
  | .ok files => (List.range files.length).map (ingestedAfter files s)
  | .error _ => []

namespace Occurrence

def course (s : Store) : Occurrence → List Store
  | upsert _ => [s]
  | delete _ => [s]
  | ingest t base c => ingestCourse t base c s
  | reindex o env steps => (List.range steps).map (durableAfter o env s)
  | repair _ => [s]
  | brokenRepair _ => [s]

def result (s : Store) : Occurrence → Store
  | upsert r => (Statement.upsert r s).2
  | delete id => (Statement.deleteDocument id s).2
  | ingest t base c => (Ingest.ingest t base c s).2
  | reindex o env steps => durableAfter o env s steps
  | repair cancelled => (Check.repair cancelled s).2
  | brokenRepair cancelled => (Repair.run cancelled s).2.session.durable

def loads (s : Store) : Occurrence → List Load
  | reindex o env steps => loadsOf env (askedAfter o env s steps)
  | _ => []

end Occurrence

structure Chronicle where
  /-- What has been durable before, in order. -/
  passed : List Store
  store : Store
  /-- What has been loaded, in order. -/
  loads : List Load

namespace Chronicle

def start : Chronicle := ⟨[], .empty, []⟩

/-- All that has been durable, and what is. -/
def durable (c : Chronicle) : List Store := c.passed ++ [c.store]

def record (c : Chronicle) (x : Occurrence) : Chronicle where
  passed := c.passed ++ x.course c.store
  store := x.result c.store
  loads := c.loads ++ x.loads c.store

end Chronicle

def chronicle (occurrences : List Occurrence) : Chronicle :=
  occurrences.foldl Chronicle.record .start

/-! ## What every occurrence keeps -/

/-- Consistent stores, from one on, each of which leads to all that follow. -/
structure Passes (loads : List Load) (s : Store) (stores : List Store) : Prop where
  begins : stores.head? = some s
  consistent : ∀ t ∈ stores, t.Consistent loads
  succession : stores.Pairwise Store.LeadsTo

variable {loads : List Load} {s t : Store} {stores : List Store}

theorem Passes.leadsTo (h : Passes loads s stores) (ht : t ∈ stores) : s.LeadsTo t := by
  have hsuccession := h.succession
  obtain ⟨rest, rfl⟩ := List.head?_eq_some_iff.mp h.begins
  rcases List.mem_cons.mp ht with rfl | ht
  · exact .refl t
  · exact List.rel_of_pairwise_cons hsuccession ht

theorem passes_pair (hs : s.Consistent loads) (ht : t.Consistent loads ∧ s.LeadsTo t) :
    Passes loads s [s, t] where
  begins := rfl
  consistent u hu := by
    rcases List.mem_pair.mp hu with rfl | rfl
    · exact hs
    · exact ht.1
  succession := List.pairwise_pair.mpr ht.2

theorem passes_steps {after : Nat → Store} (n : Nat) (hbegins : after 0 = s)
    (hconsistent : ∀ k ≤ n, (after k).Consistent loads)
    (honward : ∀ {j k : Nat}, j ≤ k → (after j).LeadsTo (after k)) :
    Passes loads s ((List.range n).map after ++ [after n]) := by
  have hall : (List.range n).map after ++ [after n] = (List.range (n + 1)).map after := by
    rw [List.range_succ, List.map_append]
    rfl
  rw [hall]
  refine ⟨?_, fun t ht => ?_, ?_⟩
  · rw [List.range_succ_eq_map]
    exact congrArg some hbegins
  · obtain ⟨k, hk, rfl⟩ := List.mem_map.mp ht
    exact hconsistent k (Nat.le_of_lt_succ (List.mem_range.mp hk))
  · exact List.pairwise_map.mpr (List.pairwise_lt_range.imp fun hlt => honward (Nat.le_of_lt hlt))

theorem passes_ingest (h : s.Consistent loads) (t : FileTree) (base : Path) (c : SourceConfig) :
    Passes loads s (ingestCourse t base c s ++ [(Ingest.ingest t base c s).2]) := by
  unfold ingestCourse Ingest.ingest
  cases Ingest.scan t base c with
  | error e =>
      exact ⟨rfl, fun u hu => List.mem_singleton.mp hu ▸ h, List.pairwise_singleton _ _⟩
  | ok files =>
      dsimp only
      have hconsistent : ∀ k, (ingestedAfter files s k).Consistent loads := fun k =>
        keeps_ingestFiles (fun _ r h => h.upsert r) h _ _
      have hall : ingestedAfter files s files.length =
          (Ingest.ingestFiles files ⟨files.length, 0, 0, 0, 0⟩ s).2 := by
        unfold ingestedAfter
        rw [List.take_length]
      refine hall ▸ passes_steps files.length rfl (fun k _ => hconsistent k) fun {j k} hjk => ?_
      have hmore : files.take k = files.take j ++ (files.drop j).take (k - j) := by
        rw [← List.take_add, Nat.add_sub_cancel' hjk]
      have hj : (ingestedAfter files s j).Numbered := (hconsistent j).keyed.toNumbered
      unfold ingestedAfter at hj ⊢
      rw [hmore]
      exact keeps_ingestFiles_append (fun _ r ht => ht.trans hj (Store.leadsTo_upsert _ r))
        (.refl _) _

theorem passes_reindex (h : s.Consistent loads) (o : Options) (env : Surroundings) (steps : Nat) :
    Passes (loads ++ loadsOf env (askedAfter o env s steps)) s
      ((List.range steps).map (durableAfter o env s) ++ [durableAfter o env s steps]) := by
  refine passes_steps steps rfl (fun k hk => ?_) fun hjk =>
    (onward_leadsTo o env).durableAfter h.keyed.toNumbered hjk
  obtain ⟨more, hmore⟩ := askedAfter_prefix o env s hk
  have hloads : loadsOf env (askedAfter o env s steps) =
      loadsOf env (askedAfter o env s k) ++ loadsOf env more := by
    rw [← hmore]
    exact List.filterMap_append
  rw [hloads, ← List.append_assoc]
  exact (consistent_durableAfter o env h k).loadMore _

/-- Wherever a repair is, it has not got ahead of what it began with. -/
theorem keeps_repair (h : s.Consistent loads) (cancelled : Nat → Bool) :
    (Repair.run cancelled s).2.session.Keeps fun t => t.Consistent loads ∧ s.LeadsTo t := by
  have hs : s.Numbered := h.keyed.toNumbered
  refine Repair.keeps_run_inOrder (fun t seq ht => ?_) (fun t entry ht hremovable => ?_) cancelled
    hs ⟨h, .refl s⟩
  · exact ⟨ht.1.prune seq, ht.2.trans hs (Store.leadsTo_prune ht.1.keyed.toNumbered seq)⟩
  · exact ⟨ht.1.removeEntry hremovable.orphan,
      ht.2.trans hs (Store.leadsTo_removeEntry hremovable.oldest)⟩

theorem Occurrence.passes (x : Occurrence) (h : s.Consistent loads) :
    Passes (loads ++ x.loads s) s (x.course s ++ [x.result s]) := by
  have hsame : loads ++ [] = loads := List.append_nil _
  cases x with
  | upsert r =>
      refine hsame.symm ▸ passes_pair h ?_
      exact snd_write (Q := fun t => t.Consistent loads ∧ s.LeadsTo t) _ ⟨h, .refl s⟩
        ⟨h.upsert r, s.leadsTo_upsert r⟩
  | delete id =>
      refine hsame.symm ▸ passes_pair h ?_
      exact snd_write (Q := fun t => t.Consistent loads ∧ s.LeadsTo t) _ ⟨h, .refl s⟩
        ⟨h.deleteDocument id, s.leadsTo_deleteDocument id⟩
  | ingest t base c => exact hsame.symm ▸ passes_ingest h t base c
  | reindex o env steps => exact passes_reindex h o env steps
  | repair cancelled =>
      exact hsame.symm ▸ passes_pair h (Repair.of_keeps_run (keeps_repair h cancelled))
  | brokenRepair cancelled =>
      exact hsame.symm ▸ passes_pair h (keeps_repair h cancelled).durable

theorem Occurrence.exists_document_of_load (x : Occurrence) (hs : s.Numbered) {l : Load}
    (hl : l ∈ x.loads s) : ∃ e ∈ s.documents, e.seq = l.candidate.seq ∧ e.id = l.candidate.id := by
  cases x with
  | reindex o env steps =>
      obtain ⟨d, hd, hloaded⟩ := List.mem_filterMap.mp hl
      obtain ⟨m, -, rfl⟩ := Option.map_eq_some_iff.mp hloaded
      exact exists_document_of_asked o env hs hd
  | _ => cases hl

/-! ## Chronicles -/

namespace Chronicle

structure Coherent (c : Chronicle) : Prop where
  consistent : ∀ t ∈ c.durable, t.Consistent c.loads
  loaded : ∀ l ∈ c.loads, ∃ t ∈ c.durable, ∃ e ∈ t.documents,
    e.seq = l.candidate.seq ∧ e.id = l.candidate.id
  succession : c.durable.Pairwise Store.LeadsTo

variable {c : Chronicle}

theorem store_mem_durable (c : Chronicle) : c.store ∈ c.durable :=
  List.mem_append_right _ (List.mem_singleton_self _)

theorem coherent_start : start.Coherent where
  consistent t ht := List.mem_singleton.mp ht ▸ Store.consistent_empty
  loaded l hl := by cases hl
  succession := List.pairwise_singleton _ _

theorem Coherent.record (h : c.Coherent) (x : Occurrence) : (c.record x).Coherent := by
  have hstore := h.consistent c.store c.store_mem_durable
  have hpasses := x.passes hstore
  have hdurable : (c.record x).durable = c.passed ++ (x.course c.store ++ [x.result c.store]) :=
    List.append_assoc _ _ _
  obtain ⟨hpassed, -, hbefore⟩ := List.pairwise_append.mp h.succession
  have hkept : ∀ t ∈ c.durable, t ∈ (c.record x).durable := by
    intro t ht
    rw [hdurable]
    rcases List.mem_append.mp ht with ht | ht
    · exact List.mem_append_left _ ht
    · rw [List.mem_singleton.mp ht]
      exact List.mem_append_right _ (List.mem_of_head? hpasses.begins)
  refine ⟨fun t ht => ?_, fun l hl => ?_, ?_⟩
  · rw [hdurable] at ht
    rcases List.mem_append.mp ht with ht | ht
    · exact (h.consistent t (List.mem_append_left _ ht)).loadMore _
    · exact hpasses.consistent t ht
  · rcases List.mem_append.mp hl with hl | hl
    · obtain ⟨t, ht, hdocument⟩ := h.loaded l hl
      exact ⟨t, hkept t ht, hdocument⟩
    · exact ⟨c.store, hkept _ c.store_mem_durable,
        x.exists_document_of_load hstore.keyed.toNumbered hl⟩
  · rw [hdurable]
    refine List.pairwise_append.mpr ⟨hpassed, hpasses.succession, fun t ht u hu => ?_⟩
    have hnumbered := (h.consistent t (List.mem_append_left _ ht)).keyed.toNumbered
    exact (hbefore t ht c.store (List.mem_singleton_self _)).trans hnumbered (hpasses.leadsTo hu)

end Chronicle

/-- The induction is on the occurrences from the last one back. -/
theorem coherent_chronicle (occurrences : List Occurrence) : (chronicle occurrences).Coherent := by
  induction occurrences using List.reverseRecOn with
  | nil => exact Chronicle.coherent_start
  | append_singleton occurrences x ih =>
      unfold chronicle
      rw [List.foldl_append]
      exact ih.record x

/-- Whatever happens to an empty store, and in which order: in all that is ever durable the index
has the rows of the ledger, every document that has been indexed has an entry, and the entries, from
the lowest number to the highest, were made of messages loaded one after the other. These were
loaded for documents with the numbers that the entries carry, and each durable store leads to all
later ones. -/
theorem chronicle_inStep (occurrences : List Occurrence) :
    let c := chronicle occurrences
    (∀ t ∈ c.durable,
      (t.index.rows.map (·.id)).Perm (t.entries.map (·.id)) ∧
      (∀ d ∈ t.documents, d.indexedHash.isSome = true ∨ d.indexedAt.isSome = true →
        t.entriesOf d.seq ≠ []) ∧
      t.entries.Pairwise (·.id < ·.id) ∧ t.contents.Sublist (c.loads.map Load.content)) ∧
    (∀ l ∈ c.loads, ∃ t ∈ c.durable, ∃ d ∈ t.documents,
      d.seq = l.candidate.seq ∧ d.id = l.candidate.id) ∧
    c.durable.Pairwise Store.LeadsTo := by
  intro c
  have hcoherent : c.Coherent := coherent_chronicle occurrences
  refine ⟨fun t ht => ?_, hcoherent.loaded, hcoherent.succession⟩
  have hconsistent := hcoherent.consistent t ht
  have hids : (t.entries.map (·.id)).Nodup :=
    List.pairwise_map.mpr (hconsistent.indexed.ascending.imp Nat.ne_of_lt)
  refine ⟨?_, hconsistent.owned, hconsistent.indexed.ascending, hconsistent.contents⟩
  refine (List.perm_ext_iff_of_nodup hconsistent.indexed.rows hids).mpr fun entry => ?_
  simpa using hconsistent.indexed.mem_rows entry

/-- A document is indexed, deleted and recorded again; a run that has indexed it breaks off before
it commits. The next run takes the number that was lost, and a repair takes the old entry out. -/
example :
    let m (subject : Text) : Message := ⟨subject, [], [], [], [], [], none⟩
    let env (subject : Text) : Surroundings :=
      ⟨fun _ => some (m subject), fun _ => false, fun _ => [], 7⟩
    let c := chronicle [.upsert ⟨['a'], some ['h'], none, none, none⟩,
      .reindex (overAll 1 10) (env ['x']) 20, .delete ['a'],
      .upsert ⟨['a'], some ['h'], none, none, none⟩, .reindex (overAll 2 10) (env ['y']) 6,
      .reindex (overAll 2 10) (env ['z']) 20, .repair fun _ => false]
    c.store.entries = [⟨2, 2⟩] ∧ c.store.textOf? 2 = some (.ofMessage (m ['z'])) ∧
      c.loads.map (·.candidate.seq) = [1, 2, 2] := by
  decide +kernel

end MailIndex.Check
