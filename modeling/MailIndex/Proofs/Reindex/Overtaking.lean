import MailIndex.Proofs.Reindex.Atomicity
import MailIndex.Proofs.Reindex.Interleaving
import MailIndex.Proofs.Reindex.Loads

/-!
# Documents that others overtake

While a run loads its candidates, others may change a candidate, delete it, or delete it and make it
again. A document is marked with the content hash that its candidate had when it was selected. So
one that has changed since then does not pass for fresh. An entry is made only for a document that is
there, and a number is never given out again. So what is deleted gets no further entry, and what has
taken its name is left to the next run.
-/

namespace MailIndex.Reindex

/-- What is durable when others have written after so many steps of a run. -/
def durableAmid (o : Options) (env : Surroundings) (writes : Nat → List OutsideWrite) (s : Store)
    (k : Nat) : Store := ((Run.amid o env writes s k).interfere (writes k)).session.durable

def leftAmid (o : Options) (env : Surroundings) (writes : Nat → List OutsideWrite) (s : Store)
    (n : Nat) (later : List OutsideWrite) : Store :=
  later.foldl OutsideWrite.apply (Run.amid o env writes s n).session.durable

variable {o : Options} {env : Surroundings} {writes : Nat → List OutsideWrite} {s t base : Store}

/-! ## The next run -/

/-- The next run over all documents selects a document, unless it is told to index all of them
anew. -/
def SelectedNext (t : Store) (d : Document) : Prop :=
  ∀ (o : Options) (env : Surroundings), o.selector = .all → o.force = false →
    ∃ had found, (Run.advances o env 4 (Run.start t)).stage = .selected .all had found ∧ d ∈ found

def Run.reading (t : Store) (stage : Stage) : Run := ⟨.start t, stage, [], [.selecting]⟩

theorem advance_start (env : Surroundings) (hall : o.selector = .all) :
    (Run.start t).advance o env = Run.reading t (.scoped .all) := by
  show Run.resolve o (Run.start t) = _
  unfold Run.resolve
  rw [hall]
  rfl

theorem exists_noted (o : Options) (env : Surroundings) (htable : Table.documents ∉ t.missing)
    (scope : Scope) :
    ∃ had, (Run.reading t (.scoped scope)).advance o env = Run.reading t (.noted scope had) := by
  refine ⟨(t.documents.filter fun d => d.indexedHash.isSome && scope.contains d.seq).map (·.seq),
    ?_⟩
  show Run.proceed _ (t.needing _ _) _ = _
  rw [Store.needing_of_present htable]
  rfl

theorem advance_noted (env : Surroundings) (hunforced : o.force = false) (scope : Scope)
    (had : List Nat) :
    (Run.reading t (.noted scope had)).advance o env = Run.reading t (.prepared scope had) :=
  if_neg (by rw [hunforced]; exact Bool.false_ne_true)

theorem advance_prepared (o : Options) (env : Surroundings) (htable : Table.documents ∉ t.missing)
    (scope : Scope) (had : List Nat) :
    (Run.reading t (.prepared scope had)).advance o env =
      Run.reading t (.selected scope had (candidates t o.selector scope)) := by
  show Run.proceed _ (t.needing _ _) _ = _
  rw [Store.needing_of_present htable]
  rfl

theorem exists_selected (o : Options) (env : Surroundings) (hall : o.selector = .all)
    (hunforced : o.force = false) (htable : Table.documents ∉ t.missing) :
    ∃ had, (Run.advances o env 4 (Run.start t)).stage =
      .selected .all had (candidates t .all .all) := by
  obtain ⟨had, hnoted⟩ := exists_noted o env htable .all
  refine ⟨had, ?_⟩
  simp only [Run.advances, advance_start env hall, hnoted, advance_noted env hunforced,
    advance_prepared o env htable, hall]
  rfl

theorem selectedNext_of_stale {d : Document} (htable : Table.documents ∉ t.missing)
    (hd : d ∈ t.documents) (hstale : d.isFresh = false) : SelectedNext t d := by
  intro o env hall hunforced
  obtain ⟨had, hstage⟩ := exists_selected o env hall hunforced htable
  refine ⟨had, _, hstage, List.mem_filter.mpr ⟨hd, ?_⟩⟩
  simp [hstale, Scope.contains]

/-! ## What is marked -/

def HasNewEntry (base t : Store) (seq : Nat) : Prop :=
  ∃ entry ∈ t.entriesOf seq, base.lastEntry < entry

/-- What has been made of `base`, in which some candidates were selected. -/
structure Marked (base : Store) (found : List Document) (t : Store) : Prop where
  keyed : t.Keyed
  table : Table.documents ∉ t.missing
  leads : base.LeadsTo t
  /-- What has taken a number since then is not indexed. -/
  unindexed : ∀ d ∈ t.documents, base.lastSeq < d.seq → d.indexedHash = none
  unentered : ∀ seq, base.lastSeq < seq → ∀ entry ∈ t.entriesOf seq, entry ≤ base.lastEntry
  /-- Where there is a new entry, the document is marked with the hash that the candidate had. -/
  marked : ∀ c ∈ found, ∀ hash, c.contentHash = some hash → ∀ d ∈ t.documents, d.seq = c.seq →
    HasNewEntry base t d.seq → d.indexedHash = some hash

variable {found : List Document}

theorem marked_base (hbase : base.Keyed) (htable : Table.documents ∉ base.missing) :
    Marked base found base where
  keyed := hbase
  table := htable
  leads := .refl base
  unindexed d hd hlater := absurd (hbase.le_lastSeq d hd) (Nat.not_le_of_lt hlater)
  unentered _ _ _ hentry := hbase.le_of_mem_entriesOf hentry
  marked _ _ _ _ _ _ _ hnew := by
    obtain ⟨entry, hentry, hlater⟩ := hnew
    exact absurd (hbase.le_of_mem_entriesOf hentry) (Nat.not_le_of_lt hlater)

section

variable (hbase : base.Keyed) (hfound : found ⊆ base.documents)

include hbase hfound

theorem Marked.index (h : Marked base found t) {c : Document} (hc : c ∈ found)
    (hpresent : (t.findSeq? c.seq).isSome = true) (m : Message) :
    Marked base found ((Move.index c m).apply o env t) := by
  have hadds : Adds o env.now c m t _ := adds_index hpresent m
  have hknown : c.seq ≤ base.lastSeq := hbase.le_lastSeq c (hfound hc)
  have hleads : base.LeadsTo ((Move.index c m).apply o env t) :=
    h.leads.trans hbase.toNumbered (leadsTo_move h.keyed.toNumbered (.index c m))
  refine ⟨keyed_apply h.keyed _, by rw [missing_apply]; exact h.table, hleads,
    fun d hd hlater => ?_, fun seq hlater entry hentry => ?_,
    fun c' hc' hash hhash d hd hseq hnew => ?_⟩
  · rw [hadds.documents] at hd
    obtain ⟨e, he, rfl⟩ := List.mem_map.mp hd
    by_cases hsame : e.seq = c.seq
    · rw [if_pos hsame] at hlater
      change base.lastSeq < e.seq at hlater
      omega
    · rw [if_neg hsame] at hlater ⊢
      exact h.unindexed e he hlater
  · rw [hadds.entriesOf, if_neg (by omega), List.append_nil] at hentry
    exact h.unentered seq hlater entry hentry
  · rw [hadds.documents] at hd
    obtain ⟨e, he, rfl⟩ := List.mem_map.mp hd
    by_cases hsame : e.seq = c.seq
    · -- The candidate that is indexed is the one with this number.
      rw [if_pos hsame] at hseq ⊢
      have hone : c' = c :=
        hbase.toIdentified.eq_of_seq (hfound hc') (hfound hc) (hseq.symm.trans hsame)
      rw [hone] at hhash
      simp [Document.indexed, Run.hashFor, hhash]
    · rw [if_neg hsame] at hseq hnew ⊢
      unfold HasNewEntry at hnew
      rw [hadds.entriesOf, if_neg hsame, List.append_nil] at hnew
      exact h.marked c' hc' hash hhash e he hseq hnew

omit hfound in
theorem Marked.prune (h : Marked base found t) (seq : Nat) :
    Marked base found (t.prune seq).1 := by
  have hdocuments := Store.documents_prune t seq
  refine ⟨h.keyed.prune seq, ?_, h.leads.trans hbase.toNumbered
    (Store.leadsTo_prune h.keyed.toNumbered seq), fun d hd hlater => ?_,
    fun q hlater entry hentry => ?_, fun c hc hash hhash d hd hseq hnew => ?_⟩
  · rw [Store.fst_prune, Store.foldl_removeEntry]
    exact h.table
  · exact h.unindexed d (hdocuments ▸ hd) hlater
  · exact h.unentered q hlater entry (Store.of_mem_entriesOf_prune hentry).1
  · obtain ⟨entry, hentry, hlater⟩ := hnew
    exact h.marked c hc hash hhash d (hdocuments ▸ hd) hseq
      ⟨entry, (Store.of_mem_entriesOf_prune hentry).1, hlater⟩

theorem Marked.outside (h : Marked base found t) (write : OutsideWrite) :
    Marked base found (write.apply t) := by
  refine ⟨keyed_outside h.keyed write, (outside_apply write t).2.2.2.symm ▸ h.table,
    h.leads.trans hbase.toNumbered (leadsTo_outside write t), fun d hd hlater => ?_,
    fun seq hlater entry hentry => ?_, fun c hc hash hhash d hd hseq hnew => ?_⟩
  · rcases mem_outside write hd with ⟨e, he, hsame, -, hindexed, -⟩ | ⟨-, -, hnone, -⟩
    · exact hindexed ▸ h.unindexed e he (hsame ▸ hlater)
    · exact hnone
  · rw [entriesOf_outside] at hentry
    exact h.unentered seq hlater entry hentry
  · unfold HasNewEntry at hnew
    rw [entriesOf_outside] at hnew
    rcases mem_outside write hd with ⟨e, he, hsame, -, hindexed, -⟩ | ⟨hfresh, -, -, -⟩
    · exact hindexed ▸ h.marked c hc hash hhash e he (hsame.trans hseq) (hsame ▸ hnew)
    · -- A candidate does not have a number that is given out only now.
      have hknown := hbase.le_lastSeq c (hfound hc)
      have hgrown := h.leads.lastSeq
      omega

end

/-- Unless it fails, a step leaves a new entry where one was, and makes one for a candidate that it
counts. -/
theorem entered_step {r : Run} (hmarked : Marked base found r.session.view)
    (hawaits : r.stage.Awaits (· ∈ found)) {counted : List Document}
    (h : ∀ c ∈ counted, c ∈ found ∧ HasNewEntry base r.session.view c.seq) :
    (∃ e, (r.step o env).stage = .failed e) ∨
      ∀ c ∈ counted ++ (r.stage.finished? (r.step o env).stage).toList,
        c ∈ found ∧ HasNewEntry base (r.step o env).session.view c.seq := by
  cases view_step o env r with
  | inl hfailed => exact .inl hfailed
  | inr hview =>
      have hkeeps : Keeps r.session.view (r.step o env).session.view := by
        cases hview with
        | inl hsame =>
            rw [hsame]
            exact Keeps.refl _
        | inr hwritten => exact keeps_written hwritten hmarked.keyed.toNumbered
      refine .inr fun c hc => ?_
      rcases List.mem_append.mp hc with hc | hc
      · obtain ⟨hfound, entry, hentry, hnew⟩ := h c hc
        obtain ⟨newer, hnewer, hle⟩ := hkeeps c.seq entry hentry
        exact ⟨hfound, newer, hnewer, Nat.lt_of_lt_of_le hnew hle⟩
      · obtain ⟨had, left, toPrune, tally, m, hstage, hpresent, hwritten⟩ :=
          of_finished?_step (Option.mem_toList.mp hc)
        rw [hstage] at hawaits
        rw [hwritten]
        refine ⟨hawaits c (List.mem_cons_self ..), r.session.view.lastEntry + 1, ?_,
          Nat.lt_succ_of_le hmarked.leads.lastEntry⟩
        rw [(adds_index hpresent m).entriesOf, if_pos rfl]
        exact List.mem_append_right _ (List.mem_singleton_self _)

section

variable {scope : Scope} {had : List Nat} {m n : Nat} (hs : s.Keyed) (hle : m ≤ n)
  (hstage : (Run.amid o env writes s m).stage = .selected scope had found)

include hle hstage

theorem awaits_found : (Run.amid o env writes s n).stage.ahead ≤ 1 ∧
    (Run.amid o env writes s n).stage.Awaits (· ∈ found) := by
  refine ahead_awaits_amid hle ?_ ?_
  · rw [hstage]
    exact Nat.le_refl _
  · rw [hstage]
    exact fun _ hc => hc

omit hle

include hs

theorem found_amid : (Run.amid o env writes s m).session.durable.Keyed ∧
    found ⊆ (Run.amid o env writes s m).session.durable.documents := by
  obtain ⟨-, -, hselected⟩ := of_selected_amid hstage
  exact ⟨(keyed_amid hs m).durable, hselected ▸ List.filter_subset_self _⟩

include hle

/-- When candidates are selected none of them is marked, and from then on every write keeps what is
marked right. -/
theorem marked_amid : (Run.amid o env writes s n).session.Keeps
    (Marked (Run.amid o env writes s m).session.durable found) := by
  obtain ⟨hnone, htable, -⟩ := of_selected_amid hstage
  obtain ⟨hbase, hfound⟩ := found_amid hs hstage
  have hstart : Marked _ found _ := marked_base hbase htable
  refine keeps_amid hle ⟨hstart, (view_of_uncommitted hnone).symm ▸ hstart⟩
    (fun j hj r t hsame ht h => ?_) fun write _ h => h.outside hbase hfound write
  obtain ⟨hlate, hawaits⟩ := awaits_found hj hstage
  rw [← hsame] at hlate hawaits
  cases ht with
  | unindexed hnoted =>
      rw [hnoted] at hlate
      simp [Stage.ahead] at hlate
  | indexed hindexing hpresent =>
      rw [hindexing] at hawaits
      exact h.index hbase hfound (hawaits _ (List.mem_cons_self ..)) hpresent _
  | pruned seq => exact h.prune hbase seq

/-- Unless it fails, a run sees a new entry for each candidate that it has counted as indexed. -/
theorem entered_amid : (∃ e, (Run.amid o env writes s n).stage = .failed e) ∨
    ∀ c ∈ Run.finishesAmid o env writes s n, c ∈ found ∧
      HasNewEntry (Run.amid o env writes s m).session.durable
        (Run.amid o env writes s n).session.view c.seq := by
  obtain ⟨hbase, hfound⟩ := found_amid hs hstage
  induction hle with
  | refl =>
      rw [finishesAmid_eq_nil (by rw [hstage]; exact Nat.le_refl _)]
      exact .inr fun c hc => absurd hc List.not_mem_nil
  | @step n hle ih =>
      have hmarked := keeps_interfere (fun write _ h => h.outside hbase hfound write)
        (marked_amid hs hle hstage) (writes n)
      have hnext := next_step o env ((Run.amid o env writes s n).interfere (writes n))
      rw [Run.stage_interfere] at hnext
      cases ih with
      | inl hfailed =>
          obtain ⟨e, hfailed⟩ := hfailed
          rw [hfailed] at hnext
          exact .inl hnext.of_failed
      | inr hentered =>
          have hbetween : ∀ c ∈ Run.finishesAmid o env writes s n, c ∈ found ∧
              HasNewEntry (Run.amid o env writes s m).session.durable
                ((Run.amid o env writes s n).interfere (writes n)).session.view c.seq := by
            unfold HasNewEntry
            simp only [entriesOf_view_interfere]
            exact hentered
          have hawaits := (awaits_found hle hstage).2
          rw [← Run.stage_interfere _ (writes n)] at hawaits
          rw [Run.finishesAmid, Run.amid, ← Run.stage_interfere (Run.amid o env writes s n)
            (writes n)]
          exact entered_step hmarked.view hawaits hbetween

end

/-! ## What is gone -/

def Gone (t : Store) (seq : Nat) : Prop :=
  seq ≤ t.lastSeq ∧ ∀ d ∈ t.documents, d.seq ≠ seq

/-- A number whose document is gone has no entries but some that it had. -/
structure Sealed (seq : Nat) (owned : List Nat) (t : Store) : Prop where
  gone : Gone t seq
  entries : ∀ entry ∈ t.entriesOf seq, entry ∈ owned

theorem Sealed.of_seqs {seq : Nat} {owned : List Nat} (h : Sealed seq owned s)
    (hlast : t.lastSeq = s.lastSeq)
    (hseqs : t.documents.map (·.seq) = s.documents.map (·.seq))
    (hentries : ∀ row ∈ t.entries, row ∈ s.entries ∨ row.docSeq ∈ s.documents.map (·.seq)) :
    Sealed seq owned t := by
  have hnone : seq ∉ s.documents.map (·.seq) := by
    intro hmem
    obtain ⟨d, hd, hseq⟩ := List.mem_map.mp hmem
    exact h.gone.2 d hd hseq
  refine ⟨⟨hlast ▸ h.gone.1, fun d hd hseq => hnone ?_⟩, fun entry hentry => ?_⟩
  · rw [← hseqs]
    exact List.mem_map.mpr ⟨d, hd, hseq⟩
  · cases hentries _ (Store.mem_entriesOf.mp hentry) with
    | inl hold => exact h.entries entry (Store.mem_entriesOf.mpr hold)
    | inr howner => exact absurd howner hnone

theorem Sealed.outside {seq : Nat} {owned : List Nat} (h : Sealed seq owned t)
    (write : OutsideWrite) : Sealed seq owned (write.apply t) := by
  refine ⟨⟨Nat.le_trans h.gone.1 (lastSeq_outside write t), fun d hd hseq => ?_⟩,
    fun entry hentry => ?_⟩
  · rcases mem_outside write hd with ⟨e, he, hsame, -⟩ | ⟨hfresh, -⟩
    · exact h.gone.2 e he (hsame.trans hseq)
    · have htaken := h.gone.1
      omega
  · rw [entriesOf_outside] at hentry
    exact h.entries entry hentry

theorem sealed_amid {k n seq : Nat} (hlt : k < n)
    (hgone : Gone (durableAmid o env writes s k) seq) :
    (Run.amid o env writes s n).session.Keeps
      (Sealed seq ((durableAmid o env writes s k).entriesOf seq)) := by
  have habreast : Abreast ((Run.amid o env writes s k).interfere (writes k)).session :=
    (abreast_amid k).interfere (writes k)
  have hnext : Run.amid o env writes s (k + 1) =
    ((Run.amid o env writes s k).interfere (writes k)).step o env := rfl
  unfold durableAmid at hgone ⊢
  generalize (Run.amid o env writes s k).interfere (writes k) = r at *
  have hdurable : Sealed seq (r.session.durable.entriesOf seq) r.session.durable :=
    ⟨hgone, fun _ hentry => hentry⟩
  have hview := hdurable.of_seqs habreast.lastSeq habreast.seqs habreast.entries
  have hwritten : ∀ (r' : Run) (t : Store), Written o env r' t →
      Sealed seq (r.session.durable.entriesOf seq) r'.session.view →
      Sealed seq (r.session.durable.entriesOf seq) t := by
    intro r' t ht h
    obtain ⟨hlast, hseqs, hentries⟩ := of_written ht
    exact h.of_seqs hlast hseqs hentries
  refine keeps_amid hlt ?_ (fun _ _ r' t _ => hwritten r' t) fun write _ h => h.outside write
  rw [hnext]
  exact (turns_step o env r).keeps ⟨hdurable, hview⟩ fun t ht => hwritten r t ht hview

/-! ## The main result -/

/-- What a run that selected some candidates from `before` leaves to the next one. -/
structure Noticed (before : Store) (found : List Document) (after : Store) : Prop where
  /-- A candidate that has a new entry and whose content hash is no longer the one that it had. -/
  changed : ∀ c ∈ found, ∀ hash, c.contentHash = some hash → ∀ d ∈ after.documents, d.seq = c.seq →
    HasNewEntry before after d.seq → d.contentHash ≠ some hash →
    d.isFresh = false ∧ SelectedNext after d
  /-- A document that has the name of a candidate, but not its number. -/
  replaced : ∀ c ∈ found, ∀ d ∈ after.documents, d.id = c.id → d.seq ≠ c.seq →
    d.indexedHash = none ∧ (∀ entry ∈ after.entriesOf d.seq, entry ∈ before.entriesOf d.seq) ∧
      SelectedNext after d

theorem finished_of_outcome? {r : Run} {report : Report} (h : r.outcome? = some (.ok report)) :
    r.stage = .finished report := by
  unfold Run.outcome? at h
  split at h <;> cases h
  assumption

theorem Marked.noticed (hbase : base.Keyed) (hfound : found ⊆ base.documents)
    (h : Marked base found t) : Noticed base found t where
  changed c hc hash hhash d hd hseq hnew hchanged := by
    have hmark := h.marked c hc hash hhash d hd hseq hnew
    have hstale : d.isFresh = false := by
      unfold Document.isFresh
      rw [hmark]
      simp [Ne.symm hchanged]
    exact ⟨hstale, selectedNext_of_stale h.table hd hstale⟩
  replaced c hc d hd hid hother := by
    have hlater : base.lastSeq < d.seq := by
      by_contra hnot
      obtain ⟨e, he, hseq, heid⟩ := h.leads.documents d hd (Nat.le_of_not_lt hnot)
      have hone := hbase.toIdentified.eq_of_id he (hfound hc) (heid.trans hid)
      exact hother (hseq.symm.trans (hone ▸ rfl))
    have hnone := h.unindexed d hd hlater
    have hstale : d.isFresh = false := by
      unfold Document.isFresh
      rw [hnone]
      cases d.contentHash <;> rfl
    refine ⟨hnone, fun entry hentry => ?_, selectedNext_of_stale h.table hd hstale⟩
    have hrow := Store.mem_entriesOf.mp hentry
    exact Store.mem_entriesOf.mpr
      (h.leads.entries _ hrow (h.unentered d.seq hlater entry hentry)).1

/-- However others write amid a run and after it, and wherever it stops: no change to a candidate is
lost, neither is a document that has taken the name of one, and what is gone gets no further entry.
A run that has come to its end has left a new entry for each candidate that it counts as indexed. -/
theorem overtaking_is_noticed (o : Options) (env : Surroundings)
    (writes : Nat → List OutsideWrite) (hs : s.Keyed) (n : Nat) (later : List OutsideWrite) :
    (∀ m ≤ n, ∀ scope had found,
      (Run.amid o env writes s m).stage = .selected scope had found →
        Noticed (Run.amid o env writes s m).session.durable found
          (leftAmid o env writes s n later) ∧
        ∀ report, (Run.amid o env writes s n).outcome? = some (.ok report) →
          ∀ c ∈ Run.finishesAmid o env writes s n, c ∈ found ∧
            HasNewEntry (Run.amid o env writes s m).session.durable
              (leftAmid o env writes s n later) c.seq) ∧
    ∀ k < n, ∀ seq, Gone (durableAmid o env writes s k) seq →
      Sealed seq ((durableAmid o env writes s k).entriesOf seq)
        (Run.amid o env writes s n).session.view ∧
      Sealed seq ((durableAmid o env writes s k).entriesOf seq) (leftAmid o env writes s n later) := by
  refine ⟨fun m hle scope had found hstage => ⟨?_, fun report hended => ?_⟩,
    fun k hlt seq hgone => ?_⟩
  · obtain ⟨hbase, hfound⟩ := found_amid hs hstage
    have hmarked := (marked_amid hs hle hstage).durable
    exact (foldl_outside (fun write _ h => h.outside hbase hfound write) later hmarked).noticed
      hbase hfound
  · have hfinished := finished_of_outcome? hended
    have hview := view_of_uncommitted (uncommitted_of_finished hfinished)
    cases entered_amid hs hle hstage with
    | inl hfailed =>
        obtain ⟨e, hfailed⟩ := hfailed
        rw [hfinished] at hfailed
        cases hfailed
    | inr hentered =>
        unfold HasNewEntry leftAmid at *
        rw [hview] at hentered
        simp only [entriesOf_foldl_outside]
        exact hentered
  · have hsealed := sealed_amid hlt hgone
    exact ⟨hsealed.view, foldl_outside (fun write _ h => h.outside write) later hsealed.durable⟩

/-- Before the first of two candidates is loaded, it is ingested with another content hash, and the
second is deleted and ingested again. -/
theorem overtaking_is_noticed_of_two :
    let s : Store :=
      ⟨[⟨1, ['a'], none, none, some ['x'], none, none, none, none⟩,
        ⟨2, ['b'], none, none, some ['y'], none, none, none, none⟩], 2, [], 0, .empty, []⟩
    let o : Options := ⟨.all, false, 1, 10⟩
    let env : Surroundings :=
      ⟨fun _ => some ⟨['n'], [], [], [], [], [], none⟩, fun _ => false, fun _ => [], 7⟩
    let writes : Nat → List OutsideWrite := fun k =>
      if k = 5 then
        [.upsert ⟨['a'], some ['z'], none, none, none⟩, .delete ['b'],
          .upsert ⟨['b'], some ['y'], none, none, none⟩]
      else []
    let after := leftAmid o env writes s 9 []
    Noticed s s.documents after ∧ HasNewEntry s after 1 ∧ Sealed 2 [] after ∧
      after.documents.map (fun d => (d.seq, d.contentHash, d.indexedHash)) =
        [(1, some ['z'], some ['x']), (4, some ['y'], none)] ∧
      after.entries = [⟨1, 1⟩] := by
  intro s o env writes after
  have hs : s.Keyed := ⟨⟨by decide, by decide⟩, ⟨by decide, by decide⟩, by decide⟩
  obtain ⟨hnoticed, hsealed⟩ := overtaking_is_noticed o env writes hs 9 []
  have hstage : (Run.amid o env writes s 4).stage = .selected .all [] s.documents := rfl
  have hbefore : (Run.amid o env writes s 4).session.durable = s := by decide +kernel
  have hgone : Gone (durableAmid o env writes s 5) 2 := ⟨by decide +kernel, by decide +kernel⟩
  have hnone : (durableAmid o env writes s 5).entriesOf 2 = [] := by decide +kernel
  have hended : (Run.amid o env writes s 9).outcome? =
      some (.ok ⟨.completed, 2, 1, 1, 0, 0, 2⟩) := by decide +kernel
  have hcounted : Run.finishesAmid o env writes s 9 = s.documents.take 1 := by decide +kernel
  obtain ⟨hleft, hentered⟩ := hnoticed 4 (by decide) .all [] s.documents hstage
  rw [hbefore] at hleft hentered
  rw [hcounted] at hentered
  have hnew : HasNewEntry s after 1 := (hentered _ hended _ (List.mem_cons_self ..)).2
  have hkept := (hsealed 5 (by decide) 2 hgone).2
  rw [hnone] at hkept
  exact ⟨hleft, hnew, hkept, by decide +kernel, by decide +kernel⟩

end MailIndex.Reindex
