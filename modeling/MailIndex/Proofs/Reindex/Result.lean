import MailIndex.Proofs.Reindex.Account

/-!
# What a run leaves behind

A run that ends well, and to which nobody else has written, is described in full by the store that
it began with, the answers of the source and the point at which it was cancelled: which candidates
it asked for, what each document looks like now, and which entries every document owns.
-/

namespace MailIndex.Reindex

/-- The store that a run leaves, in terms of the one that it began with. -/
structure Reindexed (o : Options) (env : Surroundings) (s : Store) (report : Report) (r : Run) :
    Prop where
  candidates : report.candidates = (o.wanted s).length
  ascending : (o.wanted s).Pairwise (·.seq < ·.seq)
  asked : r.asked = (o.wanted s).take (report.candidates - report.remaining)
  running : ∀ n, n < r.asked.length → env.cancelled n = false
  stopped : r.asked = o.wanted s ∨ env.cancelled r.asked.length = true
  documents : r.session.durable.documents =
    s.documents.map fun d => afterReached o env r.asked (o.prepared d)
  /-- A candidate that was loaded is fresh, and has the derived columns of its message. -/
  fresh : ∀ d ∈ r.asked, ∀ m, env.load d = some m →
    ∃ e ∈ r.session.durable.documents, e.seq = d.seq ∧ e.isFresh = true ∧
      e.derived = some (Derived.ofMessage m o.snippetChars) ∧
      e.indexedHash = some (Run.hashFor d m)
  /-- Its only entry is a new one with the text of the message. -/
  loaded : ∀ d ∈ r.asked, ∀ m, env.load d = some m →
    ∃ entry, s.lastEntry < entry ∧ r.session.durable.entriesOf d.seq = [entry] ∧
      r.session.durable.textOf? entry = some (.ofMessage m)
  /-- What else is in scope owns at most the highest of its entries. -/
  covered : ∀ seq, o.selector.covers s seq = true →
    (∀ d ∈ r.asked, d.seq = seq → env.load d = none) →
    r.session.durable.entriesOf seq = (s.entriesOf seq).max?.toList
  outside : ∀ seq, o.selector.covers s seq = false →
    r.session.durable.entriesOf seq = s.entriesOf seq
  /-- Entries that are not new have kept their texts. -/
  texts : ∀ seq, ∀ entry ∈ r.session.durable.entriesOf seq, entry ≤ s.lastEntry →
    r.session.durable.textOf? entry = s.textOf? entry
  indexed : r.session.durable.Indexed

variable {o : Options} {env : Surroundings} {s : Store} {scope : Scope}

theorem indexed_preparedStore (h : s.Indexed) (scope : Scope) :
    (preparedStore o s scope).Indexed := by
  unfold preparedStore
  split
  · exact h.change _ _
  · exact h

theorem isFresh_settled {d : Document} {m : Message} (hload : env.load d = some m) :
    (settled o env d).isFresh = true ∧
      (settled o env d).derived = some (Derived.ofMessage m o.snippetChars) ∧
      (settled o env d).indexedHash = some (Run.hashFor d m) := by
  unfold settled
  rw [hload]
  exact ⟨isFresh_indexed d m _ _, rfl, rfl⟩

theorem picks_of_mem_wanted {d : Document} (hd : d ∈ o.wanted s) :
    ∃ e ∈ s.documents, e.seq = d.seq ∧ o.selector.picks e = true := by
  obtain ⟨e, he, hwants, rfl⟩ := mem_wanted hd
  unfold Options.wants at hwants
  rw [Bool.and_eq_true] at hwants
  exact ⟨e, he, (seq_prepared o e).symm, hwants.1⟩

theorem covers_of_mem_wanted {d : Document} (hd : d ∈ o.wanted s) :
    o.selector.covers s d.seq = true := by
  obtain ⟨e, he, hseq, hpicks⟩ := picks_of_mem_wanted hd
  rw [← hseq]
  exact covers_of_picks he hpicks

theorem explains_workOf (env : Surroundings) (hid : s.Identified) (hindexed : s.Indexed)
    (hscope : o.selector.scope s = .ok scope) {reached left : List Document}
    (hsplit : o.wanted s = reached ++ left) :
    Explains o env (hadIndexed s scope) (Work.start o s scope) reached
      (workOf o env s scope reached) := by
  have hdocuments : (Work.start o s scope).store.documents = s.documents.map o.prepared :=
    documents_preparedStore hid hscope
  have hsame : s.documents.map ((·.seq) ∘ o.prepared) = s.documents.map (·.seq) :=
    List.map_congr_left fun d _ => seq_prepared o d
  refine explains_takeAll (indexed_preparedStore hindexed scope) ?_ ?_ ?_
  · rw [hdocuments, List.map_map, hsame]
    exact hid.seqs
  · intro d hd
    have hwanted : d ∈ o.wanted s := by
      rw [hsplit]
      exact List.mem_append_left _ hd
    obtain ⟨e, he, -, rfl⟩ := mem_wanted hwanted
    rw [hdocuments]
    exact List.mem_map_of_mem he
  · have hall : ((o.wanted s).map (·.seq)).Nodup :=
      List.pairwise_map.mpr ((wanted_ascending hid).imp Nat.ne_of_lt)
    rw [hsplit, List.map_append] at hall
    exact (List.nodup_append.mp hall).1

theorem mem_toPrune_start (hid : s.Identified) (hscope : o.selector.scope s = .ok scope)
    {seq : Nat} : seq ∈ (Work.start o s scope).toPrune ↔
      o.selector.covers s seq = true ∧ 1 < (s.entriesOf seq).length := by
  have hduplicates : seq ∈ (preparedStore o s scope).duplicates.map (·.1) ↔
      1 < (s.entriesOf seq).length := by
    rw [Store.mem_owners_duplicates, entriesOf_preparedStore]
  unfold Work.start
  dsimp only
  rw [List.mem_filter, hduplicates, contains_eq_covers hid hscope, and_comm]

section

variable {had : List Nat} {reached : List Document} {w : Work}

/-- The newest entry of a candidate that was loaded is the only one that is left. -/
theorem Explains.entries_loaded (hindexed : s.Indexed)
    (h : Explains o env had (Work.start o s scope) reached w) {d : Document} (hd : d ∈ reached)
    {m : Message} (hload : env.load d = some m) :
    ∃ entry, s.lastEntry < entry ∧ (w.store.pruneAll w.toPrune).entriesOf d.seq = [entry] ∧
      (w.store.pruneAll w.toPrune).textOf? entry = some (.ofMessage m) := by
  obtain ⟨entry, hnew, hentries, htext⟩ := h.loaded d hd m hload
  have hstart : (Work.start o s scope).store.entriesOf d.seq = s.entriesOf d.seq :=
    entriesOf_preparedStore d.seq
  have hlast : (Work.start o s scope).store.lastEntry = s.lastEntry := lastEntry_preparedStore
  rw [hstart] at hentries
  rw [hlast] at hnew
  have hleft : (w.store.pruneAll w.toPrune).entriesOf d.seq = [entry] := by
    rw [h.indexed.entriesOf_pruneAll, hentries]
    by_cases hprune : d.seq ∈ w.toPrune
    · have hbelow : ∀ old ∈ s.entriesOf d.seq, old < entry := fun old hold =>
        Nat.lt_of_le_of_lt (hindexed.numbered.le_of_mem_entriesOf hold) hnew
      rw [if_pos hprune, Store.max?_concat hbelow]
      rfl
    · -- Whoever had entries before is pruned, so the new one has been alone from the start.
      have hnone : s.entriesOf d.seq = [] := by
        cases hown : s.entriesOf d.seq with
        | nil => rfl
        | cons old more =>
            have hin : d.seq ∈ w.toPrune := by
              rw [h.toPrune, hstart, hown]
              exact .inr ⟨d, hd, rfl, by simp [hload], .inl (by simp)⟩
            exact absurd hin hprune
      rw [if_neg hprune, hnone]
      rfl
  have hmem : entry ∈ (w.store.pruneAll w.toPrune).entriesOf d.seq := by simp [hleft]
  exact ⟨entry, hnew, hleft, (Store.textOf?_pruneAll hmem).2.trans htext⟩

/-- What is in scope keeps its newest entry, whether it had superseded entries or not. -/
theorem Explains.entries_covered (hid : s.Identified) (hscope : o.selector.scope s = .ok scope)
    (h : Explains o env had (Work.start o s scope) reached w) {seq : Nat}
    (hcovers : o.selector.covers s seq = true)
    (hnone : ∀ d ∈ reached, d.seq = seq → env.load d = none) :
    (w.store.pruneAll w.toPrune).entriesOf seq = (s.entriesOf seq).max?.toList := by
  have hstart : (Work.start o s scope).store.entriesOf seq = s.entriesOf seq :=
    entriesOf_preparedStore seq
  rw [h.indexed.entriesOf_pruneAll, h.untouched seq hnone, hstart]
  by_cases hprune : seq ∈ w.toPrune
  · rw [if_pos hprune]
  · have hfew : (s.entriesOf seq).length ≤ 1 := by
      refine Nat.le_of_not_lt fun hmany => hprune ?_
      rw [h.toPrune, mem_toPrune_start hid hscope]
      exact .inl ⟨hcovers, hmany⟩
    rw [if_neg hprune, Store.max?_toList_of_length_le hfew]

theorem Explains.entries_outside (hid : s.Identified) (hscope : o.selector.scope s = .ok scope)
    (h : Explains o env had (Work.start o s scope) reached w)
    (hwanted : ∀ d ∈ reached, d ∈ o.wanted s) {seq : Nat}
    (hcovers : o.selector.covers s seq = false) :
    (w.store.pruneAll w.toPrune).entriesOf seq = s.entriesOf seq := by
  have hother : ∀ d ∈ reached, d.seq ≠ seq := by
    rintro d hd rfl
    rw [covers_of_mem_wanted (hwanted d hd)] at hcovers
    cases hcovers
  have hkept : seq ∉ w.toPrune := by
    rw [h.toPrune, mem_toPrune_start hid hscope, hcovers]
    rintro (⟨hfalse, -⟩ | ⟨d, hd, hseq, -⟩)
    · cases hfalse
    · exact hother d hd hseq
  rw [h.indexed.entriesOf_pruneAll, if_neg hkept,
    h.untouched seq fun d hd hseq => absurd hseq (hother d hd)]
  exact entriesOf_preparedStore seq

theorem Explains.texts (h : Explains o env had (Work.start o s scope) reached w) {seq entry : Nat}
    (hmem : entry ∈ (w.store.pruneAll w.toPrune).entriesOf seq) (hold : entry ≤ s.lastEntry) :
    (w.store.pruneAll w.toPrune).textOf? entry = s.textOf? entry := by
  have hlast : (Work.start o s scope).store.lastEntry = s.lastEntry := lastEntry_preparedStore
  rw [(Store.textOf?_pruneAll hmem).2, h.textOf? entry (hlast.symm ▸ hold)]
  exact textOf?_preparedStore entry

theorem Explains.documents_left (hid : s.Identified) (hscope : o.selector.scope s = .ok scope)
    (h : Explains o env had (Work.start o s scope) reached w) :
    (w.store.pruneAll w.toPrune).documents =
      s.documents.map fun d => afterReached o env reached (o.prepared d) := by
  have hstart : (Work.start o s scope).store.documents = s.documents.map o.prepared :=
    documents_preparedStore hid hscope
  rw [Store.documents_pruneAll, h.documents, hstart, List.map_map]
  rfl

end

theorem Divides.asked_eq {r : Run} {rest : List Document} {tally : Tally}
    (h : Divides o env s scope r rest tally) (hid : s.Identified) {report : Report}
    (hcandidates : report.candidates = tally.total)
    (hremaining : report.remaining = tally.total - tally.processed) :
    report.candidates = (o.wanted s).length ∧
      r.asked = (o.wanted s).take (report.candidates - report.remaining) := by
  have hsplit : o.wanted s = r.asked ++ rest := by
    rw [← h.found, candidates_preparedStore hid h.resolved]
  have htotal : tally.total = r.asked.length + rest.length := by
    rw [h.total, List.length_append]
  have hreached : report.candidates - report.remaining = r.asked.length := by
    have hprocessed := h.processed
    omega
  refine ⟨by rw [hcandidates, h.total, hsplit], ?_⟩
  rw [hreached, hsplit, List.take_left]

/-- A run that ends well leaves the store as it is specified. -/
theorem complete_reindexes (hid : s.Identified) (hindexed : s.Indexed)
    (hout : ∀ n, env.outside n = []) {report : Report}
    (hreport : (Run.complete o env s).outcome? = some (.ok report)) :
    Reindexed o env s report (Run.complete o env s) := by
  obtain ⟨scope, rest, tally, hdivides, hstopped, hdurable, hcandidates, hremaining⟩ :=
    account_of_report hout hreport
  generalize Run.complete o env s = r at *
  have hscope := hdivides.resolved
  have hsplit : o.wanted s = r.asked ++ rest := by
    rw [← hdivides.found, candidates_preparedStore hid hscope]
  have hwanted : ∀ d ∈ r.asked, d ∈ o.wanted s := fun d hd =>
    hsplit.symm ▸ List.mem_append_left _ hd
  have hwork := explains_workOf env hid hindexed hscope hsplit
  generalize workOf o env s scope r.asked = w at *
  obtain ⟨hcount, hasked⟩ := hdivides.asked_eq hid hcandidates hremaining
  have hdocuments := hwork.documents_left hid hscope
  rw [← hdurable] at hdocuments
  refine ⟨hcount, wanted_ascending hid, hasked, hdivides.running, ?_, hdocuments, ?_, ?_, ?_, ?_,
    ?_, ?_⟩
  · rcases hstopped with rfl | hcancelled
    · exact .inl (by rw [hsplit, List.append_nil])
    · exact .inr hcancelled
  · intro d hd m hload
    obtain ⟨e, he, -, rfl⟩ := mem_wanted (hwanted d hd)
    obtain ⟨hfresh, hderived, hhash⟩ := isFresh_settled (o := o) hload
    have hafter : afterReached o env r.asked (o.prepared e) = settled o env (o.prepared e) :=
      if_pos hd
    refine ⟨settled o env (o.prepared e), ?_, seq_settled o env _, hfresh, hderived, hhash⟩
    rw [hdocuments, ← hafter]
    exact List.mem_map_of_mem he
  · intro d hd m hload
    rw [hdurable]
    exact hwork.entries_loaded hindexed hd hload
  · intro seq hcovers hnone
    rw [hdurable]
    exact hwork.entries_covered hid hscope hcovers hnone
  · intro seq hcovers
    rw [hdurable]
    exact hwork.entries_outside hid hscope hwanted hcovers
  · intro seq entry hmem hold
    rw [hdurable] at hmem ⊢
    exact hwork.texts hmem hold
  · rw [hdurable]
    exact hwork.indexed.pruneAll _

/-- A run told to index anew and cancelled after two of three candidates: the first is loaded, the
second is not and has a superseded entry. -/
theorem complete_reindexes_of_pause :
    let s : Store :=
      ⟨[⟨1, ['a'], none, none, some ['x'], some ['x'], none, none, some 0⟩,
        ⟨2, ['b'], none, none, none, none, none, none, none⟩,
        ⟨3, ['c'], none, none, some ['y'], some ['z'], none, none, some 0⟩], 3,
        [⟨1, 1⟩, ⟨2, 2⟩, ⟨3, 2⟩], 3,
        ⟨[⟨1, ⟨['p'], [], [], [], []⟩⟩, ⟨2, ⟨['q'], [], [], [], []⟩⟩,
          ⟨3, ⟨['r'], [], [], [], []⟩⟩], 3, 3⟩, []⟩
    let o : Options := ⟨.all, true, 1, 10⟩
    let m : Message := ⟨['n'], [], [], [], [], [], none⟩
    let env : Surroundings :=
      ⟨fun d => if d.seq = 2 then none else some m, fun n => n = 2, fun _ => [], 7⟩
    let r := Run.complete o env s
    let report : Report := ⟨.paused, 3, 1, 1, 1, 2, 4⟩
    r.outcome? = some (.ok report) ∧ Reindexed o env s report r ∧
      r.session.durable.entriesOf 1 = [4] ∧ r.session.durable.entriesOf 2 = [3] := by
  intro s o m env r report
  have hid : s.Identified := ⟨by decide, by decide⟩
  have hindexed : s.Indexed := by
    refine ⟨by decide, by decide, by decide, fun entry => ?_⟩
    simp [s]
  have hreport : r.outcome? = some (.ok report) := by decide +kernel
  have hreindexed := complete_reindexes hid hindexed (fun _ => rfl) hreport
  exact ⟨hreport, hreindexed, by decide +kernel, by decide +kernel⟩

end MailIndex.Reindex
