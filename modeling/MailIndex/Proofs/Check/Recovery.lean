import MailIndex.Check.Audit
import MailIndex.Proofs.Check.Repair
import MailIndex.Proofs.Reindex.Durable
import MailIndex.Proofs.Reindex.Result

/-!
# Recovery

A check that finds something wrong advises a repair and a run over all documents. Together they
leave nothing superseded, nothing without a document and nothing stale. What they do not find is a
document that is fresh but has lost its entries: the run looks at hashes only, so the document
stays missing.
-/

namespace MailIndex.Check

open Reindex
open Repair (Repaired)

variable {o : Options} {env : Surroundings} {s t : Store} {d : Document}

/-! ## Runs that are not cancelled -/

theorem explains_complete (hid : s.Identified) (hindexed : s.Indexed)
    (hout : ∀ n, env.outside n = []) (hrunning : ∀ n, env.cancelled n = false)
    {report : Reindex.Report}
    (hreport : (Run.complete o env s).outcome? = some (.ok report)) :
    ∃ scope w, o.selector.scope s = .ok scope ∧
      Explains o env (hadIndexed s scope) (Work.start o s scope) (o.wanted s) w ∧
      (Run.complete o env s).session.durable = w.store.pruneAll w.toPrune := by
  obtain ⟨scope, rest, tally, hdivides, hstopped, hdurable, -⟩ := account_of_report hout hreport
  have hsplit : o.wanted s = (Run.complete o env s).asked ++ rest := by
    rw [← hdivides.found, candidates_preparedStore hid hdivides.resolved]
  have hall : (Run.complete o env s).asked = o.wanted s := by
    rcases hstopped with rfl | hcancelled
    · rw [hsplit, List.append_nil]
    · rw [hrunning] at hcancelled
      cases hcancelled
  have hwork := explains_workOf env hid hindexed hdivides.resolved hsplit
  rw [hall] at hwork hdurable
  exact ⟨scope, _, hdivides.resolved, hwork, hdurable⟩

/-- A store in which a run over all documents has done its work. -/
structure Settled (s t : Store) : Prop where
  documents : ∃ f : Document → Document, t.documents = s.documents.map f ∧
    ∀ d ∈ s.documents, (f d).seq = d.seq ∧ (f d).id = d.id ∧ (f d).isFresh = true
  stale : ∀ d ∈ s.documents, d.isFresh = false → (t.entriesOf d.seq).length = 1
  rest : ∀ seq, (∀ d ∈ s.documents, d.seq = seq → d.isFresh = true) →
    t.entriesOf seq = (s.entriesOf seq).max?.toList

theorem id_settled (o : Options) (env : Surroundings) (d : Document) :
    (settled o env d).id = d.id := by
  unfold settled
  split <;> rfl

/-- A run over all documents that indexes those that are not fresh. -/
def overAll (interval chars : Nat) : Options := ⟨.all, false, interval, chars⟩

theorem mem_wanted_all {interval chars : Nat} :
    d ∈ (overAll interval chars).wanted s ↔ d ∈ s.documents ∧ d.isFresh = false := by
  have hsame : (overAll interval chars).prepared = id := rfl
  unfold Options.wanted Options.wants
  rw [hsame, List.map_id, List.mem_filter]
  simp [overAll, Selector.picks]

theorem settled_complete (hid : s.Identified) (hindexed : s.Indexed) (hmissing : s.missing = [])
    (interval chars : Nat) (hout : ∀ n, env.outside n = [])
    (hrunning : ∀ n, env.cancelled n = false)
    (hload : ∀ d ∈ s.documents, (env.load d).isSome = true) :
    ∃ report, (Run.complete (overAll interval chars) env s).outcome? = some (.ok report) ∧
      Settled s (Run.complete (overAll interval chars) env s).session.durable := by
  have hresolved : (overAll interval chars).selector.scope s = .ok .all := rfl
  obtain ⟨report, hstage⟩ := exists_report (overAll interval chars) env hindexed.numbered hresolved
    hmissing
  have hreport := outcome?_of_finished hstage
  obtain ⟨scope, w, hscope, hwork, hdurable⟩ :=
    explains_complete hid hindexed hout hrunning hreport
  have hwanted : ∀ {d}, d ∈ s.documents → d.isFresh = false →
      ∃ m, d ∈ (overAll interval chars).wanted s ∧ env.load d = some m := by
    intro d hd hstale
    obtain ⟨m, hm⟩ := Option.isSome_iff_exists.mp (hload d hd)
    exact ⟨m, mem_wanted_all.mpr ⟨hd, hstale⟩, hm⟩
  refine ⟨report, hreport, ⟨afterReached (overAll interval chars) env
    ((overAll interval chars).wanted s), ?_, fun d hd => ⟨?_, ?_, ?_⟩⟩,
    fun d hd hstale => ?_, fun seq hfresh => ?_⟩
  · rw [hdurable]
    exact hwork.documents_left hid hscope
  · exact seq_afterReached _ _ _ d
  · unfold afterReached
    split
    · exact id_settled _ _ d
    · rfl
  · unfold afterReached
    split
    · next hin =>
        obtain ⟨m, -, hm⟩ := hwanted hd (mem_wanted_all.mp hin).2
        exact (isFresh_settled hm).1
    · next hout' =>
        by_contra hstale
        obtain ⟨m, hin, -⟩ := hwanted hd (by simpa using hstale)
        exact hout' hin
  · obtain ⟨m, hin, hm⟩ := hwanted hd hstale
    obtain ⟨entry, -, hentries, -⟩ := hwork.entries_loaded hindexed hin hm
    rw [hdurable, hentries]
    rfl
  · rw [hdurable]
    refine hwork.entries_covered hid hscope rfl fun d hin hseq => ?_
    obtain ⟨hd, hstale⟩ := mem_wanted_all.mp hin
    rw [hfresh d hd hseq] at hstale
    cases hstale

/-! ## Audits -/

theorem audit_of_missing_nil (h : s.missing = []) : (audit s).1 = .ok (Audit.ofStore s) := by
  unfold audit Statement.read
  rw [Store.needing_of_missing_nil h]

theorem isStale_of_isFresh (h : d.isFresh = true) : Audit.isStale d = false := by
  unfold Document.isFresh at h
  unfold Audit.isStale
  simp only [Bool.and_eq_true, beq_iff_eq] at h
  simp [h.2]

/-- What is missing in the end: documents that were fresh, but had no entry. -/
def lost (s : Store) : List Document :=
  s.documents.filter fun d => d.isFresh && (s.entriesOf d.seq).isEmpty

theorem isEmpty_max? (own : List Nat) : own.max?.toList.isEmpty = own.isEmpty := by
  cases own with
  | nil => rfl
  | cons n own =>
      cases hmax : (n :: own).max? with
      | none => simp at hmax
      | some newest => rfl

theorem audit_of_settled {u : Store} (hid : s.Identified) (hrepaired : Repaired s t)
    (hsettled : Settled t u) :
    (Audit.ofStore u).duplicates = [] ∧ (Audit.ofStore u).orphans = [] ∧
      (Audit.ofStore u).stale = [] ∧ (Audit.ofStore u).missing = (lost s).map (·.id) := by
  obtain ⟨f, hdocuments, hf⟩ := hsettled.documents
  rw [hrepaired.documents] at hdocuments hf
  have hstale := hsettled.stale
  have hrest := hsettled.rest
  rw [hrepaired.documents] at hstale hrest
  have hown : ∀ d ∈ s.documents, d.isFresh = true →
      u.entriesOf d.seq = (s.entriesOf d.seq).max?.toList.max?.toList := by
    intro d hd hfresh
    rw [hrest d.seq fun e he hseq => hid.eq_of_seq he hd hseq ▸ hfresh, hrepaired.own d hd]
  refine ⟨?_, ?_, ?_, ?_⟩
  · unfold Audit.ofStore
    rw [List.filter_eq_nil_iff, hdocuments]
    intro duplicate hduplicate
    obtain ⟨e, he, rfl⟩ := List.mem_map.mp hduplicate
    obtain ⟨d, hd, rfl⟩ := List.mem_map.mp he
    obtain ⟨hseq, -, -⟩ := hf d hd
    dsimp only
    rw [hseq]
    cases hfresh : d.isFresh with
    | true =>
        rw [hown d hd hfresh]
        simp only [decide_eq_true_eq, Nat.not_lt]
        exact Option.length_toList_le
    | false => simp [hstale d hd hfresh]
  · unfold Audit.ofStore Store.orphans
    rw [List.filter_eq_nil_iff, hdocuments]
    rintro ⟨entry, seq⟩ hrow hnone
    have hmem : entry ∈ u.entriesOf seq := Store.mem_entriesOf.mpr hrow
    have hother : ∀ d ∈ s.documents, d.seq ≠ seq := by
      intro d hd hseq
      have hany : ((s.documents.map f).any (·.seq = seq)) = true :=
        List.any_eq_true.mpr ⟨f d, List.mem_map_of_mem hd, by simp [(hf d hd).1, hseq]⟩
      simp [hany] at hnone
    rw [hrest seq fun d hd hseq => absurd hseq (hother d hd), hrepaired.others seq hother] at hmem
    cases hmem
  · unfold Audit.ofStore
    rw [List.map_eq_nil_iff, List.filter_eq_nil_iff, hdocuments]
    intro e he
    obtain ⟨d, hd, rfl⟩ := List.mem_map.mp he
    simp [isStale_of_isFresh (hf d hd).2.2]
  · unfold Audit.ofStore lost
    dsimp only
    rw [hdocuments, List.filter_map, List.map_map]
    have hsame : s.documents.filter ((fun d => (u.entriesOf d.seq).isEmpty) ∘ f) =
        s.documents.filter fun d => d.isFresh && (s.entriesOf d.seq).isEmpty := by
      apply List.filter_congr
      intro d hd
      simp only [Function.comp_apply, (hf d hd).1]
      cases hfresh : d.isFresh with
      | true => rw [hown d hd hfresh, isEmpty_max?, isEmpty_max?, Bool.true_and]
      | false =>
          obtain ⟨entry, hentry⟩ := List.length_eq_one_iff.mp (hstale d hd hfresh)
          rw [hentry]
          rfl
    rw [hsame]
    apply List.map_congr_left
    intro d hd
    exact (hf d (List.mem_filter.mp hd).1).2.1

/-- A repair and a run over all documents, both of them not cancelled and the latter with a source
that loads them all, leave nothing superseded, no entry without a document and no stale document.
Missing are exactly the documents that were fresh and had no entry, so the index is healthy exactly
if there was none. -/
theorem recovery_audit (hid : s.Identified) (hindexed : s.Indexed) (hmissing : s.missing = [])
    (interval chars : Nat) (hout : ∀ n, env.outside n = [])
    (hrunning : ∀ n, env.cancelled n = false)
    (hload : ∀ d ∈ s.documents, (env.load d).isSome = true) :
    ∃ summary t report a, repair (fun _ => false) s = (.ok summary, t) ∧
      summary.interrupted = false ∧
      (Run.complete (overAll interval chars) env t).outcome? = some (.ok report) ∧
      (audit (Run.complete (overAll interval chars) env t).session.durable).1 = .ok a ∧
      a.duplicates = [] ∧ a.orphans = [] ∧ a.stale = [] ∧ a.missing = (lost s).map (·.id) ∧
      (a.isHealthy = true ↔ ∀ d ∈ s.documents, d.isFresh = true → s.entriesOf d.seq ≠ []) := by
  obtain ⟨summary, t, hrepair, hdone, hrepaired⟩ := Repair.repair_repairs hindexed hmissing
  have hid' : t.Identified :=
    ⟨hrepaired.documents ▸ hid.ascending, hrepaired.documents ▸ hid.ids⟩
  have htables : t.missing = [] := hrepaired.missing.trans hmissing
  obtain ⟨report, hreport, hsettled⟩ := settled_complete hid' hrepaired.indexed htables interval
    chars hout hrunning (hrepaired.documents ▸ hload)
  have hall : (Run.complete (overAll interval chars) env t).session.durable.missing = [] :=
    (missing_complete _ env hrepaired.indexed.numbered).trans htables
  obtain ⟨hduplicates, horphans, hstale, hlost⟩ := audit_of_settled hid hrepaired hsettled
  refine ⟨summary, t, report, Audit.ofStore _, hrepair, hdone, hreport, audit_of_missing_nil hall,
    hduplicates, horphans, hstale, hlost, ?_⟩
  unfold Audit.isHealthy
  rw [hduplicates, horphans, hstale, hlost]
  simp [lost, List.isEmpty_iff, List.filter_eq_nil_iff]

/-- A fresh document that has lost its entry stays missing, and one that is stale is indexed. -/
theorem recovery_audit_of_lost_entry :
    let fresh : Document := ⟨1, ['a'], none, none, some ['x'], some ['x'], none, none, some 0⟩
    let stale : Document := ⟨2, ['b'], none, none, some ['y'], some ['z'], none, none, some 0⟩
    let s : Store := ⟨[fresh, stale], 2, [⟨2, 2⟩, ⟨3, 7⟩], 3,
      ⟨[⟨2, ⟨['p'], [], [], [], []⟩⟩, ⟨3, ⟨['q'], [], [], [], []⟩⟩], 2, 2⟩, []⟩
    let env : Surroundings :=
      ⟨fun _ => some ⟨['n'], [], [], [], [], [], none⟩, fun _ => false, fun _ => [], 7⟩
    ∃ summary t a, repair (fun _ => false) s = (.ok summary, t) ∧
      (audit (Run.complete (overAll 1 10) env t).session.durable).1 = .ok a ∧
      a.orphans = [] ∧ a.stale = [] ∧ a.missing = [['a']] ∧ a.isHealthy = false := by
  intro fresh stale s env
  have hid : s.Identified := ⟨by decide, by decide⟩
  have hindexed : s.Indexed := by
    refine ⟨by decide, by decide, by decide, fun entry => ?_⟩
    simp [s]
  have hout : ∀ n, env.outside n = [] := fun _ => rfl
  have hrunning : ∀ n, env.cancelled n = false := fun _ => rfl
  obtain ⟨summary, t, report, a, hrepair, -, -, haudit, -, horphans, hstale, hlost, hhealthy⟩ :=
    recovery_audit hid hindexed rfl 1 10 hout hrunning fun _ _ => rfl
  refine ⟨summary, t, a, hrepair, haudit, horphans, hstale, hlost, ?_⟩
  rw [Bool.eq_false_iff, Ne, hhealthy]
  exact fun hall => hall fresh (by simp [s]) rfl rfl

end MailIndex.Check
