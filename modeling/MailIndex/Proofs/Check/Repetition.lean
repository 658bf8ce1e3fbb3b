import MailIndex.Proofs.Check.Health
import MailIndex.Search.Results

/-!
# Repeated runs

A run over all documents that is not cancelled leaves nothing to do, whatever it found: every
candidate that was loaded is fresh afterwards, with or without a hash before, and nothing is
superseded any more, entries without a document included. So a second run finds no candidate and
leaves the store as it is.
-/

namespace MailIndex.Reindex

variable {o : Options} {env : Surroundings} {scope : Scope} {base s : Store}

theorem scope_of_all (hall : o.selector = .all) : o.selector.scope s = .ok .all := by
  rw [hall]
  rfl

/-! ## The documents after some moves -/

/-- While nobody else writes, the documents are the chosen ones settled, and the others as before.
The induction is on the moves from the last one back; every candidate is chosen once. -/
theorem documents_replay (hbase : base.Keyed) (hout : ∀ n, env.outside n = [])
    {moves : List Move} (hlegal : Legal o env scope base moves)
    (hchosen : (moves.filterMap Move.candidate?).Sublist (candidates base o.selector scope)) :
    (replay o env base moves).documents =
      base.documents.map (afterReached o env (moves.filterMap Move.candidate?)) := by
  revert hchosen
  refine hlegal.induction (P := fun front t =>
    (front.filterMap Move.candidate?).Sublist (candidates base o.selector scope) →
      t.documents = base.documents.map (afterReached o env (front.filterMap Move.candidate?)))
    (fun _ => (map_afterReached_nil o env base.documents).symm)
    fun front move ih hallowed hchosen => ?_
  rw [List.filterMap_append] at hchosen ⊢
  have hfront := ih ((List.sublist_append_left _ _).trans hchosen)
  cases move with
  | index d m =>
      have hd : d ∈ candidates base o.selector scope := hchosen.subset (by simp [Move.candidate?])
      have hseqs : ((candidates base o.selector scope).map (·.seq)).Nodup :=
        hbase.toIdentified.seqs.sublist (List.filter_sublist.map _)
      have hnodup := hseqs.sublist (hchosen.map (·.seq))
      rw [List.map_append, List.nodup_append] at hnodup
      have hnew : ∀ e ∈ front.filterMap Move.candidate?, e.seq ≠ d.seq := fun e he =>
        hnodup.2.2 e.seq (List.mem_map_of_mem he) d.seq (by simp [Move.candidate?])
      have hdocuments : (Work.mk base []).store.documents = base.documents := rfl
      rw [(adds_index hallowed.2.1 m).documents, hfront, ← hdocuments]
      exact map_indexed hbase.toIdentified.seqs (List.mem_filter.mp hd).1 hnew hallowed.1
  | prune seq =>
      rw [show [Move.prune seq].filterMap Move.candidate? = [] from rfl, List.append_nil]
      exact (Store.documents_prune _ seq).trans hfront
  | outside write =>
      obtain ⟨n, hn⟩ := hallowed
      rw [hout n] at hn
      cases hn

/-- A run over all documents has left no candidate out, and nothing that is superseded. -/
structure Exhausted (o : Options) (env : Surroundings) (s t : Store) : Prop where
  documents : t.documents =
    (preparedStore o s .all).documents.map (afterReached o env (o.wanted s))
  few : ∀ seq, (t.entriesOf seq).length ≤ 1
  missing : t.missing = s.missing

theorem exhausted_of_works (hs : s.Keyed) (hall : o.selector = .all)
    (hout : ∀ n, env.outside n = []) (hload : ∀ d ∈ o.wanted s, (env.load d).isSome = true)
    {r : Run} {trail : Trail} (hworks : Works o env s scope r trail [] [])
    (hloose : trail.loose = []) : Exhausted o env s r.session.durable := by
  obtain rfl : scope = .all := Except.ok.inj (hworks.resolved.symm.trans (scope_of_all hall))
  have hfound : r.asked = o.wanted s := by
    have hasked := hworks.found
    rw [candidates_preparedStore hs.toIdentified hworks.resolved, List.append_nil] at hasked
    exact hasked.symm
  -- Each of them can be loaded, so each of them has been indexed.
  have hindexed (d : Document) : d ∈ trail.indexed ↔ d ∈ o.wanted s := by
    constructor
    · intro hd
      exact hfound ▸ hworks.indexed.subset hd
    · intro hd
      exact hworks.answered hout d (hfound ▸ hd) (hload d hd)
  have hview := hworks.seen.view
  have hdurable : r.session.durable = r.session.view := by
    rw [hview, hworks.seen.durable]
    unfold Trail.all
    rw [hloose, List.append_nil]
  refine ⟨?_, fun seq => ?_, ?_⟩
  · rw [hdurable, hview,
      documents_replay (keyed_preparedStore hs) hout hworks.seen.legal hworks.chosen]
    refine List.map_congr_left fun d _ => ?_
    unfold afterReached
    exact if_congr (hindexed d) rfl rfl
  · refine Nat.le_of_not_lt fun hmany => ?_
    rw [hdurable] at hmany
    exact absurd (hworks.covered seq rfl hmany) List.not_mem_nil
  · rw [hdurable]
    exact hworks.seen.missing

theorem exhausted_complete (hs : s.Keyed) (hmissing : s.missing = []) (hall : o.selector = .all)
    (hout : ∀ n, env.outside n = []) (hrunning : ∀ n, env.cancelled n = false)
    (hload : ∀ d ∈ o.wanted s, (env.load d).isSome = true) :
    ∃ report, (Run.complete o env s).outcome? = some (.ok report) ∧
      Exhausted o env s (Run.complete o env s).session.durable := by
  have hscope := scope_of_all (s := s) hall
  obtain ⟨report, hstage⟩ := exists_report o env hs.toNumbered hscope hmissing
  obtain ⟨trail, hleaves⟩ := exists_trail_complete o env hs.toNumbered
  unfold Leaves at hleaves
  rw [hstage] at hleaves
  obtain ⟨scope, rest, hworks, hstopped, hloose⟩ := hleaves
  have hnone : rest = [] := by
    rcases hstopped with hnone | hcancelled
    · exact hnone
    · have hboth := (hrunning _).symm.trans hcancelled
      cases hboth
  subst hnone
  exact ⟨report, outcome?_of_finished hstage,
    exhausted_of_works hs hall hout hload hworks hloose⟩

/-! ## Nothing left to do -/

namespace Exhausted

variable {t : Store}

/-- Who was a candidate is fresh since it was indexed, the others since they were no candidates. -/
theorem isFresh (h : Exhausted o env s t) (hs : s.Keyed) (hall : o.selector = .all)
    (hload : ∀ d ∈ o.wanted s, (env.load d).isSome = true) {d : Document}
    (hd : d ∈ t.documents) : d.isFresh = true := by
  have hscope := scope_of_all (s := s) hall
  rw [h.documents] at hd
  obtain ⟨e, he, rfl⟩ := List.mem_map.mp hd
  unfold afterReached
  split
  · next hwanted =>
      obtain ⟨m, hm⟩ := Option.isSome_iff_exists.mp (hload e hwanted)
      exact (isFresh_settled hm).1
  · next hout =>
      rw [← candidates_preparedStore hs.toIdentified hscope, hall] at hout
      by_contra hfresh
      have hstale : e.isFresh = false := by simpa using hfresh
      exact hout (List.mem_filter.mpr ⟨he, by simp [hstale, Scope.contains]⟩)

theorem candidates_eq_nil (h : Exhausted o env s t) (hs : s.Keyed) (hall : o.selector = .all)
    (hload : ∀ d ∈ o.wanted s, (env.load d).isSome = true) : candidates t .all .all = [] := by
  unfold candidates
  rw [List.filter_eq_nil_iff]
  intro d hd
  simp [h.isFresh hs hall hload hd]

theorem duplicates_eq_nil (h : Exhausted o env s t) : t.duplicates = [] := by
  rw [List.eq_nil_iff_forall_not_mem]
  rintro ⟨seq, count⟩ hmem
  have hmany : 1 < (t.entriesOf seq).length :=
    Store.mem_owners_duplicates.mp (List.mem_map_of_mem hmem)
  exact absurd (h.few seq) (Nat.not_le_of_gt hmany)

end Exhausted

end MailIndex.Reindex

namespace MailIndex.Check

open Reindex

variable {o : Options} {env : Surroundings} {s : Store}

/-- After a run over all documents that is not cancelled and whose source loads all its candidates,
forced or not, another run over all documents finds nothing to do: it asks for no document, whatever
its source, and reports that all is up to date. The store is as it was, and so is every search. -/
theorem complete_again (hs : s.Keyed) (hmissing : s.missing = []) (hall : o.selector = .all)
    (hout : ∀ n, env.outside n = []) (hrunning : ∀ n, env.cancelled n = false)
    (hload : ∀ d ∈ o.wanted s, (env.load d).isSome = true) :
    ∃ report t, (Run.complete o env s).outcome? = some (.ok report) ∧
      (Run.complete o env s).session.durable = t ∧
      ∀ again interval chars,
        (Run.complete (overAll interval chars) again t).outcome? =
            some (.ok ⟨.upToDate, 0, 0, 0, 0, 0, 0⟩) ∧
          (Run.complete (overAll interval chars) again t).asked = [] ∧
          (Run.complete (overAll interval chars) again t).session.durable = t ∧
          ∀ c r, Search.run (Run.complete (overAll interval chars) again t).session.durable c r =
            Search.run t c r := by
  obtain ⟨report, hreport, hexhausted⟩ := exhausted_complete hs hmissing hall hout hrunning hload
  refine ⟨report, _, hreport, rfl, fun again interval chars => ?_⟩
  obtain ⟨hidle, hasked, hsame⟩ := complete_of_idle again interval chars
    (hexhausted.missing.trans hmissing) (hexhausted.candidates_eq_nil hs hall hload)
    hexhausted.duplicates_eq_nil
  refine ⟨hidle, hasked, hsame, fun c r => ?_⟩
  rw [hsame]

/-- A forced run that commits after every second document, over one document that is fresh and has
two entries, one that is stale, one that has no hash and one that was never indexed, beside two
entries of a document that is gone. -/
theorem complete_again_after_force :
    let fresh : Document := ⟨1, ['a'], none, none, some ['x'], some ['x'], none, none, some 0⟩
    let stale : Document := ⟨2, ['b'], none, none, some ['y'], some ['z'], none, none, some 0⟩
    let unhashed : Document := ⟨3, ['c'], none, none, none, none, none, none, none⟩
    let unindexed : Document := ⟨4, ['d'], none, none, some ['w'], none, none, none, none⟩
    let text : EntryText := ⟨['p'], [], [], [], []⟩
    let s : Store := ⟨[fresh, stale, unhashed, unindexed], 4,
      [⟨1, 1⟩, ⟨2, 1⟩, ⟨3, 2⟩, ⟨4, 9⟩, ⟨5, 9⟩], 5,
      ⟨[⟨1, text⟩, ⟨2, text⟩, ⟨3, text⟩, ⟨4, text⟩, ⟨5, text⟩], 5, 5⟩, []⟩
    let o : Options := ⟨.all, true, 2, 10⟩
    let env : Surroundings :=
      ⟨fun _ => some ⟨['n'], [], [], [], [], [], none⟩, fun _ => false, fun _ => [], 7⟩
    let nothing : Surroundings := ⟨fun _ => none, fun _ => true, fun _ => [], 8⟩
    ∃ report t, (Run.complete o env s).outcome? = some (.ok report) ∧
      (Run.complete o env s).session.durable = t ∧
      (Run.complete (overAll 1 20) nothing t).outcome? =
        some (.ok ⟨.upToDate, 0, 0, 0, 0, 0, 0⟩) ∧
      (Run.complete (overAll 1 20) nothing t).session.durable = t := by
  intro fresh stale unhashed unindexed text s o env nothing
  have hs : s.Keyed := ⟨⟨by decide, by decide⟩, ⟨by decide, by decide⟩, by decide⟩
  have hout : ∀ n, env.outside n = [] := fun _ => rfl
  have hrunning : ∀ n, env.cancelled n = false := fun _ => rfl
  have hload : ∀ d ∈ o.wanted s, (env.load d).isSome = true := fun _ _ => rfl
  obtain ⟨report, t, hreport, ht, hagain⟩ := complete_again hs rfl rfl hout hrunning hload
  obtain ⟨hidle, -, hsame, -⟩ := hagain nothing 1 20
  exact ⟨report, t, hreport, ht, hidle, hsame⟩

end MailIndex.Check
