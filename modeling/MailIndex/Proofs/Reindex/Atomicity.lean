import MailIndex.Proofs.Reindex.Durable

/-!
# Atomicity of a run

A run may stop at any step: because the process dies, or because a statement fails and what is not
committed is rolled back. Whatever others write meanwhile, what is durable then has every document
either as the run found it or indexed in full, no document has lost its newest entry, and of the
work that had been finished less than one interval of commits is lost.
-/

namespace MailIndex.Reindex

/-- A document has the columns of before the run, except that its hash may have been taken away. -/
structure Unmarked (o : Options) (s : Store) (d : Document) : Prop where
  derived : d.derived = (s.findSeq? d.seq).bind (·.derived)
  indexedAt : d.indexedAt = (s.findSeq? d.seq).bind (·.indexedAt)
  indexedHash : d.indexedHash = (s.findSeq? d.seq).bind (·.indexedHash) ∨
    o.force = true ∧ o.selector.covers s d.seq = true ∧ d.indexedHash = none

/-- The run has not indexed a document: it has the columns and the entries of before, or some of
them. -/
structure Untouched (o : Options) (s after : Store) (d : Document) : Prop
    extends Unmarked o s d where
  entries : ∀ entry ∈ after.entriesOf d.seq, entry ∈ s.entriesOf d.seq

/-- The run has indexed a document as one of some candidates, and all of that is there: the derived
columns, the hash, and a new entry with the text. -/
def IndexedAnew (o : Options) (env : Surroundings) (s : Store) (candidates : List Document)
    (after : Store) (d : Document) : Prop :=
  ∃ c ∈ candidates, c.seq = d.seq ∧ ∃ m, env.load c = some m ∧
    d.derived = some (Derived.ofMessage m o.snippetChars) ∧
    d.indexedHash = some (Run.hashFor c m) ∧
    ∃ entry, s.lastEntry < entry ∧ (after.entriesOf d.seq).max? = some entry ∧
      after.textOf? entry = some (.ofMessage m)

variable {o : Options} {env : Surroundings} {scope : Scope} {s t : Store} {indexed : List Document}
  {d : Document}

theorem not_untouched_of_indexedAnew (hs : s.Keyed) (h : IndexedAnew o env s indexed t d) :
    ¬ Untouched o s t d := by
  intro huntouched
  obtain ⟨c, -, -, m, -, -, -, entry, hnew, hmax, -⟩ := h
  have hmem : entry ∈ t.entriesOf d.seq := (List.max?_eq_some_iff.mp hmax).1
  have hold := hs.le_of_mem_entriesOf (huntouched.entries entry hmem)
  omega

/-! ## What every move keeps -/

/-- What some moves from `s` on have made of it, when they have indexed some candidates. -/
structure Whole (o : Options) (env : Surroundings) (s : Store) (indexed : List Document)
    (t : Store) : Prop where
  keyed : t.Keyed
  lastEntry : s.lastEntry ≤ t.lastEntry
  lastSeq : s.lastSeq ≤ t.lastSeq
  within : ∀ c ∈ indexed, c.seq ≤ t.lastSeq
  entries : ∀ seq, (∀ c ∈ indexed, c.seq ≠ seq) → ∀ entry ∈ t.entriesOf seq, entry ∈ s.entriesOf seq
  unmarked : ∀ d ∈ t.documents, (∀ c ∈ indexed, c.seq ≠ d.seq) → Unmarked o s d
  anew : ∀ d ∈ t.documents, ∀ c ∈ indexed, c.seq = d.seq → IndexedAnew o env s indexed t d

theorem unmarked_self (hs : s.Keyed) (hd : d ∈ s.documents) : Unmarked o s d := by
  have hfind := hs.toIdentified.findSeq? hd
  exact ⟨by rw [hfind]; rfl, by rw [hfind]; rfl, .inl (by rw [hfind]; rfl)⟩

theorem whole_start (hs : s.Keyed) : Whole o env s [] s where
  keyed := hs
  lastEntry := Nat.le_refl _
  lastSeq := Nat.le_refl _
  within _ hc := by cases hc
  entries _ _ _ hentry := hentry
  unmarked _ hd _ := unmarked_self hs hd
  anew _ _ _ hc := by cases hc

theorem whole_preparedStore (hs : s.Keyed) (hscope : o.selector.scope s = .ok scope) :
    Whole o env s [] (preparedStore o s scope) where
  keyed := keyed_preparedStore hs
  lastEntry := Nat.le_of_eq lastEntry_preparedStore.symm
  lastSeq := Nat.le_of_eq lastSeq_preparedStore.symm
  within _ hc := by cases hc
  entries seq _ entry hentry := entriesOf_preparedStore seq ▸ hentry
  unmarked d hd _ := by
    rw [documents_preparedStore hs.toIdentified hscope] at hd
    obtain ⟨e, he, rfl⟩ := List.mem_map.mp hd
    have hsame : Unmarked o s e := unmarked_self hs he
    unfold Options.prepared
    split
    · next htaken =>
        rw [Bool.and_eq_true] at htaken
        have hcovers : o.selector.covers s e.seq = true := by
          rw [← contains_eq_covers hs.toIdentified hscope,
            contains_eq_picks hs.toIdentified hscope he]
          exact htaken.2
        exact ⟨hsame.derived, hsame.indexedAt, .inr ⟨htaken.1, hcovers, rfl⟩⟩
    · exact hsame
  anew _ _ _ hc := by cases hc

theorem Whole.index (h : Whole o env s indexed t) {c : Document} {m : Message}
    (hallowed : (Move.index c m).Allowed env scope t) :
    Whole o env s (indexed ++ [c]) ((Move.index c m).apply o env t) := by
  obtain ⟨hload, hpresent, -⟩ := hallowed
  have hadds : Adds o env.now c m t _ := adds_index hpresent m
  have hlast : ((Move.index c m).apply o env t).lastSeq = t.lastSeq := rfl
  generalize hafter : (Move.index c m).apply o env t = after at hadds hlast ⊢
  have hother : ∀ {seq}, (∀ e ∈ indexed ++ [c], e.seq ≠ seq) →
      seq ≠ c.seq ∧ ∀ e ∈ indexed, e.seq ≠ seq := by
    intro seq hseq
    exact ⟨fun heq => hseq c (by simp) heq.symm, fun e he => hseq e (List.mem_append_left _ he)⟩
  refine ⟨hafter ▸ keyed_apply h.keyed _, ?_, ?_, fun e he => ?_, fun seq hseq entry hentry => ?_,
    fun d hd hnone => ?_, fun d hd e he hsame => ?_⟩
  · have hle := h.lastEntry
    have hone := hadds.lastEntry
    omega
  · rw [hlast]
    exact h.lastSeq
  · rw [hlast]
    rcases List.mem_append.mp he with he | he
    · exact h.within e he
    · obtain ⟨d, hd, hseq⟩ := findSeq?_isSome.mp hpresent
      rw [List.mem_singleton.mp he, ← hseq]
      exact h.keyed.le_lastSeq d hd
  · obtain ⟨hne, hnone⟩ := hother hseq
    rw [hadds.entriesOf, if_neg hne, List.append_nil] at hentry
    exact h.entries seq hnone entry hentry
  · obtain ⟨hne, hnone⟩ := hother hnone
    rw [hadds.documents] at hd
    obtain ⟨e, he, rfl⟩ := List.mem_map.mp hd
    by_cases hseq : e.seq = c.seq
    · rw [if_pos hseq] at hne
      exact absurd hseq hne
    · rw [if_neg hseq] at hnone ⊢
      exact h.unmarked e he hnone
  · rw [hadds.documents] at hd
    obtain ⟨before, hbefore, rfl⟩ := List.mem_map.mp hd
    by_cases hseq : before.seq = c.seq
    · -- The new entry is the newest one.
      rw [if_pos hseq]
      have hbelow : ∀ entry ∈ t.entriesOf c.seq, entry < t.lastEntry + 1 := fun entry hentry =>
        Nat.lt_succ_of_le (h.keyed.le_of_mem_entriesOf hentry)
      refine ⟨c, by simp, hseq.symm, m, hload, rfl, rfl, t.lastEntry + 1,
        Nat.lt_succ_of_le h.lastEntry, ?_, ?_⟩
      · change (after.entriesOf before.seq).max? = _
        rw [hseq, hadds.entriesOf, if_pos rfl, Store.max?_concat hbelow]
      · rw [hadds.textOf?, if_pos rfl]
    · rw [if_neg hseq] at hsame ⊢
      have he' : e ∈ indexed := by
        rcases List.mem_append.mp he with he | he
        · exact he
        · rw [List.mem_singleton.mp he] at hsame
          exact absurd hsame.symm hseq
      obtain ⟨c', hc', hseq', m', hload', hderived, hhash, entry, hnew, hmax, htext⟩ :=
        h.anew before hbefore e he' hsame
      have hold : entry ≠ t.lastEntry + 1 := by
        have hmem : entry ∈ t.entriesOf before.seq := (List.max?_eq_some_iff.mp hmax).1
        have hle := h.keyed.le_of_mem_entriesOf hmem
        omega
      refine ⟨c', List.mem_append_left _ hc', hseq', m', hload', hderived, hhash, entry, hnew, ?_,
        ?_⟩
      · rw [hadds.entriesOf, if_neg hseq, List.append_nil]
        exact hmax
      · rw [hadds.textOf?, if_neg hold]
        exact htext

theorem IndexedAnew.mono (h : IndexedAnew o env s indexed t d) {after : Store} {d' : Document}
    (hseq : d'.seq = d.seq) (hderived : d'.derived = d.derived)
    (hhash : d'.indexedHash = d.indexedHash)
    (hmax : (after.entriesOf d.seq).max? = (t.entriesOf d.seq).max?)
    (htext : ∀ entry, (t.entriesOf d.seq).max? = some entry →
      after.textOf? entry = t.textOf? entry) : IndexedAnew o env s indexed after d' := by
  obtain ⟨c, hc, hcseq, m, hload, hd, hh, entry, hnew, hentry, ht⟩ := h
  refine ⟨c, hc, hcseq.trans hseq.symm, m, hload, hderived.trans hd, hhash.trans hh, entry, hnew,
    ?_, (htext entry hentry).trans ht⟩
  rw [hseq, hmax]
  exact hentry

theorem Whole.prune (h : Whole o env s indexed t) (seq : Nat) :
    Whole o env s indexed (t.prune seq).1 := by
  have hlast : (t.prune seq).1.lastEntry = t.lastEntry := by
    rw [Store.fst_prune, Store.foldl_removeEntry]
  refine ⟨h.keyed.prune seq, ?_, ?_, ?_, fun q hq entry hentry => ?_, ?_, fun d hd c hc hseq => ?_⟩
  · rw [hlast]
    exact h.lastEntry
  · rw [Store.lastSeq_prune]
    exact h.lastSeq
  · rw [Store.lastSeq_prune]
    exact h.within
  · exact h.entries q hq entry (Store.of_mem_entriesOf_prune hentry).1
  · rw [Store.documents_prune]
    exact h.unmarked
  · rw [Store.documents_prune] at hd
    have hmax := h.keyed.toNumbered.max?_entriesOf_prune seq d.seq
    refine (h.anew d hd c hc hseq).mono rfl rfl rfl hmax fun entry hentry => ?_
    rw [← hmax] at hentry
    have hmem : entry ∈ (t.prune seq).1.entriesOf d.seq := (List.max?_eq_some_iff.mp hentry).1
    exact Store.textOf?_prune t (Store.of_mem_entriesOf_prune hmem).2

/-- Others leave what is written when a document is indexed as it is. A document of theirs is new. -/
theorem mem_outside (write : OutsideWrite) (hd : d ∈ (write.apply t).documents) :
    (∃ e ∈ t.documents, e.seq = d.seq ∧ e.derived = d.derived ∧ e.indexedHash = d.indexedHash ∧
      e.indexedAt = d.indexedAt) ∨
    d.seq = t.lastSeq + 1 ∧ d.derived = none ∧ d.indexedHash = none ∧ d.indexedAt = none := by
  revert hd
  refine OutsideWrite.apply_cases (P := fun after => d ∈ after.documents → _) write
    (fun hd => .inl ⟨d, hd, rfl, rfl, rfl, rfl⟩) (fun record hd => ?_) fun id hd =>
    .inl ⟨d, (List.mem_filter.mp hd).1, rfl, rfl, rfl, rfl⟩
  unfold Store.upsert at hd
  dsimp only at hd
  cases hfind : t.find? record.id with
  | some known =>
      rw [hfind] at hd
      obtain ⟨e, he, rfl⟩ := List.mem_map.mp hd
      refine .inl ⟨e, he, ?_⟩
      split <;> exact ⟨rfl, rfl, rfl, rfl⟩
  | none =>
      rw [hfind] at hd
      rcases List.mem_append.mp hd with hd | hd
      · exact .inl ⟨d, hd, rfl, rfl, rfl, rfl⟩
      · rw [List.mem_singleton.mp hd]
        exact .inr ⟨rfl, rfl, rfl, rfl⟩

theorem lastSeq_outside (write : OutsideWrite) (t : Store) :
    t.lastSeq ≤ (write.apply t).lastSeq := by
  refine OutsideWrite.apply_cases (P := fun after => t.lastSeq ≤ after.lastSeq) write
    (Nat.le_refl _) (fun record => ?_) fun id => Nat.le_refl _
  unfold Store.upsert
  dsimp only
  cases t.find? record.id <;> exact Nat.le_succ _

theorem Whole.outside (hs : s.Keyed) (h : Whole o env s indexed t) (write : OutsideWrite) :
    Whole o env s indexed (write.apply t) := by
  have hlast := lastSeq_outside write t
  refine ⟨keyed_outside h.keyed write, ?_,
    Nat.le_trans h.lastSeq hlast, fun c hc => Nat.le_trans (h.within c hc) hlast,
    fun seq hseq entry hentry => ?_, fun d hd hnone => ?_, fun d hd c hc hseq => ?_⟩
  · rw [(outside_apply write t).2.1]
    exact h.lastEntry
  · rw [entriesOf_outside] at hentry
    exact h.entries seq hseq entry hentry
  · rcases mem_outside write hd with
      ⟨e, he, hseq, hderived, hhash, hat⟩ | ⟨hseq, hderived, hhash, hat⟩
    · have hbefore := h.unmarked e he (hseq ▸ hnone)
      refine ⟨?_, ?_, ?_⟩
      · rw [← hderived, ← hseq]
        exact hbefore.derived
      · rw [← hat, ← hseq]
        exact hbefore.indexedAt
      · rw [← hhash, ← hseq]
        exact hbefore.indexedHash
    · -- The run has not found a document with this number.
      have hfind : s.findSeq? d.seq = none := by
        refine List.find?_eq_none.mpr fun e he => ?_
        have hle := hs.le_lastSeq e he
        have hlastSeq := h.lastSeq
        simp only [decide_eq_true_eq]
        omega
      refine ⟨?_, ?_, .inl ?_⟩
      · rw [hderived, hfind]
        rfl
      · rw [hat, hfind]
        rfl
      · rw [hhash, hfind]
        rfl
  · rcases mem_outside write hd with ⟨e, he, hsame, hderived, hhash, -⟩ | ⟨hnew, -⟩
    · refine (h.anew e he c hc (hseq.trans hsame.symm)).mono hsame.symm hderived.symm hhash.symm
        ?_ fun entry _ => textOf?_outside write t entry
      rw [entriesOf_outside]
    · have hle := h.within c hc
      omega

theorem Whole.replay (hs : s.Keyed) {base : Store} {moves : List Move}
    (hbase : Whole o env s [] base) (hlegal : Legal o env scope base moves) :
    Whole o env s (moves.filterMap Move.candidate?) (replay o env base moves) := by
  refine hlegal.induction (P := fun front t => Whole o env s (front.filterMap Move.candidate?) t)
    hbase fun front move h hallowed => ?_
  rw [List.filterMap_append]
  cases move with
  | index c m => exact h.index hallowed
  | prune seq => exact (List.append_nil _).symm ▸ h.prune seq
  | outside write => exact (List.append_nil _).symm ▸ h.outside hs write

/-! ## The main result -/

variable {r : Run} {trail : Trail} {base : Store}

theorem onward_keeps (o : Options) (env : Surroundings) : Onward o env Keeps where
  refl := Keeps.refl
  trans _ := Keeps.trans
  move move h := keeps_apply h move
  unindexed t _ := Keeps.refl t

theorem Explained.whole (hs : s.Keyed) (h : Explained o env s base scope r trail) :
    Whole o env s (trail.kept.filterMap Move.candidate?) r.session.durable := by
  have hbase : Whole o env s [] base := by
    rcases h.base with ⟨rfl, -⟩ | ⟨hscope, rfl⟩
    · exact whole_start hs
    · exact whole_preparedStore hs hscope
  rw [h.durable]
  exact hbase.replay hs (legal_append.mp h.legal).1

theorem Whole.untouched_or (h : Whole o env s indexed t) {finished : List Document}
    (hsub : indexed ⊆ finished) (hd : d ∈ t.documents) :
    Untouched o s t d ∨ IndexedAnew o env s finished t d := by
  by_cases hnone : ∀ c ∈ indexed, c.seq ≠ d.seq
  · exact .inl ⟨h.unmarked d hd hnone, h.entries d.seq hnone⟩
  · push Not at hnone
    obtain ⟨c, hc, hseq⟩ := hnone
    obtain ⟨c', hc', hrest⟩ := h.anew d hd c hc hseq
    exact .inr ⟨c', hsub hc', hrest⟩

/-- Of what has been finished, only what the open moves have indexed can be untouched. -/
theorem Whole.lost (hs : s.Keyed) (h : Whole o env s indexed t) {open' lost : List Document}
    (hlost : lost.Sublist (indexed ++ open'))
    (huntouched : ∀ c ∈ lost, ∃ d ∈ t.documents, d.seq = c.seq ∧ Untouched o s t d) :
    lost.Sublist open' := by
  obtain ⟨front, back, rfl, hfront, hback⟩ := List.sublist_append_iff.mp hlost
  have hnone : front = [] := by
    refine List.eq_nil_iff_forall_not_mem.mpr fun c hc => ?_
    obtain ⟨d, hd, hseq, hd'⟩ := huntouched c (List.mem_append_left _ hc)
    have hanew := h.anew d hd c (hfront.subset hc) hseq.symm
    exact not_untouched_of_indexedAnew hs hanew hd'
  rw [hnone]
  exact hback

/-- What is durable when a run has stopped after so many steps. -/
structure Atomic (o : Options) (env : Surroundings) (s : Store) (n : Nat) : Prop where
  /-- Every document is as before, or indexed in full by work that had been finished. -/
  whole : ∀ d ∈ (durableAfter o env s n).documents,
    (Untouched o s (durableAfter o env s n) d ∨
      IndexedAnew o env s (Run.finishes o env n (Run.start s)) (durableAfter o env s n) d) ∧
    ¬ (Untouched o s (durableAfter o env s n) d ∧
      IndexedAnew o env s (Run.finishes o env n (Run.start s)) (durableAfter o env s n) d)
  /-- Who had an entry has one. -/
  owned : ∀ seq, s.entriesOf seq ≠ [] → (durableAfter o env s n).entriesOf seq ≠ []
  /-- The highest entry that has ever been durable is there. -/
  newest : ∀ k ≤ n, ∀ seq, ∀ entry ∈ (durableAfter o env s k).entriesOf seq,
    (∀ j ≤ n, ∀ other ∈ (durableAfter o env s j).entriesOf seq, other ≤ entry) →
    entry ∈ (durableAfter o env s n).entriesOf seq
  /-- Less finished work than makes a commit is lost. -/
  lost : ∀ lost : List Document, lost.Sublist (Run.finishes o env n (Run.start s)) →
    (∀ c ∈ lost, ∃ d ∈ (durableAfter o env s n).documents,
      d.seq = c.seq ∧ Untouched o s (durableAfter o env s n) d) →
    lost.length < max 1 o.commitInterval
  /-- While nobody else writes, no document comes or goes. -/
  present : (∀ k, env.outside k = []) →
    (durableAfter o env s n).documents.map place = s.documents.map place

/-- Wherever a run stops, and whatever others write, nothing is done by halves. -/
theorem advances_atomic (o : Options) (env : Surroundings) (hs : s.Keyed) (n : Nat) :
    Atomic o env s n := by
  obtain ⟨trail, hleaves, hfinished⟩ := exists_trail o env hs.toNumbered n
  obtain ⟨base, scope, hexplained⟩ := hleaves.explained
  have hwhole := hexplained.whole hs
  have hall : Run.finishes o env n (Run.start s) =
      trail.kept.filterMap Move.candidate? ++ trail.loose.filterMap Move.candidate? := by
    rw [← hfinished, ← List.filterMap_append]
    rfl
  refine ⟨fun d hd => ⟨?_, fun hboth => ?_⟩, fun seq hsome => ?_, ?_, fun lost hlost hall' => ?_, ?_⟩
  · rw [hall]
    exact hwhole.untouched_or (List.subset_append_left _ _) hd
  · exact not_untouched_of_indexedAnew hs hboth.2 hboth.1
  · obtain ⟨entry, hentry⟩ := List.exists_mem_of_ne_nil _ hsome
    obtain ⟨newer, hnewer, -⟩ :=
      (onward_keeps o env).durableAfter hs.toNumbered (Nat.zero_le n) seq entry hentry
    exact List.ne_nil_of_mem hnewer
  · intro k hk seq entry hentry hhighest
    obtain ⟨newer, hnewer, hle⟩ :=
      (onward_keeps o env).durableAfter hs.toNumbered hk seq entry hentry
    have hge := hhighest n (Nat.le_refl n) newer hnewer
    have hsame : entry = newer := by omega
    exact hsame ▸ hnewer
  · rw [hall] at hlost
    have hopen := hwhole.lost hs hlost hall'
    have hlength := hopen.length_le
    have hfew := hexplained.few
    have hmoves := List.length_filterMap_le Move.candidate? trail.loose
    omega
  · exact fun hout => hexplained.places hout

/-- A run told to index two documents anew in commits of two. It stops when the first has been
indexed: its old entry is still there, and its new one is lost. After the second, both are. -/
theorem advances_atomic_of_crash :
    let s : Store :=
      ⟨[⟨1, ['a'], none, none, some ['x'], some ['x'], none, none, some 0⟩,
        ⟨2, ['b'], none, none, none, none, none, none, none⟩], 2,
        [⟨1, 1⟩], 1, ⟨[⟨1, ⟨['p'], [], [], [], []⟩⟩], 1, 1⟩, []⟩
    let o : Options := ⟨.all, true, 2, 10⟩
    let m : Message := ⟨['n'], [], [], [], [], [], none⟩
    let env : Surroundings := ⟨fun _ => some m, fun _ => false, fun _ => [], 7⟩
    Atomic o env s 6 ∧ Atomic o env s 7 ∧
      (Run.finishes o env 6 (Run.start s)).length = 1 ∧
      (durableAfter o env s 6).entriesOf 1 = [1] ∧ (durableAfter o env s 7).entriesOf 1 = [1, 2] := by
  intro s o m env
  have hs : s.Keyed := ⟨⟨by decide, by decide⟩, ⟨by decide, by decide⟩, by decide⟩
  exact ⟨advances_atomic o env hs 6, advances_atomic o env hs 7, by decide +kernel,
    by decide +kernel, by decide +kernel⟩

end MailIndex.Reindex
