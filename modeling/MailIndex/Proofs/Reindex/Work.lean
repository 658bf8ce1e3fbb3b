import MailIndex.Proofs.Reindex.Scope
import Mathlib.Data.List.Induction

/-!
# What dealing with candidates does

The loop over the candidates as a function of the store alone. A candidate that is loaded gets its
derived columns and one more entry, at the end of the ledger; one that is not loaded leaves the
store as it is. No candidate touches what belongs to another.
-/

namespace MailIndex.Reindex

/-- The store while candidates are dealt with, and whose superseded entries are to be taken out. -/
structure Work where
  store : Store
  toPrune : SeqSet

def hadIndexed (s : Store) (scope : Scope) : List Nat :=
  (s.documents.filter fun d => d.indexedHash.isSome && scope.contains d.seq).map (·.seq)

namespace Work

def start (o : Options) (s : Store) (scope : Scope) : Work where
  store := preparedStore o s scope
  toPrune := ((preparedStore o s scope).duplicates.map (·.1)).filter scope.contains

def take (o : Options) (env : Surroundings) (had : List Nat) (w : Work) (d : Document) : Work :=
  match env.load d with
  | none => w
  | some m =>
    match Run.indexed? o env.now w.store d m with
    | none => w
    | some written =>
      ⟨written, if !(w.store.entriesOf d.seq).isEmpty || had.contains d.seq then
          w.toPrune.insert d.seq
        else w.toPrune⟩

def takeAll (o : Options) (env : Surroundings) (had : List Nat) (w : Work)
    (reached : List Document) : Work :=
  reached.foldl (take o env had) w

theorem takeAll_concat (o : Options) (env : Surroundings) (had : List Nat) (w : Work)
    (reached : List Document) (d : Document) :
    w.takeAll o env had (reached ++ [d]) = (w.takeAll o env had reached).take o env had d := by
  unfold takeAll
  rw [List.foldl_append]
  rfl

end Work

def settled (o : Options) (env : Surroundings) (d : Document) : Document :=
  match env.load d with
  | some m => d.indexed (Derived.ofMessage m o.snippetChars) (Run.hashFor d m) env.now
  | none => d

theorem seq_settled (o : Options) (env : Surroundings) (d : Document) :
    (settled o env d).seq = d.seq := by
  unfold settled
  split <;> rfl

def afterReached (o : Options) (env : Surroundings) (reached : List Document) (d : Document) :
    Document :=
  if d ∈ reached then settled o env d else d

theorem seq_afterReached (o : Options) (env : Surroundings) (reached : List Document)
    (d : Document) : (afterReached o env reached d).seq = d.seq := by
  unfold afterReached
  split
  · exact seq_settled o env d
  · rfl

/-- What some candidates have done when they have been dealt with. -/
structure Explains (o : Options) (env : Surroundings) (had : List Nat) (base : Work)
    (reached : List Document) (w : Work) : Prop where
  documents : w.store.documents = base.store.documents.map (afterReached o env reached)
  indexed : w.store.Indexed
  lastEntry : base.store.lastEntry ≤ w.store.lastEntry
  textOf? : ∀ entry, entry ≤ base.store.lastEntry →
    w.store.textOf? entry = base.store.textOf? entry
  loaded : ∀ d ∈ reached, ∀ m, env.load d = some m → ∃ entry, base.store.lastEntry < entry ∧
    w.store.entriesOf d.seq = base.store.entriesOf d.seq ++ [entry] ∧
    w.store.textOf? entry = some (.ofMessage m)
  untouched : ∀ seq, (∀ d ∈ reached, d.seq = seq → env.load d = none) →
    w.store.entriesOf seq = base.store.entriesOf seq
  toPrune : ∀ seq, seq ∈ w.toPrune ↔ seq ∈ base.toPrune ∨
    ∃ d ∈ reached, d.seq = seq ∧ (env.load d).isSome = true ∧
      (base.store.entriesOf seq ≠ [] ∨ seq ∈ had)

variable {o : Options} {env : Surroundings} {had : List Nat} {base w : Work}
  {reached : List Document}

theorem map_afterReached_nil (o : Options) (env : Surroundings) (documents : List Document) :
    documents.map (afterReached o env []) = documents := by
  have hsame : documents.map (afterReached o env []) = documents.map id :=
    List.map_congr_left fun d _ => by simp [afterReached]
  rw [hsame, List.map_id]

theorem explains_nil (h : base.store.Indexed) : Explains o env had base [] base where
  documents := (map_afterReached_nil o env base.store.documents).symm
  indexed := h
  lastEntry := Nat.le_refl _
  textOf? _ _ := rfl
  loaded d hd := by simp at hd
  untouched _ _ := rfl
  toPrune seq := by simp

theorem afterReached_concat_of_none {d e : Document} (hload : env.load d = none) :
    afterReached o env (reached ++ [d]) e = afterReached o env reached e := by
  unfold afterReached
  by_cases hreached : e ∈ reached
  · simp [hreached]
  · by_cases hd : e = d
    · subst hd
      simp [hreached, settled, hload]
    · simp [hreached, hd]

theorem Explains.skip (h : Explains o env had base reached w) {d : Document}
    (hload : env.load d = none) : Explains o env had base (reached ++ [d]) w where
  documents := by
    rw [h.documents]
    exact List.map_congr_left fun e _ => (afterReached_concat_of_none hload).symm
  indexed := h.indexed
  lastEntry := h.lastEntry
  textOf? := h.textOf?
  loaded e he m hm := by
    rcases List.mem_append.mp he with he | he
    · exact h.loaded e he m hm
    · rw [List.mem_singleton.mp he, hload] at hm
      cases hm
  untouched seq hseq := h.untouched seq fun e he => hseq e (List.mem_append_left _ he)
  toPrune seq := by
    rw [h.toPrune seq]
    constructor
    · rintro (hbase | ⟨e, he, hrest⟩)
      · exact .inl hbase
      · exact .inr ⟨e, List.mem_append_left _ he, hrest⟩
    · rintro (hbase | ⟨e, he, heq, hsome, hrest⟩)
      · exact .inl hbase
      · rcases List.mem_append.mp he with he | he
        · exact .inr ⟨e, he, heq, hsome, hrest⟩
        · rw [List.mem_singleton.mp he, hload] at hsome
          cases hsome

theorem map_indexed (hseqs : (base.store.documents.map (·.seq)).Nodup) {d : Document}
    (hd : d ∈ base.store.documents) (hnew : ∀ e ∈ reached, e.seq ≠ d.seq) {m : Message}
    (hload : env.load d = some m) :
    (base.store.documents.map (afterReached o env reached)).map (fun e =>
        if e.seq = d.seq then
          e.indexed (Derived.ofMessage m o.snippetChars) (Run.hashFor d m) env.now
        else e) =
      base.store.documents.map (afterReached o env (reached ++ [d])) := by
  rw [List.map_map]
  apply List.map_congr_left
  intro e he
  simp only [Function.comp_apply, seq_afterReached]
  by_cases hseq : e.seq = d.seq
  · have heq : e = d := List.inj_on_of_nodup_map hseqs he hd hseq
    have hout : d ∉ reached := fun hin => hnew d hin rfl
    subst heq
    simp [afterReached, hout, settled, hload]
  · have hne : e ≠ d := fun heq => hseq (congrArg Document.seq heq)
    simp [afterReached, hseq, hne]

theorem mem_grown {toPrune : SeqSet} {grows : Bool} {n seq : Nat} :
    seq ∈ (if grows then toPrune.insert n else toPrune) ↔
      seq ∈ toPrune ∨ seq = n ∧ grows = true := by
  cases grows with
  | false => simp
  | true => simp [SeqSet.mem_insert, or_comm]

section

variable {d : Document} {m : Message} {written : Store}

/-- The candidate that is loaded last has the new entry, the others keep theirs. -/
theorem Explains.loaded_concat (h : Explains o env had base reached w)
    (hnew : ∀ e ∈ reached, e.seq ≠ d.seq) (hload : env.load d = some m)
    (hadds : Adds o env.now d m w.store written) :
    ∀ e ∈ reached ++ [d], ∀ m', env.load e = some m' → ∃ entry, base.store.lastEntry < entry ∧
      written.entriesOf e.seq = base.store.entriesOf e.seq ++ [entry] ∧
      written.textOf? entry = some (.ofMessage m') := by
  intro e he m' hm'
  rcases List.mem_append.mp he with he | he
  · obtain ⟨entry, hlt, hentries, htext⟩ := h.loaded e he m' hm'
    have hmem : entry ∈ w.store.entriesOf e.seq := by simp [hentries]
    have hold : entry ≠ w.store.lastEntry + 1 := by
      have hle := h.indexed.numbered.le_of_mem_entriesOf hmem
      omega
    refine ⟨entry, hlt, ?_, ?_⟩
    · rw [hadds.entriesOf, if_neg (hnew e he), List.append_nil]
      exact hentries
    · rw [hadds.textOf?, if_neg hold]
      exact htext
  · have heq := List.mem_singleton.mp he
    subst heq
    rw [hload] at hm'
    cases hm'
    -- No candidate before it has its number, so its own entries are those of the beginning.
    have hown : w.store.entriesOf e.seq = base.store.entriesOf e.seq :=
      h.untouched e.seq fun e' he' heq => absurd heq (hnew e' he')
    refine ⟨w.store.lastEntry + 1, Nat.lt_succ_of_le h.lastEntry, ?_, ?_⟩
    · rw [hadds.entriesOf, if_pos rfl, hown]
    · rw [hadds.textOf?, if_pos rfl]

theorem Explains.untouched_concat (h : Explains o env had base reached w)
    (hload : env.load d = some m) (hadds : Adds o env.now d m w.store written) :
    ∀ seq, (∀ e ∈ reached ++ [d], e.seq = seq → env.load e = none) →
      written.entriesOf seq = base.store.entriesOf seq := by
  intro seq hseq
  have hother : seq ≠ d.seq := by
    rintro rfl
    have hnone := hseq d (List.mem_append_right _ (List.mem_singleton_self d)) rfl
    rw [hload] at hnone
    cases hnone
  rw [hadds.entriesOf, if_neg hother, List.append_nil]
  exact h.untouched seq fun e he => hseq e (List.mem_append_left _ he)

/-- The last candidate has superseded entries if it had entries at all, or was to have some. -/
theorem Explains.toPrune_concat (h : Explains o env had base reached w)
    (hnew : ∀ e ∈ reached, e.seq ≠ d.seq) (hload : env.load d = some m) :
    ∀ seq, seq ∈ (if !(w.store.entriesOf d.seq).isEmpty || had.contains d.seq then
        w.toPrune.insert d.seq else w.toPrune) ↔
      seq ∈ base.toPrune ∨ ∃ e ∈ reached ++ [d], e.seq = seq ∧ (env.load e).isSome = true ∧
        (base.store.entriesOf seq ≠ [] ∨ seq ∈ had) := by
  intro seq
  have hown : w.store.entriesOf d.seq = base.store.entriesOf d.seq :=
    h.untouched d.seq fun e he heq => absurd heq (hnew e he)
  have hgrows : (!(base.store.entriesOf d.seq).isEmpty || had.contains d.seq) = true ↔
      base.store.entriesOf d.seq ≠ [] ∨ d.seq ∈ had := by
    simp
  rw [mem_grown, h.toPrune seq, hown, hgrows]
  constructor
  · rintro ((hbase | ⟨e, he, hrest⟩) | ⟨rfl, hgrows'⟩)
    · exact .inl hbase
    · exact .inr ⟨e, List.mem_append_left _ he, hrest⟩
    · exact .inr ⟨d, List.mem_append_right _ (List.mem_singleton_self d), rfl, by simp [hload],
        hgrows'⟩
  · rintro (hbase | ⟨e, he, rfl, hsome, hgrows'⟩)
    · exact .inl (.inl hbase)
    · rcases List.mem_append.mp he with he | he
      · exact .inl (.inr ⟨e, he, rfl, hsome, hgrows'⟩)
      · rw [List.mem_singleton.mp he] at hgrows' ⊢
        exact .inr ⟨rfl, hgrows'⟩

theorem Explains.index (h : Explains o env had base reached w)
    (hseqs : (base.store.documents.map (·.seq)).Nodup) (hd : d ∈ base.store.documents)
    (hnew : ∀ e ∈ reached, e.seq ≠ d.seq) (hload : env.load d = some m) :
    Explains o env had base (reached ++ [d]) (w.take o env had d) := by
  have hpresent : (w.store.findSeq? d.seq).isSome = true := by
    rw [findSeq?_isSome, h.documents]
    exact ⟨_, List.mem_map_of_mem hd, seq_afterReached o env reached d⟩
  obtain ⟨written, hwritten⟩ : ∃ written,
      Run.indexed? o env.now w.store d m = some written := by
    unfold Run.indexed?
    rw [if_pos hpresent]
    exact ⟨_, rfl⟩
  have hadds := adds_of_indexed? hwritten
  have htake : w.take o env had d =
      ⟨written, if !(w.store.entriesOf d.seq).isEmpty || had.contains d.seq then
        w.toPrune.insert d.seq else w.toPrune⟩ := by
    unfold Work.take
    rw [hload]
    dsimp only
    rw [hwritten]
  rw [htake]
  refine ⟨?_, hadds.indexed h.indexed, ?_, ?_, h.loaded_concat hnew hload hadds,
    h.untouched_concat hload hadds, h.toPrune_concat hnew hload⟩
  · rw [hadds.documents, h.documents]
    exact map_indexed hseqs hd hnew hload
  · rw [hadds.lastEntry]
    exact Nat.le_succ_of_le h.lastEntry
  · intro entry hentry
    have hold : entry ≠ w.store.lastEntry + 1 := by
      have hle := h.lastEntry
      omega
    rw [hadds.textOf?, if_neg hold]
    exact h.textOf? entry hentry

end

/-- The induction is on the candidates from the last one back, as a run takes them up. -/
theorem explains_takeAll (hindexed : base.store.Indexed)
    (hseqs : (base.store.documents.map (·.seq)).Nodup)
    (hmem : ∀ d ∈ reached, d ∈ base.store.documents) (hnodup : (reached.map (·.seq)).Nodup) :
    Explains o env had base reached (base.takeAll o env had reached) := by
  induction reached using List.reverseRecOn with
  | nil => exact explains_nil hindexed
  | append_singleton reached d ih =>
      have hsplit := hnodup
      rw [List.map_append, List.nodup_append] at hsplit
      have hnew : ∀ e ∈ reached, e.seq ≠ d.seq := fun e he =>
        hsplit.2.2 e.seq (List.mem_map_of_mem he) d.seq (by simp)
      have hbefore := ih (fun e he => hmem e (List.mem_append_left _ he)) hsplit.1
      have hd := hmem d (List.mem_append_right _ (List.mem_singleton_self d))
      rw [Work.takeAll_concat]
      cases hload : env.load d with
      | none =>
          have hsame : ∀ w : Work, w.take o env had d = w := by
            intro w
            unfold Work.take
            rw [hload]
          rw [hsame]
          exact hbefore.skip hload
      | some m => exact hbefore.index hseqs hd hnew hload

end MailIndex.Reindex
