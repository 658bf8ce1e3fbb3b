import MailIndex.Proofs.Glob.Meaning
import MailIndex.Proofs.Reindex.Durable
import MailIndex.Proofs.Reindex.Interleaving

/-!
# What a run spares

A run with a selector writes only where its scope allows it: it takes hashes away, indexes
candidates and takes superseded entries out. Whatever is found in the whole store for each of these
is confined to the scope. So every other document keeps its columns and its entries, superseded or
not, and so do numbers that no document has, whether the run ends well, fails or stops anywhere.
-/

namespace MailIndex.Reindex

/-- Whether a selector reaches a document. A pattern is compared with its path, or with its
identifier if it has none. -/
def Selector.Reaches : Selector → Document → Prop
  | .all, _ => True
  | .single id, d => d.id = id
  | .pattern p, d => ∃ glob, Glob.parse p = .ok glob ∧ glob.Describes d.target

theorem picks_iff_reaches {selector : Selector} {d : Document} :
    selector.picks d = true ↔ selector.Reaches d := by
  cases selector with
  | all => simp [Selector.picks, Selector.Reaches]
  | single id => simp [Selector.picks, Selector.Reaches]
  | pattern p =>
      unfold Selector.picks Selector.Reaches
      cases hparse : Glob.parse p with
      | error e => simp [hparse]
      | ok glob => simp [hparse, Glob.matches_iff]

theorem exists_of_covers {selector : Selector} {s : Store} {seq : Nat} (hselector : selector ≠ .all)
    (h : selector.covers s seq = true) :
    ∃ d ∈ s.documents, d.seq = seq ∧ selector.picks d = true := by
  unfold Selector.covers at h
  split at h
  · exact absurd rfl hselector
  · simpa using h

/-- What others write while no transaction is open; otherwise they have to wait. -/
def Run.admitted (env : Surroundings) (r : Run) : List OutsideWrite :=
  if r.session.uncommitted.isNone then r.outsideBefore env else []

def othersAfter (o : Options) (env : Surroundings) (s : Store) : Nat → List OutsideWrite
  | 0 => []
  | n + 1 => othersAfter o env s n ++ (Run.advances o env n (Run.start s)).admitted env

/-- All that a store has under a number is what another store has: the columns of the document, the
rows of the ledger and their texts. -/
structure Spared (u t : Store) (seq : Nat) : Prop where
  documents : t.documents.filter (·.seq = seq) = u.documents.filter (·.seq = seq)
  entries : t.entries.filter (·.docSeq = seq) = u.entries.filter (·.docSeq = seq)
  texts : ∀ entry ∈ u.entriesOf seq, t.textOf? entry = u.textOf? entry

/-- A store differs from another one only under the numbers that are allowed, and the same writes of
others are possible. -/
structure Beside (allowed : Nat → Prop) (u t : Store) : Prop where
  missing : t.missing = u.missing
  lastSeq : t.lastSeq = u.lastSeq
  ids : t.documents.map (·.id) = u.documents.map (·.id)
  numbered : t.Numbered
  spared : ∀ seq, ¬ allowed seq → Spared u t seq

variable {o : Options} {env : Surroundings} {allowed : Nat → Prop} {s t u : Store} {seq : Nat}

theorem Spared.entriesOf (h : Spared u t seq) : t.entriesOf seq = u.entriesOf seq :=
  congrArg (List.map EntryRow.id) h.entries

theorem beside_self (hs : s.Numbered) : Beside allowed s s :=
  ⟨rfl, rfl, rfl, hs, fun _ _ => ⟨rfl, rfl, fun _ _ => rfl⟩⟩

/-! ## What the run writes -/

theorem map_id_ite {condition : Document → Bool} {f : Document → Document}
    (hid : ∀ d, (f d).id = d.id) (documents : List Document) :
    (documents.map fun d => if condition d then f d else d).map (·.id) = documents.map (·.id) := by
  rw [List.map_map]
  refine List.map_congr_left fun d _ => ?_
  simp only [Function.comp_apply]
  split
  · exact hid d
  · rfl

theorem filter_seq_ite {condition : Document → Bool} {f : Document → Document}
    (hseq : ∀ d, (f d).seq = d.seq) (documents : List Document) (seq : Nat) :
    (documents.map fun d => if condition d then f d else d).filter (·.seq = seq) =
      (documents.filter (·.seq = seq)).map fun d => if condition d then f d else d := by
  rw [List.filter_map]
  congr 2
  funext d
  simp only [Function.comp_apply]
  split
  · rw [hseq]
  · rfl

theorem Beside.change (h : Beside allowed u t) {condition : Document → Bool}
    {f : Document → Document} (hwithin : ∀ d, condition d = true → allowed d.seq)
    (hseq : ∀ d, (f d).seq = d.seq) (hid : ∀ d, (f d).id = d.id) :
    Beside allowed u (t.change condition f) where
  missing := h.missing
  lastSeq := h.lastSeq
  ids := by
    rw [← h.ids, Store.change, map_id_ite hid]
  numbered := h.numbered.withDocuments _ t.lastSeq
  spared seq hother := by
    have hspared := h.spared seq hother
    refine ⟨?_, hspared.entries, hspared.texts⟩
    have hsame : ∀ d ∈ t.documents.filter (·.seq = seq), (if condition d then f d else d) = d := by
      intro d hd
      obtain rfl : d.seq = seq := of_decide_eq_true (List.mem_filter.mp hd).2
      exact if_neg fun htaken => hother (hwithin d htaken)
    rw [← hspared.documents, Store.change, filter_seq_ite hseq, List.map_congr_left hsame,
      List.map_id']

theorem Beside.addEntry (h : Beside allowed u t) (hseq : allowed seq) (text : EntryText) :
    Beside allowed u (t.addEntry seq text).1 where
  missing := h.missing
  lastSeq := h.lastSeq
  ids := h.ids
  numbered := h.numbered.addEntry seq text
  spared q hq := by
    have hspared := h.spared q hq
    have hne : seq ≠ q := fun heq => hq (heq ▸ hseq)
    refine ⟨hspared.documents, ?_, fun entry hentry => ?_⟩
    · rw [← hspared.entries]
      simp [Store.addEntry, Store.addEntryRow, Store.addText, List.filter_append, hne]
    · -- The new entry has a number that none of these has.
      have hle : entry ≤ t.lastEntry :=
        h.numbered.le_of_mem_entriesOf (hspared.entriesOf.symm ▸ hentry)
      rw [Store.textOf?_addEntry, if_neg (by omega)]
      exact hspared.texts entry hentry

theorem Beside.prune (h : Beside allowed u t) (hseq : allowed seq) :
    Beside allowed u (t.prune seq).1 where
  missing := by
    rw [Store.fst_prune, Store.foldl_removeEntry]
    exact h.missing
  lastSeq := (Store.lastSeq_prune t seq).trans h.lastSeq
  ids := by
    rw [Store.documents_prune]
    exact h.ids
  numbered := h.numbered.prune seq
  spared q hq := by
    have hspared := h.spared q hq
    have hne : q ≠ seq := fun heq => hq (heq ▸ hseq)
    refine ⟨?_, ?_, fun entry hentry => ?_⟩
    · rw [Store.documents_prune]
      exact hspared.documents
    · rw [← hspared.entries, Store.fst_prune, Store.foldl_removeEntry, List.filter_filter]
      refine List.filter_congr fun row hrow => ?_
      -- What is superseded under one number is in no row of another.
      have hown := h.numbered.mem_superseded_iff hrow seq
      by_cases hq : row.docSeq = q
      · have hkept : row.id ∉ t.superseded seq := by
          rw [hown, hq]
          exact fun hold => hne hold.1
        simp [hq, hkept]
      · simp [hq]
    · have hkept : entry ∉ t.superseded seq := by
        intro hold
        have hmine : entry ∈ t.entriesOf q := hspared.entriesOf.symm ▸ hentry
        exact hne (h.numbered.owner_unique hmine (Store.mem_superseded.mp hold).1)
      rw [Store.textOf?_prune t hkept]
      exact hspared.texts entry hentry

theorem Beside.index (h : Beside allowed u t) {d : Document} (hd : allowed d.seq) (m : Message) :
    Beside allowed u ((Move.index d m).apply o env t) := by
  have hmarked : Beside allowed u (t.markIndexed d.seq (Derived.ofMessage m o.snippetChars)
      (Run.hashFor d m) env.now) := by
    refine h.change (fun e he => ?_) (fun _ => rfl) fun _ => rfl
    rwa [of_decide_eq_true he]
  exact hmarked.addEntry hd _

/-! ## What others write -/

theorem Beside.write (h : Beside allowed u t) {α : Type} {tables : List Table}
    {f : Store → Store × α} (hf : Beside allowed (f u).1 (f t).1) :
    Beside allowed (Statement.write tables f u).2 (Statement.write tables f t).2 := by
  have hlacking : t.lacking? tables = u.lacking? tables := by
    unfold Store.lacking?
    rw [h.missing]
  unfold Statement.write Store.needing
  rw [hlacking]
  cases u.lacking? tables with
  | some table => exact h
  | none => exact hf

theorem isSome_find?_iff {id : Text} :
    (t.find? id).isSome = true ↔ id ∈ t.documents.map (·.id) := by
  unfold Store.find?
  rw [List.find?_isSome, List.mem_map]
  simp

theorem Beside.both (h : Beside allowed u t) {f : List Document → List Document} {n k : Nat}
    (hlast : k = n)
    (hids : ∀ {l m : List Document}, l.map (·.id) = m.map (·.id) →
      (f l).map (·.id) = (f m).map (·.id))
    (hparts : ∀ {l m : List Document} {seq : Nat},
      l.filter (·.seq = seq) = m.filter (·.seq = seq) →
        (f l).filter (·.seq = seq) = (f m).filter (·.seq = seq)) :
    Beside allowed { u with documents := f u.documents, lastSeq := n }
      { t with documents := f t.documents, lastSeq := k } where
  missing := h.missing
  lastSeq := hlast
  ids := hids h.ids
  numbered := h.numbered.withDocuments _ k
  spared seq hother :=
    have hspared := h.spared seq hother
    ⟨hparts hspared.documents, hspared.entries, hspared.texts⟩

theorem Beside.deleteDocument (h : Beside allowed u t) (id : Text) :
    Beside allowed (u.deleteDocument id) (t.deleteDocument id) := by
  refine h.both (f := fun documents => documents.filter (·.id ≠ id)) h.lastSeq (fun hsame => ?_)
    fun hsame => ?_
  · have hids : ∀ l : List Document,
        (l.filter (·.id ≠ id)).map (·.id) = (l.map (·.id)).filter (· ≠ id) := by
      intro l
      rw [List.filter_map]
      rfl
    rw [hids, hids, hsame]
  · rw [List.filter_comm, hsame, List.filter_comm]

/-- Numbers are given out as if the run had not been there. -/
theorem Beside.upsert (h : Beside allowed u t) (record : Record) :
    Beside allowed (u.upsert record).1 (t.upsert record).1 := by
  have hlast : t.lastSeq + 1 = u.lastSeq + 1 := by rw [h.lastSeq]
  have hknown : (t.find? record.id).isSome = (u.find? record.id).isSome := by
    rw [Bool.eq_iff_iff, isSome_find?_iff, isSome_find?_iff, h.ids]
  unfold Store.upsert
  dsimp only
  cases hu : u.find? record.id with
  | none =>
      cases ht : t.find? record.id with
      | some d => simp [hu, ht] at hknown
      | none =>
          rw [hlast]
          refine h.both (f := (· ++ [Document.ofRecord (u.lastSeq + 1) record])) rfl
            (fun hsame => ?_) fun hsame => ?_
          · rw [List.map_append, List.map_append, hsame]
          · rw [List.filter_append, List.filter_append, hsame]
  | some d =>
      cases ht : t.find? record.id with
      | none => simp [hu, ht] at hknown
      | some e =>
          have hid : ∀ d : Document, (d.updated record).id = d.id := fun _ => rfl
          have hseq : ∀ d : Document, (d.updated record).seq = d.seq := fun _ => rfl
          refine h.both (f := fun documents => documents.map fun d =>
            if decide (d.id = record.id) then d.updated record else d) hlast (fun hsame => ?_)
            fun hsame => ?_
          · rw [map_id_ite hid, map_id_ite hid, hsame]
          · rw [filter_seq_ite hseq, filter_seq_ite hseq, hsame]

theorem Beside.outside (h : Beside allowed u t) (write : OutsideWrite) :
    Beside allowed (write.apply u) (write.apply t) := by
  cases write with
  | upsert record => exact h.write (h.upsert record)
  | delete id => exact h.write (h.deleteDocument id)

theorem Beside.foldl_outside (h : Beside allowed u t) (writes : List OutsideWrite) :
    Beside allowed (writes.foldl OutsideWrite.apply u) (writes.foldl OutsideWrite.apply t) := by
  induction writes generalizing u t with
  | nil => exact h
  | cons write writes ih => exact ih (h.outside write)

/-! ## What is confined -/

def Scope.Within (allowed : Nat → Prop) (scope : Scope) : Prop :=
  ∀ seq, scope.contains seq = true → allowed seq

section

variable (o : Options) (allowed : Nat → Prop)

/-- What a run that sees a store as durable still has to do is allowed. -/
def Stage.Confined (t : Store) : Stage → Prop
  | .beginning => ∀ scope, o.selector.scope t = .ok scope → scope.Within allowed
  | .scoped scope => scope.Within allowed
  | .noted scope _ => scope.Within allowed
  | .prepared scope _ => scope.Within allowed
  | .selected scope _ found => scope.Within allowed ∧ ∀ d ∈ found, allowed d.seq
  | .indexing _ left toPrune _ => (∀ d ∈ left, allowed d.seq) ∧ ∀ seq ∈ toPrune, allowed seq
  | .pruning left _ _ _ _ => ∀ seq ∈ left, allowed seq
  | .finished _ => True
  | .failed _ => True

structure Confined (u : Store) (r : Run) : Prop where
  stage : r.stage.Confined o allowed r.session.durable
  session : r.session.Keeps (Beside allowed u)

end

variable {r : Run} {scope : Scope}

theorem confined_at {next : Stage} (hstage : r.stage = next)
    (hnext : next.Confined o allowed r.session.durable) (h : r.session.Keeps (Beside allowed u)) :
    Confined o allowed u r := ⟨hstage ▸ hnext, h⟩

theorem confined_fail (h : r.session.Keeps (Beside allowed u)) (e : Error) :
    Confined o allowed u (r.fail e) := ⟨trivial, h.rollback⟩

theorem confined_proceed {α : Type} {result : Except Failure α} {next : α → Stage}
    (hnext : ∀ a, result = .ok a → (next a).Confined o allowed r.session.durable)
    (h : r.session.Keeps (Beside allowed u)) : Confined o allowed u (r.proceed result next) := by
  cases result with
  | ok a => exact ⟨hnext a rfl, h⟩
  | error f => exact confined_fail h _

theorem confined_resolve
    (hresolves : ∀ scope, o.selector.scope r.session.durable = .ok scope → scope.Within allowed)
    (h : r.session.Keeps (Beside allowed u)) : Confined o allowed u (r.resolve o) := by
  unfold Run.resolve
  dsimp only
  split
  · rename_i scope hscope
    exact ⟨hresolves scope hscope, h⟩
  · exact ⟨trivial, h.rollback⟩

theorem confined_prepare (hscope : scope.Within allowed) (had : List Nat)
    (h : r.session.Keeps (Beside allowed u)) : Confined o allowed u (r.prepare o scope had) := by
  unfold Run.prepare
  split
  · split
    · rename_i hneeding
      have hunindexed : Beside allowed u (Run.unindexed r.session.view scope) :=
        h.view.change (fun d => hscope d.seq) (fun _ => rfl) fun _ => rfl
      rw [of_needing_ok hneeding]
      exact ⟨hscope, (h.write hunindexed).commit⟩
    · exact confined_fail h _
  · exact ⟨hscope, h⟩

theorem confined_select (hscope : scope.Within allowed) (had : List Nat)
    (h : r.session.Keeps (Beside allowed u)) : Confined o allowed u (r.select o scope had) := by
  refine confined_proceed (fun found hfound => ⟨hscope, fun d hd => ?_⟩) h
  rw [of_needing_ok hfound] at hd
  have hwanted := (List.mem_filter.mp hd).2
  simp only [Bool.and_eq_true] at hwanted
  exact hscope d.seq hwanted.1.2

theorem confined_collect (hscope : scope.Within allowed) (had : List Nat) {found : List Document}
    (hfound : ∀ d ∈ found, allowed d.seq) (h : r.session.Keeps (Beside allowed u)) :
    Confined o allowed u (r.collect scope had found) := by
  refine confined_proceed (fun toPrune hprune => ⟨hfound, fun seq hseq => ?_⟩) h
  rw [of_needing_ok hprune] at hseq
  exact hscope seq (List.mem_filter.mp hseq).2

theorem confined_indexNext {had : List Nat} {d : Document} {left : List Document}
    {toPrune : SeqSet} {tally : Tally} (hleft : ∀ e ∈ d :: left, allowed e.seq)
    (hprune : ∀ seq ∈ toPrune, allowed seq) (h : r.session.Keeps (Beside allowed u)) :
    Confined o allowed u (r.indexNext o env had d left toPrune tally) := by
  have hd : allowed d.seq := hleft d List.mem_cons_self
  have hrest : ∀ e ∈ left, allowed e.seq := fun e he => hleft e (List.mem_cons_of_mem d he)
  cases (dealt_indexNext o env r had d left toPrune tally).1 with
  | passed hstage hsame _ =>
      refine confined_at hstage ⟨hrest, hprune⟩ ?_
      rcases hsame with hsame | hsame
      · exact hsame ▸ h
      · exact hsame ▸ h.write h.view
  | indexed hstage htoPrune hsession _ =>
      have hmore : ∀ seq ∈ toPrune.insert d.seq, allowed seq := by
        intro seq hseq
        cases SeqSet.mem_insert.mp hseq with
        | inl hnew => exact hnew ▸ hd
        | inr hold => exact hprune seq hold
      refine confined_at hstage ⟨hrest, ?_⟩ ?_
      · rw [htoPrune]
        split
        · exact hmore
        · exact hprune
      · rw [hsession]
        exact (h.write (h.view.index hd _)).finishOne _
  | failed hstage hsession _ => exact confined_at hstage trivial (hsession ▸ h.rollback)

theorem confined_pruneNext {seq total pruned : Nat} {left : List Nat} {paused : Bool}
    {tally : Tally} (hleft : ∀ q ∈ seq :: left, allowed q)
    (h : r.session.Keeps (Beside allowed u)) :
    Confined o allowed u (r.pruneNext o seq left total paused tally pruned) := by
  cases (pruned_pruneNext o r seq left total paused tally pruned).1 with
  | done hstage hsession _ _ =>
      refine confined_at hstage (fun q hq => hleft q (List.mem_cons_of_mem seq hq)) ?_
      rw [hsession]
      exact (h.write (h.view.prune (hleft seq List.mem_cons_self))).finishOne _
  | failed hstage hsession _ => exact confined_at hstage trivial (hsession ▸ h.rollback)

/-! ## Runs -/

/-- A step does nothing that is not allowed, and gives the run nothing of that kind to do. -/
theorem Confined.step (h : Confined o allowed u r) : Confined o allowed u (r.step o env) := by
  have hsame := h
  obtain ⟨hstage, hsession⟩ := h
  unfold Run.step
  cases hbefore : r.stage with
  | beginning =>
      rw [hbefore] at hstage
      exact confined_resolve hstage hsession
  | «scoped» scope =>
      rw [hbefore] at hstage
      exact confined_proceed (fun _ _ => hstage) hsession
  | noted scope had =>
      rw [hbefore] at hstage
      exact confined_prepare hstage had hsession
  | prepared scope had =>
      rw [hbefore] at hstage
      exact confined_select hstage had hsession
  | selected scope had found =>
      rw [hbefore] at hstage
      exact confined_collect hstage.1 had hstage.2 hsession
  | indexing had left toPrune tally =>
      rw [hbefore] at hstage
      obtain ⟨hleft, hprune⟩ := hstage
      cases left with
      | nil => exact ⟨hprune, hsession.commit⟩
      | cons d left =>
          dsimp only
          split
          · exact ⟨hprune, hsession.commit⟩
          · exact confined_indexNext hleft hprune hsession
  | pruning left total paused tally pruned =>
      rw [hbefore] at hstage
      cases left with
      | nil => exact ⟨trivial, hsession.commit⟩
      | cons seq left => exact confined_pruneNext hstage hsession
  | finished report => exact hsame
  | failed e => exact hsame

theorem Confined.interfere (h : Confined o allowed u r) :
    Confined o allowed ((r.admitted env).foldl OutsideWrite.apply u)
      (r.interfere (r.outsideBefore env)) := by
  unfold Run.admitted Run.interfere
  cases huncommitted : r.session.uncommitted with
  | some seen => exact h
  | none =>
      have hafter := h.session.durable.foldl_outside (r.outsideBefore env)
      refine ⟨?_, hafter, ?_⟩
      · have hstage := h.stage
        cases hbefore : r.stage with
        | beginning =>
            -- Nothing is written before the selector is resolved.
            have hnone : r.outsideBefore env = [] := by
              unfold Run.outsideBefore
              rw [hbefore]
            rw [hbefore] at hstage
            rw [hnone]
            exact hstage
        | _ =>
            rw [hbefore] at hstage
            exact hstage
      · change Beside allowed _ (Option.getD r.session.uncommitted _)
        rw [huncommitted]
        exact hafter

theorem Confined.advances (h : Confined o allowed s (Run.start s)) (n : Nat) :
    Confined o allowed ((othersAfter o env s n).foldl OutsideWrite.apply s)
      (Run.advances o env n (Run.start s)) := by
  induction n with
  | zero => exact h
  | succ n ih =>
      rw [othersAfter, List.foldl_append, advances_succ]
      exact ih.interfere.step

theorem othersAfter_eq_nil (hout : ∀ k, env.outside k = []) (n : Nat) :
    othersAfter o env s n = [] := by
  induction n with
  | zero => rfl
  | succ n ih =>
      have hnone : ∀ r : Run, r.admitted env = [] := by
        intro r
        have hbefore : r.outsideBefore env = [] := by
          unfold Run.outsideBefore
          split
          · rw [hout, ite_self]
          · rfl
        unfold Run.admitted
        rw [hbefore, ite_self]
      rw [othersAfter, ih, hnone]
      rfl

/-- A run with a selector leaves all that it does not reach as others alone would have left it, at
every step and so wherever the run ends, fails or stops: other documents, and what is left of
documents that are gone. While nobody else writes, that is as it was. -/
theorem scoped_run_spares (o : Options) (env : Surroundings) (hid : s.Identified)
    (hs : s.Numbered) (hselector : o.selector ≠ .all) (n : Nat) {seq : Nat}
    (hunreached : ∀ d ∈ s.documents, d.seq = seq → ¬ o.selector.Reaches d) :
    Spared ((othersAfter o env s n).foldl OutsideWrite.apply s) (durableAfter o env s n) seq ∧
      ((∀ k, env.outside k = []) → Spared s (durableAfter o env s n) seq) := by
  have hresolves : ∀ scope, o.selector.scope s = .ok scope →
      scope.Within fun q => o.selector.covers s q = true := by
    intro scope hscope q hq
    rwa [contains_eq_covers hid hscope] at hq
  have hstart : Confined o (fun q => o.selector.covers s q = true) s (Run.start s) :=
    ⟨hresolves, beside_self hs, beside_self hs⟩
  have huncovered : ¬ o.selector.covers s seq = true := by
    intro hcovers
    obtain ⟨d, hd, hseq, hpicks⟩ := exists_of_covers hselector hcovers
    exact hunreached d hd hseq (picks_iff_reaches.mp hpicks)
  have hspared : Spared ((othersAfter o env s n).foldl OutsideWrite.apply s)
      (durableAfter o env s n) seq := (hstart.advances n).session.durable.spared seq huncovered
  refine ⟨hspared, fun hout => ?_⟩
  rw [othersAfter_eq_nil hout] at hspared
  exact hspared

/-- The first of three documents is indexed anew, and its superseded entry is taken out. The second
one and a document that is gone keep two entries each, although others have changed the second one
meanwhile and added a fourth. -/
theorem scoped_run_spares_amid_writes :
    let s : Store :=
      ⟨[⟨1, ['a'], none, some ['m', '/', 'a'], some ['x'], some ['x'], none, none, some 0⟩,
        ⟨2, ['b'], none, some ['n', '/', 'b'], some ['y'], some ['z'], none, none, some 0⟩,
        ⟨3, ['c'], none, none, none, none, none, none, none⟩], 3,
        [⟨1, 1⟩, ⟨2, 2⟩, ⟨3, 2⟩, ⟨4, 9⟩, ⟨5, 9⟩], 5,
        ⟨[⟨1, ⟨['p'], [], [], [], []⟩⟩, ⟨2, ⟨['q'], [], [], [], []⟩⟩,
          ⟨3, ⟨['r'], [], [], [], []⟩⟩, ⟨4, ⟨['s'], [], [], [], []⟩⟩,
          ⟨5, ⟨['t'], [], [], [], []⟩⟩], 5, 5⟩, []⟩
    let o : Options := ⟨.pattern ['m', '/', '*'], true, 1, 10⟩
    let writes : List OutsideWrite :=
      [.upsert ⟨['b'], some ['w'], none, none, none⟩, .upsert ⟨['d'], none, none, none, none⟩]
    let env : Surroundings := ⟨fun _ => some ⟨['n'], [], [], [], [], [], none⟩, fun _ => false,
      fun n => if n = 0 then writes else [], 7⟩
    let t := durableAfter o env s 9
    (Run.advances o env 9 (Run.start s)).outcome? =
        some (.ok ⟨.completed, 1, 1, 0, 0, 1, 3⟩) ∧
      t.entries = [⟨2, 2⟩, ⟨3, 2⟩, ⟨4, 9⟩, ⟨5, 9⟩, ⟨6, 1⟩] ∧
      (t.findSeq? 2).bind (·.contentHash) = some ['w'] ∧
      Spared (writes.foldl OutsideWrite.apply s) t 2 ∧
      Spared (writes.foldl OutsideWrite.apply s) t 9 := by
  intro s o writes env t
  have hid : s.Identified := ⟨by decide, by decide⟩
  have hs : s.Numbered := ⟨by decide, by decide⟩
  have hunreached : ∀ q ∈ [2, 9], ∀ d ∈ s.documents, d.seq = q → ¬ o.selector.Reaches d := by
    have hnone : ∀ q ∈ [2, 9], ∀ d ∈ s.documents, d.seq = q → o.selector.picks d = false := by
      decide +kernel
    intro q hq d hd hseq hreaches
    have hpicks := picks_iff_reaches.mpr hreaches
    rw [hnone q hq d hd hseq] at hpicks
    cases hpicks
  have hothers : (othersAfter o env s 9).foldl OutsideWrite.apply s =
      writes.foldl OutsideWrite.apply s := by decide +kernel
  have hspared : ∀ q ∈ [2, 9], Spared (writes.foldl OutsideWrite.apply s) t q := by
    intro q hq
    have hboth := scoped_run_spares o env hid hs (by decide) 9 (hunreached q hq)
    rw [hothers] at hboth
    exact hboth.1
  exact ⟨by decide +kernel, by decide +kernel, by decide +kernel, hspared 2 (by decide),
    hspared 9 (by decide)⟩

end MailIndex.Reindex
