import MailIndex.Proofs.Reindex.Durable

/-!
# The outlook of a store

What a store will look like once nothing is left to do: every document that has to be indexed is
indexed, with one entry of its text, and whatever else is in scope has its newest entry only. No
move of a run changes this outlook, so it does not matter after which of them the run stops. A store
in which nothing is left to do looks like its outlook.
-/

namespace MailIndex.Reindex

/-- What several runs over the same documents have in common: what they cover, how they cut a
snippet, and what the source answers for an identifier. -/
structure Plan where
  selector : Selector
  snippetChars : Nat
  answer : Text → Option Message

/-- All that can be seen of a store, apart from times: the documents, and the texts of the entries of
every document in the order of the entries. -/
structure Sight where
  documents : List Document
  texts : Nat → List (Option EntryText)

def untimed (d : Document) : Document := { d with indexedAt := none }

def textsOf (t : Store) (seq : Nat) : List (Option EntryText) := (t.entriesOf seq).map t.textOf?

def newestOf (t : Store) (seq : Nat) : List (Option EntryText) :=
  (t.entriesOf seq).max?.toList.map t.textOf?

def sight (t : Store) : Sight := ⟨t.documents.map untimed, textsOf t⟩

namespace Plan

variable (p : Plan)

def due? (d : Document) : Option Message :=
  if p.selector.picks d && !d.isFresh then p.answer d.id else none

def settled (d : Document) : Document :=
  match p.due? d with
  | some m => untimed (d.indexed (Derived.ofMessage m p.snippetChars) (Run.hashFor d m) 0)
  | none => untimed d

def settledTexts (t : Store) (seq : Nat) : List (Option EntryText) :=
  match (t.findSeq? seq).bind p.due? with
  | some m => [some (.ofMessage m)]
  | none => if p.selector.covers t seq then newestOf t seq else textsOf t seq

def outlook (t : Store) : Sight := ⟨t.documents.map p.settled, p.settledTexts t⟩

def options (force : Bool) (commitInterval : Nat) : Options :=
  ⟨p.selector, force, commitInterval, p.snippetChars⟩

/-- The plan's surroundings, to which nobody else belongs. -/
def surroundings (cancelled : Nat → Bool) (now : Int) : Surroundings :=
  ⟨fun d => p.answer d.id, cancelled, fun _ => [], now⟩

end Plan

variable {p : Plan} {t : Store} {d : Document} {m : Message}

/-! ## Nothing left to do -/

theorem outlook_eq_sight (hdue : ∀ d ∈ t.documents, p.due? d = none)
    (hfew : ∀ seq, p.selector.covers t seq = true → (t.entriesOf seq).length ≤ 1) :
    p.outlook t = sight t := by
  have hdocuments : t.documents.map p.settled = t.documents.map untimed := by
    apply List.map_congr_left
    intro d hd
    unfold Plan.settled
    rw [hdue d hd]
  have htexts : p.settledTexts t = textsOf t := by
    funext seq
    have hnone : (t.findSeq? seq).bind p.due? = none := by
      cases hfind : t.findSeq? seq with
      | none => rfl
      | some d => exact hdue d (List.mem_of_find?_eq_some hfind)
    unfold Plan.settledTexts
    rw [hnone]
    dsimp only
    split
    · next hcovers =>
        unfold newestOf textsOf
        rw [Store.max?_toList_of_length_le (hfew seq hcovers)]
    · rfl
  unfold Plan.outlook sight
  rw [hdocuments, htexts]

/-! ## Moves -/

theorem due?_of_isFresh (hfresh : d.isFresh = true) : p.due? d = none := by
  unfold Plan.due?
  simp [hfresh]

theorem picks_of_due? (hdue : p.due? d = some m) :
    p.selector.picks d = true ∧ d.isFresh = false ∧ p.answer d.id = some m := by
  unfold Plan.due? at hdue
  split at hdue
  · next hwanted =>
      simp only [Bool.and_eq_true, Bool.not_eq_true'] at hwanted
      exact ⟨hwanted.1, hwanted.2, hdue⟩
  · cases hdue

theorem find?_seq_map {documents : List Document} {f : Document → Document}
    (hseq : ∀ e, (f e).seq = e.seq) (seq : Nat) :
    (documents.map f).find? (·.seq = seq) = (documents.find? (·.seq = seq)).map f := by
  rw [List.find?_map]
  congr 2
  funext e
  simp only [Function.comp_apply, hseq]

section

variable {force : Bool} {commitInterval : Nat} {now : Int} {after : Store}

theorem settled_of_adds (ht : t.Keyed) (hd : d ∈ t.documents) (hdue : p.due? d = some m)
    (hadds : Adds (p.options force commitInterval) now d m t after) :
    after.documents.map p.settled = t.documents.map p.settled := by
  rw [hadds.documents, List.map_map]
  apply List.map_congr_left
  intro e he
  simp only [Function.comp_apply]
  split
  · next hseq =>
      obtain rfl := ht.eq_of_seq he hd hseq
      unfold Plan.settled
      rw [due?_of_isFresh (isFresh_indexed _ _ _ _), hdue]
      rfl
  · rfl

theorem findSeq?_of_adds (hadds : Adds (p.options force commitInterval) now d m t after)
    (seq : Nat) : after.findSeq? seq = (t.findSeq? seq).map fun e =>
      if e.seq = d.seq then e.indexed (Derived.ofMessage m p.snippetChars) (Run.hashFor d m) now
      else e := by
  unfold Store.findSeq?
  rw [hadds.documents]
  exact find?_seq_map (fun e => by split <;> rfl) seq

/-- The document is not due any more, and its newest entry is the one that was due. -/
theorem settledTexts_of_adds_self (ht : t.Keyed) (hd : d ∈ t.documents)
    (hdue : p.due? d = some m) (hadds : Adds (p.options force commitInterval) now d m t after)
    (hplaces : after.documents.map place = t.documents.map place) :
    p.settledTexts after d.seq = p.settledTexts t d.seq := by
  have hcovers : p.selector.covers after d.seq = true := by
    rw [covers_of_places hplaces]
    exact covers_of_picks hd (picks_of_due? hdue).1
  have hbelow : ∀ entry ∈ t.entriesOf d.seq, entry < t.lastEntry + 1 := fun entry hentry =>
    Nat.lt_succ_of_le (ht.le_of_mem_entriesOf hentry)
  have hnewest : newestOf after d.seq = [some (.ofMessage m)] := by
    unfold newestOf
    rw [hadds.entriesOf, if_pos rfl, Store.max?_concat hbelow]
    simp [hadds.textOf?]
  have hbefore : p.settledTexts t d.seq = [some (.ofMessage m)] := by
    unfold Plan.settledTexts
    rw [ht.toIdentified.findSeq? hd, Option.bind_some, hdue]
  rw [hbefore]
  unfold Plan.settledTexts
  rw [findSeq?_of_adds hadds, ht.toIdentified.findSeq? hd]
  simp only [Option.map_some, if_true, Option.bind_some]
  rw [due?_of_isFresh (isFresh_indexed _ _ _ _)]
  dsimp only
  rw [if_pos hcovers]
  exact hnewest

theorem settledTexts_of_adds_other (ht : t.Keyed)
    (hadds : Adds (p.options force commitInterval) now d m t after)
    (hplaces : after.documents.map place = t.documents.map place) {seq : Nat} (hseq : seq ≠ d.seq) :
    p.settledTexts after seq = p.settledTexts t seq := by
  have hentries : after.entriesOf seq = t.entriesOf seq := by
    rw [hadds.entriesOf, if_neg hseq, List.append_nil]
  have htext : ∀ entry ∈ t.entriesOf seq, after.textOf? entry = t.textOf? entry := by
    intro entry hentry
    have hle := ht.le_of_mem_entriesOf hentry
    rw [hadds.textOf?, if_neg (by omega)]
  have hfind : after.findSeq? seq = t.findSeq? seq := by
    rw [findSeq?_of_adds hadds]
    cases hfind : t.findSeq? seq with
    | none => rfl
    | some e =>
        have heq : e.seq = seq := by simpa using List.find?_some hfind
        rw [Option.map_some, if_neg (heq ▸ hseq)]
  have hall : textsOf after seq = textsOf t seq := by
    unfold textsOf
    rw [hentries]
    exact List.map_congr_left htext
  have hnewest : newestOf after seq = newestOf t seq := by
    unfold newestOf
    rw [hentries]
    apply List.map_congr_left
    intro entry hentry
    exact htext entry (List.max?_eq_some_iff.mp (Option.mem_toList.mp hentry)).1
  unfold Plan.settledTexts
  rw [hfind, covers_of_places hplaces, hall, hnewest]

/-- Indexing a document that is due changes nothing in the long run. -/
theorem outlook_of_adds (ht : t.Keyed) (hd : d ∈ t.documents) (hdue : p.due? d = some m)
    (hadds : Adds (p.options force commitInterval) now d m t after)
    (hplaces : after.documents.map place = t.documents.map place) :
    p.outlook after = p.outlook t := by
  have htexts : p.settledTexts after = p.settledTexts t := by
    funext seq
    by_cases hseq : seq = d.seq
    · rw [hseq]
      exact settledTexts_of_adds_self ht hd hdue hadds hplaces
    · exact settledTexts_of_adds_other ht hadds hplaces hseq
  unfold Plan.outlook
  rw [settled_of_adds ht hd hdue hadds, htexts]

end

theorem outlook_prune (ht : t.Keyed) {seq : Nat} (hcovers : p.selector.covers t seq = true) :
    p.outlook (t.prune seq).1 = p.outlook t := by
  have hdocuments := Store.documents_prune t seq
  have htexts : p.settledTexts (t.prune seq).1 = p.settledTexts t := by
    funext q
    have hfind : (t.prune seq).1.findSeq? q = t.findSeq? q := by
      unfold Store.findSeq?
      rw [hdocuments]
    have hkept : p.selector.covers (t.prune seq).1 q = p.selector.covers t q :=
      covers_of_places (congrArg (List.map place) hdocuments) p.selector q
    have htext : ∀ entry ∈ (t.prune seq).1.entriesOf q,
        (t.prune seq).1.textOf? entry = t.textOf? entry := fun entry hentry =>
      Store.textOf?_prune t (Store.of_mem_entriesOf_prune hentry).2
    have hmax := ht.toNumbered.max?_entriesOf_prune seq q
    have hnewest : newestOf (t.prune seq).1 q = newestOf t q := by
      unfold newestOf
      rw [← hmax]
      apply List.map_congr_left
      intro entry hentry
      exact htext entry (List.max?_eq_some_iff.mp (Option.mem_toList.mp hentry)).1
    unfold Plan.settledTexts
    rw [hfind, hkept, hnewest]
    by_cases hq : p.selector.covers t q = true
    · rw [if_pos hq, if_pos hq]
    · -- Only what is in scope has lost any entries.
      have hne : q ≠ seq := by
        rintro rfl
        exact hq hcovers
      have hall : textsOf (t.prune seq).1 q = textsOf t q := by
        unfold textsOf
        have hentries := ht.toNumbered.entriesOf_prune seq q
        rw [if_neg hne] at hentries
        rw [hentries] at htext ⊢
        exact List.map_congr_left htext
      rw [if_neg hq, if_neg hq, hall]
  unfold Plan.outlook
  rw [hdocuments, htexts]

/-! ## Runs -/

theorem mem_candidates {s : Store} {scope : Scope} (hs : s.Identified)
    (hscope : p.selector.scope s = .ok scope) :
    d ∈ candidates s p.selector scope ↔
      d ∈ s.documents ∧ d.isFresh = false ∧ p.selector.picks d = true := by
  unfold candidates
  rw [List.mem_filter]
  refine and_congr_right fun hd => ?_
  rw [contains_eq_picks hs hscope hd]
  cases hselector : p.selector with
  | all => simp [Selector.picks]
  | pattern q => simp [Selector.picks]
  | single id => simp [Selector.picks]

/-- The moves of a run that has chosen its candidates in `base`, to which nobody else has written. -/
structure Undisturbed (p : Plan) (base : Store) (indexed : List Document) (t : Store) : Prop where
  keyed : t.Keyed
  places : t.documents.map place = base.documents.map place
  /-- Who has not been indexed is as before. -/
  same : ∀ d ∈ base.documents, d.seq ∉ indexed.map (·.seq) → d ∈ t.documents
  /-- Who has been indexed is fresh. -/
  fresh : ∀ d ∈ t.documents, d.isFresh = true ∨ d ∈ base.documents ∧ d.seq ∉ indexed.map (·.seq)
  outlook : p.outlook t = p.outlook base

theorem undisturbed_self {base : Store} (h : base.Keyed) : Undisturbed p base [] base where
  keyed := h
  places := rfl
  same _ hd _ := hd
  fresh _ hd := .inr ⟨hd, List.not_mem_nil⟩
  outlook := rfl

section

variable {force : Bool} {commitInterval : Nat} {cancelled : Nat → Bool} {now : Int} {scope : Scope}
  {base : Store} {indexed : List Document}

theorem Undisturbed.index (h : Undisturbed p base indexed t) (hd : d ∈ base.documents)
    (hnew : d.seq ∉ indexed.map (·.seq)) (hdue : p.due? d = some m) :
    Undisturbed p base (indexed ++ [d]) ((Move.index d m).apply (p.options force commitInterval)
      (p.surroundings cancelled now) t) := by
  have hmem : d ∈ t.documents := h.same d hd hnew
  have hpresent : (t.findSeq? d.seq).isSome = true := findSeq?_isSome.mpr ⟨d, hmem, rfl⟩
  have hkeyed : ((Move.index d m).apply (p.options force commitInterval)
      (p.surroundings cancelled now) t).Keyed := keyed_apply h.keyed _
  have hadds : Adds (p.options force commitInterval) (p.surroundings cancelled now).now d m t _ :=
    adds_index hpresent m
  have hplaces := places_index (p.options force commitInterval) (p.surroundings cancelled now)
    hpresent m
  have houtlook := outlook_of_adds h.keyed hmem hdue hadds hplaces
  refine ⟨hkeyed, hplaces.trans h.places, fun e he hout => ?_, fun e he => ?_,
    houtlook.trans h.outlook⟩
  · rw [List.map_append, List.mem_append, not_or] at hout
    have hne : e.seq ≠ d.seq := by simpa using hout.2
    rw [hadds.documents, List.mem_map]
    exact ⟨e, h.same e he hout.1, if_neg hne⟩
  · rw [hadds.documents] at he
    obtain ⟨before, hbefore, rfl⟩ := List.mem_map.mp he
    split
    · next hseq =>
        obtain rfl := h.keyed.eq_of_seq hbefore hmem hseq
        exact .inl (isFresh_indexed _ _ _ _)
    · next hne =>
        rcases h.fresh before hbefore with hfresh | ⟨hbase, hout⟩
        · exact .inl hfresh
        · refine .inr ⟨hbase, ?_⟩
          rw [List.map_append, List.mem_append, not_or]
          exact ⟨hout, by simpa using hne⟩

theorem Undisturbed.prune (h : Undisturbed p base indexed t) {seq : Nat}
    (hcovers : p.selector.covers base seq = true) :
    Undisturbed p base indexed (t.prune seq).1 := by
  have hdocuments := Store.documents_prune t seq
  refine ⟨h.keyed.prune seq, ?_, ?_, ?_, ?_⟩
  · rw [hdocuments]
    exact h.places
  · rw [hdocuments]
    exact h.same
  · rw [hdocuments]
    exact h.fresh
  · rw [outlook_prune h.keyed (by rw [covers_of_places h.places]; exact hcovers)]
    exact h.outlook

/-- The induction is on the moves from the last one back; every candidate is indexed once. -/
theorem undisturbed_replay (hbase : base.Keyed) (hscope : p.selector.scope base = .ok scope)
    {moves : List Move}
    (hlegal : Legal (p.options force commitInterval) (p.surroundings cancelled now) scope base moves)
    (hchosen : (moves.filterMap Move.candidate?).Sublist (candidates base p.selector scope)) :
    Undisturbed p base (moves.filterMap Move.candidate?)
      (replay (p.options force commitInterval) (p.surroundings cancelled now) base moves) := by
  revert hchosen
  refine hlegal.induction (P := fun front t =>
    (front.filterMap Move.candidate?).Sublist (candidates base p.selector scope) →
      Undisturbed p base (front.filterMap Move.candidate?) t)
    (fun _ => undisturbed_self hbase) fun front move ih hallowed hchosen => ?_
  rw [List.filterMap_append] at hchosen ⊢
  have hfront := ih ((List.sublist_append_left _ _).trans hchosen)
  cases move with
  | index d m =>
      have hd : d ∈ candidates base p.selector scope := hchosen.subset (by simp [Move.candidate?])
      obtain ⟨hmem, hstale, hpicks⟩ := (mem_candidates hbase.toIdentified hscope).mp hd
      have hdue : p.due? d = some m := by
        unfold Plan.due?
        rw [hpicks, hstale]
        exact hallowed.1
      have hseqs : ((candidates base p.selector scope).map (·.seq)).Nodup :=
        hbase.toIdentified.seqs.sublist (List.filter_sublist.map _)
      have hnodup := hseqs.sublist (hchosen.map (·.seq))
      rw [List.map_append, List.nodup_append] at hnodup
      have hnew : d.seq ∉ (front.filterMap Move.candidate?).map (·.seq) := fun hin =>
        hnodup.2.2 d.seq hin d.seq (by simp [Move.candidate?]) rfl
      exact hfront.index hmem hnew hdue
  | prune seq =>
      rw [show [Move.prune seq].filterMap Move.candidate? = [] from rfl, List.append_nil]
      have hcovers : p.selector.covers base seq = true := by
        rw [← contains_eq_covers hbase.toIdentified hscope]
        exact hallowed.1
      exact hfront.prune hcovers
  | outside write =>
      obtain ⟨n, hn⟩ := hallowed
      cases hn

theorem replay_of_missing (hmissing : base.missing ≠ []) {moves : List Move}
    (hlegal : Legal (p.options force commitInterval) (p.surroundings cancelled now) scope base moves) :
    replay (p.options force commitInterval) (p.surroundings cancelled now) base moves = base := by
  refine hlegal.induction (P := fun _ t => t = base) rfl fun front move hsame hallowed => ?_
  rw [hsame] at hallowed ⊢
  cases move with
  | index d m => exact absurd hallowed.2.2 hmissing
  | prune seq =>
      have hnone : base.superseded seq = [] := hallowed.2.resolve_right hmissing
      change (base.prune seq).1 = base
      rw [Store.fst_prune, hnone]
      rfl
  | outside write =>
      obtain ⟨n, hn⟩ := hallowed
      cases hn

end

end MailIndex.Reindex
