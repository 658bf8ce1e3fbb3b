import MailIndex.Proofs.Reindex.Writes
import MailIndex.Proofs.Store.Keys

/-!
# What a selector picks

A selector is resolved to sequence numbers before anything else. Over a store in which identifiers
and numbers are unique this is the same as asking of each document whether the selector picks it,
and the candidates are the documents that are picked and wanted.
-/

namespace MailIndex

namespace Reindex

def Selector.picks : Selector → Document → Bool
  | .all, _ => true
  | .single id, d => d.id = id
  | .pattern p, d =>
    match Glob.parse p with
    | .ok glob => glob.matches d.target
    | .error _ => false

/-- Whether a selector covers a sequence number. All of them cover also what is left of documents
that are gone. -/
def Selector.covers (selector : Selector) (s : Store) (seq : Nat) : Bool :=
  match selector with
  | .all => true
  | selector => s.documents.any fun d => d.seq = seq && selector.picks d

theorem contains_eq_covers {s : Store} (h : s.Identified) {selector : Selector} {scope : Scope}
    (hscope : selector.scope s = .ok scope) (seq : Nat) :
    scope.contains seq = selector.covers s seq := by
  unfold Selector.scope at hscope
  cases selector with
  | all =>
      cases hscope
      rfl
  | single id =>
      cases hfind : s.needing [.documents] (s.find? id) with
      | error f => simp [hfind] at hscope
      | ok found =>
          have hfound := of_needing_ok hfind
          cases found with
          | none => simp [hfind] at hscope
          | some d =>
              simp only [hfind, Except.ok.injEq] at hscope
              subst hscope
              have hd : d ∈ s.documents := List.mem_of_find?_eq_some hfound.symm
              have hid : d.id = id := by simpa using List.find?_some hfound.symm
              rw [Bool.eq_iff_iff]
              simp only [Scope.contains, Selector.covers, Selector.picks, List.contains_cons,
                List.contains_nil, Bool.or_false, beq_iff_eq, List.any_eq_true, Bool.and_eq_true,
                decide_eq_true_eq]
              constructor
              · rintro rfl
                exact ⟨d, hd, rfl, hid⟩
              · rintro ⟨e, he, rfl, hid'⟩
                exact congrArg Document.seq (h.eq_of_id he hd (hid'.trans hid.symm))
  | pattern p =>
      cases hparse : Glob.parse p with
      | error e => simp [hparse] at hscope
      | ok glob =>
          cases hfind : s.needing [.documents]
              (s.documents.filter fun d => glob.matches d.target) with
          | error f => simp [hparse, hfind] at hscope
          | ok found =>
              have hfound := of_needing_ok hfind
              simp only [hparse, hfind, Except.ok.injEq] at hscope
              subst hscope
              rw [Bool.eq_iff_iff]
              simp [Scope.contains, Selector.covers, Selector.picks, hparse, hfound, and_comm,
                and_left_comm]

theorem contains_eq_picks {s : Store} (h : s.Identified) {selector : Selector} {scope : Scope}
    (hscope : selector.scope s = .ok scope) {d : Document} (hd : d ∈ s.documents) :
    scope.contains d.seq = selector.picks d := by
  rw [contains_eq_covers h hscope]
  have hsame : (s.documents.any fun e => e.seq = d.seq && selector.picks e) = selector.picks d := by
    rw [Bool.eq_iff_iff]
    simp only [List.any_eq_true, Bool.and_eq_true, decide_eq_true_eq]
    constructor
    · rintro ⟨e, he, hseq, hpicks⟩
      rw [← h.eq_of_seq he hd hseq]
      exact hpicks
    · intro hpicks
      exact ⟨d, hd, rfl, hpicks⟩
  cases selector with
  | all => rfl
  | single id => exact hsame
  | pattern p => exact hsame

theorem covers_of_picks {s : Store} {selector : Selector} {d : Document} (hd : d ∈ s.documents)
    (hpicks : selector.picks d = true) : selector.covers s d.seq = true := by
  have hany : (s.documents.any fun e => e.seq = d.seq && selector.picks e) = true := by
    rw [List.any_eq_true]
    exact ⟨d, hd, by simp [hpicks]⟩
  unfold Selector.covers
  split
  · rfl
  · exact hany

/-! ## Places -/

/-- All of a document that a selector looks at: its number, its identifier and its path. Nothing
that a run does to a document changes them. -/
def place (d : Document) : Nat × Text × Option Text := (d.seq, d.id, d.sourcePath)

variable {s t : Store}

theorem seqs_of_places (h : t.documents.map place = s.documents.map place) :
    t.documents.map (·.seq) = s.documents.map (·.seq) := by
  have hseqs := congrArg (List.map Prod.fst) h
  rw [List.map_map, List.map_map] at hseqs
  exact hseqs

theorem picks_of_place {d e : Document} (h : place d = place e) (selector : Selector) :
    selector.picks d = selector.picks e := by
  simp only [place, Prod.mk.injEq] at h
  obtain ⟨-, hid, hpath⟩ := h
  cases selector with
  | all => rfl
  | single id => simp only [Selector.picks, hid]
  | pattern p => simp only [Selector.picks, Document.target, hid, hpath]

theorem any_of_places {left right : List Document} (h : left.map place = right.map place)
    {f : Document → Bool} (hf : ∀ d e, place d = place e → f d = f e) :
    left.any f = right.any f := by
  induction left generalizing right with
  | nil =>
      cases right with
      | nil => rfl
      | cons e right => simp at h
  | cons d left ih =>
      cases right with
      | nil => simp at h
      | cons e right =>
          rw [List.map_cons, List.map_cons, List.cons.injEq] at h
          rw [List.any_cons, List.any_cons, hf d e h.1, ih h.2]

theorem covers_of_places (h : t.documents.map place = s.documents.map place) (selector : Selector)
    (seq : Nat) : selector.covers t seq = selector.covers s seq := by
  have hsame : (t.documents.any fun d => d.seq = seq && selector.picks d) =
      s.documents.any fun d => d.seq = seq && selector.picks d := by
    refine any_of_places h fun d e hplace => ?_
    have hseq : d.seq = e.seq := congrArg Prod.fst hplace
    rw [picks_of_place hplace, hseq]
  cases selector with
  | all => rfl
  | single id => exact hsame
  | pattern p => exact hsame

/-- A selector is resolved to the same scope while the documents stay where they are. -/
theorem scope_of_places (h : t.documents.map place = s.documents.map place)
    (hmissing : t.missing = s.missing) (selector : Selector) :
    selector.scope t = selector.scope s := by
  have hneeding : ∀ {α : Type} (tables : List Table) (result : α),
      t.needing tables result = s.needing tables result := by
    intro α tables result
    unfold Store.needing Store.lacking?
    rw [hmissing]
  unfold Selector.scope
  cases selector with
  | all => rfl
  | single id =>
      have hplace : ∀ u : Store, (u.find? id).map place =
          (u.documents.map place).find? fun known => known.2.1 = id := by
        intro u
        rw [List.find?_map]
        rfl
      have hfound : (t.find? id).map place = (s.find? id).map place := by rw [hplace, hplace, h]
      dsimp only
      rw [hneeding]
      unfold Store.needing
      cases s.lacking? [.documents] with
      | some table => rfl
      | none =>
          cases ht : t.find? id <;> cases hs : s.find? id <;> rw [ht, hs] at hfound
          · cases hfound
          · cases hfound
          · have hseq := congrArg (Option.map Prod.fst) hfound
            simp only [Option.map_some, place, Option.some.injEq] at hseq
            simp only [hseq]
  | pattern p =>
      dsimp only
      cases Glob.parse p with
      | error e => rfl
      | ok glob =>
          have hseqs : ∀ u : Store,
              (u.documents.filter fun d => glob.matches d.target).map (·.seq) =
                ((u.documents.map place).filter fun known =>
                  glob.matches (known.2.2.getD known.2.1)).map Prod.fst := by
            intro u
            rw [List.filter_map, List.map_map]
            rfl
          have hfound := hseqs t
          rw [h, ← hseqs s] at hfound
          dsimp only
          rw [hneeding]
          unfold Store.needing
          cases s.lacking? [.documents] with
          | some table => rfl
          | none => simp only [hfound]

/-! ## Candidates -/

/-- The document as a run finds it: stale if it is picked by a run that was told to index anew. -/
def Options.prepared (o : Options) (d : Document) : Document :=
  if o.force && o.selector.picks d then { d with indexedHash := none } else d

def Options.wants (o : Options) (d : Document) : Bool :=
  o.selector.picks d && (o.force || !d.isFresh)

def Options.wanted (o : Options) (s : Store) : List Document :=
  (s.documents.filter o.wants).map o.prepared

@[simp] theorem seq_prepared (o : Options) (d : Document) : (o.prepared d).seq = d.seq := by
  unfold Options.prepared
  split <;> rfl

@[simp] theorem id_prepared (o : Options) (d : Document) : (o.prepared d).id = d.id := by
  unfold Options.prepared
  split <;> rfl

def preparedStore (o : Options) (s : Store) (scope : Scope) : Store :=
  if o.force then Run.unindexed s scope else s

theorem documents_preparedStore {o : Options} {s : Store} (h : s.Identified) {scope : Scope}
    (hscope : o.selector.scope s = .ok scope) :
    (preparedStore o s scope).documents = s.documents.map o.prepared := by
  unfold preparedStore Options.prepared
  cases hforce : o.force with
  | false => simp
  | true =>
      simp only [if_true, Run.unindexed, Store.change, Bool.true_and]
      apply List.map_congr_left
      intro d hd
      rw [contains_eq_picks h hscope hd]

section

variable {o : Options} {s : Store} {scope : Scope}

theorem missing_preparedStore : (preparedStore o s scope).missing = s.missing := by
  unfold preparedStore
  split <;> rfl

theorem entriesOf_preparedStore (seq : Nat) :
    (preparedStore o s scope).entriesOf seq = s.entriesOf seq := by
  unfold preparedStore
  split <;> rfl

theorem lastEntry_preparedStore : (preparedStore o s scope).lastEntry = s.lastEntry := by
  unfold preparedStore
  split <;> rfl

theorem textOf?_preparedStore (entry : Nat) :
    (preparedStore o s scope).textOf? entry = s.textOf? entry := by
  unfold preparedStore
  split <;> rfl

theorem places_preparedStore :
    (preparedStore o s scope).documents.map place = s.documents.map place := by
  unfold preparedStore
  split
  · unfold Run.unindexed Store.change
    rw [List.map_map]
    apply List.map_congr_left
    intro d _
    simp only [Function.comp_apply]
    split <;> rfl
  · rfl

theorem lastSeq_preparedStore : (preparedStore o s scope).lastSeq = s.lastSeq := by
  unfold preparedStore
  split <;> rfl

end

theorem isFresh_prepared {o : Options} {d : Document} (hpicks : o.selector.picks d = true) :
    (o.prepared d).isFresh = (!o.force && d.isFresh) := by
  unfold Options.prepared
  cases hforce : o.force with
  | false => simp
  | true =>
      cases hhash : d.contentHash <;> simp [hpicks, Document.isFresh, hhash]

theorem isFresh_indexed (d : Document) (m : Message) (derived : Derived) (now : Int) :
    (d.indexed derived (Run.hashFor d m) now).isFresh = true := by
  unfold Document.isFresh Document.indexed Run.hashFor
  cases d.contentHash <;> simp

theorem candidates_preparedStore {o : Options} {s : Store} (h : s.Identified) {scope : Scope}
    (hscope : o.selector.scope s = .ok scope) :
    candidates (preparedStore o s scope) o.selector scope = o.wanted s := by
  unfold candidates Options.wanted
  rw [documents_preparedStore h hscope, List.filter_map]
  congr 1
  apply List.filter_congr
  intro d hd
  have hcontains := contains_eq_picks h hscope hd
  simp only [Function.comp_apply, seq_prepared, id_prepared, hcontains, Options.wants]
  cases hpicks : o.selector.picks d with
  | false => simp
  | true =>
      rw [Document.isStale_eq, isFresh_prepared hpicks]
      cases hselector : o.selector with
      | all => simp
      | pattern p => simp
      | single id =>
          have hid : d.id = id := by simpa [hselector, Selector.picks] using hpicks
          simp [hid]

theorem wanted_ascending {o : Options} {s : Store} (h : s.Identified) :
    (o.wanted s).Pairwise (·.seq < ·.seq) := by
  unfold Options.wanted
  rw [List.pairwise_map]
  exact (h.ascending.filter _).imp fun hlt => by simpa using hlt

theorem mem_wanted {o : Options} {s : Store} {d : Document} (h : d ∈ o.wanted s) :
    ∃ e ∈ s.documents, o.wants e = true ∧ o.prepared e = d := by
  obtain ⟨e, he, rfl⟩ := List.mem_map.mp h
  exact ⟨e, (List.mem_filter.mp he).1, (List.mem_filter.mp he).2, rfl⟩

end Reindex

end MailIndex
