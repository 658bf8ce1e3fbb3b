import MailIndex.Proofs.Reindex.Scope
import Mathlib.Data.List.Induction

/-!
# Moves

Once its candidates are known, a run writes to the store by moves: it indexes a candidate, or takes
the superseded entries of a document out; others may write in between. A list of moves is replayed
from the store in which the candidates were selected, and it is legal if every move is allowed where
it is made. So what every allowed move keeps is kept by all that a run writes.
-/

namespace MailIndex.Reindex

inductive Move where
  | index (d : Document) (m : Message)
  | prune (seq : Nat)
  | outside (write : OutsideWrite)

namespace Move

def candidate? : Move → Option Document
  | index d _ => some d
  | prune _ => none
  | outside _ => none

def apply (o : Options) (env : Surroundings) (t : Store) : Move → Store
  | index d m =>
    ((t.markIndexed d.seq (Derived.ofMessage m o.snippetChars) (Run.hashFor d m) env.now).addEntry
      d.seq (.ofMessage m)).1
  | prune seq => (t.prune seq).1
  | outside write => write.apply t

/-- Where a move is made, the document that is indexed is there, and so are the tables. -/
def Allowed (env : Surroundings) (scope : Scope) (t : Store) : Move → Prop
  | index d m => env.load d = some m ∧ (t.findSeq? d.seq).isSome = true ∧ t.missing = []
  | prune seq => scope.contains seq = true ∧ (t.superseded seq = [] ∨ t.missing = [])
  | outside write => ∃ n, write ∈ env.outside n

end Move

section

variable (o : Options) (env : Surroundings) (scope : Scope)

def replay (t : Store) (moves : List Move) : Store := moves.foldl (Move.apply o env) t

def Legal : Store → List Move → Prop
  | _, [] => True
  | t, move :: rest => move.Allowed env scope t ∧ Legal (move.apply o env t) rest

end

variable {o : Options} {env : Surroundings} {scope : Scope} {t : Store}

theorem replay_append (t : Store) (front back : List Move) :
    replay o env t (front ++ back) = replay o env (replay o env t front) back := by
  unfold replay
  rw [List.foldl_append]

theorem legal_append {front back : List Move} :
    Legal o env scope t (front ++ back) ↔
      Legal o env scope t front ∧ Legal o env scope (replay o env t front) back := by
  induction front generalizing t with
  | nil => simp [Legal, replay]
  | cons move front ih =>
      have hnext : replay o env t (move :: front) = replay o env (move.apply o env t) front := rfl
      simp only [List.cons_append, Legal, ih, hnext, and_assoc]

theorem legal_concat {front : List Move} {move : Move} :
    Legal o env scope t (front ++ [move]) ↔
      Legal o env scope t front ∧ move.Allowed env scope (replay o env t front) := by
  rw [legal_append]
  simp [Legal]

/-- What is true at the beginning, and stays true with every allowed move, is true after a legal
list of moves. -/
theorem Legal.induction {P : List Move → Store → Prop} {moves : List Move}
    (hlegal : Legal o env scope t moves) (hstart : P [] t)
    (hmove : ∀ front move, P front (replay o env t front) →
      move.Allowed env scope (replay o env t front) →
      P (front ++ [move]) (move.apply o env (replay o env t front))) :
    P moves (replay o env t moves) := by
  induction moves using List.reverseRecOn with
  | nil => exact hstart
  | append_singleton front move ih =>
      obtain ⟨hfront, hallowed⟩ := legal_concat.mp hlegal
      rw [replay_append]
      exact hmove front move (ih hfront) hallowed

/-! ## What a move does -/

theorem adds_index {d : Document} (hpresent : (t.findSeq? d.seq).isSome = true) (m : Message) :
    Adds o env.now d m t ((Move.index d m).apply o env t) := by
  apply adds_of_indexed?
  unfold Run.indexed?
  rw [if_pos hpresent]
  rfl

theorem OutsideWrite.apply_cases {P : Store → Prop} (write : OutsideWrite) (hsame : P t)
    (hupsert : ∀ record, P (t.upsert record).1) (hdelete : ∀ id, P (t.deleteDocument id)) :
    P (write.apply t) := by
  cases write with
  | upsert record => exact snd_write _ hsame (hupsert record)
  | delete id => exact snd_write _ hsame (hdelete id)

theorem snd_upsert (s : Store) (record : Record) :
    (s.upsert record).1.entries = s.entries ∧ (s.upsert record).1.lastEntry = s.lastEntry ∧
      (s.upsert record).1.index = s.index ∧ (s.upsert record).1.missing = s.missing := by
  unfold Store.upsert
  dsimp only
  cases s.find? record.id with
  | some d => exact ⟨rfl, rfl, rfl, rfl⟩
  | none => exact ⟨rfl, rfl, rfl, rfl⟩

theorem outside_apply (write : OutsideWrite) (t : Store) :
    (write.apply t).entries = t.entries ∧ (write.apply t).lastEntry = t.lastEntry ∧
      (write.apply t).index = t.index ∧ (write.apply t).missing = t.missing := by
  refine OutsideWrite.apply_cases (P := fun after => after.entries = t.entries ∧
    after.lastEntry = t.lastEntry ∧ after.index = t.index ∧ after.missing = t.missing) write
    ⟨rfl, rfl, rfl, rfl⟩ (snd_upsert t) fun _ => ⟨rfl, rfl, rfl, rfl⟩

theorem entriesOf_outside (write : OutsideWrite) (t : Store) (seq : Nat) :
    (write.apply t).entriesOf seq = t.entriesOf seq := by
  unfold Store.entriesOf
  rw [(outside_apply write t).1]

theorem textOf?_outside (write : OutsideWrite) (t : Store) (entry : Nat) :
    (write.apply t).textOf? entry = t.textOf? entry := by
  unfold Store.textOf?
  rw [(outside_apply write t).2.2.1]

theorem missing_apply (move : Move) (t : Store) : (move.apply o env t).missing = t.missing := by
  cases move with
  | index d m => rfl
  | prune seq =>
      change (t.prune seq).1.missing = t.missing
      rw [Store.fst_prune, Store.foldl_removeEntry]
  | outside write => exact (outside_apply write t).2.2.2

theorem missing_replay (t : Store) (moves : List Move) :
    (replay o env t moves).missing = t.missing := by
  induction moves generalizing t with
  | nil => rfl
  | cons move moves ih => exact (ih _).trans (missing_apply move t)

theorem numbered_outside (h : t.Numbered) (write : OutsideWrite) : (write.apply t).Numbered := by
  obtain ⟨hentries, hlast, -, -⟩ := outside_apply write t
  exact ⟨hentries ▸ h.ordered, hentries ▸ hlast ▸ h.le_lastEntry⟩

theorem numbered_apply (h : t.Numbered) (move : Move) : (move.apply o env t).Numbered := by
  cases move with
  | index d m => exact (h.withDocuments _ t.lastSeq).addEntry _ _
  | prune seq => exact h.prune seq
  | outside write => exact numbered_outside h write

theorem numbered_replay (h : t.Numbered) (moves : List Move) :
    (replay o env t moves).Numbered := by
  induction moves generalizing t with
  | nil => exact h
  | cons move moves ih => exact ih (numbered_apply h move)

theorem numbered_preparedStore {s : Store} (h : s.Numbered) :
    (preparedStore o s scope).Numbered := by
  unfold preparedStore
  split
  · exact h.withDocuments _ s.lastSeq
  · exact h

theorem keyed_outside (h : t.Keyed) (write : OutsideWrite) : (write.apply t).Keyed :=
  OutsideWrite.apply_cases write h h.upsert h.deleteDocument

theorem keyed_apply (h : t.Keyed) (move : Move) : (move.apply o env t).Keyed := by
  cases move with
  | index d m => exact (h.markIndexed _ _ _ _).addEntry _ _
  | prune seq => exact h.prune seq
  | outside write => exact keyed_outside h write

theorem keyed_preparedStore {s : Store} (h : s.Keyed) : (preparedStore o s scope).Keyed := by
  unfold preparedStore
  split
  · exact h.change (fun _ => rfl) fun _ => rfl
  · exact h

/-! ## Moves of the run alone -/

theorem places_index (o : Options) (env : Surroundings) {d : Document}
    (hpresent : (t.findSeq? d.seq).isSome = true) (m : Message) :
    ((Move.index d m).apply o env t).documents.map place = t.documents.map place := by
  rw [(adds_index hpresent m).documents, List.map_map]
  apply List.map_congr_left
  intro e _
  simp only [Function.comp_apply]
  split <;> rfl

/-- While nobody else writes, no document comes or goes. -/
theorem places_replay (hout : ∀ n, env.outside n = []) {moves : List Move}
    (hlegal : Legal o env scope t moves) :
    (replay o env t moves).documents.map place = t.documents.map place := by
  refine hlegal.induction (P := fun _ after => after.documents.map place = t.documents.map place)
    rfl fun front move hfront hallowed => ?_
  rw [← hfront]
  cases move with
  | index d m => exact places_index o env hallowed.2.1 m
  | prune seq => exact congrArg (List.map place) (Store.documents_prune _ seq)
  | outside write =>
      obtain ⟨n, hn⟩ := hallowed
      rw [hout n] at hn
      cases hn

/-! ## The newest entries -/

/-- No document loses its newest entry, unless for a newer one. -/
def Keeps (before after : Store) : Prop :=
  ∀ seq, ∀ entry ∈ before.entriesOf seq, ∃ newer ∈ after.entriesOf seq, entry ≤ newer

theorem Keeps.refl (t : Store) : Keeps t t := fun _ entry hentry =>
  ⟨entry, hentry, Nat.le_refl entry⟩

theorem Keeps.trans {a b c : Store} (hab : Keeps a b) (hbc : Keeps b c) : Keeps a c := by
  intro seq entry hentry
  obtain ⟨newer, hnewer, hle⟩ := hab seq entry hentry
  obtain ⟨newest, hnewest, hle'⟩ := hbc seq newer hnewer
  exact ⟨newest, hnewest, Nat.le_trans hle hle'⟩

theorem keeps_prune (h : t.Numbered) (seq : Nat) : Keeps t (t.prune seq).1 := by
  intro q entry hentry
  rw [h.entriesOf_prune seq q]
  by_cases hq : q = seq
  · subst hq
    rw [if_pos rfl]
    cases hmax : (t.entriesOf q).max? with
    | none =>
        rw [List.max?_eq_none_iff.mp hmax] at hentry
        cases hentry
    | some newest =>
        have hle := (List.max?_eq_some_iff.mp hmax).2 entry hentry
        exact ⟨newest, by simp, hle⟩
  · rw [if_neg hq]
    exact ⟨entry, hentry, Nat.le_refl entry⟩

theorem keeps_outside (t : Store) (write : OutsideWrite) : Keeps t (write.apply t) := by
  intro seq entry hentry
  exact ⟨entry, (entriesOf_outside write t seq).symm ▸ hentry, Nat.le_refl entry⟩

theorem keeps_apply (h : t.Numbered) (move : Move) : Keeps t (move.apply o env t) := by
  cases move with
  | index d m =>
      intro seq entry hentry
      refine ⟨entry, ?_, Nat.le_refl entry⟩
      unfold Move.apply
      rw [Store.entriesOf_addEntry]
      exact List.mem_append_left _ hentry
  | prune seq => exact keeps_prune h seq
  | outside write => exact keeps_outside t write

end MailIndex.Reindex
