import MailIndex.Proofs.Check.Health

/-!
# Columns of reached documents

All that is ever done to a document is to record it, to update it, to index it and to take its hash
away. So what none of these breaks is true of every document that is reached, and one of these things
is that a document which has been indexed has the columns of a message.
-/

namespace MailIndex.Check

open Reindex

/-- A property of documents that no write breaks. -/
structure Lasting (P : Document → Prop) : Prop where
  record : ∀ seq r, P (Document.ofRecord seq r)
  updated : ∀ {d} r, P d → P (d.updated r)
  indexed : ∀ {d} m chars hash now, P d → P (d.indexed (Derived.ofMessage m chars) hash now)
  unindexed : ∀ {d : Document}, P d → P { d with indexedHash := none }

def Throughout (P : Document → Prop) (s : Store) : Prop := ∀ d ∈ s.documents, P d

section

variable {P : Document → Prop} {s : Store}

theorem Throughout.change (h : Throughout P s) {condition : Document → Bool}
    {f : Document → Document} (hf : ∀ {d}, P d → P (f d)) : Throughout P (s.change condition f) := by
  intro d hd
  obtain ⟨e, he, rfl⟩ := List.mem_map.mp hd
  split
  · exact hf (h e he)
  · exact h e he

theorem Throughout.upsert (hP : Lasting P) (h : Throughout P s) (r : Record) :
    Throughout P (s.upsert r).1 := by
  unfold Store.upsert
  dsimp only
  cases s.find? r.id with
  | some known => exact h.change (hP.updated r)
  | none =>
      intro d hd
      rcases List.mem_append.mp hd with hd | hd
      · exact h d hd
      · rw [List.mem_singleton.mp hd]
        exact hP.record _ r

theorem Throughout.deleteDocument (h : Throughout P s) (id : Text) :
    Throughout P (s.deleteDocument id) := fun d hd => h d (List.mem_filter.mp hd).1

theorem Throughout.removeAll (s : Store) (old : List Nat) (h : Throughout P s) :
    Throughout P (old.foldl Store.removeEntry s) := by
  rw [Store.foldl_removeEntry]
  exact h

theorem Throughout.preserves (hP : Lasting P) (o : Options) (env : Surroundings) :
    Preserves o env (fun _ s => Throughout P s) fun _ => True where
  candidate _ _ := trivial
  unindexed _ h := h.change hP.unindexed
  ask _ h := h
  index {_ s d m _} _ _ hwritten h := by
    have hmarked : Throughout P (s.change (fun e => e.seq = d.seq)
        (·.indexed (Derived.ofMessage m o.snippetChars) (Run.hashFor d m) env.now)) :=
      h.change (hP.indexed m o.snippetChars _ _)
    intro e he
    rw [(adds_of_indexed? hwritten).documents] at he
    exact hmarked e (by simpa [Store.change] using he)
  prune _ h := h.removeAll _ _
  outside {_ s _ write} _ h :=
    OutsideWrite.apply_cases (P := Throughout P) write h (h.upsert hP) h.deleteDocument

theorem Throughout.apply (hP : Lasting P) (h : Throughout P s) (operation : Operation) :
    Throughout P (operation.apply s) := by
  cases operation with
  | upsert r => exact snd_write _ h (h.upsert hP r)
  | ingest t base c => exact keeps_ingest (fun _ r h => h.upsert hP r) h t base c
  | reindex o env => exact ((Throughout.preserves hP o env).complete h).session.durable
  | repair cancelled => exact Repair.repair_keeps Throughout.removeAll cancelled h

theorem throughout_reached (hP : Lasting P) (operations : List Operation) :
    Throughout P (reached operations) := by
  induction operations using List.reverseRecOn with
  | nil =>
      intro d hd
      cases hd
  | append_singleton operations operation ih =>
      unfold reached
      rw [List.foldl_append, List.foldl_cons, List.foldl_nil]
      exact ih.apply hP operation

end

/-! ## Derived columns -/

/-- The columns of a document that has been indexed are those of some message. -/
def HasColumns (d : Document) : Prop :=
  d.indexedAt ≠ none → ∃ m chars, d.derived = some (Derived.ofMessage m chars)

theorem lasting_hasColumns : Lasting HasColumns where
  record _ _ h := absurd rfl h
  updated _ h := h
  indexed m chars _ _ _ _ := ⟨m, chars, rfl⟩
  unindexed h := h

theorem exists_columns {operations : List Operation} {d : Document}
    (hd : d ∈ (reached operations).documents) (hindexed : d.indexedAt ≠ none) :
    ∃ m chars, d.derived = some (Derived.ofMessage m chars) :=
  throughout_reached lasting_hasColumns operations d hd hindexed

end MailIndex.Check
