import MailIndex.Proofs.Reindex.Durable
import MailIndex.Proofs.Store.Succession

/-!
# What a run loads

The candidates that a run asks for are documents that it has found. At every step, what is durable
is as consistent as what the run began with: the entries that have been added were made of the
messages loaded for the candidates asked for so far, in that order. And what is durable at one step
leads to what is durable at every later one.
-/

namespace MailIndex

namespace Store

variable {s : Store} {loads : List Load}

theorem Consistent.index (h : s.Consistent loads) {o : Reindex.Options} {now : Int} {d : Document}
    {m : Message} {written : Store} (hwritten : Reindex.Run.indexed? o now s d m = some written) :
    written.Consistent (loads ++ [⟨d, m⟩]) := by
  have hadds := Reindex.adds_of_indexed? hwritten
  unfold Reindex.Run.indexed? at hwritten
  split at hwritten
  · cases hwritten
    have hkeyed := h.keyed.markIndexed d.seq (Derived.ofMessage m o.snippetChars)
      (Reindex.Run.hashFor d m) now
    refine ⟨hkeyed.addEntry _ _, hadds.indexed h.indexed, fun e he hindexed => ?_, ?_⟩
    · rw [hadds.documents] at he
      rw [hadds.entriesOf]
      obtain ⟨before, hbefore, rfl⟩ := List.mem_map.mp he
      by_cases hseq : before.seq = d.seq
      · rw [if_pos hseq]
        exact List.append_ne_nil_of_right_ne_nil _ (by simp [Document.indexed, hseq])
      · rw [if_neg hseq] at hindexed ⊢
        exact List.append_ne_nil_of_left_ne_nil (h.owned before hbefore hindexed) _
    · rw [contents_addEntry hkeyed.toNumbered, List.map_append]
      exact h.contents.append (.refl _)
  · cases hwritten

end Store

namespace Reindex

variable {o : Options} {env : Surroundings} {s t : Store} {loads : List Load}

def loadsOf (env : Surroundings) (asked : List Document) : List Load :=
  asked.filterMap fun d => (env.load d).map (⟨d, ·⟩)

theorem loadsOf_concat (env : Surroundings) (asked : List Document) (d : Document) :
    loadsOf env (asked ++ [d]) = loadsOf env asked ++ ((env.load d).map (⟨d, ·⟩)).toList := by
  unfold loadsOf
  rw [List.filterMap_append]
  cases hload : env.load d <;> simp [hload]

/-! ## Candidates -/

theorem preserves_asked (o : Options) (env : Surroundings) (before : List Document) :
    Preserves o env (fun asked _ => before <+: asked) fun _ => True where
  candidate _ _ := trivial
  unindexed _ h := h
  ask _ h := h.trans (List.prefix_append _ _)
  index _ _ _ h := h.trans (List.prefix_append _ _)
  prune _ h := h
  outside _ h := h

def askedAfter (o : Options) (env : Surroundings) (s : Store) (n : Nat) : List Document :=
  (Run.advances o env n (Run.start s)).asked

theorem askedAfter_prefix (o : Options) (env : Surroundings) (s : Store) {k n : Nat} (hkn : k ≤ n) :
    askedAfter o env s k <+: askedAfter o env s n := by
  obtain ⟨more, rfl⟩ := Nat.exists_eq_add_of_le hkn
  unfold askedAfter
  rw [advances_add]
  generalize Run.advances o env k (Run.start s) = r
  have hkept : Kept (fun asked _ => r.asked <+: asked) (fun _ => True) r :=
    ⟨⟨List.prefix_refl _, List.prefix_refl _⟩, r.stage.awaits_true⟩
  exact ((preserves_asked o env r.asked).advances hkept more).session.durable

theorem exists_document_of_asked (o : Options) (env : Surroundings) (hs : s.Numbered) {n : Nat}
    {d : Document} (hd : d ∈ askedAfter o env s n) :
    ∃ e ∈ s.documents, e.seq = d.seq ∧ e.id = d.id := by
  obtain ⟨trail, hleaves, -⟩ := exists_trail o env hs n
  obtain ⟨base, scope, hexplained⟩ := hleaves.explained
  have hfound : d ∈ base.documents := (List.mem_filter.mp (hexplained.asked.subset hd)).1
  have hplaces : base.documents.map place = s.documents.map place := by
    rcases hexplained.base with ⟨rfl, -⟩ | ⟨-, rfl⟩
    · rfl
    · exact places_preparedStore
  have hplace : place d ∈ s.documents.map place := hplaces ▸ List.mem_map_of_mem hfound
  obtain ⟨e, he, hsame⟩ := List.mem_map.mp hplace
  exact ⟨e, he, congrArg (·.1) hsame, congrArg (·.2.1) hsame⟩

/-! ## What is durable -/

theorem leadsTo_outside (write : OutsideWrite) (t : Store) : t.LeadsTo (write.apply t) :=
  OutsideWrite.apply_cases write (.refl t) t.leadsTo_upsert t.leadsTo_deleteDocument

theorem leadsTo_move (h : t.Numbered) (move : Move) : t.LeadsTo (move.apply o env t) := by
  cases move with
  | index d m =>
      have hmarked : t.LeadsTo (t.markIndexed d.seq (Derived.ofMessage m o.snippetChars)
          (Run.hashFor d m) env.now) := Store.leadsTo_change _ (fun _ => rfl) fun _ => rfl
      exact hmarked.trans h (Store.leadsTo_addEntry _ _ _)
  | prune seq => exact Store.leadsTo_prune h seq
  | outside write => exact leadsTo_outside write t

theorem onward_leadsTo (o : Options) (env : Surroundings) : Onward o env Store.LeadsTo where
  refl := .refl
  trans := .trans
  move move h := leadsTo_move h move
  unindexed _ _ := Store.leadsTo_change _ (fun _ => rfl) fun _ => rfl

theorem preserves_consistent (o : Options) (env : Surroundings) (loads : List Load) :
    Preserves o env (fun asked t => t.Consistent (loads ++ loadsOf env asked)) fun _ => True where
  candidate _ _ := trivial
  unindexed scope h := h.change _ (fun _ => rfl) (fun _ => rfl) fun _ => Or.imp_left nofun
  ask _ h := by
    rw [loadsOf_concat, ← List.append_assoc]
    exact h.loadMore _
  index _ hload hwritten h := by
    rw [loadsOf_concat, hload, ← List.append_assoc]
    exact h.index hwritten
  prune seq h := h.prune seq
  outside {_ t _ write} _ h := OutsideWrite.apply_cases write h h.upsert h.deleteDocument

/-- What is durable after so many steps has entries for what was loaded up to then. -/
theorem consistent_durableAfter (o : Options) (env : Surroundings) (h : s.Consistent loads)
    (n : Nat) :
    (durableAfter o env s n).Consistent (loads ++ loadsOf env (askedAfter o env s n)) := by
  have hstart : s.Consistent (loads ++ loadsOf env []) := h.loadMore []
  have hkept : Kept (fun asked t => t.Consistent (loads ++ loadsOf env asked)) (fun _ => True)
      (Run.start s) := ⟨⟨hstart, hstart⟩, trivial⟩
  exact ((preserves_consistent o env loads).advances hkept n).session.durable

end Reindex

end MailIndex
