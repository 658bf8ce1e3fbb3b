import MailIndex.Proofs.Query.Filters
import MailIndex.Search.Results

/-!
# The depth of a search

Every filter of a search is joined to the conditions before it, and the database refuses a condition
that is nested too deeply. A search with at most 989 filters is never refused for it, and one with 998
or more always; in between it depends on what the filters are and on what else is asked.
-/

namespace MailIndex

/-! ## Joined conditions -/

theorem add_length_le_joinedTo (total : Nat) (depths : List Nat) :
    total + depths.length ≤ joinedTo total depths := by
  induction depths generalizing total with
  | nil => exact Nat.le_refl _
  | cons depth rest ih =>
      have hrest := ih (max total depth + 1)
      rw [joinedTo, List.length_cons]
      omega

theorem joinedTo_le {total bound : Nat} {depths : List Nat} (htotal : total ≤ bound)
    (h : ∀ depth ∈ depths, depth ≤ bound) : joinedTo total depths ≤ bound + depths.length := by
  induction depths generalizing total bound with
  | nil => exact htotal
  | cons depth rest ih =>
      obtain ⟨hdepth, hrest⟩ := List.forall_mem_cons.mp h
      have hjoined : joinedTo (max total depth + 1) rest ≤ bound + 1 + rest.length :=
        ih (by omega) fun other hother => Nat.le_succ_of_le (hrest other hother)
      rw [joinedTo, List.length_cons]
      omega

theorem joinedTo_append (total : Nat) (depths more : List Nat) :
    joinedTo total (depths ++ more) = joinedTo (joinedTo total depths) more := by
  induction depths generalizing total with
  | nil => rfl
  | cons depth rest ih => exact ih _

theorem joinedDepth_le_append (depths more : List Nat) :
    joinedDepth depths ≤ joinedDepth (depths ++ more) := by
  cases depths with
  | nil => exact Nat.zero_le _
  | cons depth rest =>
      have hmore := add_length_le_joinedTo (joinedTo depth rest) more
      rw [List.cons_append, joinedDepth, joinedDepth, joinedTo_append]
      omega

theorem joinedDepth_le {bound : Nat} {depths : List Nat} (h : ∀ depth ∈ depths, depth ≤ bound) :
    joinedDepth depths ≤ bound + (depths.length - 1) := by
  cases depths with
  | nil => exact Nat.zero_le _
  | cons depth rest =>
      obtain ⟨hdepth, hrest⟩ := List.forall_mem_cons.mp h
      exact joinedTo_le hdepth hrest

/-! ## The conditions of a search -/

theorem Query.Predicate.depth_le (p : Predicate) : p.depth ≤ 6 := by
  unfold depth
  split <;> decide

namespace Search

variable {c : SearchConfig} {r : SearchRequest} {q : Query}

theorem le_six_of_mem_conditionDepths {depth : Nat} (h : depth ∈ conditionDepths r c q) :
    depth ≤ 6 := by
  unfold conditionDepths at h
  rcases List.mem_append.mp h with hfixed | hfilter
  · have hsmall : depth = 2 ∨ depth = 3 := by grind
    omega
  · obtain ⟨p, -, rfl⟩ := List.mem_map.mp hfilter
    exact p.depth_le

theorem length_conditionDepths_le (r : SearchRequest) (c : SearchConfig) (q : Query) :
    (conditionDepths r c q).length ≤ q.predicates.length + 4 := by
  simp only [conditionDepths, List.length_append, List.length_map]
  split <;> split <;> split <;> simp <;> omega

/-- A search whose conditions are taken with the ties of its tables has been taken without them. -/
theorem joinedDepth_conditionDepths_le (r : SearchRequest) (c : SearchConfig) (q : Query) :
    joinedDepth (conditionDepths r c q) ≤ depth r c q :=
  joinedDepth_le_append _ _

theorem depth_le (r : SearchRequest) (c : SearchConfig) (q : Query) :
    depth r c q ≤ q.predicates.length + 11 := by
  have hconditions := length_conditionDepths_le r c q
  have hties : (if q.hasTerms then [3, 3] else []).length ≤ 2 := by split <;> decide
  have hsmall : ∀ depth ∈ conditionDepths r c q ++ (if q.hasTerms then [3, 3] else []),
      depth ≤ 6 := by
    intro depth hdepth
    rcases List.mem_append.mp hdepth with hcondition | htie
    · exact le_six_of_mem_conditionDepths hcondition
    · have hthree : depth = 3 := by
        revert htie
        split <;> simp
      omega
  have hjoined := joinedDepth_le hsmall
  rw [List.length_append] at hjoined
  unfold depth
  omega

theorem length_add_le_depth (r : SearchRequest) (c : SearchConfig) (q : Query) :
    q.predicates.length + 3 ≤ depth r c q := by
  unfold depth conditionDepths
  cases q.hasTerms with
  | false =>
      have hjoined := add_length_le_joinedTo 3 ((if r.account.isSome then [3] else []) ++
        (if r.wantsUndated c then [] else [3]) ++ q.predicates.map (·.depth))
      simp only [List.length_append, List.length_map] at hjoined
      simp only [Bool.false_eq_true, if_false, List.nil_append, List.append_nil, List.cons_append,
        joinedDepth]
      omega
  | true =>
      have hjoined := add_length_le_joinedTo 2 ([3] ++ (if r.account.isSome then [3] else []) ++
        (if r.wantsUndated c then [] else [3]) ++ q.predicates.map (·.depth) ++ [3, 3])
      simp only [List.length_append, List.length_map, List.length_cons, List.length_nil] at hjoined
      simp only [if_true, List.cons_append, List.nil_append, joinedDepth] at hjoined ⊢
      omega

/-- Few filters are never too many, whatever they are. -/
theorem depth_le_of_few (h : q.predicates.length ≤ 989) : depth r c q ≤ greatestDepth := by
  have hdepth := depth_le r c q
  unfold greatestDepth
  omega

/-- So many filters are too many even without anything else. -/
theorem lt_depth_of_many (h : 998 ≤ q.predicates.length) : greatestDepth < depth r c q := by
  have hdepth := length_add_le_depth r c q
  unfold greatestDepth
  omega

theorem parse_attachments (count : Nat) :
    Query.parse ([' '].intercalate (List.replicate count "has:attachment".toList)) =
      .ok ⟨[], List.replicate count (.hasAttachments true)⟩ := by
  have hasks : Query.AsksFor .has "attachment".toList (.hasAttachments true) :=
    Query.asksFor_has (.inl rfl)
  have hvalue : Query.IsFilterValue "attachment".toList false := by decide
  have hparse := hasks.parse_writtenAll hvalue count
  rw [Query.Token.writtenAll, List.map_replicate] at hparse
  exact hparse

theorem lt_depth_of_attachments {count : Nat} (h : 998 ≤ count) :
    greatestDepth < depth r c ⟨[], List.replicate count (.hasAttachments true)⟩ :=
  lt_depth_of_many (h.trans_eq List.length_replicate.symm)

end Search

end MailIndex
