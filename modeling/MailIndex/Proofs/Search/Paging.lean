import MailIndex.Proofs.Search.Depth
import MailIndex.Proofs.Search.Reference

/-!
# Pages of results

A page is a part of the listing of a search, cut at the offset and at the size of a page, and one
row more is fetched to see whether there is another page. So the pages that follow each other show
every row of the listing once.
-/

namespace MailIndex.Search

variable {s : Store} {c : SearchConfig} {r : SearchRequest} {q : Query} {e : Option Match.Expression}

/-! ## One page -/

theorem one_le_pageSize (r : SearchRequest) (c : SearchConfig) : 1 ≤ r.pageSize c := by
  unfold SearchRequest.pageSize
  omega

theorem skipped_nonneg (r : SearchRequest) : 0 ≤ r.skipped := by
  unfold SearchRequest.skipped
  omega

theorem hits_page (c : SearchConfig) (r : SearchRequest) (q : Query) (full : List Found) :
    (page c r q full).hits =
      ((full.map Found.hit).drop r.skipped.toNat).take (r.pageSize c).toNat := by
  have hfetch : min (r.pageSize c).toNat (r.fetchSize c).toNat = (r.pageSize c).toNat := by
    unfold SearchRequest.fetchSize
    omega
  unfold page
  dsimp only
  rw [List.take_take, hfetch, List.map_take, List.map_drop]
  rfl

theorem hasMore_page (c : SearchConfig) (r : SearchRequest) (q : Query) (full : List Found) :
    (page c r q full).hasMore = true ↔ r.skipped + r.pageSize c < full.length := by
  have hsize := one_le_pageSize r c
  have hskipped := skipped_nonneg r
  unfold page SearchRequest.fetchSize
  simp only [decide_eq_true_eq, List.length_take, List.length_drop]
  omega

theorem results_of_documents_nil (h : s.documents = []) : results s c r q e = [] := by
  have hnone : everything s e = [] := by
    cases e with
    | none => simp [everything, h]
    | some e =>
        have hdocument (entry : Nat) : documentOf? s entry = none := by
          unfold documentOf? Store.findSeq?
          cases s.entries.find? (·.id = entry) <;> simp [h]
        simp [everything, matching, hdocument]
  simp [results, hnone]

/-- All that a search can give. A store without documents is not asked; of another one the database
has to take the conditions, and then the index the expression. -/
theorem run_of_parse (h : s.Schema) (hparse : Query.parse r.query = .ok q) :
    run s c r =
      if s.documents = [] then .ok ⟨[], false, r.effectiveSort c q⟩
      else if greatestDepth < depth r c q then .error (.storage .tooDeep)
      else match expression? q with
        | .error f => .error (.storage f)
        | .ok e => .ok (page c r q (results s c r q e)) := by
  have hwritten := joinedDepth_conditionDepths_le r c q
  unfold run runParsed
  rw [hparse]
  simp only [Store.needing_of_missing_nil h.missing]
  cases hdocuments : s.documents with
  | nil => rfl
  | cons d documents =>
      rcases Nat.lt_or_ge greatestDepth (depth r c q) with hdeep | htaken
      · -- It does not matter which of the two looks at the conditions refuses them.
        rcases Nat.lt_or_ge greatestDepth (joinedDepth (conditionDepths r c q)) with hfirst | hfirst
        · simp [withinDepth_of_lt hfirst, hdeep, bind, Except.bind]
        · simp [withinDepth_of_le hfirst, withinDepth_of_lt hdeep, hdeep, bind, Except.bind]
      · cases hexpression : expression? q <;>
          simp [withinDepth_of_le (hwritten.trans htaken), withinDepth_of_le htaken,
            Nat.not_lt.mpr htaken, bind, Except.bind, pure, Except.pure]

/-- A search of too many filters: only a store without documents has a page of it. -/
theorem run_of_too_deep (h : s.Schema) (hparse : Query.parse r.query = .ok q)
    (hdepth : greatestDepth < depth r c q) :
    run s c r =
      if s.documents = [] then .ok ⟨[], false, r.effectiveSort c q⟩
      else .error (.storage .tooDeep) := by
  rw [run_of_parse h hparse, if_pos hdepth]

theorem run_eq (h : s.Schema) (hparse : Query.parse r.query = .ok q)
    (hdepth : depth r c q ≤ greatestDepth) (hexpression : expression? q = .ok e) :
    run s c r = .ok (page c r q (results s c r q e)) := by
  rw [run_of_parse h hparse, if_neg (Nat.not_lt.mpr hdepth), hexpression]
  split
  · next hdocuments =>
      have hsize := one_le_pageSize r c
      rw [results_of_documents_nil hdocuments]
      simp [page]
  · rfl

/-! ## Page after page -/

/-- What is shown on one page after another, from an offset to a page after which there is no
other. -/
inductive Walk (s : Store) (c : SearchConfig) (r : SearchRequest) : Int → List Hit → Prop
  | last {offset : Int} {page : Page} (hrun : run s c { r with offset } = .ok page)
    (hlast : page.hasMore = false) : Walk s c r offset page.hits
  | more {offset : Int} {page : Page} {rest : List Hit}
    (hrun : run s c { r with offset } = .ok page) (hmore : page.hasMore = true)
    (hrest : Walk s c r (offset + r.pageSize c) rest) : Walk s c r offset (page.hits ++ rest)

theorem exists_page (h : s.Schema) (hparse : Query.parse r.query = .ok q)
    (hdepth : depth r c q ≤ greatestDepth) (hexpression : expression? q = .ok e) (place : Nat) :
    ∃ page, run s c { r with offset := place } = .ok page ∧
      page.hits = (((results s c r q e).map Found.hit).drop place).take (r.pageSize c).toNat ∧
      (page.hasMore = true ↔ place + (r.pageSize c).toNat < (results s c r q e).length) := by
  have hrun : run s c { r with offset := place } =
      .ok (page c { r with offset := place } q (results s c r q e)) :=
    run_eq (r := { r with offset := place }) h hparse hdepth hexpression
  have hskipped : SearchRequest.skipped { r with offset := place } = place := by
    unfold SearchRequest.skipped
    dsimp only
    omega
  have hsize : SearchRequest.pageSize { r with offset := place } c = r.pageSize c := rfl
  have hpositive := one_le_pageSize r c
  refine ⟨_, hrun, ?_, ?_⟩
  · rw [hits_page, hskipped, hsize, Int.toNat_natCast]
  · rw [hasMore_page, hskipped, hsize]
    omega

theorem Walk.hits_eq (h : s.Schema) (hparse : Query.parse r.query = .ok q)
    (hdepth : depth r c q ≤ greatestDepth) (hexpression : expression? q = .ok e) {offset : Int} {hits : List Hit}
    (hwalk : Walk s c r offset hits) {place : Nat} (hplace : offset = place) :
    hits = ((results s c r q e).map Found.hit).drop place := by
  have hpositive := one_le_pageSize r c
  induction hwalk generalizing place with
  | @last offset shown hrun hlast =>
      subst hplace
      obtain ⟨page, hpage, hhits, hmore⟩ := exists_page h hparse hdepth hexpression place
      rw [hpage] at hrun
      cases hrun
      rw [hlast] at hmore
      rw [hhits]
      refine List.take_of_length_le ?_
      rw [List.length_drop, List.length_map]
      have hfits : ¬ place + (r.pageSize c).toNat < (results s c r q e).length := by
        intro hlonger
        cases hmore.mpr hlonger
      omega
  | @more offset shown rest hrun _ hrest ih =>
      subst hplace
      obtain ⟨page, hpage, hhits, -⟩ := exists_page h hparse hdepth hexpression place
      rw [hpage] at hrun
      cases hrun
      have hnext : (place : Int) + r.pageSize c = (place + (r.pageSize c).toNat : Nat) := by omega
      rw [ih hnext, hhits, ← List.drop_drop, List.take_append_drop]

/-- There is a walk from every offset: each page but the last leaves less to be shown. -/
theorem exists_walk (h : s.Schema) (hparse : Query.parse r.query = .ok q)
    (hdepth : depth r c q ≤ greatestDepth) (hexpression : expression? q = .ok e) (place : Nat) : ∃ hits, Walk s c r place hits := by
  have hpositive := one_le_pageSize r c
  induction hleft : (results s c r q e).length - place using Nat.strongRecOn generalizing place with
  | ind left ih =>
      obtain ⟨page, hrun, -, hmore⟩ := exists_page h hparse hdepth hexpression place
      cases hnext : page.hasMore with
      | false => exact ⟨page.hits, .last hrun hnext⟩
      | true =>
          have hlonger := hmore.mp hnext
          obtain ⟨rest, hrest⟩ := ih ((results s c r q e).length - (place + (r.pageSize c).toNat))
            (by omega) (place + (r.pageSize c).toNat) rfl
          have hoffset : ((place + (r.pageSize c).toNat : Nat) : Int) = place + r.pageSize c := by
            omega
          rw [hoffset] at hrest
          exact ⟨page.hits ++ rest, .more hrun hnext hrest⟩

theorem walk_iff (h : s.Schema) (hparse : Query.parse r.query = .ok q)
    (hdepth : depth r c q ≤ greatestDepth) (hexpression : expression? q = .ok e) (hits : List Hit) :
    Walk s c r 0 hits ↔ hits = (results s c r q e).map Found.hit := by
  constructor
  · intro hwalk
    exact hwalk.hits_eq h hparse hdepth hexpression Int.natCast_zero.symm
  · rintro rfl
    obtain ⟨hits, hwalk⟩ := exists_walk h hparse hdepth hexpression 0
    have hhits : hits = (results s c r q e).map Found.hit :=
      hwalk.hits_eq h hparse hdepth hexpression Int.natCast_zero.symm
    exact hhits ▸ hwalk

/-- The greatest number that a limit can be, one below `2 ^ 63`. -/
def greatestLimit : Int := 9223372036854775807

end MailIndex.Search
