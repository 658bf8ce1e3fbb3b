import MailIndex.Proofs.Search.Paging
import MailIndex.Search.Listing

/-!
# Numbered results

The results of a page are numbered on from the offset of the request, and the hint names an offset
from which to go on. The page itself starts at the offset or at the first result, whichever comes
later. So the numbers are positions, and the hints lead through every result once, unless the
offset lies below zero.
-/

namespace MailIndex.Search

/-! ## Numbers -/

def numberedFrom (first : Int) (hits : List Hit) : List (Int × Hit) :=
  hits.mapIdx fun place hit => (first + place, hit)

@[simp] theorem numberedFrom_nil (first : Int) : numberedFrom first [] = [] := rfl

@[simp] theorem numberedFrom_cons (first : Int) (hit : Hit) (hits : List Hit) :
    numberedFrom first (hit :: hits) = (first, hit) :: numberedFrom (first + 1) hits := by
  unfold numberedFrom
  rw [List.mapIdx_cons]
  have hshift : (fun (place : Nat) (hit : Hit) => (first + (place + 1 : Nat), hit)) =
      fun (place : Nat) (hit : Hit) => (first + 1 + place, hit) := by
    funext place hit
    rw [Prod.mk.injEq]
    exact ⟨by omega, rfl⟩
  rw [hshift]
  simp

@[simp] theorem map_snd_numberedFrom (first : Int) (hits : List Hit) :
    (numberedFrom first hits).map Prod.snd = hits := by
  induction hits generalizing first with
  | nil => rfl
  | cons hit hits ih => rw [numberedFrom_cons, List.map_cons, ih]

theorem numberedFrom_append (first : Int) (hits more : List Hit) :
    numberedFrom first (hits ++ more) =
      numberedFrom first hits ++ numberedFrom (first + hits.length) more := by
  induction hits generalizing first with
  | nil => simp
  | cons hit hits ih =>
      have hnext : first + 1 + (hits.length : Int) = first + (hits.length + 1 : Nat) := by omega
      rw [List.cons_append, numberedFrom_cons, ih, numberedFrom_cons, List.cons_append,
        List.length_cons, hnext]

theorem drop_numberedFrom (first : Int) (hits : List Hit) (n : Nat) :
    (numberedFrom first hits).drop n = numberedFrom (first + n) (hits.drop n) := by
  induction hits generalizing first n with
  | nil => simp
  | cons hit hits ih =>
      cases n with
      | zero => simp
      | succ n =>
          have hnext : first + 1 + (n : Int) = first + (n + 1 : Nat) := by omega
          rw [numberedFrom_cons, List.drop_succ_cons, List.drop_succ_cons, ih, hnext]

theorem take_numberedFrom (first : Int) (hits : List Hit) (n : Nat) :
    (numberedFrom first hits).take n = numberedFrom first (hits.take n) := by
  induction hits generalizing first n with
  | nil => simp
  | cons hit hits ih =>
      cases n with
      | zero => simp
      | succ n =>
          rw [numberedFrom_cons, List.take_succ_cons, List.take_succ_cons, ih, numberedFrom_cons]

theorem head?_numberedFrom (first : Int) (hits : List Hit) :
    (numberedFrom first hits).head? = hits.head?.map fun hit => (first, hit) := by
  cases hits with
  | nil => rfl
  | cons hit hits => rw [numberedFrom_cons, List.head?_cons, List.head?_cons, Option.map_some]

/-- The same results have the same numbers only if they are numbered from the same one on. -/
theorem numberedFrom_inj {first other : Int} {hits : List Hit} :
    numberedFrom first hits = numberedFrom other hits ↔ first = other ∨ hits = [] := by
  cases hits with
  | nil => simp
  | cons hit hits =>
      constructor
      · intro h
        rw [numberedFrom_cons, numberedFrom_cons] at h
        exact .inl (Prod.mk.inj (List.cons.inj h).1).1
      · rintro (rfl | h)
        · rfl
        · cases h

theorem numbered_eq (r : SearchRequest) (p : Page) :
    p.numbered r = numberedFrom (r.offset + 1) p.hits := by
  unfold Page.numbered numberedFrom
  congr 1
  funext place hit
  rw [Prod.mk.injEq]
  exact ⟨by omega, rfl⟩

/-! ## The full list -/

variable {s : Store} {c : SearchConfig} {r : SearchRequest} {q : Query}

/-- The full list of a request, by the tables alone; a store without documents is not asked. -/
def Lists (s : Store) (c : SearchConfig) (r : SearchRequest) (full : List Found) : Prop :=
  ∃ q, Query.parse r.query = .ok q ∧
    ((s.documents = [] ∧ full = []) ∨ ∃ e, expression? q = .ok e ∧ IsListing s c r q e full)

/-- A search is read, as far as it has to be. -/
def Readable (s : Store) (c : SearchConfig) (r : SearchRequest) : Prop :=
  ∃ q, Query.parse r.query = .ok q ∧
    (s.documents = [] ∨ depth r c q ≤ greatestDepth ∧ ∃ e, expression? q = .ok e)

/-- The results of a search as they are shown; none if it cannot be read. -/
def listed (s : Store) (c : SearchConfig) (r : SearchRequest) : List Hit :=
  match Query.parse r.query with
  | .error _ => []
  | .ok q =>
    match expression? q with
    | .error _ => []
    | .ok e => (results s c r q e).map Found.hit

theorem listed_eq {e : Option Match.Expression} (hparse : Query.parse r.query = .ok q)
    (hexpression : expression? q = .ok e) :
    listed s c r = (results s c r q e).map Found.hit := by
  simp only [listed, hparse, hexpression]

theorem listed_of_documents_nil (h : s.documents = []) : listed s c r = [] := by
  unfold listed
  split
  · rfl
  · split
    · rfl
    · rw [results_of_documents_nil h, List.map_nil]

theorem Lists.map_hit_eq (h : s.Schema) {full : List Found} (hfull : Lists s c r full) :
    full.map Found.hit = listed s c r := by
  obtain ⟨q, hparse, ⟨hnone, rfl⟩ | ⟨e, hexpression, hlisting⟩⟩ := hfull
  · rw [listed_of_documents_nil hnone, List.map_nil]
  · rw [listed_eq hparse hexpression]
    exact hlisting.unique h (isListing_results h c r q e)

theorem exists_lists (h : s.Schema) (hr : Readable s c r) : ∃ full, Lists s c r full := by
  obtain ⟨q, hparse, hnone | ⟨-, e, hexpression⟩⟩ := hr
  · exact ⟨[], q, hparse, .inl ⟨hnone, rfl⟩⟩
  · exact ⟨_, q, hparse, .inr ⟨e, hexpression, isListing_results h c r q e⟩⟩

/-! ## One page -/

theorem readable_of_run {p : Page} (h : s.Schema) (hrun : run s c r = .ok p) :
    Readable s c r := by
  cases hparse : Query.parse r.query with
  | error e => simp [run, hparse] at hrun
  | ok q =>
      refine ⟨q, hparse, ?_⟩
      rw [run_of_parse h hparse] at hrun
      split at hrun
      · next hnone => exact .inl hnone
      · split at hrun
        · cases hrun
        · next hdepth =>
            split at hrun
            · cases hrun
            · next e hexpression => exact .inr ⟨Nat.le_of_not_lt hdepth, e, hexpression⟩

theorem exists_part (h : s.Schema) (hr : Readable s c r) :
    ∃ p, run s c r = .ok p ∧
      p.hits = ((listed s c r).drop r.skipped.toNat).take (r.pageSize c).toNat ∧
      (p.hasMore = true ↔ r.skipped + r.pageSize c < (listed s c r).length) := by
  obtain ⟨q, hparse, hnone | ⟨hdepth, e, hexpression⟩⟩ := hr
  · have hsize := one_le_pageSize r c
    have hskipped := skipped_nonneg r
    refine ⟨_, (run_of_parse h hparse).trans (if_pos hnone), ?_, ?_⟩
    · rw [listed_of_documents_nil hnone, List.drop_nil, List.take_nil]
    · rw [listed_of_documents_nil hnone, List.length_nil]
      constructor
      · intro hmore
        cases hmore
      · intro hlonger
        omega
  · refine ⟨_, run_eq h hparse hdepth hexpression, ?_, ?_⟩
    · rw [listed_eq hparse hexpression, hits_page]
    · rw [listed_eq hparse hexpression, hasMore_page, List.length_map]

theorem part_of_run (h : s.Schema) {p : Page} (hrun : run s c r = .ok p) :
    p.hits = ((listed s c r).drop r.skipped.toNat).take (r.pageSize c).toNat ∧
      (p.hasMore = true ↔ r.skipped + r.pageSize c < (listed s c r).length) := by
  obtain ⟨same, hsame, hpart⟩ := exists_part h (readable_of_run h hrun)
  rw [hrun] at hsame
  cases hsame
  exact hpart

/-- The hint counts on from the offset of the request. -/
theorem nextOffset?_of_run (h : s.Schema) {p : Page} (hrun : run s c r = .ok p) :
    p.nextOffset? r = if r.skipped + r.pageSize c < (listed s c r).length
      then some (r.offset + r.pageSize c) else none := by
  obtain ⟨hhits, hmore⟩ := part_of_run h hrun
  have hsize := one_le_pageSize r c
  have hskipped := skipped_nonneg r
  unfold Page.nextOffset?
  by_cases hlonger : r.skipped + r.pageSize c < (listed s c r).length
  · have hlength : (p.hits.length : Int) = r.pageSize c := by
      rw [hhits, List.length_take, List.length_drop]
      omega
    rw [if_pos hlonger, if_pos (hmore.mpr hlonger), hlength]
  · rw [if_neg hlonger, if_neg (fun hp => hlonger (hmore.mp hp))]

theorem of_hint (h : s.Schema) {p : Page} {offset : Int} (hrun : run s c r = .ok p)
    (hhint : p.nextOffset? r = some offset) :
    r.skipped + r.pageSize c < (listed s c r).length ∧ offset = r.offset + r.pageSize c := by
  rw [nextOffset?_of_run h hrun] at hhint
  split at hhint
  · next hlonger =>
      cases hhint
      exact ⟨hlonger, rfl⟩
  · cases hhint

theorem of_no_hint (h : s.Schema) {p : Page} (hrun : run s c r = .ok p)
    (hlast : p.nextOffset? r = none) : (listed s c r).length ≤ r.skipped + r.pageSize c := by
  rw [nextOffset?_of_run h hrun] at hlast
  split at hlast
  · cases hlast
  · next hshort => omega

/-- A page without results has no hint, and none would be shown. -/
theorem nextOffset?_of_nil (h : s.Schema) {p : Page} (hrun : run s c r = .ok p)
    (hnil : p.hits = []) : p.nextOffset? r = none := by
  obtain ⟨hhits, -⟩ := part_of_run h hrun
  have hsize := one_le_pageSize r c
  have hskipped := skipped_nonneg r
  have hlength := congrArg List.length (hhits.symm.trans hnil)
  rw [List.length_take, List.length_drop, List.length_nil] at hlength
  rw [nextOffset?_of_run h hrun, if_neg (by omega)]

/-! ## From hint to hint -/

/-- What is shown when a search is made again with the offset of each hint, until there is none. -/
inductive Followed (s : Store) (c : SearchConfig) : SearchRequest → List (Int × Hit) → Prop
  | last {r : SearchRequest} {p : Page} (hrun : run s c r = .ok p)
    (hlast : p.nextOffset? r = none) : Followed s c r (p.numbered r)
  | more {r : SearchRequest} {p : Page} {offset : Int} {rest : List (Int × Hit)}
    (hrun : run s c r = .ok p) (hnext : p.nextOffset? r = some offset)
    (hrest : Followed s c { r with offset } rest) : Followed s c r (p.numbered r ++ rest)

/-- The hints come to an end, wherever the first page starts. -/
theorem exists_followed (h : s.Schema) (hr : Readable s c r) : ∃ shown, Followed s c r shown := by
  have hsize := one_le_pageSize r c
  induction hleft : ((listed s c r).length - r.offset).toNat using Nat.strongRecOn
      generalizing r with
  | ind left ih =>
      obtain ⟨p, hrun, -⟩ := exists_part h hr
      have hnext := nextOffset?_of_run h hrun
      by_cases hlonger : r.skipped + r.pageSize c < (listed s c r).length
      · rw [if_pos hlonger] at hnext
        have hless : ((listed s c r).length - (r.offset + r.pageSize c)).toNat < left := by
          unfold SearchRequest.skipped at hlonger
          omega
        obtain ⟨rest, hrest⟩ := ih _ hless (r := { r with offset := r.offset + r.pageSize c })
          hr hsize rfl
        exact ⟨_, .more hrun hnext hrest⟩
      · rw [if_neg hlonger] at hnext
        exact ⟨_, .last hrun hnext⟩

/-- From an offset that is not below zero on, every result is shown once, with its position. -/
theorem Followed.eq_drop (h : s.Schema) {shown : List (Int × Hit)} (hshown : Followed s c r shown)
    (hoffset : 0 ≤ r.offset) :
    shown = (numberedFrom 1 (listed s c r)).drop r.skipped.toNat := by
  induction hshown with
  | @last r p hrun hlast =>
      obtain ⟨hhits, -⟩ := part_of_run h hrun
      have hshort := of_no_hint h hrun hlast
      have hsize := one_le_pageSize r c
      have hfirst : r.offset + 1 = 1 + (r.skipped.toNat : Int) := by
        unfold SearchRequest.skipped
        omega
      have hall : ((listed s c r).drop r.skipped.toNat).length ≤ (r.pageSize c).toNat := by
        rw [List.length_drop]
        omega
      rw [numbered_eq, hhits, List.take_of_length_le hall, drop_numberedFrom, hfirst]
  | @more r p offset rest hrun hhint hrest ih =>
      obtain ⟨hhits, -⟩ := part_of_run h hrun
      obtain ⟨hlonger, rfl⟩ := of_hint h hrun hhint
      have hsize := one_le_pageSize r c
      have hskipped : r.skipped = r.offset := max_eq_left hoffset
      have hlater : 0 ≤ r.offset + r.pageSize c := by omega
      have hnext : (SearchRequest.skipped { r with offset := r.offset + r.pageSize c }).toNat =
          r.skipped.toNat + (r.pageSize c).toNat := by
        unfold SearchRequest.skipped
        dsimp only
        omega
      have hfirst : r.offset + 1 = 1 + (r.skipped.toNat : Int) := by omega
      have hlength : ((((listed s c r).drop r.skipped.toNat).take (r.pageSize c).toNat).length
          : Int) = (r.pageSize c).toNat := by
        rw [List.length_take, List.length_drop]
        omega
      calc p.numbered r ++ rest
          = numberedFrom (1 + r.skipped.toNat)
                (((listed s c r).drop r.skipped.toNat).take (r.pageSize c).toNat) ++
              (numberedFrom 1 (listed s c r)).drop (r.skipped.toNat + (r.pageSize c).toNat) := by
            rw [numbered_eq, hhits, hfirst, ih hlater, hnext]
            rfl
        _ = numberedFrom (1 + r.skipped.toNat) ((listed s c r).drop r.skipped.toNat) := by
            rw [← List.drop_drop, drop_numberedFrom, drop_numberedFrom, ← hlength,
              ← numberedFrom_append, List.take_append_drop]
        _ = (numberedFrom 1 (listed s c r)).drop r.skipped.toNat := (drop_numberedFrom _ _ _).symm

theorem length_numbered (r : SearchRequest) (p : Page) :
    (p.numbered r).length = p.hits.length := List.length_mapIdx

/-- No result from the first page on is left out, wherever that starts. -/
theorem Followed.le_length (h : s.Schema) {shown : List (Int × Hit)}
    (hshown : Followed s c r shown) : (listed s c r).length - r.skipped ≤ shown.length := by
  induction hshown with
  | @last r p hrun hlast =>
      obtain ⟨hhits, -⟩ := part_of_run h hrun
      have hshort := of_no_hint h hrun hlast
      have hskipped := skipped_nonneg r
      rw [length_numbered, hhits, List.length_take, List.length_drop]
      omega
  | @more r p offset rest hrun hhint hrest ih =>
      obtain ⟨hhits, -⟩ := part_of_run h hrun
      obtain ⟨hlonger, rfl⟩ := of_hint h hrun hhint
      have hsize := one_le_pageSize r c
      have hrest : (listed s c r).length - max (r.offset + r.pageSize c) 0 ≤ (rest.length : Int) :=
        ih
      rw [List.length_append, length_numbered, hhits, List.length_take, List.length_drop]
      unfold SearchRequest.skipped at hlonger ⊢
      omega

/-- From an offset below zero on, a page after which there is another is shown again. -/
theorem Followed.hits_eq_iff (h : s.Schema) {shown : List (Int × Hit)}
    (hshown : Followed s c r shown) :
    shown.map Prod.snd = (listed s c r).drop r.skipped.toNat ↔
      0 ≤ r.offset ∨ (listed s c r).length ≤ r.pageSize c := by
  by_cases hoffset : 0 ≤ r.offset
  · rw [hshown.eq_drop h hoffset, drop_numberedFrom, map_snd_numberedFrom]
    exact ⟨fun _ => .inl hoffset, fun _ => rfl⟩
  · have hskipped : r.skipped = 0 := max_eq_right (by omega)
    have hsize := one_le_pageSize r c
    rw [hskipped, Int.toNat_zero, List.drop_zero]
    cases hshown with
    | @last _ p hrun hlast =>
        obtain ⟨hhits, -⟩ := part_of_run h hrun
        have hshort := of_no_hint h hrun hlast
        rw [hskipped, Int.zero_add] at hshort
        have hall : (p.numbered r).map Prod.snd = listed s c r := by
          rw [numbered_eq, map_snd_numberedFrom, hhits, hskipped]
          exact List.take_of_length_le (by rw [List.length_drop]; omega)
        exact ⟨fun _ => .inr hshort, fun _ => hall⟩
    | @more _ p offset rest hrun hhint hrest =>
        obtain ⟨hhits, -⟩ := part_of_run h hrun
        obtain ⟨hlonger, rfl⟩ := of_hint h hrun hhint
        rw [hskipped, Int.zero_add] at hlonger
        have hleft : (listed s c r).length - max (r.offset + r.pageSize c) 0 ≤
            (rest.length : Int) := hrest.le_length h
        constructor
        · intro hsame
          have hlength := congrArg List.length hsame
          rw [List.length_map, List.length_append, length_numbered, hhits, List.length_take,
            List.length_drop, hskipped] at hlength
          omega
        · rintro (hnonneg | hshort)
          · exact absurd hnonneg hoffset
          · omega

theorem Followed.head?_eq (h : s.Schema) {shown : List (Int × Hit)}
    (hshown : Followed s c r shown) :
    shown.head? =
      ((listed s c r).drop r.skipped.toNat).head?.map fun hit => (r.offset + 1, hit) := by
  have hpage : ∀ p, run s c r = .ok p → (p.numbered r).head? =
      ((listed s c r).drop r.skipped.toNat).head?.map fun hit => (r.offset + 1, hit) := by
    intro p hrun
    obtain ⟨hhits, -⟩ := part_of_run h hrun
    have hsize := one_le_pageSize r c
    rw [numbered_eq, head?_numberedFrom, hhits, List.head?_take, if_neg (by omega)]
  cases hshown with
  | @last _ p hrun _ => exact hpage p hrun
  | @more _ p offset rest hrun hhint _ =>
      have hlonger := (of_hint h hrun hhint).1
      have hsize := one_le_pageSize r c
      have hskipped := skipped_nonneg r
      rw [List.head?_append, hpage p hrun]
      cases hfirst : ((listed s c r).drop r.skipped.toNat).head? with
      | some hit => rfl
      | none =>
          have hlength := congrArg List.length (List.head?_eq_none_iff.mp hfirst)
          rw [List.length_drop, List.length_nil] at hlength
          omega

theorem Followed.eq_drop_iff (h : s.Schema) {shown : List (Int × Hit)}
    (hshown : Followed s c r shown) :
    shown = (numberedFrom 1 (listed s c r)).drop r.skipped.toNat ↔
      0 ≤ r.offset ∨ listed s c r = [] := by
  by_cases hoffset : 0 ≤ r.offset
  · exact ⟨fun _ => .inl hoffset, fun _ => hshown.eq_drop h hoffset⟩
  · have hskipped : r.skipped = 0 := max_eq_right (by omega)
    have hsize := one_le_pageSize r c
    rw [hskipped, Int.toNat_zero, List.drop_zero]
    constructor
    · intro hsame
      right
      have hhead := hshown.head?_eq h
      rw [hsame, head?_numberedFrom, hskipped, Int.toNat_zero, List.drop_zero] at hhead
      cases hlisted : listed s c r with
      | nil => rfl
      | cons hit hits =>
          rw [hlisted, List.head?_cons, Option.map_some, Option.map_some, Option.some.injEq,
            Prod.mk.injEq] at hhead
          omega
    · rintro (hnonneg | hnil)
      · exact absurd hnonneg hoffset
      · have hhits := (hshown.hits_eq_iff h).mpr (.inr (by rw [hnil]; simp; omega))
        rw [hnil] at hhits ⊢
        simpa using hhits

theorem numbered_eq_positions_iff (h : s.Schema) {p : Page} (hrun : run s c r = .ok p) :
    p.numbered r =
        ((numberedFrom 1 (listed s c r)).drop r.skipped.toNat).take (r.pageSize c).toNat ↔
      0 ≤ r.offset ∨ listed s c r = [] := by
  obtain ⟨hhits, -⟩ := part_of_run h hrun
  have hsize := one_le_pageSize r c
  rw [numbered_eq, hhits, drop_numberedFrom, take_numberedFrom, numberedFrom_inj]
  unfold SearchRequest.skipped
  by_cases hoffset : 0 ≤ r.offset
  · rw [max_eq_left hoffset]
    exact ⟨fun _ => .inl hoffset, fun _ => .inl (by omega)⟩
  · rw [max_eq_right (by omega), Int.toNat_zero, List.drop_zero, List.take_eq_nil_iff]
    constructor
    · rintro (hfirst | hsmall | hnil)
      · omega
      · omega
      · exact .inr hnil
    · rintro (hnonneg | hnil)
      · exact absurd hnonneg hoffset
      · exact .inr (.inr hnil)

/-- The results of a page are numbered on from the offset, which is given on by the hint as well. So
the numbers are positions in the full list, and the hints lead on through it, exactly if the offset
is not below zero or makes no difference: if there is nothing to number, and for the hints if all is
on the first page. -/
theorem numbers_and_hints (h : s.Schema) {p : Page} (hrun : run s c r = .ok p) :
    (∃ full, Lists s c r full) ∧ ∀ full, Lists s c r full →
      p.numbered r = numberedFrom (r.offset + 1)
        (((full.map Found.hit).drop r.skipped.toNat).take (r.pageSize c).toNat) ∧
      p.nextOffset? r = (if r.skipped + r.pageSize c < full.length
        then some (r.offset + r.pageSize c) else none) ∧
      (p.numbered r = ((numberedFrom 1 (full.map Found.hit)).drop r.skipped.toNat).take
        (r.pageSize c).toNat ↔ 0 ≤ r.offset ∨ full = []) ∧
      (∃ shown, Followed s c r shown) ∧
      ∀ shown, Followed s c r shown →
        (shown = (numberedFrom 1 (full.map Found.hit)).drop r.skipped.toNat ↔
          0 ≤ r.offset ∨ full = []) ∧
        (shown.map Prod.snd = (full.map Found.hit).drop r.skipped.toNat ↔
          0 ≤ r.offset ∨ full.length ≤ r.pageSize c) := by
  have hr := readable_of_run h hrun
  refine ⟨exists_lists h hr, fun full hfull => ?_⟩
  have hlisted := hfull.map_hit_eq h
  have hlength : full.length = (listed s c r).length := by rw [← hlisted, List.length_map]
  have hnil : full = [] ↔ listed s c r = [] := by rw [← hlisted, List.map_eq_nil_iff]
  rw [hlisted, hlength, hnil]
  refine ⟨?_, nextOffset?_of_run h hrun, numbered_eq_positions_iff h hrun, exists_followed h hr,
    fun shown hshown => ⟨hshown.eq_drop_iff h, hshown.hits_eq_iff h⟩⟩
  rw [numbered_eq, (part_of_run h hrun).1]

/-- Two documents on a page each, and an offset one below zero: the first one is shown under the
number zero, and then a second time. -/
theorem numbers_and_hints_from_below_zero :
    let derived : Derived := ⟨"s".toList, "x".toList, none, [], none, none, false, "t".toList⟩
    let a : Document := ⟨1, "a".toList, none, none, none, none, some "2024".toList, derived, some 0⟩
    let b : Document := ⟨2, "b".toList, none, none, none, none, none, derived, some 0⟩
    let s : Store := ⟨[a, b], 2, [], 0, .empty, []⟩
    let r : SearchRequest := ⟨[], none, some 1, -1, none, none⟩
    ∃ p, run s .standard r = .ok p ∧ p.numbered r = [(0, .ofDocument a)] ∧
      p.nextOffset? r = some 0 ∧ ∃ shown, Followed s .standard r shown ∧
        shown.map Prod.snd ≠ [.ofDocument a, .ofDocument b] := by
  intro derived a b s r
  have hschema : s.Schema := ⟨rfl, by decide, by decide, by decide, by decide⟩
  have hlisting : IsListing s .standard r Query.everything none [⟨a, 0⟩, ⟨b, 0⟩] := by
    have horder : Found.key .newestFirst ⟨a, 0⟩ ≤ Found.key .newestFirst ⟨b, 0⟩ := by
      simp only [Found.key]
      decide
    exact ⟨.refl _, List.pairwise_pair.mpr horder⟩
  have hlists : Lists s .standard r [⟨a, 0⟩, ⟨b, 0⟩] :=
    ⟨Query.everything, rfl, .inr ⟨none, rfl, hlisting⟩⟩
  have hreadable : Readable s .standard r :=
    ⟨Query.everything, rfl, .inr ⟨depth_le_of_few (by decide), none, rfl⟩⟩
  obtain ⟨p, hrun, -⟩ := exists_part hschema hreadable
  obtain ⟨-, hall⟩ := numbers_and_hints hschema hrun
  obtain ⟨hnumbered, hhint, -, ⟨shown, hshown⟩, hfollowed⟩ := hall _ hlists
  refine ⟨p, hrun, hnumbered, hhint, shown, hshown, fun hsame => ?_⟩
  exact absurd ((hfollowed shown hshown).2.mp hsame) (by decide)

end MailIndex.Search
