import MailIndex.Config.Reader
import MailIndex.Proofs.Search.Paging
import MailIndex.Proofs.Toml.Integers

/-!
# Limits

The limits of a configuration that has been read are in order and fit into 64 bits with a sign, and
the size of a page lies between one and the greater of them. One more than that is asked of the
store, and is computed in 64 bits: the sum fits unless the page has the greatest size that there
is.
-/

namespace MailIndex

open Toml

/-! ## The limits of a configuration -/

namespace Config

theorem bounded_of_settings? {names : List Text} {node : Node} {settings : List (Option Node)}
    (h : node.Bounded) (hsettings : settings? names node = some settings) {setting : Node}
    (hmem : some setting ∈ settings) : setting.Bounded := by
  unfold settings? at hsettings
  split at hsettings
  · cases hsettings
    obtain ⟨name, -, hlookup⟩ := List.mem_map.mp hmem
    exact Table.Bounded.lookup h.members hlookup
  · cases hsettings
    obtain ⟨name, -, hnone⟩ := List.mem_map.mp hmem
    cases hnone
  · cases hsettings
    obtain ⟨i, -, helement⟩ := List.mem_map.mp hmem
    exact h.elements setting (List.mem_of_getElem? helement)
  · cases hsettings
    obtain ⟨i, -, hmap⟩ := List.mem_map.mp hmem
    obtain ⟨members, hmembers, rfl⟩ := Option.map_eq_some_iff.mp hmap
    exact .table (h.each members (List.mem_reverse.mp (List.mem_of_getElem? hmembers)))
  · cases hsettings

theorem fits_of_optional {standard n : Int} {setting : Option Node}
    (h : ∀ node, setting = some node → node.Bounded) (hstandard : Fits standard)
    (hread : optional integer? standard setting = some n) : Fits n := by
  cases setting with
  | none =>
      cases hread
      exact hstandard
  | some node =>
      cases h node rfl with
      | integer hn =>
          cases hread
          exact hn
      | _ => cases hread

theorem fits_standard :
    Fits SearchConfig.standard.defaultLimit ∧ Fits SearchConfig.standard.maxLimit := by
  unfold Fits Text.Decimal.largestInteger
  decide

theorem fits_of_readSearch? {node : Node} {c : SearchConfig} (h : node.Bounded)
    (hread : readSearch? node = some c) : Fits c.defaultLimit ∧ Fits c.maxLimit := by
  obtain ⟨settings, hsettings, hread⟩ := Option.bind_eq_some_iff.mp hread
  have hbounded (setting : Node) (hmem : some setting ∈ settings) : setting.Bounded :=
    bounded_of_settings? h hsettings hmem
  split at hread
  · next defaultLimit maxLimit sort undated =>
      obtain ⟨n, hn, hread⟩ := Option.bind_eq_some_iff.mp hread
      obtain ⟨m, hm, hread⟩ := Option.bind_eq_some_iff.mp hread
      obtain ⟨order, -, hread⟩ := Option.bind_eq_some_iff.mp hread
      obtain ⟨flag, -, hresult⟩ := Option.bind_eq_some_iff.mp hread
      cases hresult
      constructor
      · refine fits_of_optional (fun node hnode => hbounded node ?_) fits_standard.1 hn
        simp [hnode]
      · refine fits_of_optional (fun node hnode => hbounded node ?_) fits_standard.2 hm
        simp [hnode]
  · cases hread

theorem fits_of_ofTable? {root : Toml.Table} {c : Config} (h : root.Bounded)
    (hread : ofTable? root = some c) : Fits c.search.defaultLimit ∧ Fits c.search.maxLimit := by
  obtain ⟨path, -, hread⟩ := Option.bind_eq_some_iff.mp hread
  obtain ⟨source, -, hread⟩ := Option.bind_eq_some_iff.mp hread
  obtain ⟨index, -, hread⟩ := Option.bind_eq_some_iff.mp hread
  obtain ⟨search, hsearch, hresult⟩ := Option.bind_eq_some_iff.mp hread
  cases hresult
  cases hsection : root.lookup "search".toList with
  | none =>
      rw [hsection] at hsearch
      cases hsearch
      exact fits_standard
  | some node =>
      rw [hsection] at hsearch
      exact fits_of_readSearch? (h.lookup hsection) hsearch

theorem limits_of_fault? {c : Config} (h : c.fault? = none) :
    1 ≤ c.search.defaultLimit ∧ c.search.defaultLimit ≤ c.search.maxLimit := by
  unfold fault? at h
  split at h
  · cases h
  · split at h
    · cases h
    · split at h
      · cases h
      · split at h
        · cases h
        · omega

theorem limits_of_parse {document : Text} {c : Config} (h : parse document = .ok c) :
    1 ≤ c.search.defaultLimit ∧ c.search.defaultLimit ≤ c.search.maxLimit ∧
      c.search.maxLimit ≤ Search.greatestLimit := by
  unfold parse at h
  split at h
  · cases h
  · next read hread =>
      split at h
      · cases h
      · next hfault =>
          cases h
          obtain ⟨root, hroot, hread⟩ := Option.bind_eq_some_iff.mp hread
          have hfits := (fits_of_ofTable? (bounded_of_parse? hroot) hread).2
          obtain ⟨hpositive, hordered⟩ := limits_of_fault? hfault
          exact ⟨hpositive, hordered, hfits.2⟩

end Config

/-! ## The size of a page -/

namespace SearchRequest

theorem pageSize_le {c : SearchConfig} (h : 1 ≤ c.maxLimit) (r : SearchRequest) :
    r.pageSize c ≤ c.maxLimit := by
  unfold pageSize
  omega

theorem boundLimit_eq (r : SearchRequest) (c : SearchConfig) :
    r.boundLimit c = Int64.ofInt (r.fetchSize c) := (Int64.ofInt_add _ 1).symm

theorem toInt_boundLimit {r : SearchRequest} {c : SearchConfig}
    (h : r.pageSize c < Search.greatestLimit) : (r.boundLimit c).toInt = r.fetchSize c := by
  have hsize := Search.one_le_pageSize r c
  unfold Search.greatestLimit at h
  rw [boundLimit_eq]
  unfold fetchSize
  exact Int64.toInt_ofInt_of_le (by omega) (by omega)

/-- The greatest size that there is has no successor: the sum is the least number instead. -/
theorem toInt_boundLimit_of_greatest {r : SearchRequest} {c : SearchConfig}
    (h : r.pageSize c = Search.greatestLimit) :
    (r.boundLimit c).toInt = -(Search.greatestLimit + 1) := by
  rw [boundLimit, h]
  decide

end SearchRequest

namespace Search

/-- For every configuration that is accepted and every request, the size of a page lies between one
and the greatest limit of the configuration. What is asked of the store is one more than that, and
so not negative, unless both that limit and the limit that is wanted are the greatest number that
there is. -/
theorem page_limits {document : Text} {c : Config} (h : Config.parse document = .ok c)
    (r : SearchRequest) :
    1 ≤ r.pageSize c.search ∧ r.pageSize c.search ≤ c.search.maxLimit ∧
      ((r.boundLimit c.search).toInt = r.fetchSize c.search ↔
        c.search.maxLimit < greatestLimit ∨
          r.limit.getD c.search.defaultLimit < greatestLimit) ∧
      (0 ≤ (r.boundLimit c.search).toInt ↔
        c.search.maxLimit < greatestLimit ∨
          r.limit.getD c.search.defaultLimit < greatestLimit) := by
  obtain ⟨hpositive, hordered, hgreatest⟩ := Config.limits_of_parse h
  have hlower := one_le_pageSize r c.search
  have hupper := SearchRequest.pageSize_le (by omega) r (c := c.search)
  have hsmaller : r.pageSize c.search < greatestLimit ↔
      c.search.maxLimit < greatestLimit ∨ r.limit.getD c.search.defaultLimit < greatestLimit := by
    unfold SearchRequest.pageSize greatestLimit at *
    omega
  rw [← hsmaller]
  refine ⟨hlower, hupper, ?_⟩
  by_cases hsize : r.pageSize c.search < greatestLimit
  · have hsum := SearchRequest.toInt_boundLimit hsize
    have hnonneg : 0 ≤ (r.boundLimit c.search).toInt := by
      rw [hsum]
      unfold SearchRequest.fetchSize
      omega
    exact ⟨⟨fun _ => hsize, fun _ => hsum⟩, ⟨fun _ => hsize, fun _ => hnonneg⟩⟩
  · have hsum := SearchRequest.toInt_boundLimit_of_greatest (r := r) (c := c.search) (by omega)
    have hnegative : (r.boundLimit c.search).toInt < 0 := by
      rw [hsum]
      decide
    refine ⟨⟨fun hsame => ?_, fun hless => absurd hless hsize⟩,
      ⟨fun hnonneg => by omega, fun hless => absurd hless hsize⟩⟩
    unfold SearchRequest.fetchSize at hsame
    omega

/-- A configuration without a bound of its own: the greatest number can be asked for, and then the
sum is negative, while the limit that the configuration gives by itself is harmless. -/
theorem page_limits_at_the_greatest :
    let document := "[db]\npath = \"x\"\n[search]\nmax_limit = 9223372036854775807\n".toList
    let greatest : SearchRequest := ⟨[], none, some greatestLimit, 0, none, none⟩
    let usual : SearchRequest := { greatest with limit := none }
    ∃ c, Config.parse document = .ok c ∧ greatest.pageSize c.search ≤ greatestLimit ∧
      (greatest.boundLimit c.search).toInt < 0 ∧
      (usual.boundLimit c.search).toInt = usual.fetchSize c.search := by
  intro document greatest usual
  let search : SearchConfig := ⟨50, greatestLimit, .relevance, true⟩
  have hparse : Config.parse document = .ok ⟨['x'], none, .standard, search⟩ := by decide +kernel
  refine ⟨_, hparse, (page_limits hparse greatest).2.1, ?_, ?_⟩
  · have hnonneg := (page_limits hparse greatest).2.2.2
    by_contra hsum
    exact absurd (hnonneg.mp (by omega)) (by decide)
  · exact (page_limits hparse usual).2.2.1.mpr (.inr (by decide))

end Search

end MailIndex
