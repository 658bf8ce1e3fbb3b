import MailIndex.Proofs.Search.Paging

/-!
# Searches of one account

A search that is restricted to an account depends on what the store holds of this account, and on
nothing else it holds: two stores that agree on the account show the same by date. By relevance they
show the same documents, since the ranks alone take all entries into account.
-/

namespace MailIndex

/-! ## What a store holds of an account -/

namespace Store

def accountDocuments (s : Store) (account : Text) : List Document :=
  s.documents.filter (·.account = some account)

/-- The indexed texts of an account, each with the document that the ledger gives its entry. -/
def accountTexts (s : Store) (account : Text) : List (Document × EntryText) :=
  (s.index.rows.filterMap fun row =>
    (Search.documentOf? s row.id).map fun d => (d, row.text)).filter (·.1.account = some account)

/-- Two stores hold the same of an account, whatever else they hold. -/
structure AgreeOn (account : Text) (s t : Store) : Prop where
  documents : (s.accountDocuments account).Perm (t.accountDocuments account)
  texts : (s.accountTexts account).Perm (t.accountTexts account)

end Store

namespace Search

open Match Store

variable {s t : Store} {c : SearchConfig} {r : SearchRequest} {q : Query} {e : Option Expression}
  {account : Text}

/-! ## The documents of a listing -/

theorem account_of_admits (haccount : r.account = some account) {d : Document}
    (h : admits r c q d = true) : d.account = some account :=
  (admits_iff.mp h).account account haccount

theorem documents_everything_none (haccount : r.account = some account) :
    ((everything s none).filter fun f => admits r c q f.document).map (·.document) =
      (s.accountDocuments account).filter (admits r c q) := by
  have hdocument :
      (fun f : Found => f.document) ∘ (fun d : Document => (⟨d, 0⟩ : Found)) = id := rfl
  unfold everything accountDocuments
  dsimp only
  rw [List.filter_map, List.map_map, hdocument, List.map_id, List.filter_filter]
  refine List.filter_congr fun d _ => ?_
  cases hadmits : admits r c q d with
  | false => simp [hadmits]
  | true => simp [hadmits, account_of_admits haccount hadmits]

theorem documents_everything_some (haccount : r.account = some account) (e : Expression) :
    ((everything s (some e)).filter fun f => admits r c q f.document).map (·.document) =
      ((s.accountTexts account).filter fun own => e.selects own.2 && admits r c q own.1).map
        (·.1) := by
  unfold everything matching accountTexts
  dsimp only
  rw [List.filter_filter, List.filter_filterMap, List.filter_filterMap, List.map_filterMap,
    List.map_filterMap, List.filterMap_filter]
  refine List.filterMap_congr fun row _ => ?_
  cases hdocument : documentOf? s row.id with
  | none => cases e.selects row.text <;> rfl
  | some d =>
      cases hselects : e.selects row.text with
      | false => simp [Option.filter_some, hselects]
      | true =>
          cases hadmits : admits r c q d with
          | false => simp [Option.filter_some, hadmits]
          | true =>
              simp [Option.filter_some, hadmits, hselects, account_of_admits haccount hadmits]

theorem perm_documents_results (hsame : AgreeOn account s t) (haccount : r.account = some account) :
    ((results s c r q e).map (·.document)).Perm ((results t c r q e).map (·.document)) := by
  have hsorted (u : Store) : ((results u c r q e).map (·.document)).Perm
      (((everything u e).filter fun f => admits r c q f.document).map (·.document)) :=
    (List.mergeSort_perm _ _).map _
  refine (hsorted s).trans (.trans ?_ (hsorted t).symm)
  cases e with
  | none =>
      rw [documents_everything_none haccount, documents_everything_none haccount]
      exact hsame.documents.filter _
  | some e =>
      rw [documents_everything_some haccount, documents_everything_some haccount]
      exact (hsame.texts.filter _).map _

theorem mem_documents_of_results (h : s.Schema) {f : Found} (hf : f ∈ results s c r q e) :
    f.document ∈ s.documents ∧ admits r c q f.document = true := by
  have hrow := List.mem_filter.mp ((isListing_results h c r q e).rows.mem_iff.mp hf)
  exact ⟨mem_documents_of_joined hrow.1, admits_iff.mpr (of_decide_eq_true hrow.2)⟩

/-! ## The order of a listing -/

/-- By date the ranks are not looked at. -/
theorem key_of_dated {order : SortOrder} (h : order ≠ .relevance) (f : Found) :
    f.key order = Found.key order ⟨f.document, 0⟩ := by
  cases order with
  | relevance => exact absurd rfl h
  | newestFirst => rfl
  | oldestFirst => rfl

/-- A listing by date is known from its documents, in whatever order they are found. -/
theorem documents_results_eq (hs : s.Schema) (ht : t.Schema)
    (hdated : r.effectiveSort c q ≠ .relevance)
    (hperm : ((results s c r q e).map (·.document)).Perm ((results t c r q e).map (·.document))) :
    (results s c r q e).map (·.document) = (results t c r q e).map (·.document) := by
  let key (d : Document) : Found.Key := Found.key (r.effectiveSort c q) ⟨d, 0⟩
  have hsorted {u : Store} (hu : u.Schema) :
      ((results u c r q e).map (·.document)).Pairwise fun a b => key a ≤ key b := by
    refine List.pairwise_map.mpr ((isListing_results hu c r q e).order.imp fun {a b} hle => ?_)
    rwa [key_of_dated hdated a, key_of_dated hdated b] at hle
  -- Two documents of one store with the same key have the same number.
  have hdistinct {u : Store} (hu : u.Schema) {a b : Document}
      (ha : a ∈ (results u c r q e).map (·.document))
      (hb : b ∈ (results u c r q e).map (·.document)) (hkey : key a = key b) : a = b := by
    obtain ⟨f, hf, rfl⟩ := List.mem_map.mp ha
    obtain ⟨g, hg, rfl⟩ := List.mem_map.mp hb
    have hseq : f.document.seq = g.document.seq := by
      have hkeys := congrArg Found.Key.seq hkey
      rwa [Found.seq_key, Found.seq_key] at hkeys
    exact List.inj_on_of_nodup_map hu.seqs (mem_documents_of_results hu hf).1
      (mem_documents_of_results hu hg).1 hseq
  refine List.Perm.eq_of_pairwise (fun a b ha hb hab hba => ?_) (hsorted hs) (hsorted ht) hperm
  exact hdistinct hs ha (hperm.mem_iff.mpr hb) (le_antisymm hab hba)

theorem map_hit (full : List Found) :
    full.map Found.hit = (full.map (·.document)).map Hit.ofDocument := by
  rw [List.map_map]
  rfl

theorem page_congr {full other : List Found}
    (h : full.map (·.document) = other.map (·.document)) :
    page c r q full = page c r q other := by
  have hhits : (page c r q full).hits = (page c r q other).hits := by
    rw [hits_page, hits_page, map_hit, map_hit, h]
  have hlength : full.length = other.length := by simpa using congrArg List.length h
  have hmore : (page c r q full).hasMore = (page c r q other).hasMore := by
    rw [Bool.eq_iff_iff, hasMore_page, hasMore_page, hlength]
  have hsort : (page c r q full).effectiveSort = (page c r q other).effectiveSort := rfl
  cases hfull : page c r q full
  cases hother : page c r q other
  rw [hfull, hother] at hhits hmore hsort
  cases hhits
  cases hmore
  cases hsort
  rfl

theorem hits_page_of_account (h : s.Schema) (haccount : r.account = some account) {hit : Hit}
    (hhit : hit ∈ (page c r q (results s c r q e)).hits) :
    ∃ d ∈ s.documents, d.account = some account ∧ hit = .ofDocument d := by
  rw [hits_page] at hhit
  obtain ⟨f, hf, rfl⟩ := List.mem_map.mp (List.mem_of_mem_drop (List.mem_of_mem_take hhit))
  obtain ⟨hdocument, hadmits⟩ := mem_documents_of_results h hf
  exact ⟨f.document, hdocument, account_of_admits haccount hadmits, rfl⟩

/-! ## What a search shows -/

theorem run_of_expression_error (h : s.Schema) (hparse : Query.parse r.query = .ok q)
    (hdepth : depth r c q ≤ greatestDepth) {f : Failure} (hexpression : expression? q = .error f) :
    run s c r =
      if s.documents = [] then .ok ⟨[], false, r.effectiveSort c q⟩ else .error (.storage f) := by
  rw [run_of_parse h hparse, if_neg (Nat.not_lt.mpr hdepth), hexpression]

/-- The search of an account shows the same on two stores that agree on the account: what it cannot
read it refuses on both; of a query that it reads it shows the same pages by date, and by relevance
the same documents page after page, all of them of the account. A search of too many filters, or with
an expression that the index does not take, has no documents on either store. -/
theorem run_of_agreeOn (hs : s.Schema) (ht : t.Schema) (hsame : AgreeOn account s t)
    (haccount : r.account = some account) (c : SearchConfig) :
    (∀ error, Query.parse r.query = .error error →
      run s c r = .error (.query error) ∧ run t c r = .error (.query error)) ∧
    (∀ q, Query.parse r.query = .ok q → greatestDepth < depth r c q → ∀ u ∈ [s, t],
      run u c r = if u.documents = [] then .ok ⟨[], false, r.effectiveSort c q⟩
        else .error (.storage .tooDeep)) ∧
    (∀ q f, Query.parse r.query = .ok q → depth r c q ≤ greatestDepth →
      expression? q = .error f → ∀ u ∈ [s, t],
      run u c r =
        if u.documents = [] then .ok ⟨[], false, r.effectiveSort c q⟩ else .error (.storage f)) ∧
    ∀ q e, Query.parse r.query = .ok q → depth r c q ≤ greatestDepth → expression? q = .ok e →
      (∃ page, run s c r = .ok page ∧ page.effectiveSort = r.effectiveSort c q ∧
        ∀ hit ∈ page.hits, ∃ d ∈ s.documents, d.account = some account ∧ hit = .ofDocument d) ∧
      (r.effectiveSort c q ≠ .relevance → run s c r = run t c r) ∧
      ∃ hits other, (∀ shown, Walk s c r 0 shown ↔ shown = hits) ∧
        (∀ shown, Walk t c r 0 shown ↔ shown = other) ∧ hits.Perm other := by
  have hschema : ∀ u ∈ [s, t], u.Schema := by
    intro u hu
    rcases List.mem_pair.mp hu with rfl | rfl
    · exact hs
    · exact ht
  refine ⟨fun error hparse => ?_, fun q hparse hdepth u hu => ?_,
    fun q f hparse hdepth hexpression u hu => ?_,
    fun q e hparse hdepth hexpression => ⟨?_, fun hdated => ?_, ?_⟩⟩
  · have hrefused (u : Store) : run u c r = .error (.query error) := by
      unfold run
      rw [hparse]
    exact ⟨hrefused s, hrefused t⟩
  · exact run_of_too_deep (hschema u hu) hparse hdepth
  · exact run_of_expression_error (hschema u hu) hparse hdepth hexpression
  · exact ⟨_, run_eq hs hparse hdepth hexpression, rfl, fun _ hhit =>
      hits_page_of_account hs haccount hhit⟩
  · have hdocuments := documents_results_eq hs ht hdated
      (perm_documents_results hsame haccount (c := c) (q := q) (e := e))
    rw [run_eq hs hparse hdepth hexpression, run_eq ht hparse hdepth hexpression,
      page_congr hdocuments]
  · refine ⟨_, _, walk_iff hs hparse hdepth hexpression, walk_iff ht hparse hdepth hexpression, ?_⟩
    rw [map_hit, map_hit]
    exact (perm_documents_results hsame haccount).map _

/-- Two stores hold the same document of an account, under other numbers of its entry, one beside a
document of another account and the other beside an entry without a document. -/
theorem run_of_agreeOn_beside_others :
    let account : Text := "a".toList
    let derived : Derived := ⟨"s".toList, "x".toList, none, [], none, none, false, "t".toList⟩
    let own : Document :=
      ⟨1, "own".toList, account, none, none, none, some "2024".toList, derived, some 0⟩
    let other : Document :=
      ⟨2, "other".toList, "b".toList, none, none, none, some "2025".toList, derived, some 0⟩
    let text : EntryText := ⟨"one".toList, [], [], [], []⟩
    let s : Store := ⟨[own, other], 2, [⟨1, 1⟩, ⟨2, 2⟩], 2, ⟨[⟨1, text⟩, ⟨2, text⟩], 2, 2⟩, []⟩
    let t : Store := ⟨[own], 1, [⟨1, 4⟩, ⟨2, 1⟩], 2, ⟨[⟨1, text⟩, ⟨2, text⟩], 2, 2⟩, []⟩
    let r : SearchRequest := ⟨"one".toList, account, none, 0, none, none⟩
    let dated : SearchRequest := { r with sort := some .newestFirst }
    (run s .standard dated = run t .standard dated ∧
      ∃ page, run s .standard dated = .ok page ∧ ∀ hit ∈ page.hits, hit = .ofDocument own) ∧
      ∃ hits other, Walk s .standard r 0 hits ∧ Walk t .standard r 0 other ∧ hits.Perm other := by
  intro account derived own other text s t r dated
  let q : Query := ⟨"one".toList, []⟩
  let e : Expression := .run [⟨none, "one".toList, false⟩]
  have hs : s.Schema := ⟨rfl, by decide, by decide, by decide, by decide⟩
  have ht : t.Schema := ⟨rfl, by decide, by decide, by decide, by decide⟩
  have hsame : AgreeOn account s t := ⟨.refl _, .refl _⟩
  have hparse : Query.parse "one".toList = .ok q := by decide +kernel
  have hexpression : expression? q = .ok (some e) := by decide +kernel
  have hfew {u : SearchRequest} : depth u .standard q ≤ greatestDepth := depth_le_of_few (by decide)
  obtain ⟨-, -, -, hdated⟩ := run_of_agreeOn (r := dated) hs ht hsame rfl .standard
  obtain ⟨⟨page, hrun, -, hhits⟩, hequal, -⟩ := hdated q _ hparse hfew hexpression
  obtain ⟨-, -, -, hranked⟩ := run_of_agreeOn (r := r) hs ht hsame rfl .standard
  obtain ⟨-, -, hits, other, hfirst, hsecond, hperm⟩ := hranked q _ hparse hfew hexpression
  refine ⟨⟨hequal (by decide), page, hrun, fun hit hhit => ?_⟩,
    hits, other, (hfirst _).mpr rfl, (hsecond _).mpr rfl, hperm⟩
  obtain ⟨d, hd, haccount, rfl⟩ := hhits hit hhit
  rcases List.mem_pair.mp hd with rfl | rfl
  · rfl
  · exact absurd haccount (by decide)

/-- A store without documents has an empty page for every query that can be read, and one with
another account's document alone has none for an expression that the index does not take, or for a
thousand filters. -/
theorem exists_run_ne_of_agreeOn :
    let account : Text := "a".toList
    let derived : Derived := ⟨"s".toList, "x".toList, none, [], none, none, false, "t".toList⟩
    let other : Document :=
      ⟨1, "other".toList, "b".toList, none, none, none, none, derived, some 0⟩
    let s : Store := ⟨[], 0, [], 0, ⟨[], 0, 0⟩, []⟩
    let t : Store := ⟨[other], 1, [⟨1, 1⟩], 1, ⟨[⟨1, "one".toList, [], [], [], []⟩], 1, 1⟩, []⟩
    let r : SearchRequest := ⟨"a\x00b".toList, account, none, 0, some .newestFirst, none⟩
    let many : SearchRequest :=
      { r with query := [' '].intercalate (.replicate 1000 "has:attachment".toList) }
    s.Schema ∧ t.Schema ∧ AgreeOn account s t ∧
      (run s .standard r = .ok ⟨[], false, .newestFirst⟩ ∧
        run t .standard r = .error (.storage .badExpression)) ∧
      (run s .standard many = .ok ⟨[], false, .newestFirst⟩ ∧
        run t .standard many = .error (.storage .tooDeep)) := by
  intro account derived other s t r many
  have hs : s.Schema := ⟨rfl, by decide, by decide, by decide, by decide⟩
  have ht : t.Schema := ⟨rfl, by decide, by decide, by decide, by decide⟩
  have hmany : Query.parse many.query = .ok ⟨[], .replicate 1000 (.hasAttachments true)⟩ :=
    parse_attachments 1000
  have hdeep {u : SearchRequest} :
      greatestDepth < depth u .standard ⟨[], .replicate 1000 (.hasAttachments true)⟩ :=
    lt_depth_of_attachments (by decide)
  refine ⟨hs, ht, ⟨.refl _, .refl _⟩, ⟨by decide +kernel, by decide +kernel⟩, ?_, ?_⟩
  · exact (run_of_too_deep hs hmany hdeep).trans (if_pos rfl)
  · exact (run_of_too_deep ht hmany hdeep).trans (if_neg (List.cons_ne_nil _ _))

end Search

end MailIndex
