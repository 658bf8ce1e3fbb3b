import MailIndex.Proofs.Reindex.Outlook

/-!
# Interruption and resumption

Runs that are cancelled or crash, each with its own interval of commits, and one run that is not:
together they leave what one run alone would have left. For no run changes the outlook of the store,
and a run that is not interrupted leaves the store as its outlook says.
-/

namespace MailIndex.Reindex

structure Attempt where
  commitInterval : Nat
  cancelled : Nat → Bool
  now : Int
  /-- After how many steps it crashes, if it does. -/
  crash : Option Nat

structure Attempt.Uninterrupted (a : Attempt) : Prop where
  running : ∀ n, a.cancelled n = false
  crash : a.crash = none

namespace Plan

variable (p : Plan)

/-- What is durable after a run of the plan. What a crashed run has not committed is lost. -/
def leaves (force : Bool) (a : Attempt) (s : Store) : Store :=
  let o := p.options force a.commitInterval
  let env := p.surroundings a.cancelled a.now
  match a.crash with
  | some n => durableAfter o env s n
  | none => (Run.complete o env s).session.durable

def resume (attempts : List Attempt) (s : Store) : Store :=
  attempts.foldl (fun s a => p.leaves false a s) s

/-- The store in which a run selects its candidates. -/
def base (force : Bool) (s : Store) : Store :=
  match p.selector.scope s with
  | .ok scope =>
    if Table.documents ∈ s.missing then s else preparedStore (p.options force 0) s scope
  | .error _ => s

/-- Whether a run of the plan can do anything at all. -/
def Able (s : Store) : Prop := (∃ scope, p.selector.scope s = .ok scope) ∧ s.missing = []

/-- The plan can come from one store to another by some of its work. -/
structure Leads (s t : Store) : Prop where
  keyed : t.Keyed
  places : t.documents.map place = s.documents.map place
  missing : t.missing = s.missing
  outlook : p.outlook t = p.outlook s
  stuck : ¬ p.Able s → t = s

end Plan

variable {p : Plan} {s t u : Store} {scope : Scope} {force : Bool} {commitInterval : Nat}
  {cancelled : Nat → Bool} {now : Int}

namespace Plan

theorem Leads.refl (hs : s.Keyed) : p.Leads s s := ⟨hs, rfl, rfl, rfl, fun _ => rfl⟩

theorem Leads.able_iff (h : p.Leads s t) : p.Able t ↔ p.Able s := by
  unfold Able
  rw [scope_of_places h.places h.missing, h.missing]

theorem Leads.trans (hst : p.Leads s t) (htu : p.Leads t u) : p.Leads s u where
  keyed := htu.keyed
  places := htu.places.trans hst.places
  missing := htu.missing.trans hst.missing
  outlook := htu.outlook.trans hst.outlook
  stuck hable := (htu.stuck fun h => hable (hst.able_iff.mp h)).trans (hst.stuck hable)

theorem leads_replay (hs : s.Keyed) (hscope : p.selector.scope s = .ok scope) {moves : List Move}
    (hlegal : Legal (p.options force commitInterval) (p.surroundings cancelled now) scope s moves)
    (hchosen : (moves.filterMap Move.candidate?).Sublist (candidates s p.selector scope)) :
    p.Leads s (replay (p.options force commitInterval) (p.surroundings cancelled now) s moves) := by
  have hundisturbed := undisturbed_replay hs hscope hlegal hchosen
  refine ⟨hundisturbed.keyed, hundisturbed.places, missing_replay s moves, hundisturbed.outlook,
    fun hable => ?_⟩
  have hmissing : s.missing ≠ [] := fun hnone => hable ⟨⟨scope, hscope⟩, hnone⟩
  exact replay_of_missing hmissing hlegal

theorem base_unforced (s : Store) : p.base false s = s := by
  unfold base
  split
  · split
    · rfl
    · simp [preparedStore, options]
  · rfl

theorem base_of_prepares (h : Prepares (p.options force commitInterval) s scope) :
    p.base force s = preparedStore (p.options force commitInterval) s scope := by
  have hscope : p.selector.scope s = .ok scope := h.resolved
  unfold base
  rw [hscope]
  dsimp only
  rw [if_neg h.documents]
  rfl

theorem base_of_not_ready (h : ¬ Ready (p.options force commitInterval) s) :
    p.base force s = s := by
  unfold base
  split
  · next scope hscope =>
      split
      · rfl
      · next hdocuments => exact absurd ⟨⟨scope, hscope⟩, hdocuments⟩ h
  · rfl

theorem scope_preparedStore {o : Options} (hscope : o.selector.scope s = .ok scope) :
    o.selector.scope (preparedStore o s scope) = .ok scope := by
  rw [scope_of_places places_preparedStore missing_preparedStore]
  exact hscope

theorem leads_of_stored {w : Session} {trail : Trail} (hs : s.Keyed)
    (hprepares : Prepares (p.options force commitInterval) s scope)
    (hstored : Stored (p.options force commitInterval) (p.surroundings cancelled now) scope
      (preparedStore (p.options force commitInterval) s scope) trail w)
    (hchosen : trail.indexed.Sublist
      (candidates (preparedStore (p.options force commitInterval) s scope) p.selector scope)) :
    p.Leads (p.base force s) w.durable := by
  rw [base_of_prepares hprepares, hstored.durable]
  refine leads_replay (keyed_preparedStore hs) (scope_preparedStore hprepares.resolved)
    (legal_append.mp hstored.legal).1 ?_
  unfold Trail.indexed Trail.all at hchosen
  rw [List.filterMap_append] at hchosen
  exact (List.sublist_append_left _ _).trans hchosen

/-! ## Runs that end -/

theorem leads_complete (hs : s.Keyed) (force : Bool) (commitInterval : Nat)
    (cancelled : Nat → Bool) (now : Int) :
    p.Leads (p.base force s) (Run.complete (p.options force commitInterval)
      (p.surroundings cancelled now) s).session.durable := by
  obtain ⟨trail, hleaves⟩ := exists_trail_complete (p.options force commitInterval)
    (p.surroundings cancelled now) hs.toNumbered
  unfold Leaves at hleaves
  rcases ended_complete (p.options force commitInterval) (p.surroundings cancelled now) s with
    ⟨report, hstage⟩ | ⟨e, hstage⟩
  · rw [hstage] at hleaves
    obtain ⟨scope, rest, hworks, -⟩ := hleaves
    exact leads_of_stored hs hworks.toPrepares hworks.seen.toStored hworks.chosen
  · rw [hstage] at hleaves
    obtain ⟨-, ⟨-, -, hdurable, hready⟩ | ⟨scope, rest, hasks, hstored, -⟩⟩ := hleaves
    · rw [base_of_not_ready hready, hdurable]
      exact .refl hs
    · exact leads_of_stored hs hasks.toPrepares hstored hasks.chosen

/-- When all candidates have been asked for and nothing is left to prune, nothing is left to do. -/
theorem sight_of_works (hs : s.Keyed) {r : Run} {trail : Trail}
    (hworks : Works (p.options force commitInterval) (p.surroundings cancelled now) s scope r trail
      [] [])
    (hloose : trail.loose = []) : sight r.session.durable = p.outlook (p.base force s) := by
  have hkeyed : (preparedStore (p.options force commitInterval) s scope).Keyed :=
    keyed_preparedStore hs
  have hscope := scope_preparedStore hworks.resolved
  have hview := hworks.seen.view
  have hsame : r.session.durable = r.session.view := by
    rw [hview, hworks.seen.durable]
    unfold Trail.all
    rw [hloose, List.append_nil]
  have hfew := hworks.covered
  have hundisturbed := undisturbed_replay hkeyed hscope hworks.seen.legal hworks.chosen
  rw [hsame, base_of_prepares hworks.toPrepares]
  rw [← hview] at hundisturbed
  rw [← hundisturbed.outlook]
  refine (outlook_eq_sight (fun d hd => ?_) fun seq hcovers => ?_).symm
  · cases hdue : p.due? d with
    | none => rfl
    | some m =>
        -- It is one of the candidates and can be loaded, so it has been indexed.
        obtain ⟨hpicks, hstale, hanswer⟩ := picks_of_due? hdue
        rcases hundisturbed.fresh d hd with hfresh | ⟨hmem, hout⟩
        · rw [hstale] at hfresh
          cases hfresh
        · have hcandidate : d ∈ r.asked ++ [] :=
            hworks.found ▸ (mem_candidates hkeyed.toIdentified hscope).mpr ⟨hmem, hstale, hpicks⟩
          rw [List.append_nil] at hcandidate
          have hload : ((p.surroundings cancelled now).load d).isSome = true := by
            change (p.answer d.id).isSome = true
            rw [hanswer]
            rfl
          have hindexed := hworks.answered (fun _ => rfl) d hcandidate hload
          exact absurd (List.mem_map_of_mem hindexed) hout
  · have hcontains : scope.contains seq = true := by
      rw [contains_eq_covers hkeyed.toIdentified hscope, ← covers_of_places hundisturbed.places]
      exact hcovers
    refine Nat.le_of_not_lt fun hmany => ?_
    exact absurd (hfew seq hcontains hmany) List.not_mem_nil

theorem sight_complete (hs : s.Keyed) (hable : p.Able s) (force : Bool) (commitInterval : Nat)
    (hrunning : ∀ n, cancelled n = false) (now : Int) :
    sight (Run.complete (p.options force commitInterval)
      (p.surroundings cancelled now) s).session.durable = p.outlook (p.base force s) := by
  obtain ⟨⟨scope, hscope⟩, hmissing⟩ := hable
  obtain ⟨trail, hleaves⟩ := exists_trail_complete (p.options force commitInterval)
    (p.surroundings cancelled now) hs.toNumbered
  obtain ⟨report, hstage⟩ := exists_report (p.options force commitInterval)
    (p.surroundings cancelled now) hs.toNumbered hscope hmissing
  unfold Leaves at hleaves
  rw [hstage] at hleaves
  obtain ⟨scope, rest, hworks, hstopped, hloose⟩ := hleaves
  have hnone : rest = [] := by
    rcases hstopped with hnone | hcancelled
    · exact hnone
    · have hboth := (hrunning _).symm.trans hcancelled
      cases hboth
  subst hnone
  exact sight_of_works hs hworks hloose

/-! ## The main result -/

theorem leads_leaves (hs : s.Keyed) (a : Attempt) : p.Leads s (p.leaves false a s) := by
  unfold leaves
  cases hcrash : a.crash with
  | none =>
      have hleads := leads_complete (p := p) hs false a.commitInterval a.cancelled a.now
      rwa [base_unforced] at hleads
  | some n =>
      obtain ⟨trail, hleaves, -⟩ := exists_trail (p.options false a.commitInterval)
        (p.surroundings a.cancelled a.now) hs.toNumbered n
      obtain ⟨base, scope, hexplained⟩ := hleaves.explained
      have hunforced : ∀ scope, preparedStore (p.options false a.commitInterval) s scope = s := by
        intro scope
        simp [preparedStore, options]
      dsimp only
      unfold durableAfter
      rw [hexplained.durable]
      have hbase := hexplained.base
      rw [hunforced] at hbase
      rcases hbase with ⟨rfl, rfl⟩ | ⟨hscope, rfl⟩
      · exact .refl hs
      · refine leads_replay hs hscope (legal_append.mp hexplained.legal).1 ?_
        have hchosen := hexplained.chosen
        unfold Trail.indexed Trail.all at hchosen
        rw [List.filterMap_append] at hchosen
        exact (List.sublist_append_left _ _).trans hchosen

/-- The induction is on the runs, in the order in which they are made. -/
theorem leads_resume (hs : s.Keyed) (attempts : List Attempt) :
    p.Leads s (p.resume attempts s) := by
  induction attempts generalizing s with
  | nil => exact .refl hs
  | cons a attempts ih =>
      have hfirst : p.Leads s (p.leaves false a s) := leads_leaves hs a
      exact hfirst.trans (ih hfirst.keyed)

theorem able_base_iff : p.Able (p.base force s) ↔ p.Able s := by
  unfold base
  split
  · split
    · rfl
    · unfold Able
      rw [scope_of_places places_preparedStore missing_preparedStore, missing_preparedStore]
  · rfl

theorem leaves_uninterrupted (hs : s.Keyed) {single : Attempt} (hsingle : single.Uninterrupted)
    (force : Bool) : p.Leads (p.base force s) (p.leaves force single s) ∧
      (p.Able s → sight (p.leaves force single s) = p.outlook (p.base force s)) := by
  unfold leaves
  rw [hsingle.crash]
  exact ⟨leads_complete hs _ _ _ _, fun hable => sight_complete hs hable _ _ hsingle.running _⟩

/-- Whatever work has been done of what was due, a run that is not interrupted does the rest. -/
theorem sight_leaves (h : p.Leads (p.base force s) t) (hs : s.Keyed) {last single : Attempt}
    (hlast : last.Uninterrupted) (hsingle : single.Uninterrupted) :
    sight (p.leaves false last t) = sight (p.leaves force single s) := by
  obtain ⟨hlead, hrest⟩ := leaves_uninterrupted (p := p) h.keyed hlast false
  obtain ⟨hlead', hall⟩ := leaves_uninterrupted (p := p) hs hsingle force
  rw [base_unforced] at hlead hrest
  by_cases hable : p.Able s
  · have hbase : p.Able (p.base force s) := able_base_iff.mpr hable
    rw [hrest (h.able_iff.mpr hbase), h.outlook, hall hable]
  · -- No run can do anything.
    have hstuck : ¬ p.Able (p.base force s) := fun hbase => hable (able_base_iff.mp hbase)
    rw [(h.trans hlead).stuck hstuck, hlead'.stuck hstuck]

end Plan

/-- Runs that are cancelled or crash, and then one that is not interrupted, leave what one run alone
would have left. If the first of them is told to index everything anew, and does not crash, they
leave what one such run alone would have left. -/
theorem resume_agrees (p : Plan) (hs : s.Keyed) (attempts : List Attempt) {last single : Attempt}
    (hlast : last.Uninterrupted) (hsingle : single.Uninterrupted) :
    sight (p.leaves false last (p.resume attempts s)) = sight (p.leaves false single s) ∧
      ∀ first : Attempt, first.crash = none →
        sight (p.leaves false last (p.resume attempts (p.leaves true first s))) =
          sight (p.leaves true single s) := by
  refine ⟨?_, fun first hcrash => ?_⟩
  · have hresume : p.Leads (p.base false s) (p.resume attempts s) := by
      rw [Plan.base_unforced]
      exact Plan.leads_resume hs attempts
    exact Plan.sight_leaves hresume hs hlast hsingle
  · have hfirst : p.Leads (p.base true s) (p.leaves true first s) := by
      unfold Plan.leaves
      rw [hcrash]
      exact Plan.leads_complete hs _ _ _ _
    exact Plan.sight_leaves (hfirst.trans (Plan.leads_resume hfirst.keyed attempts)) hs hlast hsingle

/-- A run told to index two documents anew is cancelled after the first, the next one crashes right
before the commit of the second, and the last one ends. -/
theorem resume_agrees_of_crash :
    let s : Store :=
      ⟨[⟨1, ['a'], none, none, some ['x'], some ['x'], none, none, some 0⟩,
        ⟨2, ['b'], none, none, none, none, none, none, none⟩], 2,
        [⟨1, 1⟩], 1, ⟨[⟨1, ⟨['p'], [], [], [], []⟩⟩], 1, 1⟩, []⟩
    let m : Message := ⟨['n'], [], [], [], [], [], none⟩
    let p : Plan := ⟨.all, 10, fun _ => some m⟩
    let first : Attempt := ⟨1, fun n => n = 1, 7, none⟩
    let second : Attempt := ⟨2, fun _ => false, 8, some 6⟩
    let last : Attempt := ⟨1, fun _ => false, 9, none⟩
    let single : Attempt := ⟨5, fun _ => false, 0, none⟩
    let t := p.resume [second] (p.leaves true first s)
    sight (p.leaves false last t) = sight (p.leaves true single s) ∧
      t.documents.map (·.isFresh) = [true, false] ∧
      textsOf (p.leaves false last t) 1 = [some ⟨['n'], [], [], [], []⟩] ∧
      textsOf (p.leaves false last t) 2 = [some ⟨['n'], [], [], [], []⟩] := by
  intro s m p first second last single t
  have hs : s.Keyed := ⟨⟨by decide, by decide⟩, ⟨by decide, by decide⟩, by decide⟩
  have hlast : last.Uninterrupted := ⟨fun _ => rfl, rfl⟩
  have hsingle : single.Uninterrupted := ⟨fun _ => rfl, rfl⟩
  exact ⟨(resume_agrees p hs [second] hlast hsingle).2 first rfl, by decide +kernel,
    by decide +kernel, by decide +kernel⟩

end MailIndex.Reindex
