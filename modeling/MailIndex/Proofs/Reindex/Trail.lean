import MailIndex.Proofs.Reindex.Moves

/-!
# Trails

The moves that a run has made so far are its trail: those that are durable, and after them those of
the open transaction, which a crash would lose. What a session does to its transaction is told by its
trail: a finished move is put at the end, a commit makes all of them durable, and others can only
write while there is nothing to lose.
-/

namespace MailIndex.Reindex

structure Trail where
  /-- The moves that are durable. -/
  kept : List Move
  /-- The moves that are not committed. -/
  loose : List Move

namespace Trail

def start : Trail := ⟨[], []⟩

def all (trail : Trail) : List Move := trail.kept ++ trail.loose

def indexed (trail : Trail) : List Document := trail.all.filterMap Move.candidate?

theorem indexed_commit (trail : Trail) : indexed ⟨trail.all, []⟩ = trail.indexed := by
  change (trail.all ++ []).filterMap Move.candidate? = _
  rw [List.append_nil]
  rfl

end Trail

/-! ## Sessions -/

section

variable (o : Options) (env : Surroundings) (scope : Scope) (base : Store)

/-- What is durable is explained by the durable moves, and not many others are open. -/
structure Stored (trail : Trail) (w : Session) : Prop where
  durable : w.durable = replay o env base trail.kept
  legal : Legal o env scope base trail.all
  few : trail.loose.length < max 1 o.commitInterval

structure Seen (trail : Trail) (w : Session) : Prop extends Stored o env scope base trail w where
  view : w.view = replay o env base trail.all
  counted : trail.loose.length ≤ w.pending
  due : w.pending < max 1 o.commitInterval
  idle : w.uncommitted = none → trail.loose = []

end

variable {o : Options} {env : Surroundings} {scope : Scope} {base : Store} {trail : Trail}
  {w : Session}

theorem interval_pos (o : Options) : 0 < max 1 o.commitInterval :=
  Nat.lt_of_lt_of_le Nat.zero_lt_one (Nat.le_max_left _ _)

theorem pending_commit (w : Session) : w.commit.pending = 0 := by
  unfold Session.commit
  cases w.uncommitted <;> rfl

theorem seen_start (hdurable : w.durable = base) (huncommitted : w.uncommitted = none)
    (hpending : w.pending = 0) : Seen o env scope base .start w where
  durable := hdurable
  legal := trivial
  few := interval_pos o
  view := by
    unfold Session.view
    rw [huncommitted]
    exact hdurable
  counted := Nat.zero_le _
  due := by
    rw [hpending]
    exact interval_pos o
  idle _ := rfl

theorem seen_committed {moves : List Move} (hdurable : w.durable = replay o env base moves)
    (hview : w.view = w.durable) (hpending : w.pending = 0)
    (hlegal : Legal o env scope base moves) : Seen o env scope base ⟨moves, []⟩ w where
  durable := hdurable
  legal := by
    change Legal o env scope base (moves ++ [])
    rwa [List.append_nil]
  few := interval_pos o
  view := by
    change w.view = replay o env base (moves ++ [])
    rw [List.append_nil, hview, hdurable]
  counted := Nat.zero_le _
  due := by
    rw [hpending]
    exact interval_pos o
  idle _ := rfl

theorem Seen.commit (h : Seen o env scope base trail w) :
    Seen o env scope base ⟨trail.all, []⟩ w.commit := by
  have hdurable : w.commit.durable = replay o env base trail.all :=
    (Session.durable_commit w).trans h.view
  have hview : w.commit.view = w.commit.durable :=
    (Session.view_commit w).trans (Session.durable_commit w).symm
  exact seen_committed hdurable hview (pending_commit w) h.legal

theorem Seen.write_view (h : Seen o env scope base trail w) :
    Seen o env scope base trail (w.write w.view) :=
  ⟨⟨h.durable, h.legal, h.few⟩, h.view, h.counted, h.due, fun hnone => by cases hnone⟩

/-- A move that is finished is one of the last ones, or commits them all. -/
theorem Seen.add (h : Seen o env scope base trail w) {move : Move}
    (hallowed : move.Allowed env scope w.view) :
    ∃ trail', trail'.all = trail.all ++ [move] ∧ Seen o env scope base trail'
      ((w.write (move.apply o env w.view)).finishOne o.commitInterval) := by
  have hlegal : Legal o env scope base (trail.all ++ [move]) :=
    legal_concat.mpr ⟨h.legal, h.view ▸ hallowed⟩
  have hreplay : move.apply o env w.view = replay o env base (trail.all ++ [move]) := by
    rw [replay_append, h.view]
    rfl
  unfold Session.finishOne
  dsimp only
  split
  · refine ⟨⟨trail.all ++ [move], []⟩, List.append_nil _, ?_⟩
    exact seen_committed hreplay rfl rfl hlegal
  · next hfew =>
      have hassoc : trail.kept ++ (trail.loose ++ [move]) = trail.all ++ [move] :=
        (List.append_assoc _ _ _).symm
      have hcounted := h.counted
      have hlength : (trail.loose ++ [move]).length = trail.loose.length + 1 := by simp
      have hpending : w.pending + 1 < max 1 o.commitInterval := Nat.lt_of_not_le hfew
      refine ⟨⟨trail.kept, trail.loose ++ [move]⟩, hassoc, ⟨h.durable, ?_, ?_⟩, ?_, ?_, hpending,
        fun hnone => by cases hnone⟩
      · change Legal o env scope base (trail.kept ++ (trail.loose ++ [move]))
        rwa [hassoc]
      · rw [hlength]
        omega
      · exact hreplay.trans (congrArg (replay o env base) hassoc.symm)
      · rw [hlength]
        exact Nat.succ_le_succ hcounted

theorem replay_outside (o : Options) (env : Surroundings) (t : Store) (writes : List OutsideWrite) :
    replay o env t (writes.map .outside) = writes.foldl OutsideWrite.apply t := by
  unfold replay
  rw [List.foldl_map]
  rfl

theorem legal_outside {writes : List OutsideWrite}
    (hwrites : ∀ write ∈ writes, ∃ n, write ∈ env.outside n) (t : Store) :
    Legal o env scope t (writes.map .outside) := by
  induction writes generalizing t with
  | nil => trivial
  | cons write writes ih =>
      exact ⟨hwrites write List.mem_cons_self, ih (fun w hw => hwrites w (by simp [hw])) _⟩

theorem entriesOf_replay_outside (t : Store) (writes : List OutsideWrite) (seq : Nat) :
    (replay o env t (writes.map .outside)).entriesOf seq = t.entriesOf seq := by
  induction writes generalizing t with
  | nil => rfl
  | cons write writes ih => exact (ih _).trans (entriesOf_outside write t seq)

/-- Others write only while all moves are durable. Their writes are moves that are durable, too. -/
theorem Seen.interfere {r : Run} (h : Seen o env scope base trail r.session)
    {writes : List OutsideWrite} (hwrites : ∀ write ∈ writes, ∃ n, write ∈ env.outside n) :
    ∃ trail', trail'.indexed = trail.indexed ∧
      Seen o env scope base trail' (r.interfere writes).session ∧
      ∀ seq, (r.interfere writes).session.view.entriesOf seq = r.session.view.entriesOf seq := by
  unfold Run.interfere
  cases huncommitted : r.session.uncommitted with
  | some s => exact ⟨trail, rfl, h, fun _ => rfl⟩
  | none =>
      have hloose : trail.loose = [] := h.idle huncommitted
      have hall : trail.all = trail.kept := by
        unfold Trail.all
        rw [hloose, List.append_nil]
      have hview : r.session.view = r.session.durable := by
        unfold Session.view
        rw [huncommitted]
        rfl
      have hlegal : Legal o env scope base (trail.all ++ writes.map .outside) :=
        legal_append.mpr ⟨h.legal, legal_outside hwrites _⟩
      have hnone : (writes.map Move.outside).filterMap Move.candidate? = [] := by
        rw [List.filterMap_eq_nil_iff]
        intro move hmove
        obtain ⟨write, -, rfl⟩ := List.mem_map.mp hmove
        rfl
      have hreplay : writes.foldl OutsideWrite.apply r.session.durable =
          replay o env base (trail.all ++ writes.map .outside) := by
        rw [replay_append, replay_outside, h.durable, hall]
      refine ⟨⟨trail.all ++ writes.map .outside, []⟩, ?_, ?_, fun seq => ?_⟩
      · change (trail.all ++ writes.map Move.outside ++ []).filterMap Move.candidate? = _
        rw [List.append_nil, List.filterMap_append, hnone, List.append_nil]
        rfl
      · refine ⟨⟨hreplay, ?_, ?_⟩, ?_, Nat.zero_le _, h.due, fun _ => rfl⟩
        · change Legal o env scope base (trail.all ++ writes.map .outside ++ [])
          rwa [List.append_nil]
        · exact interval_pos o
        · change (Option.getD r.session.uncommitted _) = replay o env base (_ ++ [])
          rw [huncommitted, List.append_nil]
          exact hreplay
      · change (Option.getD r.session.uncommitted _ : Store).entriesOf seq = _
        rw [huncommitted, hview]
        change (writes.foldl OutsideWrite.apply r.session.durable).entriesOf seq = _
        rw [← replay_outside o env, entriesOf_replay_outside]

end MailIndex.Reindex
