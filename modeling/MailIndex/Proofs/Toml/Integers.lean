import MailIndex.Toml.Reader

/-!
# Integers of a document

A TOML document is refused if one of its integers does not fit into 64 bits with a sign. So all
integers of a tree that has been read fit, however deep they stand, whatever has been added to the
tree after them.
-/

namespace MailIndex.Toml

def Fits (n : Int) : Prop :=
  -(Text.Decimal.largestInteger + 1 : Int) ≤ n ∧ n ≤ Text.Decimal.largestInteger

theorem fits_zero : Fits 0 := by
  unfold Fits Text.Decimal.largestInteger
  omega

inductive Node.Bounded : Node → Prop
  | text (t : Text) : Bounded (.text t)
  | integer {n : Int} (h : Fits n) : Bounded (.integer n)
  | boolean (b : Bool) : Bounded (.boolean b)
  | real : Bounded .real
  | moment : Bounded .moment
  | list {elements : List Node} (h : ∀ node ∈ elements, Bounded node) : Bounded (.list elements)
  | table {origin : Origin} {members : List (Text × Node)}
    (h : ∀ member ∈ members, Bounded member.2) : Bounded (.table origin members)
  | tables {elements : List (List (Text × Node))}
    (h : ∀ members ∈ elements, ∀ member ∈ members, Bounded member.2) : Bounded (.tables elements)

def Table.Bounded (t : Table) : Prop := ∀ member ∈ t, member.2.Bounded

theorem Node.Bounded.members {origin : Origin} {members : Table}
    (h : (Node.table origin members).Bounded) : members.Bounded := by
  cases h with
  | table h => exact h

theorem Node.Bounded.elements {elements : List Node} (h : (Node.list elements).Bounded) :
    ∀ node ∈ elements, node.Bounded := by
  cases h with
  | list h => exact h

theorem Node.Bounded.each {elements : List Table} (h : (Node.tables elements).Bounded) :
    ∀ t ∈ elements, t.Bounded := by
  cases h with
  | tables h => exact h

/-! ## Adding to a tree -/

namespace Table

theorem bounded_nil : Bounded [] := fun _ hmember => nomatch hmember

variable {t after : Table} {key : Text} {node : Node}

theorem Bounded.put (h : t.Bounded) (hnode : node.Bounded) : (t.put key node).Bounded := by
  induction t with
  | nil =>
      intro member hmember
      rw [Table.put, List.mem_singleton] at hmember
      exact hmember ▸ hnode
  | cons first rest ih =>
      obtain ⟨hfirst, hrest⟩ := List.forall_mem_cons.mp h
      unfold Table.put
      split
      · exact List.forall_mem_cons.mpr ⟨hnode, hrest⟩
      · exact List.forall_mem_cons.mpr ⟨hfirst, ih hrest⟩

theorem Bounded.lookup (h : t.Bounded) (hlookup : t.lookup key = some node) : node.Bounded := by
  induction t with
  | nil => cases hlookup
  | cons first rest ih =>
      obtain ⟨hfirst, hrest⟩ := List.forall_mem_cons.mp h
      obtain ⟨k, old⟩ := first
      rw [List.lookup_cons] at hlookup
      split at hlookup
      · cases hlookup
        exact hfirst
      · exact ih hrest hlookup

/-- A change at the end of a path keeps the bound if it does so where it is made. The induction is
on the path. -/
theorem Bounded.change {byDottedKey : Bool} {f : Origin → Table → Option Table}
    (hf : ∀ origin inner changed, inner.Bounded → f origin inner = some changed → changed.Bounded)
    {path : List Text} {origin : Origin} (h : t.Bounded)
    (hchange : t.change byDottedKey f path origin = some after) : after.Bounded := by
  induction path generalizing t after origin with
  | nil => exact hf origin t after h hchange
  | cons key path ih =>
      unfold Table.change at hchange
      split at hchange
      · obtain ⟨inner, hinner, hafter⟩ := Option.bind_eq_some_iff.mp hchange
        cases hafter
        exact h.put (.table (ih bounded_nil hinner))
      · next inner hlookup =>
          split at hchange
          · obtain ⟨changed, hchanged, hafter⟩ := Option.bind_eq_some_iff.mp hchange
            cases hafter
            exact h.put (.table (ih (h.lookup hlookup).members hchanged))
          · cases hchange
      · next last before hlookup =>
          obtain ⟨hlast, hbefore⟩ := List.forall_mem_cons.mp (h.lookup hlookup).each
          obtain ⟨changed, hchanged, hafter⟩ := Option.bind_eq_some_iff.mp hchange
          cases hafter
          exact h.put (.tables (List.forall_mem_cons.mpr ⟨ih hlast hchanged, hbefore⟩))
      · cases hchange

theorem Bounded.define {path : List Text} (h : t.Bounded) (hnode : node.Bounded)
    (hdefine : t.define path node = some after) : after.Bounded := by
  unfold Table.define at hdefine
  split at hdefine
  · cases hdefine
  · refine h.change (fun origin inner changed hinner hchanged => ?_) hdefine
    split at hchanged
    · cases hchanged
    · cases hchanged
      exact hinner.put hnode

theorem Bounded.openHeader {path : List Text} (h : t.Bounded)
    (hopen : t.openHeader path = some after) : after.Bounded := by
  unfold Table.openHeader at hopen
  split at hopen
  · cases hopen
  · refine h.change (fun origin inner changed hinner hchanged => ?_) hopen
    split at hchanged
    · cases hchanged
      exact hinner.put (.table bounded_nil)
    · next members hlookup =>
        cases hchanged
        exact hinner.put (.table (hinner.lookup hlookup).members)
    · cases hchanged

theorem Bounded.openElement {path : List Text} (h : t.Bounded)
    (hopen : t.openElement path = some after) : after.Bounded := by
  unfold Table.openElement at hopen
  split at hopen
  · cases hopen
  · refine h.change (fun origin inner changed hinner hchanged => ?_) hopen
    split at hchanged
    · cases hchanged
      exact hinner.put (.tables (List.forall_mem_singleton.mpr bounded_nil))
    · next elements hlookup =>
        cases hchanged
        have heach := (hinner.lookup hlookup).each
        exact hinner.put (.tables (List.forall_mem_cons.mpr ⟨bounded_nil, heach⟩))
    · cases hchanged

theorem Bounded.defineUnder {header path : List Text} (h : t.Bounded) (hnode : node.Bounded)
    (hdefine : t.defineUnder header path node = some after) : after.Bounded :=
  h.change (fun _ _ _ hinner hchanged => hinner.define hnode hchanged) hdefine

end Table

/-! ## Reading -/

theorem fits_of_inRange? {n m : Int} (h : inRange? n = some m) : Fits m := by
  unfold inRange? at h
  dsimp only at h
  split at h
  · next hrange =>
      cases h
      exact hrange
  · cases h

theorem fits_of_readInteger? {t rest : Text} {n : Int} (h : readInteger? t = some (n, rest)) :
    Fits n := by
  unfold readInteger? at h
  split at h
  · split at h
    · obtain ⟨⟨ds, left⟩, -, hread⟩ := Option.bind_eq_some_iff.mp h
      obtain ⟨m, hm, hresult⟩ := Option.bind_eq_some_iff.mp hread
      cases hresult
      exact fits_of_inRange? hm
    · cases h
      exact fits_zero
  · obtain ⟨⟨ds, left⟩, -, hread⟩ := Option.bind_eq_some_iff.mp h
    obtain ⟨m, hm, hresult⟩ := Option.bind_eq_some_iff.mp hread
    cases hresult
    exact fits_of_inRange? hm

theorem bounded_of_readScalar? {t rest : Text} {node : Node}
    (h : readScalar? t = some (node, rest)) : node.Bounded := by
  unfold readScalar? at h
  split at h
  · cases h
    exact .boolean true
  · split at h
    · cases h
      exact .boolean false
    · split at h
      · cases h
        exact .text _
      · split at h
        · cases h
          exact .moment
        · split at h
          · cases h
            exact .real
          · obtain ⟨⟨n, left⟩, hread, hresult⟩ := Option.map_eq_some_iff.mp h
            cases hresult
            exact .integer (fits_of_readInteger? hread)

def Bounding (read : Text → Option (Node × Text)) : Prop :=
  ∀ t node rest, read t = some (node, rest) → node.Bounded

variable {read : Text → Option (Node × Text)}

theorem Bounding.readElements (h : Bounding read) {fuel : Nat} {done : List Node} {t rest : Text}
    {node : Node} (hdone : ∀ element ∈ done, element.Bounded)
    (hread : readElements read done fuel t = some (node, rest)) : node.Bounded := by
  have hlist : ∀ elements : List Node, (∀ element ∈ elements, element.Bounded) →
      (Node.list elements.reverse).Bounded := by
    intro elements helements
    exact .list fun element helement => helements element (List.mem_reverse.mp helement)
  induction fuel generalizing done t with
  | zero => cases hread
  | succ fuel ih =>
      unfold Toml.readElements at hread
      split at hread
      · cases hread
      · cases hread
        exact hlist done hdone
      · split at hread
        · cases hread
        · next element left helement =>
            have hmore := List.forall_mem_cons.mpr ⟨h _ element left helement, hdone⟩
            split at hread
            · exact ih hmore hread
            · cases hread
              exact hlist _ hmore
            · cases hread

theorem Bounding.readPair? (h : Bounding read) {t rest : Text} {key : List Text} {node : Node}
    (hread : readPair? read t = some ((key, node), rest)) : node.Bounded := by
  obtain ⟨⟨path, left⟩, -, hread⟩ := Option.bind_eq_some_iff.mp hread
  obtain ⟨value, -, hread⟩ := Option.bind_eq_some_iff.mp hread
  obtain ⟨⟨element, left⟩, helement, hresult⟩ := Option.bind_eq_some_iff.mp hread
  cases hresult
  exact h _ node left helement

theorem Bounding.readMembers (h : Bounding read) {fuel : Nat} {done : Table} {t rest : Text}
    {node : Node} (hdone : done.Bounded)
    (hread : readMembers read done fuel t = some (node, rest)) : node.Bounded := by
  induction fuel generalizing done t with
  | zero => cases hread
  | succ fuel ih =>
      unfold Toml.readMembers at hread
      split at hread
      · cases hread
      · next key value left hpair =>
          split at hread
          · cases hread
          · next defined hdefine =>
              have hmore : defined.Bounded := hdone.define (h.readPair? hpair) hdefine
              split at hread
              · exact ih hmore hread
              · cases hread
                exact .table hmore
              · cases hread

theorem bounding_readScalar? : Bounding readScalar? := fun _ _ _ => bounded_of_readScalar?

theorem bounding_readValue? (depth : Nat) : Bounding (readValue? depth) := by
  induction depth with
  | zero => exact bounding_readScalar?
  | succ depth ih =>
      intro t node rest hread
      unfold readValue? at hread
      split at hread
      · exact ih.readElements (List.forall_mem_nil _) hread
      · split at hread
        · cases hread
          exact .table Table.bounded_nil
        · exact ih.readMembers Table.bounded_nil hread
      · exact bounding_readScalar? _ node rest hread

theorem Reading.bounded_of_line? {r after : Reading} {t rest : Text} (h : r.root.Bounded)
    (hline : r.line? t = some (after, rest)) : after.root.Bounded := by
  unfold Reading.line? at hline
  split at hline
  · obtain ⟨⟨path, left⟩, -, hline⟩ := Option.bind_eq_some_iff.mp hline
    obtain ⟨first, -, hline⟩ := Option.bind_eq_some_iff.mp hline
    obtain ⟨second, -, hline⟩ := Option.bind_eq_some_iff.mp hline
    obtain ⟨root, hroot, hresult⟩ := Option.bind_eq_some_iff.mp hline
    cases hresult
    exact h.openElement hroot
  · obtain ⟨⟨path, left⟩, -, hline⟩ := Option.bind_eq_some_iff.mp hline
    obtain ⟨first, -, hline⟩ := Option.bind_eq_some_iff.mp hline
    obtain ⟨root, hroot, hresult⟩ := Option.bind_eq_some_iff.mp hline
    cases hresult
    exact h.openHeader hroot
  · obtain ⟨⟨⟨key, node⟩, left⟩, hpair, hline⟩ := Option.bind_eq_some_iff.mp hline
    obtain ⟨root, hroot, hresult⟩ := Option.bind_eq_some_iff.mp hline
    cases hresult
    exact h.defineUnder ((bounding_readValue? depthLimit).readPair? hpair) hroot

theorem Reading.bounded_of_lines? {fuel : Nat} {r : Reading} {t : Text} {table : Table}
    (h : r.root.Bounded) (hlines : Reading.lines? fuel r t = some table) : table.Bounded := by
  induction fuel generalizing r t with
  | zero => cases hlines
  | succ fuel ih =>
      unfold Reading.lines? at hlines
      split at hlines
      · cases hlines
      · cases hlines
        exact h
      · split at hlines
        · cases hlines
        · next after rest hline =>
            split at hlines
            · cases hlines
            · exact ih (Reading.bounded_of_line? h hline) hlines

theorem bounded_of_parse? {document : Text} {table : Table} (h : parse? document = some table) :
    table.Bounded := Reading.bounded_of_lines? Table.bounded_nil h

end MailIndex.Toml
