/-!
# Three-valued conditions

A condition of the store over values that may be null is true, false or undecided. A row is selected
only where its condition is true, and a sum passes over what is undecided.
-/

namespace MailIndex

/-- A truth value, none if it is undecided. -/
abbrev Ternary := Option Bool

namespace Ternary

variable {α : Type}

def isNull (a : Option α) : Ternary := some a.isNone

def isPresent (a : Option α) : Ternary := some a.isSome

section

variable [DecidableEq α]

/-- A comparison with a null is undecided. -/
def equal (a b : Option α) : Ternary := a.bind fun x => b.map fun y => decide (x = y)

def distinct (a b : Option α) : Ternary := (equal a b).map not

end

/-- Decided by a side that is false. -/
def both : Ternary → Ternary → Ternary
  | some false, _ => some false
  | _, some false => some false
  | some true, some true => some true
  | _, _ => none

/-- Decided by a side that is true. -/
def either : Ternary → Ternary → Ternary
  | some true, _ => some true
  | _, some true => some true
  | some false, some false => some false
  | _, _ => none

def holds (t : Ternary) : Bool := t == some true

/-- How many are true; null if none is decided. -/
def sum (values : List Ternary) : Option Nat :=
  if values.all (·.isNone) then none else some (values.countP holds)

@[simp] theorem holds_isNull (a : Option α) : (isNull a).holds = a.isNone := by
  cases a <;> rfl

@[simp] theorem holds_isPresent (a : Option α) : (isPresent a).holds = a.isSome := by
  cases a <;> rfl

section

variable [DecidableEq α]

@[simp] theorem holds_equal (a b : Option α) :
    (equal a b).holds = (a.isSome && decide (a = b)) := by
  cases a with
  | none => rfl
  | some x =>
      cases b with
      | none => rfl
      | some y => by_cases hsame : x = y <;> simp [equal, holds, hsame]

@[simp] theorem holds_distinct (a b : Option α) :
    (distinct a b).holds = (a.isSome && b.isSome && decide (a ≠ b)) := by
  cases a with
  | none => rfl
  | some x =>
      cases b with
      | none => rfl
      | some y => by_cases hsame : x = y <;> simp [distinct, equal, holds, hsame]

end

@[simp] theorem holds_both (s t : Ternary) : (s.both t).holds = (s.holds && t.holds) := by
  rcases s with _ | _ | _ <;> rcases t with _ | _ | _ <;> rfl

@[simp] theorem holds_either (s t : Ternary) : (s.either t).holds = (s.holds || t.holds) := by
  rcases s with _ | _ | _ <;> rcases t with _ | _ | _ <;> rfl

theorem sum_getD (values : List Ternary) : (sum values).getD 0 = values.countP holds := by
  unfold sum
  split
  · next hnone =>
      have hfalse : ∀ t ∈ values, ¬ t.holds = true := by
        intro t ht
        rw [Option.isNone_iff_eq_none.mp (List.all_eq_true.mp hnone t ht)]
        exact Bool.false_ne_true
      exact (List.countP_eq_zero.mpr hfalse).symm
  · rfl

end Ternary

end MailIndex
