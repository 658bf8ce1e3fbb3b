import MailIndex.Query.Error
import MailIndex.Query.SearchTerm

/-!
# Groups under construction

A group is filled from left to right with the parts of a match expression: terms, groups in
parentheses, excluded terms, and the word OR. An excluded term that comes before any required one is
held back until there is something to exclude it from; an OR waits for the term on its right.
-/

namespace MailIndex.Query

def orPart : Text := "OR".toList

def notMark : Text := "NOT ".toList

def excluding (term : Text) : Text := notMark ++ term

def parenthesized (expression : Text) : Text := '(' :: expression ++ [')']

def isParenthesized (part : Text) : Bool := part.head? == some '('

def isExcluding (part : Text) : Bool := notMark.isPrefixOf part

/-- What stands between two parts. Juxtaposition joins phrases only, and binds tightest: an explicit
AND stands beside a group, and after an excluded term, which would take up what follows it. -/
def joint (before part : Text) : Text :=
  if part ≠ orPart ∧ before ≠ orPart ∧ !isExcluding part
      ∧ (isParenthesized part || isParenthesized before || isExcluding before) then
    " AND ".toList
  else [' ']

/-- The parts after a given one, each with what stands before it. -/
def joinAfter (before : Text) : List Text → Text
  | [] => []
  | part :: rest => joint before part ++ part ++ joinAfter part rest

def joinParts : List Text → Text
  | [] => []
  | part :: rest => part ++ joinAfter part rest

structure Group where
  parts : List Text
  /-- The excluded terms held back. -/
  held : List Text
  hasTerm : Bool
  /-- Whether an OR waits for its right side. -/
  awaiting : Bool
  deriving DecidableEq, Repr

def Group.empty : Group := ⟨[], [], false, false⟩

/-- Adds a required part, and after it the excluded terms held back for it. -/
def Group.require (g : Group) (part : Text) : Group where
  parts := g.parts ++ (if g.awaiting then [orPart] else []) ++ part :: g.held.map excluding
  held := []
  hasTerm := true
  awaiting := false

def Group.exclude (g : Group) (term : Text) : Group :=
  if g.hasTerm && !g.awaiting then { g with parts := g.parts ++ [excluding term] }
  else { g with held := g.held ++ [term] }

def Group.openAlternative (g : Group) : Except Error Group :=
  if g.hasTerm then .ok { g with awaiting := true } else .error .orNeedsTerms

/-- The expression of a finished group; none if it has no terms at all. -/
def Group.close (g : Group) : Except Error (Option Text) :=
  if g.awaiting then .error .orNeedsTerms
  else if !g.held.isEmpty then .error .exclusionNeedsTerm
  else if g.hasTerm then .ok (some (joinParts g.parts))
  else .ok none

theorem Group.close_empty : Group.empty.close = .ok none := rfl

end MailIndex.Query
