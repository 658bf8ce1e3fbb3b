import MailIndex.Query.Day
import MailIndex.Query.Predicate
import MailIndex.Query.SearchTerm
import MailIndex.Query.Token

/-!
# What a search means

A list of tokens by itself, without regard to any expression. Each token stands for a term, for a
structured filter, for grouping, or for nothing. The groups are outlined as alternatives of items;
a group that keeps nothing is left out. A group holds if one of its alternatives does, and an
alternative holds if all that is required in it is true and all that is excluded is false.
-/

namespace MailIndex.Query

open Text Match

/-! ## Tokens -/

def wordTerm? (column : Option Column) (word : Text) : Option Term :=
  let (text, starred) := splitStar word
  if isSearchable text then some ⟨column, text, starred⟩ else none

/-- The term that a token stands for: all of a phrase, and a word without one star at its end. -/
def Token.term? : Token → Option Term
  | .word value => wordTerm? none value
  | .phrase value => if isSearchable value then some ⟨none, value, false⟩ else none
  | .exclusion value => wordTerm? none value
  | .filter .sender value _ => if '@' ∈ value then none else wordTerm? (some .sender) value
  | .filter .recipient value _ => if '@' ∈ value then none else wordTerm? (some .recipients) value
  | .filter .subject value _ => wordTerm? (some .subject) value
  | .filter .attachment value _ => wordTerm? (some .attachments) value
  | _ => none

def Token.structured? : Token → Option Predicate
  | .filter .sender value negated =>
    if '@' ∈ value then some (.senderIs (lower value) negated) else none
  | .filter .recipient value negated =>
    if '@' ∈ value then some (.recipientIs (lower value) negated) else none
  | .filter .label value negated => some (.labelled value negated)
  | .filter .before value negated =>
    (normalizeDay? value).map (.dated (if negated then .onOrAfter else .before))
  | .filter .after value negated =>
    (normalizeDay? value).map (.dated (if negated then .before else .onOrAfter))
  | .filter .has _ negated => some (.hasAttachments !negated)
  | _ => none

def Token.isNegated : Token → Bool
  | .exclusion _ => true
  | .filter _ _ negated => negated
  | _ => false

/-! ## Items -/

/-- One item of an alternative. A group holds alternatives of its own. -/
inductive Item where
  | required (t : Term)
  | excluded (t : Term)
  | group (alternatives : List (List Item))

def Item.ofTerm (negated : Bool) (t : Term) : Item := if negated then .excluded t else .required t

def Token.item? (token : Token) : Option Item := token.term?.map (Item.ofTerm token.isNegated)

def Item.isPositive : Item → Bool
  | .excluded _ => false
  | _ => true

mutual

def Item.holds (truth : Term → Bool) : Item → Bool
  | .required t => truth t
  | .excluded t => !truth t
  | .group alternatives => anyHolds truth alternatives

def anyHolds (truth : Term → Bool) : List (List Item) → Bool
  | [] => false
  | items :: rest => allHold truth items || anyHolds truth rest

def allHold (truth : Term → Bool) : List Item → Bool
  | [] => true
  | item :: rest => item.holds truth && allHold truth rest

end

mutual

def Item.isRegular : Item → Bool
  | .group alternatives => areRegular alternatives
  | _ => true

/-- Every alternative has something positive, and so on inside it. -/
def areRegular : List (List Item) → Bool
  | [] => true
  | items :: rest => items.any Item.isPositive && allRegular items && areRegular rest

def allRegular : List Item → Bool
  | [] => true
  | item :: rest => item.isRegular && allRegular rest

end

mutual

def Item.terms : Item → List Term
  | .required t => [t]
  | .excluded t => [t]
  | .group alternatives => alternativesTerms alternatives

def alternativesTerms : List (List Item) → List Term
  | [] => []
  | items :: rest => itemsTerms items ++ alternativesTerms rest

def itemsTerms : List Item → List Term
  | [] => []
  | item :: rest => item.terms ++ itemsTerms rest

end

theorem allHold_append (truth : Term → Bool) (a b : List Item) :
    allHold truth (a ++ b) = (allHold truth a && allHold truth b) := by
  induction a with
  | nil => simp [allHold]
  | cons item a ih => simp [allHold, ih, Bool.and_assoc]

theorem anyHolds_append (truth : Term → Bool) (a b : List (List Item)) :
    anyHolds truth (a ++ b) = (anyHolds truth a || anyHolds truth b) := by
  induction a with
  | nil => simp [anyHolds]
  | cons items a ih => simp [anyHolds, ih, Bool.or_assoc]

theorem allRegular_append (a b : List Item) :
    allRegular (a ++ b) = (allRegular a && allRegular b) := by
  induction a with
  | nil => simp [allRegular]
  | cons item a ih => simp [allRegular, ih, Bool.and_assoc]

theorem areRegular_append (a b : List (List Item)) :
    areRegular (a ++ b) = (areRegular a && areRegular b) := by
  induction a with
  | nil => simp [areRegular]
  | cons items a ih => simp [areRegular, ih, Bool.and_assoc]

theorem areRegular_concat {alternatives : List (List Item)} {items : List Item}
    (h : areRegular (alternatives ++ [items]) = true) :
    areRegular alternatives = true ∧ items.any Item.isPositive = true ∧
      allRegular items = true := by
  simpa [areRegular_append, areRegular] using h

theorem itemsTerms_append (a b : List Item) :
    itemsTerms (a ++ b) = itemsTerms a ++ itemsTerms b := by
  induction a with
  | nil => simp [itemsTerms]
  | cons item a ih => simp [itemsTerms, ih]

theorem alternativesTerms_append (a b : List (List Item)) :
    alternativesTerms (a ++ b) = alternativesTerms a ++ alternativesTerms b := by
  induction a with
  | nil => simp [alternativesTerms]
  | cons items a ih => simp [alternativesTerms, ih]

/-! ## Outlines -/

structure Sketch where
  /-- The alternatives before the last OR. -/
  finished : List (List Item)
  /-- The items after it. -/
  current : List Item

namespace Sketch

def empty : Sketch := ⟨[], []⟩

def add (s : Sketch) (item : Item) : Sketch := { s with current := s.current ++ [item] }

def take (s : Sketch) : Option Item → Sketch
  | some item => s.add item
  | none => s

def next (s : Sketch) : Sketch := ⟨s.finished ++ [s.current], []⟩

/-- The alternatives of a group; none if it keeps nothing. -/
def alternatives (s : Sketch) : List (List Item) :=
  if s.finished.isEmpty && s.current.isEmpty then [] else s.finished ++ [s.current]

/-- Takes up an inner group, unless it keeps nothing. -/
def addGroup (s : Sketch) (inner : Sketch) : Sketch :=
  if inner.alternatives.isEmpty then s else s.add (.group inner.alternatives)

def terms (s : Sketch) : List Term := alternativesTerms s.finished ++ itemsTerms s.current

end Sketch

/-- The groups that are open, the innermost apart. -/
structure Outlining where
  inner : Sketch
  outer : List Sketch

namespace Outlining

def start : Outlining := ⟨.empty, []⟩

/-- Takes up one token; none for a parenthesis that closes nothing. -/
def step (o : Outlining) : Token → Option Outlining
  | .opening => some ⟨.empty, o.inner :: o.outer⟩
  | .closing =>
    match o.outer with
    | [] => none
    | parent :: outer => some ⟨parent.addGroup o.inner, outer⟩
  | .or => some { o with inner := o.inner.next }
  | token => some { o with inner := o.inner.take token.item? }

def terms (o : Outlining) : List Term := o.outer.reverse.flatMap Sketch.terms ++ o.inner.terms

end Outlining

/-- The alternatives of a whole list of tokens; none if its parentheses do not match. -/
def outline? (tokens : List Token) : Option (List (List Item)) := do
  let o ← tokens.foldlM Outlining.step .start
  if o.outer.isEmpty then some o.inner.alternatives else none

theorem terms_add (s : Sketch) (item : Item) : (s.add item).terms = s.terms ++ item.terms := by
  simp [Sketch.add, Sketch.terms, itemsTerms_append, itemsTerms]

theorem terms_next (s : Sketch) : s.next.terms = s.terms := by
  simp [Sketch.next, Sketch.terms, alternativesTerms_append, alternativesTerms, itemsTerms]

theorem terms_alternatives (s : Sketch) : alternativesTerms s.alternatives = s.terms := by
  unfold Sketch.alternatives
  by_cases h : (s.finished.isEmpty && s.current.isEmpty) = true
  · have hboth : s.finished = [] ∧ s.current = [] := by simpa using h
    simp [Sketch.terms, hboth, alternativesTerms, itemsTerms]
  · simp [h, Sketch.terms, alternativesTerms_append, alternativesTerms]

theorem terms_addGroup (s inner : Sketch) : (s.addGroup inner).terms = s.terms ++ inner.terms := by
  rw [← terms_alternatives inner]
  unfold Sketch.addGroup
  by_cases h : inner.alternatives = []
  · simp [h, alternativesTerms]
  · simp [h, terms_add, Item.terms]

theorem terms_take (s : Sketch) (token : Token) :
    (s.take token.item?).terms = s.terms ++ token.term?.toList := by
  unfold Token.item?
  cases token.term? with
  | none => simp [Sketch.take]
  | some t => cases token.isNegated <;> simp [Sketch.take, terms_add, Item.ofTerm, Item.terms]

theorem Outlining.terms_step {o o' : Outlining} {token : Token} (h : o.step token = some o') :
    o'.terms = o.terms ++ token.term?.toList := by
  have htake : (Outlining.mk (o.inner.take token.item?) o.outer).terms =
      o.terms ++ token.term?.toList := by
    simp [Outlining.terms, terms_take]
  cases token with
  | opening =>
      cases h
      simp [Outlining.terms, Token.term?, Sketch.terms, Sketch.empty, alternativesTerms, itemsTerms]
  | closing =>
      obtain ⟨inner, outer⟩ := o
      cases outer with
      | nil => cases h
      | cons parent outer =>
          cases h
          simp [Outlining.terms, terms_addGroup, Token.term?]
  | or =>
      cases h
      simp [Outlining.terms, Token.term?, terms_next]
  | word value => cases h; exact htake
  | phrase value => cases h; exact htake
  | exclusion value => cases h; exact htake
  | filter field value negated => cases h; exact htake

theorem Outlining.terms_run {tokens : List Token} {o o' : Outlining}
    (h : tokens.foldlM Outlining.step o = some o') :
    o'.terms = o.terms ++ tokens.filterMap Token.term? := by
  induction tokens generalizing o with
  | nil =>
      cases h
      simp
  | cons token tokens ih =>
      cases hstep : o.step token with
      | none => simp [hstep] at h
      | some next =>
          simp only [List.foldlM_cons, hstep, Option.bind_eq_bind, Option.bind_some] at h
          rw [ih h, terms_step hstep]
          cases hterm : token.term? <;> simp [hterm]

theorem terms_outline {tokens : List Token} {alternatives : List (List Item)}
    (h : outline? tokens = some alternatives) :
    alternativesTerms alternatives = tokens.filterMap Token.term? := by
  unfold outline? at h
  cases hrun : tokens.foldlM Outlining.step .start with
  | none => simp [hrun] at h
  | some o =>
      have hterms := Outlining.terms_run hrun
      simp only [hrun, Option.bind_eq_bind, Option.bind_some] at h
      split at h
      · next hempty =>
          cases h
          have houter : o.outer = [] := by simpa using hempty
          have hstart : Outlining.start.terms = [] := rfl
          rw [hstart, List.nil_append] at hterms
          rw [terms_alternatives, ← hterms]
          simp [Outlining.terms, houter]
      · cases h

end MailIndex.Query
