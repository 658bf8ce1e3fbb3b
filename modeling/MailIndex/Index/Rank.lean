import MailIndex.Match.Expression

/-!
# The index and its ranking

The index keeps the text of every entry, and two totals that only ever grow: how many entries have
been put into it, and how many tokens. Entries that match an expression are ranked by how often its
terms occur, rare terms counting more and long entries less.
-/

namespace MailIndex

open Match

structure IndexRow where
  id : Nat
  text : EntryText
  deriving DecidableEq, Repr

structure Index where
  rows : List IndexRow
  /-- How many entries have ever been put in. -/
  entriesSeen : Nat
  /-- How many tokens they had. -/
  tokensSeen : Nat
  deriving DecidableEq, Repr

namespace Index

def empty : Index := ⟨[], 0, 0⟩

/-- Puts an entry in; one with the same number gives way. -/
def insert (index : Index) (id : Nat) (text : EntryText) : Index where
  rows := index.rows.filter (·.id ≠ id) ++ [⟨id, text⟩]
  entriesSeen := index.entriesSeen + 1
  tokensSeen := index.tokensSeen + text.size

/-- Takes an entry out; the totals stay. -/
def erase (index : Index) (id : Nat) : Index :=
  { index with rows := index.rows.filter (·.id ≠ id) }

def selected (index : Index) (e : Expression) : List Nat :=
  (index.rows.filter fun row => e.selects row.text).map (·.id)

def frequency (index : Index) (t : Term) : Nat :=
  (index.rows.filter fun row => t.occursIn row.text).length

/-- The weight of a term: the logarithm of the odds against it, but never less than a small
positive number. -/
def weight (index : Index) (t : Term) : Float :=
  let n := Float.ofNat (index.frequency t)
  let odds := Float.log ((Float.ofNat index.entriesSeen - n + 0.5) / (n + 0.5))
  if odds > 0.0 then odds else 1e-6

def weights (index : Index) (e : Expression) : List Float :=
  (e.terms.filter Term.isPresent).map index.weight

/-- Whether an entry is looked at for an expression: it has the tokens of its terms. -/
def reaches (entry : EntryText) : Expression → Bool
  | .run terms => terms.any Term.isPresent && terms.all fun t => !t.isPresent || t.scattered entry
  | .without left right => reaches entry left && !right.selects entry
  | .both left right => reaches entry left && reaches entry right
  | .either left right => reaches entry left || reaches entry right

def isFirst (index : Index) (t : Term) (row : IndexRow) : Bool :=
  (index.rows.find? fun r => t.scattered r.text).any (·.id = row.id)

/-- How often the terms of an expression count for an entry, from left to right. A term counts
where every part of the expression around it selects the entry (`within`). A term excluded from
what no entry has is still seen in the first entry that has the term, unless the part around it
has come to its end (`ended`). The parts of a chain of alternatives end together (`chained`). -/
def counts (index : Index) (row : IndexRow) (within ended chained : Bool) (e : Expression) :
    List Nat :=
  let here := within && e.selects row.text
  match e with
  | .run terms => (terms.filter Term.isPresent).map fun t => if here then t.count row.text else 0
  | .without left right =>
    let stalled := !ended && !index.rows.any fun r => reaches r.text left
    counts index row here ended false left ++
      match right with
      | .run [t] =>
        if t.isPresent then
          [if stalled && index.isFirst t row then t.count row.text else 0]
        else []
      | right => counts index row false true false right
  | .both left right =>
    let ended := ended || !index.rows.any fun r => row.id ≤ r.id && reaches r.text e
    counts index row here ended false left ++ counts index row here ended false right
  | .either left right =>
    let ended := ended || (!chained && !index.rows.any fun r => reaches r.text e)
    counts index row here ended true left ++ counts index row here ended true right

/-- What one term adds to the score of an entry of `size` tokens in which it occurs `count` times,
`average` being the average size. -/
def contribution (weight : Float) (count size : Nat) (average : Float) : Float :=
  let f := Float.ofNat count
  weight * ((f * (1.2 + 1.0)) / (f + 1.2 * (1.0 - 0.75 + 0.75 * Float.ofNat size / average)))

/-- The score of an entry for an expression whose terms have given weights. It is never
negative. -/
def score (index : Index) (e : Expression) (weights : List Float) (row : IndexRow) : Float :=
  let average := Float.ofNat index.tokensSeen / Float.ofNat index.entriesSeen
  ((index.counts row true false false e).zip weights).foldl (fun sum (count, weight) =>
    sum + contribution weight count row.text.size average) 0.0

/-- A number that grows with the score: the bits of a number that is not negative do. -/
def rank (index : Index) (e : Expression) (weights : List Float) (row : IndexRow) : Nat :=
  (index.score e weights row).toBits.toNat

end Index

end MailIndex
