import MailIndex.Proofs.Search.Reference
import MailIndex.Text.Decimal.Grouped

/-!
# Conditions in three-valued logic

The conditions of structured filters, taken apart into the operands and operators of a query language
with nulls: a comparison with a null is neither true nor false, and a disjunction is not either unless
one of its sides decides it. Written out again they are the texts of the filters, as deep as these are
said to be, and what they say of the columns of a document is what the filters say of the document.
-/

namespace MailIndex.Condition

open Text

/-! ## Rows -/

/-- The columns that structured filters ask about. Only the flag is never null. -/
structure Row where
  senderEmail : Option Text
  recipientEmails : Option Text
  labels : Option Text
  eventDate : Option Text
  hasAttachments : Bool

def Row.ofDocument (d : Document) : Row :=
  ⟨d.senderEmail, d.recipientEmails, d.labels, d.eventDate, d.hasAttachments⟩

inductive Column where
  | senderEmail
  | recipientEmails
  | labels
  | eventDate
  | hasAttachments

def Column.name : Column → Text
  | senderEmail => "d.sender_email".toList
  | recipientEmails => "d.recipient_emails".toList
  | labels => "d.labels".toList
  | eventDate => "d.event_date".toList
  | hasAttachments => "d.has_attachments".toList

inductive Datum where
  | number (n : Nat)
  | text (t : Text)
  deriving DecidableEq

/-- Numbers come before texts. -/
def Datum.less : Datum → Datum → Bool
  | number m, number n => m < n
  | number _, text _ => true
  | text _, number _ => false
  | text s, text t => s < t

/-- Where a text is asked for, a number is its digits. -/
def Datum.asText : Datum → Text
  | number n => Decimal.digits n
  | text t => t

def Column.value? (r : Row) : Column → Option Datum
  | senderEmail => r.senderEmail.map .text
  | recipientEmails => r.recipientEmails.map .text
  | labels => r.labels.map .text
  | eventDate => r.eventDate.map .text
  | hasAttachments => some (.number r.hasAttachments.toNat)

/-! ## Operands -/

/-- Where a part first stands in a text, counted from 1; 0 if nowhere. -/
def position (part : Text) : Text → Nat
  | [] => if part.isEmpty then 1 else 0
  | c :: rest =>
    if part.isPrefixOf (c :: rest) then 1
    else if position part rest = 0 then 0 else position part rest + 1

theorem position_eq_zero_iff (part whole : Text) :
    position part whole = 0 ↔ occursIn part whole = false := by
  induction whole with
  | nil => cases part <;> simp [position, occursIn]
  | cons c rest ih =>
      unfold position occursIn
      by_cases hstarts : part.isPrefixOf (c :: rest) = true
      · simp [hstarts]
      · simp [hstarts, ← ih]

theorem position_pos_iff (part whole : Text) :
    0 < position part whole ↔ occursIn part whole = true := by
  rw [Nat.pos_iff_ne_zero, ne_eq, position_eq_zero_iff, Bool.not_eq_false]

inductive Operand where
  | column (c : Column)
  /-- The value that is bound to the condition. -/
  | bound
  | number (n : Nat)
  | lowered (a : Operand)
  | place (whole part : Operand)

namespace Operand

def written : Operand → Text
  | column c => c.name
  | bound => ['?']
  | number n => Decimal.digits n
  | lowered a => "lower(".toList ++ a.written ++ [')']
  | place whole part => "instr(".toList ++ whole.written ++ ", ".toList ++ part.written ++ [')']

/-- How deeply an operand is nested. A column stands below the name of its table. -/
def depth : Operand → Nat
  | column _ => 2
  | bound => 1
  | number _ => 1
  | lowered a => a.depth + 1
  | place whole part => max whole.depth part.depth + 1

/-- The value of an operand; none if it is null, as it is if a part of it is. -/
def value? (r : Row) (bound? : Option Text) : Operand → Option Datum
  | column c => c.value? r
  | bound => bound?.map .text
  | number n => some (.number n)
  | lowered a => (a.value? r bound?).map fun x => .text (asciiLower x.asText)
  | place whole part =>
    (whole.value? r bound?).bind fun x =>
      (part.value? r bound?).map fun y => .number (position y.asText x.asText)

end Operand

/-! ## Formulas -/

inductive Formula where
  | equal (a b : Operand)
  /-- Not the same, where null is the same as null only. -/
  | distinct (a b : Operand)
  | less (a b : Operand)
  | notLess (a b : Operand)
  | exceeds (a b : Operand)
  | missing (a : Operand)
  | either (f g : Formula)

/-- A comparison is undecided if one of its sides is null. -/
def compared (test : Datum → Datum → Bool) (a b : Option Datum) : Option Bool :=
  a.bind fun x => b.map (test x)

/-- A disjunction is decided by a true side, or by two false ones. -/
def disjunction : Option Bool → Option Bool → Option Bool
  | some true, _ => some true
  | _, some true => some true
  | some false, some false => some false
  | _, _ => none

namespace Formula

def written : Formula → Text
  | equal a b => a.written ++ " = ".toList ++ b.written
  | distinct a b => a.written ++ " IS NOT ".toList ++ b.written
  | less a b => a.written ++ " < ".toList ++ b.written
  | notLess a b => a.written ++ " >= ".toList ++ b.written
  | exceeds a b => a.written ++ " > ".toList ++ b.written
  | missing a => a.written ++ " IS NULL".toList
  | either f g => '(' :: f.written ++ " OR ".toList ++ g.written ++ [')']

/-- How deeply a formula is nested; parentheses do not count. -/
def depth : Formula → Nat
  | equal a b => max a.depth b.depth + 1
  | distinct a b => max a.depth b.depth + 1
  | less a b => max a.depth b.depth + 1
  | notLess a b => max a.depth b.depth + 1
  | exceeds a b => max a.depth b.depth + 1
  | missing a => a.depth + 1
  | either f g => max f.depth g.depth + 1

def truth (r : Row) (bound? : Option Text) : Formula → Option Bool
  | equal a b => compared (· == ·) (a.value? r bound?) (b.value? r bound?)
  | distinct a b => some (a.value? r bound? != b.value? r bound?)
  | less a b => compared Datum.less (a.value? r bound?) (b.value? r bound?)
  | notLess a b => compared (fun x y => !x.less y) (a.value? r bound?) (b.value? r bound?)
  | exceeds a b => compared (fun x y => y.less x) (a.value? r bound?) (b.value? r bound?)
  | missing a => some (a.value? r bound?).isNone
  | either f g => disjunction (f.truth r bound?) (g.truth r bound?)

end Formula

/-! ## Formulas about one text -/

theorem compared_text (test : Datum → Datum → Bool) (x : Option Text) (t : Text) :
    compared test (x.map .text) (some (.text t)) = x.map fun s => test (.text s) (.text t) := by
  cases x <;> rfl

theorem text_beq (s t : Text) : (Datum.text s == .text t) = (s == t) := by
  rw [Bool.eq_iff_iff]
  simp

theorem zero_less_position (part whole : Text) :
    (Datum.number 0).less (.number (position part whole)) = occursIn part whole := by
  rw [Bool.eq_iff_iff, ← position_pos_iff]
  simp [Datum.less]

theorem position_beq_zero (part whole : Text) :
    (Datum.number (position part whole) == .number 0) = !occursIn part whole := by
  rw [Bool.eq_iff_iff]
  simp [position_eq_zero_iff]

section

variable {r : Row} {a : Operand} {x : Option Text} {part : Text}

theorem value?_place (h : a.value? r (some part) = x.map .text) :
    (Operand.place a .bound).value? r (some part) =
      x.map fun whole => .number (position part whole) := by
  simp only [Operand.value?, h]
  cases x <;> rfl

theorem truth_exceeds_place (h : a.value? r (some part) = x.map .text) :
    (Formula.exceeds (.place a .bound) (.number 0)).truth r (some part) =
      x.map (occursIn part) := by
  unfold Formula.truth
  rw [value?_place h]
  cases x with
  | none => rfl
  | some whole => exact congrArg some (zero_less_position part whole)

theorem truth_missing_or_place {b : Operand} (h : a.value? r (some part) = x.map .text)
    (hmissing : (b.value? r (some part)).isNone = x.isNone) :
    (Formula.either (.missing b) (.equal (.place a .bound) (.number 0))).truth r (some part) =
      some !x.any (occursIn part) := by
  simp only [Formula.truth, hmissing, value?_place h]
  cases x with
  | none => rfl
  | some whole =>
      change disjunction (some false) (some (_ == _)) = _
      rw [position_beq_zero]
      cases hoccurs : occursIn part whole <;> simp [disjunction, hoccurs]

end

end MailIndex.Condition

/-! ## The conditions of filters -/

namespace MailIndex.Query.Predicate

open Text Condition

def formula : Predicate → Formula
  | .senderIs _ false => .equal (.column .senderEmail) .bound
  | .senderIs _ true => .distinct (.column .senderEmail) .bound
  | .recipientIs _ false => .exceeds (.place (.column .recipientEmails) .bound) (.number 0)
  | .recipientIs _ true =>
    .either (.missing (.column .recipientEmails))
      (.equal (.place (.column .recipientEmails) .bound) (.number 0))
  | .labelled _ false => .exceeds (.place (.lowered (.column .labels)) .bound) (.number 0)
  | .labelled _ true =>
    .either (.missing (.column .labels))
      (.equal (.place (.lowered (.column .labels)) .bound) (.number 0))
  | .dated .before _ => .less (.column .eventDate) .bound
  | .dated .onOrAfter _ => .notLess (.column .eventDate) .bound
  | .hasAttachments wanted => .equal (.column .hasAttachments) (.number wanted.toNat)

theorem written_formula (p : Predicate) : p.formula.written = p.condition := by
  cases p with
  | senderIs email negated => cases negated <;> rfl
  | recipientIs email negated => cases negated <;> rfl
  | labelled text negated => cases negated <;> rfl
  | dated op date => cases op <;> rfl
  | hasAttachments wanted => cases wanted <;> rfl

theorem depth_formula (p : Predicate) : p.formula.depth = p.depth := by
  cases p with
  | senderIs email negated => cases negated <;> rfl
  | recipientIs email negated => cases negated <;> rfl
  | labelled text negated => cases negated <;> rfl
  | dated op date => cases op <;> rfl
  | hasAttachments wanted => rfl

/-- What the condition of a filter says of the columns of a document is what the filter says of the
document. -/
theorem truth_formula (p : Predicate) (d : Document) :
    p.formula.truth (.ofDocument d) p.value? = p.truth d := by
  cases p with
  | senderIs email negated =>
      cases negated with
      | false =>
          refine (compared_text (· == ·) d.senderEmail email).trans ?_
          simp only [text_beq]
          rfl
      | true =>
          change some (d.senderEmail.map Datum.text != some (.text email)) =
            some (d.senderEmail != some email)
          cases d.senderEmail with
          | none => rfl
          | some own => simp [bne, text_beq]
  | recipientIs email negated =>
      have hcolumn : (Operand.column .recipientEmails).value? (.ofDocument d)
          (some (fenced email)) = d.recipientEmails.map .text := rfl
      cases negated with
      | false => exact truth_exceeds_place hcolumn
      | true => exact truth_missing_or_place hcolumn (by rw [hcolumn, Option.isNone_map])
  | labelled text negated =>
      have hcolumn : (Operand.column .labels).value? (.ofDocument d) (some (asciiLower text)) =
          d.labels.map .text := rfl
      have hlowered : (Operand.lowered (.column .labels)).value? (.ofDocument d)
          (some (asciiLower text)) = (d.labels.map asciiLower).map .text := by
        unfold Operand.value?
        rw [hcolumn, Option.map_map, Option.map_map]
        rfl
      cases negated with
      | false =>
          refine (truth_exceeds_place hlowered).trans ?_
          rw [Option.map_map]
          rfl
      | true =>
          refine (truth_missing_or_place hlowered (by simp [hcolumn])).trans ?_
          rw [Option.any_map]
          rfl
  | dated op date =>
      cases op with
      | before => exact compared_text Datum.less d.eventDate date
      | onOrAfter => exact compared_text (fun x y => !x.less y) d.eventDate date
  | hasAttachments wanted =>
      change some (Datum.number d.hasAttachments.toNat == .number wanted.toNat) = _
      cases wanted <;> cases h : d.hasAttachments <;> simp [truth, h]

end MailIndex.Query.Predicate
