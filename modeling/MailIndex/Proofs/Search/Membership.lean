import MailIndex.Proofs.Message.Recipients
import MailIndex.Proofs.Search.Reference
import MailIndex.Query.Parsed
import MailIndex.Text.Split
import Mathlib.Data.List.Infix

/-!
# Recipients that a filter finds

A filter for a recipient looks for an address between commas in the column of addresses. So it finds
what stands between commas there, and this is an address unless the address has commas of its own:
a quoted part of a list of recipients may, and so may the value of a filter.
-/

namespace MailIndex

open Text

/-! ## Texts between commas -/

namespace Query

theorem split_fenced (t : Text) : split ',' (fenced t) = [] :: (split ',' t ++ [[]]) := by
  have hparts : fenced t = [] ++ ',' :: (t ++ ',' :: []) := rfl
  rw [hparts, split_append_cons, split_append_cons]
  rfl

/-- Parts with a comma after each of them, behind one more, are some text with a comma behind it. -/
theorem exists_comma_last (parts : List Text) :
    ∃ front, ',' :: parts.flatMap (· ++ [',']) = front ++ [','] := by
  rcases List.eq_nil_or_concat parts with rfl | ⟨others, last, rfl⟩
  · exact ⟨[], rfl⟩
  · refine ⟨',' :: (others.flatMap (· ++ [',']) ++ last), ?_⟩
    simp

theorem fenced_eq_flatMap (t : Text) :
    fenced t = ',' :: (split ',' t).flatMap (· ++ [',']) := by
  have hjoin (parts : List Text) (h : parts ≠ []) :
      [','].intercalate parts ++ [','] = parts.flatMap (· ++ [',']) := by
    induction parts with
    | nil => exact absurd rfl h
    | cons part parts ih =>
        cases parts with
        | nil => simp
        | cons next parts =>
            rw [List.intercalate_cons_cons, List.append_assoc, ih (List.cons_ne_nil _ _)]
            rfl
  have hwhole := hjoin (split ',' t) (split_ne_nil ',' t)
  rw [intercalate_split] at hwhole
  rw [← hwhole]
  rfl

/-- A text between commas stands in another one exactly if its parts are neighbours there. -/
theorem fenced_infix_iff {part whole : Text} :
    fenced part <:+: fenced whole ↔ split ',' part <:+: split ',' whole := by
  constructor
  · rintro ⟨front, back, h⟩
    have hparts : front ++ fenced part ++ back = front ++ ',' :: (part ++ ',' :: back) := by
      simp [fenced]
    have hsplit := congrArg (split ',') (hparts.symm.trans h)
    rw [split_append_cons, split_append_cons, split_fenced] at hsplit
    obtain ⟨first, fronts, hfront⟩ := List.exists_cons_of_ne_nil (split_ne_nil ',' front)
    obtain ⟨backs, last, hback⟩ :=
      (List.eq_nil_or_concat (split ',' back)).resolve_left (split_ne_nil ',' back)
    rw [hfront, hback, List.cons_append, List.cons.injEq, List.concat_eq_append,
      ← List.append_assoc, ← List.append_assoc] at hsplit
    exact ⟨fronts, backs, (List.append_inj' hsplit.2 rfl).1⟩
  · rintro ⟨fronts, backs, h⟩
    obtain ⟨front, hfront⟩ := exists_comma_last fronts
    refine ⟨front, backs.flatMap (· ++ [',']), ?_⟩
    rw [fenced_eq_flatMap part, fenced_eq_flatMap whole, ← h, List.flatMap_append,
      List.flatMap_append, ← List.cons_append, ← List.cons_append, hfront]
    simp

theorem fenced_infix_fencedList?_iff {email : Text} {addresses : List Text} :
    (∃ list, Address.fencedList? addresses = some list ∧ fenced email <:+: list) ↔
      split ',' email <:+: addresses.flatMap (split ',') := by
  cases addresses with
  | nil => simp [Address.fencedList?, split_ne_nil]
  | cons address addresses =>
      have hlist : Address.fencedList? (address :: addresses) =
          some (fenced (joined [','] (address :: addresses))) := rfl
      rw [← split_intercalate (List.cons_ne_nil _ _), ← fenced_infix_iff, hlist]
      simp [joined]

theorem infix_flatMap_of_mem {email : Text} {addresses : List Text} (h : email ∈ addresses) :
    split ',' email <:+: addresses.flatMap (split ',') := by
  obtain ⟨front, back, rfl⟩ := List.append_of_mem h
  refine ⟨front.flatMap (split ','), back.flatMap (split ','), ?_⟩
  simp

/-! ## Documents -/

section

variable {d : Document} {recipients : Text}

theorem selects_recipientIs_iff (h : d.recipientEmails = Address.normalizeList? recipients)
    (email : Text) : (Predicate.recipientIs email false).selects d = true ↔
      split ',' email <:+: (Address.allOf recipients).flatMap (split ',') := by
  rw [Predicate.selects_iff, ← fenced_infix_fencedList?_iff]
  change (∃ list, d.recipientEmails = some list ∧ _) ↔ _
  rw [h]
  rfl

theorem selects_not_recipientIs_iff (email : Text) :
    (Predicate.recipientIs email true).selects d = true ↔
      ¬ (Predicate.recipientIs email false).selects d = true := by
  rw [Predicate.selects_iff, Predicate.selects_iff]
  simp [Predicate.Accepts]

end

/-- A filter for a recipient whose value has an at sign looks for the value in lower case. It
selects a document indexed with some recipients exactly if the parts of the value between commas are
neighbours among the parts of the addresses, and its negation selects the others. So each of the
addresses is found. A value without commas is found where it is a part of an address, and so it is
one of the addresses if none of them has a comma, as is so for recipients without quotes. -/
theorem recipient_filter_selects (m : Message) (d : Document) (chars : Nat) (hash : Text)
    (now : Int) {value : Text} (hat : '@' ∈ value) :
    (∀ negated, contribution .recipient value negated =
      .ok (.predicate (.recipientIs (lower value) negated))) ∧
    ∀ shown addresses, shown = d.indexed (Derived.ofMessage m chars) hash now →
      addresses = Address.allOf m.recipients →
      ((Predicate.recipientIs (lower value) false).selects shown = true ↔
        split ',' (lower value) <:+: addresses.flatMap (split ',')) ∧
      ((Predicate.recipientIs (lower value) true).selects shown = true ↔
        ¬ (Predicate.recipientIs (lower value) false).selects shown = true) ∧
      (lower value ∈ addresses →
        (Predicate.recipientIs (lower value) false).selects shown = true) ∧
      (',' ∉ value →
        ((Predicate.recipientIs (lower value) false).selects shown = true ↔
          ∃ address ∈ addresses, lower value ∈ split ',' address) ∧
        ('"' ∉ m.recipients ∨ (∀ address ∈ addresses, ',' ∉ address) →
          ((Predicate.recipientIs (lower value) false).selects shown = true ↔
            lower value ∈ addresses))) := by
  refine ⟨fun negated => if_pos hat, ?_⟩
  rintro shown addresses rfl rfl
  have hselects := selects_recipientIs_iff (d := d.indexed (Derived.ofMessage m chars) hash now)
    rfl (lower value)
  rw [hselects]
  refine ⟨.rfl, ?_, infix_flatMap_of_mem, fun hcomma => ?_⟩
  · rw [selects_not_recipientIs_iff, hselects]
  · have hlower : ',' ∉ lower value := fun h => hcomma (comma_mem_of_mem_lower h)
    have hpart : split ',' (lower value) <:+: (Address.allOf m.recipients).flatMap (split ',') ↔
        ∃ address ∈ Address.allOf m.recipients, lower value ∈ split ',' address := by
      rw [split_of_not_mem hlower, List.singleton_infix_iff, List.mem_flatMap]
    refine ⟨hpart, fun hplain => ?_⟩
    have haddresses : ∀ address ∈ Address.allOf m.recipients, ',' ∉ address :=
      hplain.elim (fun h _ => Address.comma_not_mem_of_mem_allOf h) id
    rw [split_of_not_mem hlower, List.singleton_infix_iff, flatMap_split_of_not_mem haddresses]

/-- A quoted part with commas is one address, and what stands between its commas is found like an
address. Beside it a value with a comma is found where two addresses are neighbours. -/
theorem recipient_filter_selects_of_quoted :
    let m : Message := ⟨[], [], "\"q,bob@x.com,r\", A <a@x.com>, b@y.com".toList, [], [], [], none⟩
    let d : Document := ⟨1, ['d'], none, none, none, none, none, none, none⟩
    let shown := d.indexed (Derived.ofMessage m 10) ['h'] 0
    (Address.allOf m.recipients =
        ["\"q,bob@x.com,r\"".toList, "a@x.com".toList, "b@y.com".toList] ∧
      (Predicate.recipientIs "bob@x.com".toList false).selects shown = true ∧
      (Predicate.recipientIs "bob@x.com".toList true).selects shown = false) ∧
    (Predicate.recipientIs "a@x.com,b@y.com".toList false).selects shown = true ∧
    (Predicate.recipientIs "a@x.com".toList false).selects shown = true := by
  intro m d shown
  have hquoted : '@' ∈ "Bob@X.com".toList := by decide
  have hpair : '@' ∈ "A@x.com,b@y.com".toList := by decide
  have haddress : '@' ∈ "A@x.com".toList := by decide
  have haddresses : ["\"q,bob@x.com,r\"".toList, "a@x.com".toList, "b@y.com".toList] =
      Address.allOf m.recipients := by decide +kernel
  have hbob : lower "Bob@X.com".toList = "bob@x.com".toList := by decide +kernel
  have hboth : lower "A@x.com,b@y.com".toList = "a@x.com,b@y.com".toList := by decide +kernel
  have hone : lower "A@x.com".toList = "a@x.com".toList := by decide +kernel
  obtain ⟨-, hbobs⟩ := recipient_filter_selects m d 10 ['h'] 0 hquoted
  obtain ⟨-, -, -, hfound⟩ := hbobs shown _ rfl haddresses
  obtain ⟨-, hboths⟩ := recipient_filter_selects m d 10 ['h'] 0 hpair
  obtain ⟨hneighbours, -⟩ := hboths shown _ rfl haddresses
  obtain ⟨-, hones⟩ := recipient_filter_selects m d 10 ['h'] 0 haddress
  obtain ⟨-, -, heach, -⟩ := hones shown _ rfl haddresses
  rw [hbob] at hfound
  rw [hboth] at hneighbours
  rw [hone] at heach
  have hselected := (hfound (by decide)).1.mpr ⟨_, List.mem_cons_self, by decide⟩
  refine ⟨⟨haddresses.symm, hselected, ?_⟩, hneighbours.mpr ?_, heach (by decide)⟩
  · rw [Bool.eq_false_iff, Ne, selects_not_recipientIs_iff]
    exact fun hnot => hnot hselected
  · exact ⟨split ',' "\"q,bob@x.com,r\"".toList, [], by decide⟩

end Query

end MailIndex
