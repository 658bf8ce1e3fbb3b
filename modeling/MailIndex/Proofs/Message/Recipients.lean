import MailIndex.Message.Derived
import MailIndex.Message.Envelope
import MailIndex.Proofs.Message.Addresses

/-!
# Recipients

What is read of the recipients of a message. Commas separate them, and an address has a comma only
where quotes kept it from separating.

A list of recipients is put on one line and then read like one that was written so. What is read of
the elements after some place is independent of those before it as long as these close all the
quotes that they open: every element then gives the addresses that it gives alone. A quote that
stays open, however, reaches into the elements that follow.
-/

namespace MailIndex.Text

theorem comma_mem_of_mem_lower {t : Text} (h : ',' ∈ lower t) : ',' ∈ t :=
  (mem_lower_iff (isCaseless_of_lt (by decide)) t).mp h

end MailIndex.Text

namespace MailIndex.Address

open Text

/-! ## Addresses with commas -/

theorem comma_mem_of_ofDisplay? {display address : Text} (h : ofDisplay? display = some address)
    (hcomma : ',' ∈ address) : ',' ∈ display := by
  unfold ofDisplay? at h
  dsimp only at h
  split at h
  · cases h
    have hcandidate := mem_of_mem_trim (comma_mem_of_mem_lower hcomma)
    cases hbracketed : bracketed? (trim display) with
    | none =>
        rw [hbracketed] at hcandidate
        exact mem_of_mem_trim hcandidate
    | some inner =>
        rw [hbracketed] at hcandidate
        exact mem_of_mem_trim (mem_of_mem_bracketed? hbracketed hcandidate)
  · cases h

/-- Without quotes every comma separates. -/
theorem comma_not_mem_of_mem_splitList {t part : Text} (h : '"' ∉ t)
    (hpart : part ∈ splitList false t) : ',' ∉ part := by
  induction t generalizing part with
  | nil =>
      rw [show splitList false [] = [[]] from rfl, List.mem_singleton] at hpart
      simp [hpart]
  | cons c t ih =>
      simp only [List.mem_cons, not_or] at h
      have hrest {other : Text} (hother : other ∈ splitList false t) : ',' ∉ other := ih h.2 hother
      unfold splitList at hpart
      split at hpart
      · rcases List.mem_cons.mp hpart with rfl | hpart
        · exact List.not_mem_nil
        · exact hrest hpart
      · next hstays =>
          rw [if_neg (Ne.symm h.1)] at hpart
          cases hparts : splitList false t with
          | nil => exact absurd hparts (splitList_ne_nil false t)
          | cons first parts =>
              rw [hparts] at hpart hrest
              rcases List.mem_cons.mp hpart with rfl | hpart
              · have hc : ',' ≠ c := by
                  rintro rfl
                  exact hstays (by simp)
                simp only [List.mem_cons, not_or]
                exact ⟨hc, hrest List.mem_cons_self⟩
              · exact hrest (List.mem_cons_of_mem _ hpart)

theorem comma_not_mem_of_mem_allOf {recipients address : Text} (h : '"' ∉ recipients)
    (haddress : address ∈ allOf recipients) : ',' ∉ address := by
  obtain ⟨part, hpart, hdisplay⟩ := List.mem_filterMap.mp haddress
  intro hcomma
  exact comma_not_mem_of_mem_splitList h hpart (comma_mem_of_ofDisplay? hdisplay hcomma)

/-! ## Lists -/

def Balanced (t : Text) : Prop := t.count '"' % 2 = 0

instance (t : Text) : Decidable (Balanced t) := inferInstanceAs (Decidable (_ = _))

theorem consFirst_append (c : Char) {front : List Text} (h : front ≠ []) (back : List Text) :
    consFirst c (front ++ back) = consFirst c front ++ back := by
  cases front with
  | nil => exact absurd rfl h
  | cons part parts => rfl

/-- A comma separates where the quotes before it are closed. -/
theorem splitList_append_comma {inQuotes : Bool} {front : Text}
    (h : front.count '"' % 2 = inQuotes.toNat) (rest : Text) :
    splitList inQuotes (front ++ ',' :: rest) =
      splitList inQuotes front ++ splitList false rest := by
  induction front generalizing inQuotes with
  | nil =>
      obtain rfl : inQuotes = false := by
        cases inQuotes with
        | false => rfl
        | true => simp at h
      simp [splitList]
  | cons c front ih =>
      rw [List.cons_append]
      by_cases hseparates : (c = ',' ∨ c = ';') ∧ !inQuotes
      · have hquote : c ≠ '"' := by
          rcases hseparates.1 with rfl | rfl <;> decide
        rw [List.count_cons_of_ne hquote] at h
        simp only [splitList, if_pos hseparates, ih h, List.cons_append]
      · have hstate : front.count '"' % 2 =
            (if c = '"' then !inQuotes else inQuotes).toNat := by
          by_cases hquote : c = '"'
          · subst hquote
            rw [List.count_cons_self] at h
            cases inQuotes <;> simp at h ⊢ <;> omega
          · rw [List.count_cons_of_ne hquote] at h
            rw [if_neg hquote, h]
        simp only [splitList, if_neg hseparates, ih hstate,
          consFirst_append c (splitList_ne_nil _ _)]

theorem ofDisplay?_cons_blank (display : Text) :
    ofDisplay? (' ' :: display) = ofDisplay? display := by
  have htrim : trim (' ' :: display) = trim display := by
    unfold trim trimStart
    rw [List.dropWhile_cons_of_pos (by decide)]
  unfold ofDisplay?
  rw [htrim]

theorem allOf_cons_blank (recipients : Text) : allOf (' ' :: recipients) = allOf recipients := by
  have hsplit :
      splitList false (' ' :: recipients) = consFirst ' ' (splitList false recipients) := by
    simp [splitList]
  unfold allOf
  rw [hsplit]
  cases hparts : splitList false recipients with
  | nil => exact absurd hparts (splitList_ne_nil _ _)
  | cons part parts => simp only [consFirst, List.filterMap_cons, ofDisplay?_cons_blank]

theorem allOf_append_comma {front : Text} (h : Balanced front) (rest : Text) :
    allOf (front ++ ", ".toList ++ rest) = allOf front ++ allOf rest := by
  have hcomma : front ++ ", ".toList ++ rest = front ++ ',' :: ' ' :: rest := by simp
  rw [hcomma, ← allOf_cons_blank rest]
  unfold allOf
  rw [splitList_append_comma (by simpa [Balanced] using h), List.filterMap_append]

theorem joined_list_singleton (element : Text) : (Recipients.list [element]).joined = element := by
  simp [Recipients.joined, Text.joined]

theorem joined_list_cons_cons (element next : Text) (elements : List Text) :
    (Recipients.list (element :: next :: elements)).joined =
      element ++ ", ".toList ++ (Recipients.list (next :: elements)).joined :=
  List.intercalate_cons_cons

theorem joined_list_append {front rest : List Text} (hfront : front ≠ []) (hrest : rest ≠ []) :
    (Recipients.list (front ++ rest)).joined =
      (Recipients.list front).joined ++ ", ".toList ++ (Recipients.list rest).joined := by
  obtain ⟨next, others, rfl⟩ := List.exists_cons_of_ne_nil hrest
  induction front with
  | nil => exact absurd rfl hfront
  | cons element front ih =>
      cases front with
      | nil => rw [List.singleton_append, joined_list_cons_cons, joined_list_singleton]
      | cons second front =>
          have hrest := ih (List.cons_ne_nil _ _)
          rw [List.cons_append] at hrest
          rw [List.cons_append, List.cons_append, joined_list_cons_cons, hrest,
            joined_list_cons_cons]
          simp only [List.append_assoc]

theorem count_quote_joined (elements : List Text) :
    (Recipients.list elements).joined.count '"' = elements.flatten.count '"' := by
  induction elements with
  | nil => rfl
  | cons element elements ih =>
      cases elements with
      | nil => simp [joined_list_singleton]
      | cons next elements =>
          have hseparator : ", ".toList.count '"' = 0 := by decide
          rw [joined_list_cons_cons, List.flatten_cons, List.count_append, List.count_append,
            List.count_append, hseparator, ih, Nat.add_zero]

/-- Where the quotes before an element are closed, the addresses of the elements from there on
follow those of the elements before. -/
theorem allOf_list_append {front : List Text} (h : Balanced front.flatten) (rest : List Text) :
    allOf (Recipients.list (front ++ rest)).joined =
      allOf (Recipients.list front).joined ++ allOf (Recipients.list rest).joined := by
  have hnone : allOf (Recipients.list []).joined = [] := by decide
  by_cases hfront : front = []
  · rw [hfront, hnone, List.nil_append, List.nil_append]
  by_cases hrest : rest = []
  · rw [hrest, hnone, List.append_nil, List.append_nil]
  have hbalanced : Balanced (Recipients.list front).joined := by
    unfold Balanced
    rw [count_quote_joined]
    exact h
  rw [joined_list_append hfront hrest, allOf_append_comma hbalanced]

/-- The induction is on the elements; the quotes of each but the last are closed within it. -/
theorem allOf_list {elements : List Text} (h : ∀ element ∈ elements.dropLast, Balanced element) :
    allOf (Recipients.list elements).joined = elements.flatMap allOf := by
  induction elements with
  | nil => decide
  | cons element elements ih =>
      cases elements with
      | nil => simp [joined_list_singleton]
      | cons next elements =>
          rw [List.dropLast_cons_cons, List.forall_mem_cons] at h
          have hfirst : Balanced [element].flatten := by simpa using h.1
          rw [← List.singleton_append, allOf_list_append hfirst, joined_list_singleton, ih h.2]
          rfl

/-- What is read of a list of recipients: wherever the quotes of the elements before are closed, the
elements from there on give what they give without those. So if only the last element may leave a
quote open, the column of addresses holds those that the elements give alone, in their order. -/
theorem recipientEmails_of_list (elements : List Text) :
    (∀ front rest, elements = front ++ rest → Balanced front.flatten →
      allOf (Recipients.list elements).joined =
        allOf (Recipients.list front).joined ++ allOf (Recipients.list rest).joined) ∧
    ((∀ element ∈ elements.dropLast, Balanced element) →
      allOf (Recipients.list elements).joined = elements.flatMap allOf ∧
        ∀ (e : Envelope) (hash : Text) (chars : Nat), e.recipients = .list elements →
          (Derived.ofMessage (e.toMessage hash) chars).recipientEmails =
            fencedList? (elements.flatMap allOf)) := by
  refine ⟨fun front rest helements hbalanced => ?_, fun hbalanced => ⟨allOf_list hbalanced, ?_⟩⟩
  · subst helements
    exact allOf_list_append hbalanced rest
  · intro e hash chars hrecipients
    have hcolumn : (Derived.ofMessage (e.toMessage hash) chars).recipientEmails =
        normalizeList? (Recipients.list elements).joined := by
      rw [← hrecipients]
      rfl
    rw [hcolumn]
    unfold normalizeList?
    rw [allOf_list hbalanced]

/-- A quoted comma separates nothing, and a quote that the last element leaves open is its own. A
quote that the first element leaves open hides its address, up to an element that closes it. -/
theorem recipientEmails_of_list_of_quotes :
    let closed : List Text :=
      ["\"A, B\" <a@x.com>".toList, "b@y.com".toList, "\"C <c@z.com>".toList]
    let opened : List Text :=
      ["\"A \\\"B\" <a@x.com>".toList, "\" <b@y.com>".toList, "c@z.com".toList]
    (allOf (Recipients.list closed).joined = closed.flatMap allOf ∧
      closed.flatMap allOf = ["a@x.com".toList, "b@y.com".toList, "c@z.com".toList]) ∧
    allOf (Recipients.list opened).joined = ["b@y.com".toList, "c@z.com".toList] ∧
      opened.flatMap allOf = ["a@x.com".toList, "b@y.com".toList, "c@z.com".toList] := by
  intro closed opened
  obtain ⟨-, hclosed⟩ := recipientEmails_of_list closed
  obtain ⟨hopened, -⟩ := recipientEmails_of_list opened
  have hfirst : allOf (Recipients.list (opened.take 2)).joined = ["b@y.com".toList] := by
    decide +kernel
  have hlast : allOf (Recipients.list (opened.drop 2)).joined = ["c@z.com".toList] := by
    decide +kernel
  refine ⟨⟨(hclosed (by decide)).1, by decide +kernel⟩, ?_, by decide +kernel⟩
  rw [hopened (opened.take 2) (opened.drop 2) rfl (by decide), hfirst, hlast]
  rfl

end MailIndex.Address
