import MailIndex.Proofs.Check.Columns
import MailIndex.Proofs.Message.Addresses
import MailIndex.Proofs.Query.Filters
import MailIndex.Proofs.Search.Reference

/-!
# Senders found by their addresses

The address of a sender is kept as it was read from what is shown of the sender, and the value of a
filter is brought to lower case. Both are the same text if the value is an address that a message was
read to have, as this stands for itself. So a filter for the address of a sender finds the messages of
that sender, and the filter with a minus sign all others.
-/

namespace MailIndex.Search

open Text Query Address

theorem isFilterValue_of_isAddress {e : Text} (h : IsAddress e) (hopening : '(' ∉ e)
    (hclosing : ')' ∉ e) (hquote : '"' ∉ e) (negated : Bool) : IsFilterValue e negated where
  ne_nil := List.ne_nil_of_mem h.at_mem
  unbroken c hc :=
    ⟨h.unblank c hc, fun heq => hopening (heq ▸ hc), fun heq => hclosing (heq ▸ hc)⟩
  unquoted _ := hquote

theorem asksFor_address {e : Text} (h : IsAddress e) : AsksFor .sender e (.senderIs e false) := by
  have hasks := asksFor_sender h.at_mem
  rwa [h.lowered] at hasks

theorem selects_senderIs_iff {d : Document} {m : Message} {chars : Nat}
    (h : d.derived = some (Derived.ofMessage m chars)) (e : Text) :
    (Predicate.senderIs e false).selects d = true ↔ ofDisplay? m.sender = some e := by
  have hcolumn : d.senderEmail = ofDisplay? m.sender := by
    simp [Document.senderEmail, h, Derived.ofMessage]
  rw [Predicate.selects_iff, ← hcolumn]
  rfl

theorem selects_not_senderIs_iff {d : Document} {m : Message} {chars : Nat}
    (h : d.derived = some (Derived.ofMessage m chars)) (e : Text) :
    (Predicate.senderIs e true).selects d = true ↔ ofDisplay? m.sender ≠ some e := by
  rw [ne_eq, ← selects_senderIs_iff h, Predicate.selects_iff, Predicate.selects_iff]
  rfl

/-- The address that is read from some displayed sender stands for itself. A filter for it is a search
without terms, which selects a document exactly if this address is read from what is shown of its
sender, and with a minus sign exactly if it is not. This is so for every document with the columns of a
message, and every document that has been indexed has them. -/
theorem sender_filter_selects {display e : Text} (h : ofDisplay? display = some e)
    (hopening : '(' ∉ e) (hclosing : ')' ∉ e) (hquote : '"' ∉ e) :
    ofDisplay? e = some e ∧
    parse ("from:".toList ++ e) = .ok ⟨[], [.senderIs e false]⟩ ∧
    parse ("-from:".toList ++ e) = .ok ⟨[], [.senderIs e true]⟩ ∧
    (∀ (d : Document) (m : Message) (chars : Nat), d.derived = some (.ofMessage m chars) →
      ((Predicate.senderIs e false).selects d = true ↔ ofDisplay? m.sender = some e) ∧
      ((Predicate.senderIs e true).selects d = true ↔ ofDisplay? m.sender ≠ some e)) ∧
    ∀ operations, ∀ d ∈ (Check.reached operations).documents, d.indexedAt ≠ none →
      ∃ m chars, d.derived = some (.ofMessage m chars) := by
  have haddress := isAddress_of_ofDisplay? h
  have hasks := asksFor_address haddress
  have hvalue := isFilterValue_of_isAddress haddress hopening hclosing hquote
  refine ⟨haddress.ofDisplay?, hasks.parse (hvalue false) rfl, hasks.parse (hvalue true) rfl,
    fun d m chars hcolumns => ?_, fun operations d => Check.exists_columns⟩
  exact ⟨selects_senderIs_iff hcolumns e, selects_not_senderIs_iff hcolumns e⟩

/-- A sender with a name, in mixed case and with letters beyond ASCII: found by the address, as is a
sender that is written otherwise, and a sender without an address is found by what excludes it. -/
theorem sender_filter_selects_of_capitals :
    let e := "zoë.ς@x.org".toList
    let document (sender : Text) : Document :=
      (Document.mk 1 ['d'] none none none none none none none).indexed
        (.ofMessage ⟨[], sender, [], [], [], [], none⟩ 10) ['h'] 0
    ofDisplay? "Zoë <b> < ZOË.Σ@X.org >".toList = some e ∧ ofDisplay? e = some e ∧
    parse ("from:".toList ++ e) = .ok ⟨[], [.senderIs e false]⟩ ∧
    (Predicate.senderIs e false).selects (document "Zoë.Σ@x.ORG".toList) = true ∧
    (Predicate.senderIs e true).selects (document "Zoë".toList) = true := by
  intro e document
  have haddress : ofDisplay? "Zoë <b> < ZOË.Σ@X.org >".toList = some e := by decide +kernel
  obtain ⟨hsame, hparse, -, hselects, -⟩ :=
    sender_filter_selects haddress (by decide) (by decide) (by decide)
  refine ⟨haddress, hsame, hparse, ?_, ?_⟩
  · exact (hselects _ _ 10 rfl).1.mpr (by decide +kernel)
  · exact (hselects _ _ 10 rfl).2.mpr (by decide +kernel)

end MailIndex.Search
