import MailIndex.Message.Identity
import MailIndex.Proofs.Reindex.Writes
import MailIndex.Proofs.Text.Order
import MailIndex.Text.Split

/-!
# What the hash of the fields tells apart

The searchable fields of a message are hashed as one text: a NUL ends each field, and a unit
separator ends each name of an attachment or a label. Both characters may stand in a field, and
then text can be moved across them without a trace. So two messages are told apart by the parts
between NULs; if one of them has no NUL, by their fields and the parts of their names; and if names
have no unit separators either, by all that is searched.
-/

namespace MailIndex

open Text

/-! ## Names and fields as one text -/

def nameMark : Char := '\x1f'

def fieldMark : Char := '\x00'

def writtenNames (names : List Text) : Text := names.flatMap (· ++ [nameMark])

def Message.pieces (m : Message) : List Text :=
  [m.subject, m.sender, m.recipients, m.body, writtenNames m.attachments, writtenNames m.labels]

/-- The parts between all NULs, those that end a field and those within one. -/
def Message.parts (m : Message) : List Text := m.pieces.flatMap (split fieldMark)

/-- Two messages with the same searchable fields, their names being compared in one view. -/
structure Message.AgreesIn (view : List Text → List Text) (m n : Message) : Prop where
  subject : m.subject = n.subject
  sender : m.sender = n.sender
  recipients : m.recipients = n.recipients
  body : m.body = n.body
  attachments : view m.attachments = view n.attachments
  labels : view m.labels = view n.labels

/-- No field and no name has a NUL. -/
structure Message.Unmarked (m : Message) : Prop where
  fields : ∀ field ∈ [m.subject, m.sender, m.recipients, m.body], fieldMark ∉ field
  names : ∀ name ∈ m.attachments ++ m.labels, fieldMark ∉ name

/-- Nor has a name a unit separator. -/
structure Message.Plain (m : Message) : Prop extends m.Unmarked where
  unbroken : ∀ name ∈ m.attachments ++ m.labels, nameMark ∉ name

theorem toBytes_writtenNames (names : List Text) :
    toBytes (writtenNames names) = names.flatMap (terminated 0x1f) := by
  unfold toBytes writtenNames
  rw [List.flatMap_assoc]
  refine congrArg names.flatMap (funext fun name => ?_)
  have hmark : String.utf8EncodeChar nameMark = [0x1f] := by decide
  simp [terminated, toBytes, hmark]

theorem Message.fieldBytes_eq (m : Message) :
    m.fieldBytes = toBytes ([fieldMark].intercalate m.pieces) := by
  have hmark : toBytes [fieldMark] = [0] := by decide
  unfold fieldBytes pieces
  simp only [List.intercalate_cons_cons, List.intercalate_singleton, toBytes_append,
    toBytes_writtenNames, hmark, terminated, List.flatMap_cons, List.flatMap_nil]
  simp

/-! ## Texts with marks at their ends -/

theorem split_writtenNames (names : List Text) :
    split nameMark (writtenNames names) = names.flatMap (split nameMark) ++ [[]] := by
  induction names with
  | nil => rfl
  | cons name names ih =>
      have hfirst : writtenNames (name :: names) = name ++ nameMark :: writtenNames names := by
        simp [writtenNames]
      rw [hfirst, split_append_cons, ih, List.flatMap_cons, List.append_assoc]

theorem writtenNames_eq_iff {names others : List Text} :
    writtenNames names = writtenNames others ↔
      names.flatMap (split nameMark) = others.flatMap (split nameMark) := by
  constructor
  · intro h
    have hsplit := congrArg (split nameMark) h
    rw [split_writtenNames, split_writtenNames] at hsplit
    exact List.append_cancel_right hsplit
  · intro h
    rw [← split_inj, split_writtenNames, split_writtenNames, h]

theorem length_le_length_parts (separator : Char) (pieces : List Text) :
    pieces.length ≤ (pieces.flatMap (split separator)).length := by
  induction pieces with
  | nil => exact Nat.le_refl 0
  | cons piece pieces ih =>
      have hpiece : 0 < (split separator piece).length :=
        List.length_pos_iff.mpr (split_ne_nil separator piece)
      simp only [List.flatMap_cons, List.length_append, List.length_cons]
      omega

/-- Pieces with no more parts than there are pieces have no separators. -/
theorem parts_eq_of_length_le {separator : Char} {pieces : List Text}
    (h : (pieces.flatMap (split separator)).length ≤ pieces.length) :
    pieces.flatMap (split separator) = pieces := by
  induction pieces with
  | nil => rfl
  | cons piece pieces ih =>
      have hrest := length_le_length_parts separator pieces
      have hpiece : 0 < (split separator piece).length :=
        List.length_pos_iff.mpr (split_ne_nil separator piece)
      simp only [List.flatMap_cons, List.length_append, List.length_cons] at h
      have hone : (split separator piece).length = 1 := by omega
      obtain ⟨only, honly⟩ := List.length_eq_one_iff.mp hone
      have hsame : piece = only := by
        rw [← intercalate_split separator piece, honly, List.intercalate_singleton]
      rw [List.flatMap_cons, ih (by omega), honly, hsame]
      rfl

/-! ## Messages -/

def Collide (a b : List UInt8) : Prop := a ≠ b ∧ bytesHash a = bytesHash b

theorem bytesHash_eq_iff {a b : List UInt8} : bytesHash a = bytesHash b ↔ a = b ∨ Collide a b := by
  constructor
  · intro h
    by_cases hsame : a = b
    · exact .inl hsame
    · exact .inr ⟨hsame, h⟩
  · rintro (rfl | ⟨-, h⟩)
    · rfl
    · exact h

namespace Message

variable {m n : Message}

theorem fieldBytes_eq_iff_parts : m.fieldBytes = n.fieldBytes ↔ m.parts = n.parts := by
  have hm : m.pieces ≠ [] := List.cons_ne_nil _ _
  have hn : n.pieces ≠ [] := List.cons_ne_nil _ _
  rw [fieldBytes_eq, fieldBytes_eq, toBytes_inj, parts, parts, ← split_intercalate hm,
    ← split_intercalate hn, split_inj]

theorem fieldMark_not_mem_writtenNames {names : List Text}
    (h : ∀ name ∈ names, fieldMark ∉ name) : fieldMark ∉ writtenNames names := by
  intro hmem
  obtain ⟨name, hname, hin⟩ := List.mem_flatMap.mp hmem
  rcases List.mem_append.mp hin with hname' | hmark
  · exact h name hname hname'
  · cases List.mem_singleton.mp hmark

theorem Unmarked.parts_eq (h : m.Unmarked) : m.parts = m.pieces := by
  obtain ⟨hattachments, hlabels⟩ := List.forall_mem_append.mp h.names
  have hwritten : ∀ piece ∈ [writtenNames m.attachments, writtenNames m.labels],
      fieldMark ∉ piece := by
    simp [fieldMark_not_mem_writtenNames hattachments, fieldMark_not_mem_writtenNames hlabels]
  exact flatMap_split_of_not_mem (List.forall_mem_append.mpr ⟨h.fields, hwritten⟩)

/-- Every message has six pieces, so one that shares its parts with a message without NULs has no
NULs either. -/
theorem Unmarked.parts_eq_iff (h : m.Unmarked) : m.parts = n.parts ↔ m.pieces = n.pieces := by
  rw [h.parts_eq]
  constructor
  · intro hparts
    rw [hparts]
    refine parts_eq_of_length_le (Nat.le_of_eq ?_)
    change n.parts.length = n.pieces.length
    rw [← hparts]
    rfl
  · intro hpieces
    unfold parts
    rw [← hpieces]
    exact h.parts_eq.symm

theorem pieces_eq_iff :
    m.pieces = n.pieces ↔ m.AgreesIn (·.flatMap (split nameMark)) n := by
  constructor
  · intro h
    simp only [pieces, List.cons.injEq, and_true, writtenNames_eq_iff] at h
    obtain ⟨hsubject, hsender, hrecipients, hbody, hattachments, hlabels⟩ := h
    exact ⟨hsubject, hsender, hrecipients, hbody, hattachments, hlabels⟩
  · intro h
    simp only [pieces, List.cons.injEq, and_true, writtenNames_eq_iff]
    exact ⟨h.subject, h.sender, h.recipients, h.body, h.attachments, h.labels⟩

theorem Plain.agreesIn_iff (hm : m.Plain) (hn : n.Plain) :
    m.AgreesIn (·.flatMap (split nameMark)) n ↔ m.AgreesIn id n := by
  obtain ⟨hattachments, hlabels⟩ := List.forall_mem_append.mp hm.unbroken
  obtain ⟨hattachments', hlabels'⟩ := List.forall_mem_append.mp hn.unbroken
  constructor
  · rintro ⟨hsubject, hsender, hrecipients, hbody, hnames, hmore⟩
    rw [flatMap_split_of_not_mem hattachments, flatMap_split_of_not_mem hattachments'] at hnames
    rw [flatMap_split_of_not_mem hlabels, flatMap_split_of_not_mem hlabels'] at hmore
    exact ⟨hsubject, hsender, hrecipients, hbody, hnames, hmore⟩
  · intro h
    exact ⟨h.subject, h.sender, h.recipients, h.body, congrArg _ h.attachments,
      congrArg _ h.labels⟩

end Message

/-! ## Rows -/

open Reindex

/-- A row that indexing `m` leaves, where neither the document nor the source knew a hash. -/
def Message.Leaves (m : Message) (row : Document) : Prop :=
  m.contentHash = none ∧ ∃ (o : Options) (now : Int) (s written : Store) (d : Document),
    d.contentHash = none ∧ (∀ e ∈ s.documents, e.seq = d.seq → e.contentHash = none) ∧
      Run.indexed? o now s d m = some written ∧ row ∈ written.documents ∧ row.seq = d.seq

theorem Message.Leaves.hashes {m : Message} {row : Document} (h : m.Leaves row) :
    row.indexedHash = some m.fieldsHash ∧ row.contentHash = some m.fieldsHash := by
  obtain ⟨hsource, o, now, s, written, d, hunknown, hsame, hindexed, hrow, hseq⟩ := h
  have hhash : Run.hashFor d m = m.fieldsHash := by simp [Run.hashFor, hunknown, hsource]
  rw [(adds_of_indexed? hindexed).documents] at hrow
  obtain ⟨e, he, rfl⟩ := List.mem_map.mp hrow
  by_cases hthis : e.seq = d.seq
  · rw [if_pos hthis, hhash]
    simp [Document.indexed, hsame e he hthis]
  · rw [if_neg hthis] at hseq
    exact absurd hseq hthis

theorem Message.leaves_indexed {m : Message} {d : Document} (hm : m.contentHash = none)
    (hd : d.contentHash = none) (o : Options) (now : Int) :
    m.Leaves (d.indexed (Derived.ofMessage m o.snippetChars) (Run.hashFor d m) now) := by
  have hfound : (Store.findSeq? ⟨[d], d.seq, [], 0, .empty, []⟩ d.seq).isSome = true := by
    simp [Store.findSeq?]
  refine ⟨hm, o, now, ⟨[d], d.seq, [], 0, .empty, []⟩, _, d, hd, ?_, if_pos hfound, ?_, rfl⟩
  · intro e he _
    rw [List.mem_singleton.mp he]
    exact hd
  · rw [Store.documents_addEntry]
    simp [Store.markIndexed, Store.change]

/-- What the hash of the fields tells apart. It is taken of bytes that are the same for two messages
exactly if these have the same parts between NULs. If one of them has no NUL, this means the same
four fields and the same parts of names; if neither has, and no name a unit separator, it means that
all that is searched is the same. A document without a hash gets the one of the fields, so it gets
different hashes for different bytes unless these collide; and it keeps the first as its content
hash, under which a later run indexes whatever it is given. -/
theorem Message.fieldBytes_tell_apart (m n : Message) :
    (m.fieldBytes = n.fieldBytes ↔ m.parts = n.parts) ∧
      (m.Unmarked →
        (m.fieldBytes = n.fieldBytes ↔ m.AgreesIn (·.flatMap (split nameMark)) n)) ∧
      (m.Plain → n.Plain → (m.fieldBytes = n.fieldBytes ↔ m.AgreesIn id n)) ∧
      ∀ row other, m.Leaves row → n.Leaves other →
        (row.indexedHash = other.indexedHash ↔
          m.fieldBytes = n.fieldBytes ∨ Collide m.fieldBytes n.fieldBytes) ∧
        ∀ later, Run.hashFor row later = m.fieldsHash := by
  have hunmarked (h : m.Unmarked) :
      m.fieldBytes = n.fieldBytes ↔ m.AgreesIn (·.flatMap (split nameMark)) n := by
    rw [fieldBytes_eq_iff_parts, h.parts_eq_iff, pieces_eq_iff]
  refine ⟨fieldBytes_eq_iff_parts, hunmarked, fun hm hn => ?_, fun row other hrow hother => ?_⟩
  · rw [hunmarked hm.toUnmarked, hm.agreesIn_iff hn]
  · obtain ⟨hindexed, hcontent⟩ := hrow.hashes
    refine ⟨?_, fun later => ?_⟩
    · rw [hindexed, hother.hashes.1, Option.some.injEq, fieldsHash, fieldsHash, bytesHash_eq_iff]
    · simp [Run.hashFor, hcontent]

/-- Text moved across the end of a field, and across the end of a name. -/
theorem Message.fieldBytes_tell_apart_of_moved_text :
    let before : Message := { Message.empty with subject := "a\x00b".toList }
    let moved : Message :=
      { Message.empty with subject := "a".toList, sender := "b\x00".toList }
    let single : Message := { Message.empty with attachments := ["a\x1fb".toList] }
    let double : Message := { Message.empty with attachments := ["a".toList, "b".toList] }
    let d := Document.ofRecord 1 ⟨['d'], none, none, none, none⟩
    (before.subject ≠ moved.subject ∧ before.fieldBytes = moved.fieldBytes) ∧
      (single.attachments ≠ double.attachments ∧ single.fieldBytes = double.fieldBytes) ∧
      double.fieldBytes ≠ Message.empty.fieldBytes ∧
      ∃ row other, before.Leaves row ∧ moved.Leaves other ∧ row.id = d.id ∧ other.id = d.id ∧
        row.indexedHash = other.indexedHash ∧ ∀ later, Run.hashFor row later = before.fieldsHash := by
  intro before moved single double d
  have hmoved : before.fieldBytes = moved.fieldBytes :=
    (Message.fieldBytes_tell_apart before moved).1.mpr (by decide)
  have hdouble : double.Plain := ⟨⟨by decide, by decide⟩, by decide⟩
  have hempty : Message.empty.Plain := ⟨⟨by decide, by decide⟩, by decide⟩
  have hsingle : single.Unmarked := ⟨by decide, by decide⟩
  have hrow := Message.leaves_indexed (m := before) (d := d) rfl rfl ⟨.all, false, 1, 200⟩ 0
  have hother := Message.leaves_indexed (m := moved) (d := d) rfl rfl ⟨.all, false, 1, 200⟩ 0
  obtain ⟨hsame, hkept⟩ :=
    (Message.fieldBytes_tell_apart before moved).2.2.2 _ _ hrow hother
  refine ⟨⟨by decide, hmoved⟩, ⟨by decide, ?_⟩, ?_, _, _, hrow, hother, rfl, rfl,
    hsame.mpr (.inl hmoved), hkept⟩
  · exact ((Message.fieldBytes_tell_apart single double).2.1 hsingle).mpr
      ⟨rfl, rfl, rfl, rfl, by decide, rfl⟩
  · intro hbytes
    have hagree := ((Message.fieldBytes_tell_apart _ _).2.2.1 hdouble hempty).mp hbytes
    exact absurd hagree.attachments (by decide)

end MailIndex
