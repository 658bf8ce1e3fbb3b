import MailIndex.Match.Reader

/-!
# Lexing piece by piece

The scanner of match expressions goes through a text from left to right. A piece of it gives the
same lexemes wherever it stands, provided that what follows cannot be taken up into its last word
or quoted text. So a written form is understood piece by piece: first its lexemes, then its symbols.
A piece with a null character in it is always cut inside quotes, which the scanner refuses.
-/

namespace MailIndex.Match

open Lexeme

/-! ## What may follow a piece -/

/-- Whether a character ends a word and a quoted text before it. -/
def isStop (c : Char) : Bool := !isBareword c && c != '"'

def Stops (rest : Text) : Prop := ∀ c ∈ rest.head?, isStop c = true

def Anything (_ : Text) : Prop := True

theorem stops_nil : Stops [] := by simp [Stops]

theorem stops_cons {c : Char} {rest : Text} : Stops (c :: rest) ↔ isStop c = true := by
  simp [Stops]

theorem Stops.append {a b : Text} (ha : Stops a) (hb : Stops b) : Stops (a ++ b) := by
  cases a with
  | nil => exact hb
  | cons c a => exact stops_cons.mpr (stops_cons.mp ha)

theorem Stops.upToNull {a : Text} (ha : Stops a) : Stops (upToNull a) := by
  cases a with
  | nil => exact ha
  | cons c a =>
      unfold Match.upToNull
      rw [List.takeWhile_cons]
      split
      · exact stops_cons.mpr (stops_cons.mp ha)
      · exact stops_nil

/-! ## Texts up to a null character -/

theorem upToNull_of_not_mem {a : Text} (h : '\x00' ∉ a) : upToNull a = a := by
  have hall : ∀ c ∈ a, decide (c ≠ '\x00') = true := by
    intro c hc
    have hne : c ≠ '\x00' := fun heq => h (heq ▸ hc)
    simpa using hne
  have happend : upToNull (a ++ []) = a ++ upToNull [] := List.takeWhile_append_of_pos hall
  simpa [upToNull] using happend

theorem upToNull_append_of_mem {a : Text} (h : '\x00' ∈ a) (b : Text) :
    upToNull (a ++ b) = upToNull a := by
  induction a with
  | nil => simp at h
  | cons c a ih =>
      unfold upToNull
      by_cases hc : c = '\x00'
      · simp [hc]
      · have ha : '\x00' ∈ a := by
          rcases List.mem_cons.mp h with heq | ha
          · exact absurd heq.symm hc
          · exact ha
        have hrec := ih ha
        unfold upToNull at hrec
        rw [List.cons_append, List.takeWhile_cons, List.takeWhile_cons, hrec]

theorem upToNull_append_of_not_mem {a : Text} (h : '\x00' ∉ a) (b : Text) :
    upToNull (a ++ b) = a ++ upToNull b := by
  unfold upToNull
  rw [List.takeWhile_append_of_pos]
  intro c hc
  have hne : c ≠ '\x00' := fun heq => h (heq ▸ hc)
  simpa using hne

/-! ## Single steps of the scanner -/

theorem scan_nil (mode : Mode) : Lexeme.scan mode [] = mode.finish := rfl

theorem scan_cons_of_some {mode next : Mode} {c : Char} {done : List Lexeme}
    (h : Lexeme.step mode c = some (done, next)) (rest : Text) :
    Lexeme.scan mode (c :: rest) = (Lexeme.scan next rest).map (done ++ ·) := by
  rw [Lexeme.scan, h]
  simp only [Option.bind_eq_bind, Option.bind_some]
  cases Lexeme.scan next rest <;> rfl

theorem scan_cons_of_none {mode : Mode} {c : Char} (h : Lexeme.step mode c = none) (rest : Text) :
    Lexeme.scan mode (c :: rest) = none := by
  rw [Lexeme.scan, h]
  rfl

theorem scan_cons_of_silent {mode next : Mode} {c : Char}
    (h : Lexeme.step mode c = some ([], next)) (rest : Text) :
    Lexeme.scan mode (c :: rest) = Lexeme.scan next rest := by
  rw [scan_cons_of_some h]
  simp

/-! ## Lexemes of a piece -/

/-- A piece gives its lexemes wherever something of the kind `follow` comes after it. -/
structure Lexes (follow : Text → Prop) (t : Text) (lexemes : List Lexeme) : Prop where
  scan : ∀ rest, follow rest →
    scan .between (t ++ rest) = (scan .between rest).map (lexemes ++ ·)
  cut : '\x00' ∈ t → Lexeme.scan .between (upToNull t) = none

theorem Lexes.append {before after : Text → Prop} {a b : Text} {la lb : List Lexeme}
    (ha : Lexes before a la) (hb : Lexes after b lb)
    (hfollow : ∀ rest, after rest → before (b ++ rest)) (hcut : before (upToNull b)) :
    Lexes after (a ++ b) (la ++ lb) where
  scan rest hrest := by
    rw [List.append_assoc, ha.scan _ (hfollow rest hrest), hb.scan rest hrest]
    cases Lexeme.scan .between rest <;> simp
  cut hnull := by
    by_cases hin : '\x00' ∈ a
    · rw [upToNull_append_of_mem hin]
      exact ha.cut hin
    · have hb' : '\x00' ∈ b := by
        rcases List.mem_append.mp hnull with h | h
        · exact absurd h hin
        · exact h
      rw [upToNull_append_of_not_mem hin, ha.scan _ hcut, hb.cut hb']
      rfl

theorem Lexes.weaken {before after : Text → Prop} {t : Text} {lexemes : List Lexeme}
    (h : Lexes before t lexemes) (hfollow : ∀ rest, after rest → before rest) :
    Lexes after t lexemes :=
  ⟨fun rest hrest => h.scan rest (hfollow rest hrest), h.cut⟩

theorem Lexes.ofWritten? {follow : Text → Prop} {t : Text} {lexemes : List Lexeme}
    (h : Lexes follow t lexemes) (hnil : follow []) : Lexeme.ofWritten? t = some lexemes := by
  have hscan := h.scan [] hnil
  rw [List.append_nil] at hscan
  unfold Lexeme.ofWritten?
  rw [hscan, scan_nil]
  simp [Mode.finish]

theorem Lexes.nil (follow : Text → Prop) : Lexes follow [] [] where
  scan rest _ := by simp
  cut hnull := by simp at hnull

/-! ## Words and quoted texts -/

theorem start_of_isBareword {c : Char} (h : isBareword c = true) :
    start c = some ([], .word [c]) := by
  have hne : ∀ d : Char, isBareword d = false → c ≠ d := by
    intro d hd heq
    rw [heq, hd] at h
    cases h
  unfold start isSpace
  simp [h, hne ' ' (by decide), hne '\t' (by decide), hne '\n' (by decide), hne '\r' (by decide),
    hne '(' (by decide), hne ')' (by decide), hne ':' (by decide), hne '*' (by decide),
    hne '"' (by decide)]

theorem scan_word (word read rest : Text) (h : ∀ c ∈ word, isBareword c = true) :
    Lexeme.scan (.word read) (word ++ rest) = Lexeme.scan (.word (word.reverse ++ read)) rest := by
  induction word generalizing read with
  | nil => rfl
  | cons c word ih =>
      have hc := h c List.mem_cons_self
      have hstep : Lexeme.step (.word read) c = some ([], .word (c :: read)) := by
        simp [Lexeme.step, hc]
      rw [List.cons_append, scan_cons_of_silent hstep,
        ih (c :: read) fun d hd => h d (List.mem_cons_of_mem _ hd)]
      simp

theorem scan_of_stops {mode : Mode} {rest : Text} {done : List Lexeme}
    (hfinish : mode.finish = some done)
    (hstep : ∀ c, isStop c = true → Lexeme.step mode c = Lexeme.step.finishThen mode c)
    (h : Stops rest) :
    Lexeme.scan mode rest = (Lexeme.scan .between rest).map (done ++ ·) := by
  cases rest with
  | nil =>
      rw [scan_nil, scan_nil, hfinish]
      simp [Mode.finish]
  | cons c rest =>
      have hc := hstep c (stops_cons.mp h)
      unfold Lexeme.step.finishThen at hc
      rw [hfinish] at hc
      cases hstart : start c with
      | none =>
          have hbetween : Lexeme.step .between c = none := hstart
          rw [scan_cons_of_none (by rw [hc, hstart]; rfl), scan_cons_of_none hbetween]
          rfl
      | some result =>
          obtain ⟨more, next⟩ := result
          have hbetween : Lexeme.step .between c = some (more, next) := hstart
          have hboth : Lexeme.step mode c = some (done ++ more, next) := by
            rw [hc, hstart]
            rfl
          rw [scan_cons_of_some hboth, scan_cons_of_some hbetween]
          cases Lexeme.scan next rest <;> simp

theorem lexes_word {word : Text} (hne : word ≠ []) (h : ∀ c ∈ word, isBareword c = true) :
    Lexes Stops word [ofWord word] where
  scan rest hrest := by
    obtain ⟨c, word, rfl⟩ := List.exists_cons_of_ne_nil hne
    have hc := h c List.mem_cons_self
    have hend : Lexeme.scan (.word (word.reverse ++ [c])) rest =
        (Lexeme.scan .between rest).map ([ofWord (c :: word)] ++ ·) := by
      refine scan_of_stops (by simp [Mode.finish]) (fun d hd => ?_) hrest
      have hd' : isBareword d = false := by
        unfold isStop at hd
        simp at hd
        exact hd.1
      simp [Lexeme.step, hd']
    have hstart : Lexeme.step .between c = some ([], .word [c]) := start_of_isBareword hc
    rw [List.cons_append, scan_cons_of_silent hstart,
      scan_word word [c] rest fun d hd => h d (List.mem_cons_of_mem _ hd), hend]
  cut hnull := by
    have hbare := h _ hnull
    exact absurd hbare (by decide)

/-- The inside of a quoted text, its quotes doubled. -/
def doubled (text : Text) : Text := text.flatMap fun c => if c = '"' then ['"', '"'] else [c]

theorem quoted_eq (text : Text) : quoted text = '"' :: doubled text ++ ['"'] := rfl

theorem start_quote : Lexeme.step .between '"' = some ([], .quoted []) := rfl

theorem scan_doubled (text read rest : Text) :
    Lexeme.scan (.quoted read) (doubled text ++ rest) =
      Lexeme.scan (.quoted (text.reverse ++ read)) rest := by
  induction text generalizing read with
  | nil => rfl
  | cons c text ih =>
      have hrec := ih (c :: read)
      unfold doubled at hrec ⊢
      by_cases hc : c = '"'
      · subst hc
        have hfirst : Lexeme.step (.quoted read) '"' = some ([], .quoteSeen read) := rfl
        have hsecond : Lexeme.step (.quoteSeen read) '"' = some ([], .quoted ('"' :: read)) := rfl
        simp only [List.flatMap_cons, if_true, List.cons_append, List.nil_append]
        rw [scan_cons_of_silent hfirst, scan_cons_of_silent hsecond, hrec]
        simp
      · have hstep : Lexeme.step (.quoted read) c = some ([], .quoted (c :: read)) := by
          simp [Lexeme.step, hc]
        simp only [List.flatMap_cons, hc, if_false, List.cons_append, List.nil_append]
        rw [scan_cons_of_silent hstep, hrec]
        simp

theorem upToNull_doubled (text : Text) : upToNull (doubled text) = doubled (upToNull text) := by
  induction text with
  | nil => rfl
  | cons c text ih =>
      unfold upToNull doubled at ih ⊢
      by_cases hnull : c = '\x00'
      · simp [hnull]
      · by_cases hquote : c = '"'
        · simp_all
        · simp_all

theorem lexes_quoted (text : Text) : Lexes Stops (quoted text) [.text text] where
  scan rest hrest := by
    have hend : Lexeme.scan (.quoteSeen text.reverse) rest =
        (Lexeme.scan .between rest).map ([.text text] ++ ·) := by
      refine scan_of_stops (by simp [Mode.finish]) (fun d hd => ?_) hrest
      have hd' : d ≠ '"' := by
        unfold isStop at hd
        simp at hd
        exact hd.2
      simp [Lexeme.step, hd']
    have hclose : Lexeme.step (.quoted (text.reverse ++ [])) '"' =
        some ([], .quoteSeen text.reverse) := by
      simp [Lexeme.step]
    rw [quoted_eq, List.append_assoc, List.cons_append, scan_cons_of_silent start_quote,
      scan_doubled, List.singleton_append, scan_cons_of_silent hclose, hend]
  cut hnull := by
    have hin : '\x00' ∈ doubled text := by simpa [quoted_eq] using hnull
    have hcut : upToNull (quoted text) = '"' :: doubled (upToNull text) := by
      rw [quoted_eq, upToNull_append_of_mem (by simp [hin]), ← upToNull_doubled]
      simp [upToNull]
    have hinside := scan_doubled (upToNull text) [] []
    rw [List.append_nil] at hinside
    rw [hcut, scan_cons_of_silent start_quote, hinside]
    rfl

/-! ## Symbols of a piece -/

/-- The lexemes do not begin with what would go on with a term before them. -/
def Fresh (lexemes : List Lexeme) : Prop :=
  ∀ l ∈ lexemes.head?, l ≠ .colon ∧ l ≠ .star

theorem fresh_nil : Fresh [] := by simp [Fresh]

theorem Fresh.append {a b : List Lexeme} (ha : Fresh a) (hb : Fresh b) : Fresh (a ++ b) := by
  cases a with
  | nil => exact hb
  | cons l a => exact ha

/-- Lexemes that are joined to the same symbols whatever other symbols come after them. No reserved
word is among them but for operators. -/
structure Joins (lexemes : List Lexeme) (symbols : List Symbol) : Prop where
  fresh : Fresh lexemes
  near_not_mem : .near ∉ lexemes
  join : ∀ rest, Fresh rest →
    Symbol.ofLexemes? (lexemes ++ rest) = (Symbol.ofLexemes? rest).map (symbols ++ ·)

theorem Joins.nil : Joins [] [] where
  fresh := fresh_nil
  near_not_mem := by simp
  join rest _ := by simp

theorem Joins.append {la lb : List Lexeme} {sa sb : List Symbol} (ha : Joins la sa)
    (hb : Joins lb sb) : Joins (la ++ lb) (sa ++ sb) where
  fresh := ha.fresh.append hb.fresh
  near_not_mem := by simp [ha.near_not_mem, hb.near_not_mem]
  join rest hrest := by
    rw [List.append_assoc, ha.join _ (hb.fresh.append hrest), hb.join rest hrest]
    cases Symbol.ofLexemes? rest <;> simp

/-- A piece of a written form and the symbols that it stands for. -/
def Writes (follow : Text → Prop) (t : Text) (symbols : List Symbol) : Prop :=
  ∃ lexemes, Lexes follow t lexemes ∧ Joins lexemes symbols

theorem Writes.nil (follow : Text → Prop) : Writes follow [] [] := ⟨[], .nil follow, .nil⟩

theorem Writes.after {follow : Text → Prop} {a b : Text} {sa sb : List Symbol}
    (ha : Writes Anything a sa) (hb : Writes follow b sb) : Writes follow (a ++ b) (sa ++ sb) := by
  obtain ⟨la, hla, hsa⟩ := ha
  obtain ⟨lb, hlb, hsb⟩ := hb
  exact ⟨la ++ lb, hla.append hlb (fun _ _ => trivial) trivial, hsa.append hsb⟩

theorem Writes.stopped {a b : Text} {sa sb : List Symbol} (ha : Writes Stops a sa)
    (hb : Writes Stops b sb) (hstops : Stops b) : Writes Stops (a ++ b) (sa ++ sb) := by
  obtain ⟨la, hla, hsa⟩ := ha
  obtain ⟨lb, hlb, hsb⟩ := hb
  exact ⟨la ++ lb, hla.append hlb (fun _ hrest => hstops.append hrest) hstops.upToNull,
    hsa.append hsb⟩

theorem Writes.weaken {t : Text} {symbols : List Symbol} (h : Writes Anything t symbols) :
    Writes Stops t symbols := by
  obtain ⟨lexemes, hlexes, hjoins⟩ := h
  exact ⟨lexemes, hlexes.weaken fun _ _ => trivial, hjoins⟩

/-! ## Whole texts -/

/-- The expression of a written form where the word NEAR is reserved: outside quotes it must not
stand for itself. -/
def Expression.ofReserved? (t : Text) : Option Expression := do
  let lexemes ← Lexeme.ofWritten? t
  let symbols ← Symbol.ofLexemes? lexemes
  Expression.ofSymbols? symbols

theorem map_plain {lexemes : List Lexeme} (h : .near ∉ lexemes) :
    lexemes.map Lexeme.plain = lexemes := by
  have hsame : ∀ l ∈ lexemes, Lexeme.plain l = id l := by
    intro l hl
    cases l with
    | near => exact absurd hl h
    | _ => rfl
  rw [List.map_congr_left hsame, List.map_id]

theorem Joins.ofLexemes? {lexemes : List Lexeme} {symbols : List Symbol}
    (h : Joins lexemes symbols) : Symbol.ofLexemes? lexemes = some symbols := by
  have hjoin := h.join [] fresh_nil
  rw [List.append_nil] at hjoin
  rw [hjoin, Symbol.ofLexemes?]
  simp

theorem Writes.ofReserved? {t : Text} {symbols : List Symbol} (h : Writes Stops t symbols) :
    Expression.ofReserved? t = Expression.ofSymbols? symbols := by
  obtain ⟨lexemes, hlexes, hjoins⟩ := h
  unfold Expression.ofReserved?
  rw [hlexes.ofWritten? stops_nil]
  simp [hjoins.ofLexemes?]

theorem Writes.ofWritten? {t : Text} {symbols : List Symbol} (h : Writes Stops t symbols) :
    Expression.ofWritten? t = Expression.ofSymbols? symbols := by
  obtain ⟨lexemes, hlexes, hjoins⟩ := h
  unfold Expression.ofWritten? Symbol.ofWritten?
  rw [hlexes.ofWritten? stops_nil]
  simp [map_plain hjoins.near_not_mem, hjoins.ofLexemes?]

/-- A null character leaves a quoted text without its end. -/
theorem Writes.ofText?_of_mem {t : Text} {symbols : List Symbol} (h : Writes Stops t symbols)
    (hnull : '\x00' ∈ t) : Expression.ofText? t = none := by
  obtain ⟨lexemes, hlexes, -⟩ := h
  have hcut : Lexeme.ofWritten? (upToNull t) = none := hlexes.cut hnull
  unfold Expression.ofText? Expression.ofWritten? Symbol.ofWritten?
  rw [hcut]
  rfl

theorem ofText?_of_not_mem {t : Text} (hnull : '\x00' ∉ t) :
    Expression.ofText? t = Expression.ofWritten? t := by
  unfold Expression.ofText?
  rw [upToNull_of_not_mem hnull]

end MailIndex.Match
