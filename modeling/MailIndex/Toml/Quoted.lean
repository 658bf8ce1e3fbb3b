import MailIndex.Text.Scan
import MailIndex.Toml.Scalar

/-!
# Quoted texts of TOML

Quotes give a text with escapes, apostrophes one without. Three of either give a text of several
lines, whose first line break is dropped.
-/

namespace MailIndex.Toml

open Text

def isPrintable (c : Char) : Bool := c = '\t' || (0x20 ≤ c.val && c.val ≠ 0x7f)

def lineBreak? : Text → Option Text
  | '\n' :: rest => some rest
  | '\r' :: '\n' :: rest => some rest
  | _ => none

def isIndent (c : Char) : Bool := c = ' ' || c = '\t'

def skipIndent (t : Text) : Text := t.dropWhile isIndent

def readCode? (width : Nat) (t : Text) : Option (Char × Text) :=
  let ds := (t.take width).takeWhile (isDigitIn 16)
  let code := valueIn 16 ds
  if ds.length = width ∧ code.isValidChar then some (Char.ofNat code, t.drop width) else none

def readEscape? : Text → Option (Char × Text)
  | 'b' :: rest => some ('\x08', rest)
  | 't' :: rest => some ('\t', rest)
  | 'n' :: rest => some ('\n', rest)
  | 'f' :: rest => some ('\x0c', rest)
  | 'r' :: rest => some ('\r', rest)
  | '"' :: rest => some ('"', rest)
  | '\\' :: rest => some ('\\', rest)
  | 'u' :: rest => readCode? 4 rest
  | 'U' :: rest => readCode? 8 rest
  | _ => none

/-- The rest of a text on one line, up to its closing mark; `done` holds it in reverse. -/
def readLineText (mark : Char) (escapes : Bool) (done : Text) : Nat → Text → Option (Text × Text)
  | 0, _ => none
  | fuel + 1, t =>
    match t with
    | [] => none
    | c :: rest =>
      if c = mark then some (done.reverse, rest)
      else if c = '\\' ∧ escapes then
        match readEscape? rest with
        | some (c, rest) => readLineText mark escapes (c :: done) fuel rest
        | none => none
      else if isPrintable c then readLineText mark escapes (c :: done) fuel rest
      else none

/-- The text after white space and line breaks, a return counting only before a line feed. -/
def skipLayout : Text → Text
  | '\r' :: '\n' :: rest => skipLayout rest
  | c :: rest => if isIndent c || c = '\n' then skipLayout rest else c :: rest
  | [] => []

/-- The text after a backslash that ends a line: the line break and all layout after it go. -/
def skipFoldedBreak? (t : Text) : Option Text := (lineBreak? (skipIndent t)).map skipLayout

/-- The rest of a text of several lines, up to three closing marks. Up to two marks may stand
directly before those. -/
def readLinesText (mark : Char) (escapes : Bool) (done : Text) : Nat → Text → Option (Text × Text)
  | 0, _ => none
  | fuel + 1, t =>
    match t with
    | [] => none
    | c :: rest =>
      if c = mark then
        let run := (t.takeWhile (· = mark)).length
        if run < 3 then readLinesText mark escapes (c :: done) fuel rest
        else
          let kept := min (run - 3) 2
          some (done.reverse ++ List.replicate kept mark, t.drop (kept + 3))
      else if c = '\\' ∧ escapes then
        match readEscape? rest with
        | some (c, rest) => readLinesText mark escapes (c :: done) fuel rest
        | none =>
          match skipFoldedBreak? rest with
          | some rest => readLinesText mark escapes done fuel rest
          | none => none
      else
        match lineBreak? t with
        | some rest => readLinesText mark escapes ('\n' :: done) fuel rest
        | none =>
          if isPrintable c then readLinesText mark escapes (c :: done) fuel rest else none

def readShortText? : Text → Option (Text × Text)
  | '"' :: rest => readLineText '"' true [] (rest.length + 1) rest
  | '\'' :: rest => readLineText '\'' false [] (rest.length + 1) rest
  | _ => none

def readQuoted? : Text → Option (Text × Text)
  | '"' :: '"' :: '"' :: rest =>
    let body := (lineBreak? rest).getD rest
    readLinesText '"' true [] (body.length + 1) body
  | '\'' :: '\'' :: '\'' :: rest =>
    let body := (lineBreak? rest).getD rest
    readLinesText '\'' false [] (body.length + 1) body
  | t => readShortText? t

end MailIndex.Toml
