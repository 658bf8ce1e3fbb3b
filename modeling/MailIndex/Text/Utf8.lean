import MailIndex.Text.Range

/-!
# Text as bytes

Encoding as UTF-8, and a reading of arbitrary bytes in which a byte that belongs to no well-formed
sequence stands for itself.
-/

namespace MailIndex.Text

def toBytes (t : Text) : List UInt8 := t.flatMap String.utf8EncodeChar

theorem toBytes_append (s t : Text) : toBytes (s ++ t) = toBytes s ++ toBytes t := by
  simp [toBytes]

def continuation? (b : UInt8) : Option Nat :=
  if 0x80 ≤ b.toNat ∧ b.toNat < 0xc0 then some (b.toNat - 0x80) else none

/-- The character with a given code, if `least` does not exceed it and it is a Unicode scalar. -/
def scalar? (least code : Nat) : Option Char :=
  if least ≤ code ∧ code.isValidChar then some (Char.ofNat code) else none

/-- Bytes read as UTF-8: `none` stands for a byte outside any well-formed sequence. -/
def ofBytes : List UInt8 → List (Option Char)
  | [] => []
  | a :: rest =>
    if a.toNat < 0x80 then some (Char.ofNat a.toNat) :: ofBytes rest
    else
      match rest with
      | [] => none :: ofBytes []
      | b :: rest₁ =>
        match pair? a b with
        | some c => some c :: ofBytes rest₁
        | none =>
          match rest₁ with
          | [] => none :: ofBytes (b :: [])
          | c :: rest₂ =>
            match triple? a b c with
            | some x => some x :: ofBytes rest₂
            | none =>
              match rest₂ with
              | [] => none :: ofBytes (b :: c :: [])
              | d :: rest₃ =>
                match quadruple? a b c d with
                | some x => some x :: ofBytes rest₃
                | none => none :: ofBytes (b :: c :: d :: rest₃)
termination_by bytes => bytes.length
where
  /-- A character of two bytes. -/
  pair? (a b : UInt8) : Option Char := do
    let low ← continuation? b
    if 0xc0 ≤ a.toNat ∧ a.toNat < 0xe0 then scalar? 0x80 ((a.toNat - 0xc0) * 64 + low) else none
  /-- A character of three bytes. -/
  triple? (a b c : UInt8) : Option Char := do
    let middle ← continuation? b
    let low ← continuation? c
    if 0xe0 ≤ a.toNat ∧ a.toNat < 0xf0 then
      scalar? 0x800 (((a.toNat - 0xe0) * 64 + middle) * 64 + low)
    else none
  /-- A character of four bytes. -/
  quadruple? (a b c d : UInt8) : Option Char := do
    let high ← continuation? b
    let middle ← continuation? c
    let low ← continuation? d
    if 0xf0 ≤ a.toNat ∧ a.toNat < 0xf8 then
      scalar? 0x10000 ((((a.toNat - 0xf0) * 64 + high) * 64 + middle) * 64 + low)
    else none

def ofBytes? (bytes : List UInt8) : Option Text := (ofBytes bytes).mapM id

end MailIndex.Text
