import MailIndex.Toml.Node
import MailIndex.Toml.Quoted

/-!
# Reading TOML

A document is a sequence of lines: a key with its value, a header that opens a table, a header in
double brackets that opens one more table of a list, or nothing. Each may end in a comment.
-/

namespace MailIndex.Toml

open Text

/-- How deep values may nest, and how many parts a dotted key may have. -/
def depthLimit : Nat := 79

def isKeyChar (c : Char) : Bool := c.isAlphanum || c = '_' || c = '-'

def readKeyPart? (t : Text) : Option (Text × Text) :=
  match readShortText? t with
  | some part => some part
  | none =>
    let part := t.takeWhile isKeyChar
    if part.isEmpty then none else some (part, t.drop part.length)

/-- The parts of a dotted key, spaces allowed around the dots. -/
def readKeyFrom (done : List Text) : Nat → Text → Option (List Text × Text)
  | 0, _ => none
  | fuel + 1, t =>
    match readKeyPart? (skipIndent t) with
    | none => none
    | some (part, rest) =>
      match skipIndent rest with
      | '.' :: rest => readKeyFrom (part :: done) fuel rest
      | rest => some ((part :: done).reverse, rest)

def readKey? (t : Text) : Option (List Text × Text) := readKeyFrom [] depthLimit t

/-- The text after a comment, if there is one; none if it holds a control character. -/
def skipComment? : Text → Option Text
  | '#' :: rest =>
    let rest := rest.dropWhile isPrintable
    if rest.isEmpty ∨ (lineBreak? rest).isSome then some rest else none
  | t => some t

def skipLines? : Nat → Text → Option Text
  | 0, t => some t
  | fuel + 1, t =>
    match skipComment? (skipIndent t) with
    | none => none
    | some rest =>
      match lineBreak? rest with
      | some rest => skipLines? fuel rest
      | none => some rest

def readScalar? (t : Text) : Option (Node × Text) :=
  if ("true".toList).isPrefixOf t then some (.boolean true, t.drop 4)
  else if ("false".toList).isPrefixOf t then some (.boolean false, t.drop 5)
  else
    match readQuoted? t with
    | some (text, rest) => some (.text text, rest)
    | none =>
      match skipMoment? t with
      | some rest => some (.moment, rest)
      | none =>
        match skipReal? t with
        | some rest => some (.real, rest)
        | none => (readInteger? t).map fun (n, rest) => (.integer n, rest)

def readElements (read : Text → Option (Node × Text)) (done : List Node) :
    Nat → Text → Option (Node × Text)
  | 0, _ => none
  | fuel + 1, t =>
    match skipLines? t.length t with
    | none => none
    | some (']' :: rest) => some (.list done.reverse, rest)
    | some t =>
      match read t with
      | none => none
      | some (node, rest) =>
        match skipLines? rest.length rest with
        | some (',' :: rest) => readElements read (node :: done) fuel rest
        | some (']' :: rest) => some (.list (node :: done).reverse, rest)
        | _ => none

def readPair? (read : Text → Option (Node × Text)) (t : Text) :
    Option ((List Text × Node) × Text) := do
  let (key, rest) ← readKey? t
  let rest ← readChar? '=' rest
  let (node, rest) ← read (skipIndent rest)
  some ((key, node), skipIndent rest)

def readMembers (read : Text → Option (Node × Text)) (done : Table) :
    Nat → Text → Option (Node × Text)
  | 0, _ => none
  | fuel + 1, t =>
    match readPair? read t with
    | none => none
    | some ((key, node), rest) =>
      match done.define key node with
      | none => none
      | some done =>
        match rest with
        | ',' :: rest => readMembers read done fuel rest
        | '\x7d' :: rest => some (.table .inline done, rest)
        | _ => none

/-- A value in which lists and inline tables nest at most `depth` deep. -/
def readValue? : Nat → Text → Option (Node × Text)
  | 0, t => readScalar? t
  | depth + 1, t =>
    match t with
    | '[' :: rest => readElements (readValue? depth) [] (rest.length + 1) rest
    | '\x7b' :: rest =>
      match skipIndent rest with
      | '\x7d' :: rest => some (.table .inline [], rest)
      | rest => readMembers (readValue? depth) [] (rest.length + 1) rest
    | t => readScalar? t

def endLine? (t : Text) : Option Text := do
  let rest ← skipComment? (skipIndent t)
  if rest.isEmpty then some [] else lineBreak? rest

/-- A document while it is read: what has been defined, and the header that is open. -/
structure Reading where
  root : Table
  header : List Text

def Reading.line? (r : Reading) : Text → Option (Reading × Text)
  | '[' :: '[' :: rest => do
    let (path, rest) ← readKey? rest
    let rest ← readChar? ']' rest
    let rest ← readChar? ']' rest
    let root ← r.root.openElement path
    some (⟨root, path⟩, rest)
  | '[' :: rest => do
    let (path, rest) ← readKey? rest
    let rest ← readChar? ']' rest
    let root ← r.root.openHeader path
    some (⟨root, path⟩, rest)
  | t => do
    let ((key, node), rest) ← readPair? (readValue? depthLimit) t
    let root ← r.root.defineUnder r.header key node
    some (⟨root, r.header⟩, rest)

def Reading.lines? : Nat → Reading → Text → Option Table
  | 0, _, _ => none
  | fuel + 1, r, t =>
    match skipLines? t.length t with
    | none => none
    | some [] => some r.root
    | some t =>
      match r.line? t with
      | none => none
      | some (r, rest) =>
        match endLine? rest with
        | none => none
        | some rest => lines? fuel r rest

/-- The tables and values of a document, which may start with a byte order mark. -/
def parse? (document : Text) : Option Table :=
  let t := match document with
    | '\ufeff' :: rest => rest
    | t => t
  Reading.lines? (t.length + 1) ⟨[], []⟩ t

end MailIndex.Toml
