import MailIndex.Glob.Pattern

/-!
# Matching paths

A pattern matches a path as a whole. Matching is written with the rest of the pattern as a
continuation: a piece accepts some bytes if it can take bytes off the front so that the
continuation accepts what is left.
-/

namespace MailIndex.Glob

open Text

def anySuffix (k : List UInt8 → Bool) : List UInt8 → Bool
  | [] => k []
  | b :: rest => k (b :: rest) || anySuffix k rest

def afterSomeSlash (k : List UInt8 → Bool) : List UInt8 → Bool
  | [] => false
  | b :: rest => (b = 0x2f && k rest) || afterSomeSlash k rest

def afterSlash (k : List UInt8 → Bool) : List UInt8 → Bool
  | [] => false
  | b :: rest => b = 0x2f && k rest

def byteRanges (range : Char × Char) : List (UInt8 × UInt8) :=
  let single (bytes : List UInt8) := bytes.map fun b => (b, b)
  if range.1 = range.2 then single (toBytes [range.1])
  else
    let first := toBytes [range.1]
    let last := toBytes [range.2]
    single first.dropLast ++ (first.getLast?.getD 0, last.head?.getD 0) :: single (last.drop 1)

def inClass (ranges : List (Char × Char)) (b : UInt8) : Bool :=
  (ranges.flatMap byteRanges).any fun r => r.1 ≤ b && b ≤ r.2

def afterBytes (expected : List UInt8) (k : List UInt8 → Bool) (bytes : List UInt8) : Bool :=
  expected.isPrefixOf bytes && k (bytes.drop expected.length)

def afterByte (test : UInt8 → Bool) (k : List UInt8 → Bool) : List UInt8 → Bool
  | [] => false
  | b :: rest => test b && k rest

mutual

/-- Whether a piece says nothing at all: braces with nothing in them. -/
def Piece.isVoid : Piece → Bool
  | .branches alternatives => branchesVoid alternatives
  | _ => false

def branchesVoid : List (List Piece) → Bool
  | [] => true
  | branch :: rest => piecesVoid branch && branchesVoid rest

def piecesVoid : List Piece → Bool
  | [] => true
  | p :: rest => p.isVoid && piecesVoid rest

end

mutual

/-- Whether a piece can take bytes off the front so that `k` accepts the rest. -/
def Piece.accepts (k : List UInt8 → Bool) : Piece → List UInt8 → Bool
  | .literal c, bytes => afterBytes (toBytes [c]) k bytes
  | .any, bytes => afterByte (fun _ => true) k bytes
  | .many, bytes => anySuffix k bytes
  | .leading, bytes => k bytes || afterSomeSlash k bytes
  | .trailing, bytes => afterSlash (anySuffix k) bytes
  | .between, bytes => afterSlash (fun rest => k rest || afterSomeSlash k rest) bytes
  | .oneOf negated ranges, bytes => afterByte (fun b => inClass ranges b != negated) k bytes
  | .branches alternatives, bytes =>
    if branchesVoid alternatives then k bytes else acceptsBranch k alternatives bytes

/-- Whether one of the branches that say something accepts. -/
def acceptsBranch (k : List UInt8 → Bool) : List (List Piece) → List UInt8 → Bool
  | [], _ => false
  | branch :: rest, bytes =>
    (!piecesVoid branch && acceptsAll k branch bytes) || acceptsBranch k rest bytes

/-- The pieces one after the other. -/
def acceptsAll (k : List UInt8 → Bool) : List Piece → List UInt8 → Bool
  | [], bytes => k bytes
  | p :: rest, bytes => p.accepts (acceptsAll k rest) bytes

end

end MailIndex.Glob

namespace MailIndex

/-- Whether a pattern matches a path. Two stars alone match every path. -/
def Glob.matches (g : Glob) (path : Text) : Bool :=
  match g.pieces with
  | [.leading] => true
  | pieces => Glob.acceptsAll List.isEmpty pieces (Text.toBytes path)

namespace Glob

/-- The patterns of a list; the first malformed one is reported. -/
def parseAll : List Text → Except Text (List Glob)
  | [] => .ok []
  | t :: rest =>
    match parse t with
    | .error _ => .error t
    | .ok g => (parseAll rest).map (g :: ·)

def anyMatches (globs : List Glob) (path : Text) : Bool := globs.any (·.matches path)

end Glob

end MailIndex
