import MailIndex.Query.Error
import MailIndex.Query.Token

/-!
# The shape of a search

Before a search is translated its ORs and parentheses are looked at as a whole: no OR at either
end, no two ORs in a row, every parenthesis with its partner.
-/

namespace MailIndex.Query

def hasDoubleOr : List Token → Bool
  | .or :: .or :: _ => true
  | _ :: rest => hasDoubleOr rest
  | [] => false

/-- Checks that every parenthesis has its partner, `depth` of them being open already. -/
def checkBalance : Nat → List Token → Except Error Unit
  | 0, [] => .ok ()
  | _ + 1, [] => .error .unclosedGroup
  | depth, .opening :: rest => checkBalance (depth + 1) rest
  | 0, .closing :: _ => .error .unmatchedClosing
  | depth + 1, .closing :: rest => checkBalance depth rest
  | depth, _ :: rest => checkBalance depth rest

def checkShape (tokens : List Token) : Except Error Unit :=
  if tokens.head? = some .or then .error .startsWithOr
  else if tokens.getLast? = some .or then .error .endsWithOr
  else if hasDoubleOr tokens then .error .consecutiveOr
  else checkBalance 0 tokens

theorem checkShape_nil : checkShape [] = .ok () := rfl

end MailIndex.Query
