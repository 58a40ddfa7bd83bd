import PayloadSchema.Json.Amount
import PayloadSchema.Tree.Branch

/-!
How many children the nodes of a branch have. The number of arrangements grows with the factorial of that, so
patterns are tested before a search.
-/
namespace PayloadSchema

/-- A limit below zero is no limit. -/
structure FanOutFault where
  limit : Amount
deriving DecidableEq, Repr

def FanOutFault.message (e : FanOutFault) : Text := "limit must be >= 0, got " ++ e.limit.text

/-- The number of children that a limit allows. -/
def fanOutLimit (limit : Amount) : Except FanOutFault Nat :=
  if limit.isBelow 0 then .error ⟨limit⟩ else .ok limit.most

namespace Branch

mutual

/-- Whether some node of the branch has more children than the limit. -/
def isWider (limit : Nat) : Branch → Bool
  | mk node children => limit < node.children.length || anyIsWider limit children
termination_by structural b => b

def anyIsWider (limit : Nat) : List Branch → Bool
  | [] => false
  | b :: rest => isWider limit b || anyIsWider limit rest
termination_by structural bs => bs

end

/-- Whether some node of the branch has more children than a limit allows. -/
def exceedsFanOut (b : Branch) (limit : Amount) : Except FanOutFault Bool :=
  (fanOutLimit limit).map b.isWider

end Branch

end PayloadSchema
