import Mathlib.Tactic.Common

/-!
# Responses

What the daemon sends to the host: a response has a result and a message.
-/

namespace RpiFastbootd

inductive FastbootResult
  | okay
  | fail
  | info
  | data
  deriving DecidableEq, Repr

structure Response where
  result : FastbootResult
  message : String
  deriving DecidableEq, Repr

/-- The response ends its command. -/
def Response.terminal (r : Response) : Bool := r.result = .okay ∨ r.result = .fail

/-- There is an OKAY among the replies to a command. -/
def okay (replies : List Response) : Bool := replies.any (·.result = .okay)

end RpiFastbootd
