/-!
# Error codes and exceptions

`PktException` and its error codes from `util.h`. A call can also run into undefined behaviour
(a copy that leaves its memory); `Stop` is the sum of the two ways a call ends early.
-/

namespace Netter

/-- `ERROR_CODE_WRONG_PKT_LEN` (1), `ERROR_CODE_PARSE_FAILED` (2), `ERROR_CODE_UNKNOWN_PKT_ID` (3). -/
inductive ErrorCode where
  | wrongPktLen
  | parseFailed
  | unknownPktId
  deriving DecidableEq

structure PktException where
  errorCode : ErrorCode
  errorMsg : String
  deriving DecidableEq

inductive Stop where
  /-- A C++ exception. -/
  | throws (ex : PktException)
  /-- An access outside of the memory it was made for. -/
  | undefined
  deriving DecidableEq

/-- What an access gives that is undefined behaviour when it is `none`. -/
def Stop.ofOption {α : Type} : Option α → Except Stop α
  | some a => .ok a
  | none => .error .undefined

end Netter
