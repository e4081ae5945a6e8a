import QfsClient.Jansson.Load

/-!
# Errors

`Error` is what `util::getError` returns: a code and the detail its caller hands it. `util` is
not among the sources, so a detail is kept as the parts it is built from instead of as
formatted text: a path, a directory or a name; or, from `util::buildJsonErrorDetails`, a
reason and the response text it was found in. A reason is jansson's diagnostic, a fixed text
of the source, or the code and message `util::getApiError` is given.
-/

namespace QfsClient

/-- `CommandError`, the enumeration a response's `ErrorCode` is cast to. Its values are
32-bit, which is what the cast of a `json_int_t` keeps. -/
abbrev CommandError := BitVec 32

/-- `kCmdOk`, modelled from the spec: an `ErrorCode` of 0 means success. -/
def kCmdOk : CommandError := 0

inductive Reason
  | decode (e : DecodeError)
  | text (s : Bytes)
  | api (code : CommandError) (message : Option Bytes)
  deriving DecidableEq

inductive Detail
  | none
  | text (s : Bytes)
  | json (reason : Reason) (response : Bytes)
  deriving DecidableEq

structure Error where
  code : ErrorCode
  detail : Detail
  deriving DecidableEq

/-- `util::getError(code)` and `util::getError(code, detail)`. -/
def getError (code : ErrorCode) (detail : Detail) : Error := ⟨code, detail⟩

@[simp]
theorem getError_code (code : ErrorCode) (detail : Detail) : (getError code detail).code = code :=
  rfl

end QfsClient
