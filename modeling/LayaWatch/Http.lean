import LayaWatch.Python

/-!
# Errors of the HTTP layer

`HttpError` of `http/types.py`: what a handler raises and the router renders. A
message is kept as the pieces of its format string, so that a `{..!r}` stands as
the value it shows.
-/

namespace LayaWatch

/-- A piece of a message. -/
inductive Piece where
  /-- literal text -/
  | text (s : PyStr)
  /-- a string shown as it is, `{..}` -/
  | str (s : PyStr)
  /-- a string shown quoted, `{..!r}` -/
  | repr (s : PyStr)
  deriving DecidableEq

/-- `HttpError`. -/
structure HttpError where
  /-- `status` -/
  status : ℕ
  /-- `code` -/
  code : PyStr
  /-- `message` -/
  message : List Piece
  /-- `details` -/
  details : Option Fields := none

namespace HttpError

/-- An error with a fixed message. -/
def plain (status : ℕ) (code message : String) : HttpError :=
  ⟨status, py code, [.text (py message)], none⟩

/-- What `Router.dispatch` makes of any other exception. -/
def unhandled : HttpError := .plain 500 "internal_error" "internal server error"

/-- `_bad`: a request field is not as it should be. -/
def bad (field : PyStr) (message : List Piece) : HttpError :=
  ⟨400, py "invalid_request", message, some [(py "field", .str field)]⟩

end HttpError

end LayaWatch
