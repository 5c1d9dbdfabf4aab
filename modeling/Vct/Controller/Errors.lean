import Mathlib.Data.List.Basic

namespace Vct.Controller.Errors

/-- An argument of a `fmt.Errorf` format other than the wrapped error. -/
inductive FmtArg
  | str (s : List Char)
  | int (n : Int)
  | quoted (s : List Char)
  | bytes (b : List UInt8)
  | byteSlices (bs : List (List UInt8))
  deriving DecidableEq, Repr

/-- The gRPC status codes that `statusCodeFromRPCError` distinguishes. -/
inductive Code
  | ok | canceled | unknown | invalidArgument | deadlineExceeded | notFound
  | alreadyExists | permissionDenied | resourceExhausted | failedPrecondition
  | aborted | outOfRange | unimplemented | internal | unavailable | dataLoss
  | unauthenticated
  deriving DecidableEq, Repr

/-- The PostgreSQL conditions the storage layer runs into: a duplicate primary key, a
missing referenced row, a PL/pgSQL function that handled an error and then ran off
its end without `RETURN`, a value too large for an `INTEGER` column, a text that is no
label of an enum type, and a text longer than its `VARCHAR` column. -/
inductive SqlState
  | uniqueViolation
  | foreignKeyViolation
  | functionEndedWithoutReturn
  | numericValueOutOfRange
  | invalidTextRepresentation
  | stringDataRightTruncation
  deriving DecidableEq, Repr

/-- A Go `error`: `errors.New`, `fmt.Errorf` without and with a `%w` verb, a
`*StatusErr` carrying an HTTP status, a gRPC status error, an error of the database
driver, or a runtime panic (a nil dereference or an index out of range), which
`net/http` recovers. -/
inductive GoError
  | new (text : String)
  | errorf (format : String) (args : List FmtArg)
  | wrapf (format : String) (args : List FmtArg) (inner : GoError)
  | statusErr (status : Nat) (inner : GoError)
  | grpc (code : Code) (format : String) (args : List FmtArg)
  | db (state : SqlState)
  | panic (reason : String)
  deriving DecidableEq, Repr

def newStatusInternalServerError (err : GoError) : GoError := .statusErr 500 err

def newBadRequestError (err : GoError) : GoError := .statusErr 400 err

def newNotFoundError (err : GoError) : GoError := .statusErr 404 err

def newUnauthorizedError (err : GoError) : GoError := .statusErr 401 err

def errValidation : GoError := newBadRequestError (.new "validation failed")

def errBadRequest : GoError := newBadRequestError (.new "bad request")

def errNotFound : GoError := newNotFoundError (.new "not found")

def errInternal : GoError := newStatusInternalServerError (.new "internal error")

def statusCodeFromRPCError : Code → Nat
  | .ok => 200
  | .canceled | .deadlineExceeded => 408
  | .invalidArgument | .outOfRange | .alreadyExists => 400
  | .notFound => 404
  | .permissionDenied | .resourceExhausted => 403
  | .unauthenticated => 401
  | .failedPrecondition => 412
  | .aborted => 409
  | .unimplemented => 501
  | .unavailable => 503
  | _ => 500

/-- `StatusCodeFromError`: the status of the first `*StatusErr` or gRPC status on
the `%w` chain, and 500 when there is none. -/
def statusCodeFromError : GoError → Nat
  | .statusErr status _ => status
  | .grpc code _ _ => statusCodeFromRPCError code
  | .wrapf _ _ inner => statusCodeFromError inner
  | .new _ | .errorf _ _ | .db _ | .panic _ => 500

@[simp] theorem statusCodeFromError_wrapf (format : String) (args : List FmtArg)
    (inner : GoError) :
    statusCodeFromError (.wrapf format args inner) = statusCodeFromError inner := rfl

end Vct.Controller.Errors
