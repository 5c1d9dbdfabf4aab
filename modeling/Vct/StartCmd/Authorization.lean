import Vct.Lib.GoString

namespace Vct.StartCmd.Authorization

open Vct.Lib.GoString

def healthCheckEndpoint : List Char := "/healthcheck".toList

def addVCEndpoint : List Char := "/add-vc".toList

def webFingerEndpoint : List Char := "/.well-known/webfinger".toList

/-- An HTTP request as the filter and the router see it: the path and the raw query
of the request line, and the `Authorization` header (`""` when it is absent). -/
structure Request where
  path : List Char
  rawQuery : Option (List Char)
  authorization : List Char
  deriving DecidableEq, Repr

/-- `r.RequestURI`, the request-target as the client sent it. -/
def Request.requestURI (r : Request) : List Char :=
  match r.rawQuery with
  | none => r.path
  | some query => r.path ++ '?' :: query

/-- The result of `ValidateAuthorizationBearerToken` and the response it writes
when it refuses the request. -/
structure Verdict where
  ok : Bool
  written : Option (Nat × String)
  deriving DecidableEq, Repr

def validateAuthorizationBearerToken (r : Request) (readToken writeToken : List Char) :
    Verdict :=
  if r.requestURI = healthCheckEndpoint || contains r.requestURI webFingerEndpoint then
    ⟨true, none⟩
  else if contains r.requestURI addVCEndpoint && writeToken.isEmpty then
    ⟨true, none⟩
  else
    let token := if contains r.requestURI addVCEndpoint then writeToken else readToken
    if !token.isEmpty && r.authorization != "Bearer ".toList ++ token then
      ⟨false, some (401, "Unauthorised.\n")⟩
    else ⟨true, none⟩

/-- Whether `authorizationMiddleware` passes the request on to the routed handler. -/
def authorizationMiddleware (readToken writeToken : List Char) (r : Request) : Bool :=
  (validateAuthorizationBearerToken r readToken writeToken).ok

/-- The ledger operations of `rest.GetRESTHandlers`, under `/{alias}/v1`. -/
inductive Operation
  | addVC | getSTH | getSTHConsistency | getProofByHash | getEntries | getIssuers
  | getEntryAndProof
  deriving DecidableEq, Repr

def Operation.ofPath (segment : List Char) : Option Operation :=
  if segment = "add-vc".toList then some .addVC
  else if segment = "get-sth".toList then some .getSTH
  else if segment = "get-sth-consistency".toList then some .getSTHConsistency
  else if segment = "get-proof-by-hash".toList then some .getProofByHash
  else if segment = "get-entries".toList then some .getEntries
  else if segment = "get-issuers".toList then some .getIssuers
  else if segment = "get-entry-and-proof".toList then some .getEntryAndProof
  else none

/-- The handlers the router of `startAgent` dispatches to. `ldContext` stands for
the JSON-LD context handlers mounted under `/{alias}/v1` for each ledger. -/
inductive Endpoint
  | healthCheck
  | webfinger
  | ledger (aliasName : List Char) (op : Operation)
  | ldContext (aliasName : List Char) (subPath : List Char)
  deriving DecidableEq, Repr

/-- The route of a path: the fixed paths, `/{alias}/v1/<operation>` with a
non-empty alias free of `/`, and the JSON-LD paths `ldPaths` (from an external
package) under the configured aliases. -/
def route (aliases ldPaths : List (List Char)) (path : List Char) : Option Endpoint :=
  if path = "/healthcheck".toList then some .healthCheck
  else if path = "/.well-known/webfinger".toList then some .webfinger
  else
    let ledgerRoute : Option Endpoint :=
      match path with
      | '/' :: rest =>
          match split rest '/' with
          | [aliasName, version, segment] =>
              if aliasName ≠ [] ∧ version = "v1".toList then
                (Operation.ofPath segment).map (.ledger aliasName)
              else none
          | _ => none
      | _ => none
    ledgerRoute <|> aliases.findSome? fun aliasName =>
      ldPaths.findSome? fun subPath =>
        if path = '/' :: aliasName ++ "/v1".toList ++ subPath then
          some (.ldContext aliasName subPath)
        else none

/-- The access rule stated for the VCT endpoints: discovery and health are open,
`add-vc` needs the write token and everything else under an alias the read token,
each check skipped when its token is empty. -/
def bearerPolicy (readToken writeToken : List Char) (endpoint : Endpoint)
    (authorization : List Char) : Bool :=
  match endpoint with
  | .healthCheck | .webfinger => true
  | .ledger _ .addVC => writeToken.isEmpty || authorization == "Bearer ".toList ++ writeToken
  | .ledger _ _ | .ldContext _ _ =>
      readToken.isEmpty || authorization == "Bearer ".toList ++ readToken

/-- A query string flips the decision: a read endpoint called without a token is
refused, but passes once its query mentions the webfinger path, although the
router sends both requests to the same handler. -/
theorem authorizationMiddleware_query_bypass :
    route [] [] "/maple2021/v1/get-sth".toList = some (.ledger "maple2021".toList .getSTH) ∧
    authorizationMiddleware "read".toList "write".toList
      ⟨"/maple2021/v1/get-sth".toList, some "x=/.well-known/webfinger".toList, []⟩ = true ∧
    authorizationMiddleware "read".toList "write".toList
      ⟨"/maple2021/v1/get-sth".toList, none, []⟩ = false ∧
    bearerPolicy "read".toList "write".toList (.ledger "maple2021".toList .getSTH) [] = false := by
  decide

end Vct.StartCmd.Authorization

