import Courier.ReceiptSigner

/-!
# Signed calls between hosts

A client signs the content of a call and sends it with a key of its own; the server checks the bearer token
and the signature, answers from its cache if it has the key there, and hands the request to its handler
otherwise.  The key is not part of what is signed.
-/

namespace Courier.Rpc

open Calendar Json Receipts Text

structure RPCRequest where
  eventType : Json
  itemId : Json
  payload : Json
  idempotencyKey : Json
  signature : Json
  signedAt : Json
  deriving DecidableEq

structure RPCResponse where
  statusCode : Nat
  data : Members := []
  error : Str := []
  isCached : Bool := false
  deriving DecidableEq

/-- What a call is about, with its keys in order. -/
def canonicalContent (eventType itemId payload : Json) : Members :=
  [(text "event_type", eventType), (text "item_id", itemId), (text "payload", payload)]

def RPCRequest.content (req : RPCRequest) : Members :=
  canonicalContent req.eventType req.itemId req.payload

def requestOf (body : Members) : RPCRequest where
  eventType := (body.lookup (text "event_type")).getD (.str [])
  itemId := (body.lookup (text "item_id")).getD (.str [])
  payload := (body.lookup (text "payload")).getD (.obj [])
  idempotencyKey := get body (text "idempotency_key")
  signature := (body.lookup (text "signature")).getD (.str [])
  signedAt := (body.lookup (text "signed_at")).getD (.str [])

/-- What the signer is given of a request, with its keys in order. -/
def RPCRequest.receipt (req : RPCRequest) : Members :=
  [(text "payload", .obj req.content), (text "signature", req.signature), (text "signed_at", req.signedAt)]

/-! ### The server -/

structure Served where
  request : RPCRequest
  answer : Members
  deriving DecidableEq

/-- The cache of a server; and how often its handler was called, and which calls of it returned. -/
structure Memory where
  idempotencyCache : List (Json × RPCResponse) := []
  calls : Nat := 0
  served : List Served := []
  deriving DecidableEq

/-- The settings of a server.  Without a handler it acknowledges; a handler may answer every time differently,
or raise an exception with a text. -/
structure RPCServer where
  authToken : Str
  secretKey : Str
  handlerFn : Option (Nat → RPCRequest → Except Str Members) := none

/-- The equality of keys that are no texts: of numbers and Booleans it is not the one of values. -/
class OtherKeys where
  same : Json → Json → Bool

/-- Keys to evaluate examples on. -/
@[reducible]
def OtherKeys.plain : OtherKeys where
  same a b := a == b

/-- `a == b`, of keys of a dictionary. -/
def sameKey [OtherKeys] : Json → Json → Bool
  | .str s, .str t => s = t
  | .str _, _ => false
  | _, .str _ => false
  | a, b => OtherKeys.same a b

/-- What is cached for a key, if anything is.  A list or an object that is not empty is no key. -/
def Memory.cached [OtherKeys] (m : Memory) (idemKey : Json) : Except Exc (Option RPCResponse) :=
  if !truthy idemKey then .ok none
  else match idemKey with
  | .arr _ | .obj _ => .error .typeError
  | key => .ok ((m.idempotencyCache.find? fun entry => sameKey key entry.1).map Prod.snd)

namespace RPCServer

def signer (server : RPCServer) : ReceiptSigner where
  secretKey := server.secretKey

/-- The authorization that a request has to present. -/
def expectedAuth (server : RPCServer) : Str :=
  text "Bearer " ++ server.authToken

def handle (server : RPCServer) (calls : Nat) (req : RPCRequest) : Except Str Members :=
  match server.handlerFn with
  | some handlerFn => handlerFn calls req
  | none => .ok [(text "item_id", req.itemId), (text "status", .str (text "ACK"))]

def dispatch (server : RPCServer) (req : RPCRequest) (m : Memory) : RPCResponse × Memory :=
  match server.handle m.calls req with
  | .ok resData =>
      let resp : RPCResponse := { statusCode := 200, data := resData }
      (resp,
        { idempotencyCache :=
            if truthy req.idempotencyKey then (req.idempotencyKey, resp) :: m.idempotencyCache
            else m.idempotencyCache
          calls := m.calls + 1
          served := ⟨req, resData⟩ :: m.served })
  | .error exc => ({ statusCode := 500, error := exc }, { m with calls := m.calls + 1 })

end RPCServer

/-- `headers.get("Authorization") or headers.get("authorization") or ""`. -/
def authHeader (headers : List (Str × Str)) : Str :=
  match headers.lookup (text "Authorization") with
  | some (c :: s) => c :: s
  | _ => (headers.lookup (text "authorization")).getD []

namespace RPCServer

variable [Surroundings] [OtherKeys]

def handleRequest (server : RPCServer) (headers : List (Str × Str)) (body : Members) (now : DateTime)
    (m : Memory) : Except Exc RPCResponse × Memory :=
  if authHeader headers ≠ server.expectedAuth then
    (.ok
      { statusCode := 401
        error := text "UNAUTHORIZED: Invalid or missing bearer authentication token" }, m)
  else match server.signer.verifyDict (requestOf body).receipt now with
  | .error why => (.error why, m)
  | .ok vRes =>
      if !vRes.isValid then
        (.ok { statusCode := 403, error := text "SIGNATURE_MISMATCH: " ++ vRes.reason.name }, m)
      else match m.cached (requestOf body).idempotencyKey with
      | .error why => (.error why, m)
      | .ok (some cached) => (.ok { cached with isCached := true }, m)
      | .ok none =>
          let answered := server.dispatch (requestOf body) m
          (.ok answered.1, answered.2)

end RPCServer

/-! ### The client -/

/-- A call of `send_event`, with the time at which it is signed. -/
structure Call where
  eventType : Str
  itemId : Str
  payload : Members
  idempotencyKey : Option Str := none
  now : DateTime
  deriving DecidableEq

namespace Call

/-- What the call is about. -/
def content (call : Call) : Members :=
  canonicalContent (.str call.eventType) (.str call.itemId) (.obj call.payload)

def key (call : Call) : Json :=
  call.idempotencyKey.elim .null .str

def signedText (call : Call) : Str :=
  message (.obj call.content) (format call.now)

end Call

structure RPCClient where
  authToken : Str
  secretKey : Str
  maxRetries : Nat := 3

namespace RPCClient

variable [Surroundings]

def signer (client : RPCClient) : ReceiptSigner where
  secretKey := client.secretKey

/-- The headers of every request. -/
def headers (client : RPCClient) : List (Str × Str) :=
  [(text "Authorization", text "Bearer " ++ client.authToken), (text "Content-Type", text "application/json")]

def body (client : RPCClient) (call : Call) : Members :=
  let signed := client.signer.sign (.obj call.content) call.now
  [(text "event_type", .str call.eventType), (text "idempotency_key", call.key),
    (text "item_id", .str call.itemId), (text "payload", .obj call.payload),
    (text "signature", .str signed.signature), (text "signed_at", signed.signedAt)]

variable [OtherKeys]

/-- The loop of `send_event`, with some attempts left, over a server at hand; an exception has some text. -/
def attempts (client : RPCClient) (server : RPCServer) (call : Call) (clock : Nat → DateTime)
    (describe : Exc → Str) : Nat → Option RPCResponse → Memory → Option RPCResponse × Memory
  | 0, lastResp, m => (lastResp, m)
  | left + 1, _, m =>
      match server.handleRequest client.headers (client.body call) (clock left) m with
      | (.ok resp, m') =>
          if resp.statusCode < 500 then (some resp, m')
          else attempts client server call clock describe left (some resp) m'
      | (.error exc, m') =>
          attempts client server call clock describe left
            (some { statusCode := 503, error := text "NETWORK_ERROR: " ++ describe exc }) m'

def sendEvent (client : RPCClient) (server : RPCServer) (call : Call) (clock : Nat → DateTime)
    (describe : Exc → Str) (m : Memory) : RPCResponse × Memory :=
  let (lastResp, m') := client.attempts server call clock describe (max 1 client.maxRetries) none m
  (lastResp.getD { statusCode := 500, error := text "ALL_RETRIES_EXHAUSTED" }, m')

end RPCClient

/-! ### The network -/

/-- What was sent, what the server remembers, and the replies it gave, each with the body it replied to. -/
structure World where
  sent : List Call := []
  memory : Memory := {}
  replies : List (Members × RPCResponse) := []
  deriving DecidableEq

/-- A client sends a call, or the network brings the server some request. -/
inductive Action where
  | send (call : Call)
  | deliver (headers : List (Str × Str)) (body : Members) (now : DateTime)

/-- One step.  Requests are lost, delayed, repeated and edited by what is delivered, and when. -/
def after [Surroundings] [OtherKeys] (server : RPCServer) (w : World) : Action → World
  | .send call => { w with sent := call :: w.sent }
  | .deliver headers body now =>
      match server.handleRequest headers body now w.memory with
      | (.ok resp, m) => { w with memory := m, replies := (body, resp) :: w.replies }
      | (.error _, m) => { w with memory := m }

end Courier.Rpc
