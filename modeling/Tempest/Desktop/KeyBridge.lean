import Tempest.Desktop.BrowserUrl

/-!
# KeyBridge — the provider keys behind `/api/keys` (`platform_web.rs`, `keychain.rs`)

A key is stored in the keychain under the environment variable of its provider; the one item of an
older install, `anthropic`, still counts for `ANTHROPIC_API_KEY`.  `keysResponse` answers a request,
`engineEnv` is what the engine is started with, and `Action.request` is what the client and its
browser make of a click.  The faults of the keychain are data of a request.
-/

namespace Tempest
namespace KeyBridge

open Python BrowserUrl

/-! ## Requests and answers -/

structure Provider where
  endpointKey : PyStr
  /-- The environment variable of its key; empty for a local runner. -/
  keyEnv : PyStr

abbrev Catalog := List Provider

inductive Method where
  | get | put | post | delete
  | other (name : PyStr)

structure Request where
  method : Method
  route : PyStr
  query : PyStr
  /-- What `serde_json` reads from the body. -/
  body : Option Json

inductive Refusal where
  /-- `the name parameter is required`. -/
  | nameRequired
  /-- `no keyed provider named {endpoint_key:?}`. -/
  | noProvider (endpointKey : PyStr)
  /-- `the key payload is not JSON`. -/
  | notJson
  /-- `an empty key was refused`. -/
  | emptyKey
  | keychain (error : PyStr)
  /-- `method {other} is not part of the key bridge`. -/
  | method (name : PyStr)
  deriving DecidableEq

inductive Body where
  | empty
  /-- `{"expiresAt":"never"}`, or `null` for `"never"`. -/
  | expiresAt (never : Bool)
  | error (refusal : Refusal)
  deriving DecidableEq

structure Response where
  status : Nat
  body : Body
  deriving DecidableEq

/-! ## The keychain -/

/-- The items under the service, by account. -/
abbrev Keychain := Dict PyStr PyStr

/-- What the system answers to the operations of a request, by account. -/
structure Faults where
  read : PyStr → Option PyStr
  store : PyStr → Option PyStr
  clear : PyStr → Option PyStr
  /-- `item.delete()` fails; nothing looks at its result. -/
  stays : PyStr → Bool
  accounts : Bool

variable (f : Faults)

def legacyAccount : PyStr := lit "anthropic"

def anthropicAccount : PyStr := lit "ANTHROPIC_API_KEY"

def Faults.readKey (kc : Keychain) (account : PyStr) : Except PyStr (Option PyStr) :=
  match f.read account with
  | some error => .error error
  | none => .ok (kc.get? account)

/-- `matches!(read(…), Ok(Some(_)))`. -/
def Faults.holds (kc : Keychain) (account : PyStr) : Bool :=
  match f.readKey kc account with
  | .ok (some _) => true
  | _ => false

def Faults.storeKey (kc : Keychain) (account key : PyStr) : Except PyStr Keychain :=
  match f.store account with
  | some error => .error error
  | none => .ok (kc.set account key)

/-- `clear`: an item that is not there is clear already. -/
def Faults.clearKey (kc : Keychain) (account : PyStr) : Except PyStr Keychain :=
  match f.clear account with
  | some error => .error error
  | none => .ok (if f.stays account then kc else kc.filterKeys fun other => other ≠ account)

/-! ## Reading a request -/

/-- `str::trim`. -/
def isWhiteSpace (c : CodePoint) : Bool :=
  (0x9 ≤ c.val && c.val ≤ 0xD) || c.val = 0x20 || c.val = 0x85 || c.val = 0xA0 || c.val = 0x1680 ||
    (0x2000 ≤ c.val && c.val ≤ 0x200A) || c.val = 0x2028 || c.val = 0x2029 || c.val = 0x202F ||
    c.val = 0x205F || c.val = 0x3000

def trim (s : PyStr) : PyStr :=
  ((s.dropWhile isWhiteSpace).reverse.dropWhile isWhiteSpace).reverse

-- `serde_json::from_str`
variable (readJson : PyStr → Option Json)

/-- `.get(name).and_then(as_str)`. -/
def stringField (name : PyStr) : Json → Option PyStr
  | .obj fields =>
    match fields.lookup name with
    | some (.str text) => some text
    | _ => none
  | _ => none

def keyFromDialogValue (value : PyStr) : PyStr :=
  match (readJson value).bind (stringField (lit "apiKey")) with
  | some apiKey => trim apiKey
  | none => trim value

def hexDigit (b : Byte) : Option Nat :=
  if 0x30 ≤ b.val ∧ b.val ≤ 0x39 then some (b.val - 0x30)
  else if 0x41 ≤ b.val ∧ b.val ≤ 0x46 then some (b.val - 0x37)
  else if 0x61 ≤ b.val ∧ b.val ≤ 0x66 then some (b.val - 0x57)
  else none

/-- `u8::from_str_radix` of two bytes, base 16; a sign may stand for the first digit. -/
def hexByte (high low : Byte) : Option Byte :=
  if high = byte 0x2B then (hexDigit low).map byte
  else
    match hexDigit high, hexDigit low with
    | some h, some l => some (byte (16 * h + l))
    | _, _ => none

def plainByte (b : Byte) : Byte := if b = byte 0x2B then byte 0x20 else b

/-- The loop of `query_param`. -/
def percentDecode : Bytes → Bytes
  | [] => []
  | [b] => [plainByte b]
  | [b, b'] => [plainByte b, plainByte b']
  | b :: high :: low :: rest =>
    if b = byte 0x25 then
      match hexByte high low with
      | some value => value :: percentDecode rest
      | none => b :: percentDecode (high :: low :: rest)
    else plainByte b :: percentDecode (high :: low :: rest)

def ampersand : CodePoint := codePoint 0x26

def equals : CodePoint := codePoint 0x3D

def queryParam (query name : PyStr) : Option PyStr :=
  ((query.splitOn ampersand).find? fun pair => (pair.takeWhile fun c => c ≠ equals) = name).map
    fun pair => decodeReplace (percentDecode (utf8 ((pair.dropWhile fun c => c ≠ equals).drop 1)))

def keysRoute : PyStr := lit "/api/keys/"

def trimStartFrom : Nat → PyStr → PyStr
  | 0, s => s
  | fuel + 1, s => if startsWith keysRoute s then trimStartFrom fuel (s.drop keysRoute.length) else s

/-- `route.trim_start_matches("/api/keys/")`. -/
def trimKeysRoute (route : PyStr) : PyStr := trimStartFrom route.length route

def envFor (catalog : Catalog) (endpointKey : PyStr) : Option PyStr :=
  (catalog.find? fun p => p.endpointKey = endpointKey ∧ p.keyEnv ≠ []).map Provider.keyEnv

/-! ## Answers -/

def refuse (status : Nat) (refusal : Refusal) : Response := ⟨status, .error refusal⟩

/-- `Ok(())` is `status` with an empty body, an error of the keychain a 500; what was done before the
error stays done. -/
def settle (status : Nat) (kc : Keychain) : Except PyStr Keychain → Response × Keychain
  | .ok kc => (⟨status, .empty⟩, kc)
  | .error error => (refuse 500 (.keychain error), kc)

def getKey (catalog : Catalog) (kc : Keychain) (query : PyStr) : Response :=
  match queryParam query (lit "name") with
  | none => refuse 422 .nameRequired
  | some name =>
    match envFor catalog name with
    | none => refuse 404 (.noProvider name)
    | some env =>
      match f.readKey kc env with
      | .error error => refuse 500 (.keychain error)
      | .ok (some _) => ⟨200, .expiresAt true⟩
      -- the single item of an older install answers for its provider
      | .ok none => ⟨200, .expiresAt (env = anthropicAccount && f.holds kc legacyAccount)⟩

/-- The legacy item goes with the one of `ANTHROPIC_API_KEY`. -/
def clearLegacy (env : PyStr) (kc : Keychain) : Except PyStr Keychain :=
  if env = anthropicAccount then f.clearKey kc legacyAccount else .ok kc

def putKey (catalog : Catalog) (kc : Keychain) (body : Option Json) : Response × Keychain :=
  match body with
  | none => (refuse 422 .notJson, kc)
  | some parsed =>
    let name := (stringField (lit "name") parsed).getD []
    let value := (stringField (lit "value") parsed).getD []
    match envFor catalog name with
    | none => (refuse 404 (.noProvider name), kc)
    | some env =>
      let key := keyFromDialogValue readJson value
      if key = [] then (refuse 422 .emptyKey, kc)
      else
        match f.storeKey kc env key with
        | .error error => (refuse 500 (.keychain error), kc)
        | .ok kc => settle 201 kc (clearLegacy f env kc)

/-- `let _ = clear(…)`. -/
def clearIgnored (kc : Keychain) (account : PyStr) : Keychain :=
  match f.clearKey kc account with
  | .ok kc => kc
  | .error _ => kc

def envs (catalog : Catalog) : List PyStr :=
  (catalog.map Provider.keyEnv).filter fun env => env ≠ []

def deleteAll (catalog : Catalog) (kc : Keychain) : Keychain :=
  clearIgnored f ((envs catalog).foldl (clearIgnored f) kc) legacyAccount

def deleteKey (catalog : Catalog) (kc : Keychain) (route query : PyStr) : Response × Keychain :=
  if queryParam query (lit "all") = some (lit "true") then (⟨204, .empty⟩, deleteAll f catalog kc)
  else
    let endpointKey := trimKeysRoute route
    match envFor catalog endpointKey with
    | none => (refuse 404 (.noProvider endpointKey), kc)
    | some env =>
      match f.clearKey kc env with
      | .error error => (refuse 500 (.keychain error), kc)
      | .ok kc => settle 204 kc (clearLegacy f env kc)

/-- `keys_response`, for a catalog that could be fetched. -/
def keysResponse (catalog : Catalog) (kc : Keychain) (r : Request) : Response × Keychain :=
  match r.method with
  | .get => (getKey f catalog kc r.query, kc)
  | .put | .post => putKey f readJson catalog kc r.body
  | .delete => deleteKey f catalog kc r.route r.query
  | .other name => (refuse 405 (.method name), kc)

/-! ## The environment of the engine -/

def isEnvAccount (account : PyStr) : Bool :=
  account ≠ [] && account.all fun c =>
    (0x41 ≤ c.val && c.val ≤ 0x5A) || (0x30 ≤ c.val && c.val ≤ 0x39) || c.val = 0x5F

/-- `accounts(service)`. -/
def Faults.accountNames (kc : Keychain) : List PyStr :=
  if f.accounts then [] else kc.keys.insertionSort (· ≤ ·)

def Faults.pair (kc : Keychain) (account env : PyStr) : Option (PyStr × PyStr) :=
  match f.readKey kc account with
  | .ok (some key) => some (env, key)
  | _ => none

def engineEnv (kc : Keychain) : List (PyStr × PyStr) :=
  let accounts := f.accountNames kc
  let pairs := (accounts.filter isEnvAccount).filterMap fun account => f.pair kc account account
  let legacy :=
    if anthropicAccount ∉ pairs.map Prod.fst ∧ legacyAccount ∈ accounts then
      (f.pair kc legacyAccount anthropicAccount).toList
    else []
  (pairs ++ legacy).insertionSort fun p q => p.1 < q.1 ∨ p.1 = q.1 ∧ p.2 ≤ q.2

/-! ## The client -/

inductive Action where
  /-- With `PUT` or `POST`. -/
  | save (post : Bool) (name value : PyStr)
  | check (name : PyStr)
  | revoke (name : PyStr)
  | revokeAll

/-- The request of an action: `userKeyQuery`, `revokeUserKey` and `revokeAllUserKeys` write the name
into the URL as it is, and the browser encodes the URL; a key is saved with a JSON body. -/
def Action.request : Action → Request
  | .save post name value =>
    ⟨if post then .post else .put, lit "/api/keys", [],
      some (.obj [(lit "name", .str name), (lit "value", .str value)])⟩
  | .check name =>
    let url := browserUrl (lit "/api/keys?name=" ++ name)
    ⟨.get, url.1, url.2, none⟩
  | .revoke name =>
    let url := browserUrl (keysRoute ++ name)
    ⟨.delete, url.1, url.2, none⟩
  | .revokeAll =>
    let url := browserUrl (lit "/api/keys?all=true")
    ⟨.delete, url.1, url.2, none⟩

end KeyBridge
end Tempest
