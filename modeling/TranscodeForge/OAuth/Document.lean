import TranscodeForge.Interaction.Oracle
import TranscodeForge.Text.Url
import Mathlib.Data.List.Infix

namespace TranscodeForge.Cimd

open Interaction Text

abbrev Bytes := List UInt8

-- A name that occurs twice has its last value.
inductive Json where
  | null
  | bool (b : Bool)
  | number (text : Chars)
  | string (text : Chars)
  | array (items : List Json)
  | object (members : List (Chars × Json))

-- Classes of exceptions; `timeLimit` is what `asyncio.timeout` turns into a `TimeoutError` on
-- the way out.
inductive Exception where
  | os
  | timeout
  | timeLimit
  | http
  | value
  | type
  | recursion
  | other (name : String)
deriving DecidableEq, Repr

inductive Raised where
  | document (message : String)
  | exception (e : Exception)
deriving DecidableEq, Repr

inductive IpAddress where
  | v4 (isGlobal isMulticast : Bool)
  | v6 (isGlobal isMulticast : Bool) (ipv4Mapped : Option (Bool × Bool))
deriving DecidableEq, Repr

inductive LoadsError where
  | value
  | recursion
deriving DecidableEq, Repr

-- What the code asks of the standard library.
structure Library where
  url : UrlChecks
  ipAddress : Chars → Option IpAddress
  loads : Bytes → Except LoadsError Json
  isSpace : Char → Bool
  paddedUnsplit : Bool

structure ServerAnswer where
  status : Nat
  chunks : List Bytes
  ending : Option Exception := none
  closing : Option Exception := none
deriving DecidableEq, Repr

-- `address` and `port` are the authority of `url`.
structure PinnedRequest where
  address : Chars
  port : Nat
  url : Chars
  hostHeader : Chars
  sniHostname : Chars
deriving DecidableEq, Repr

inductive Op where
  | resolve (host : Chars)
  | buildRequest (request : PinnedRequest)
  | send (request : PinnedRequest)
deriving DecidableEq, Repr

abbrev Op.Answer : Op → Type
  | .resolve _ => Except Exception (List Chars)
  | .buildRequest _ => Option Exception
  | .send _ => Except Exception ServerAnswer

abbrev Fetch := Program Op Op.Answer Raised

structure ClientDocument where
  clientId : Chars
  clientName : Chars
  redirectUris : List Chars
deriving DecidableEq, Repr

def maxDocumentBytes : Nat := 64 * 1024

def maxName : Nat := 80

variable (lib : Library)

def refuse {α : Type} (message : String) : Except Raised α := .error (.document message)

def checkUrl (url : Chars) : Except Raised SplitResult :=
  match urlsplit lib.url url with
  | none => .error (.exception .value)
  | some parts =>
    if parts.scheme ≠ "https".toList then refuse "client id must be an https URL"
    else if parts.hostname lib.url = none then refuse "client id has no host"
    else if parts.username.getD [] ≠ [] ∨ parts.password.getD [] ≠ [] then
      refuse "client id must not carry credentials"
    else if parts.fragment ≠ [] then refuse "client id must not carry a fragment"
    else .ok parts

def isPublicAddress (text : Chars) : Bool :=
  match lib.ipAddress text with
  | none => false
  | some (.v4 isGlobal isMulticast) => isGlobal && !isMulticast
  | some (.v6 isGlobal isMulticast none) => isGlobal && !isMulticast
  | some (.v6 _ _ (some (isGlobal, isMulticast))) => isGlobal && !isMulticast

namespace Json

def text? : Json → Option Chars
  | .string text => some text
  | _ => none

def get (members : List (Chars × Json)) (key : Chars) : Option Json :=
  (members.reverse.find? fun m => m.1 = key).map Prod.snd

def isText (text : Chars) (value : Json) : Bool := value.text? == some text

end Json

def authorizationCode : Chars := "authorization_code".toList

-- `"authorization_code" in grant_types`.
def allowsCode : Json → Except Exception Bool
  | .array items => .ok (items.any (·.isText authorizationCode))
  | .string text => .ok (authorizationCode <:+: text)
  | .object members => .ok (members.any fun m => m.1 = authorizationCode)
  | .null | .bool _ | .number _ => .error .type

-- The list of non-empty strings, if it is one.
def usableUris : Option Json → Option (List Chars)
  | some (.array items) =>
    if items = [] ∨ items.any fun u => u.text?.getD [] = [] then none
    else some (items.filterMap Json.text?)
  | _ => none

def clientName (name : Option Json) : Chars :=
  match name with
  | some (.string text) => if text.all lib.isSpace then [] else text.take maxName
  | _ => []

def checkGrants : Option Json → Except Raised Unit
  | none | some .null => .ok ()
  | some grants =>
    match allowsCode grants with
    | .error e => .error (.exception e)
    | .ok true => .ok ()
    | .ok false => refuse "document does not allow the authorization code grant"

def checkMembers (members : List (Chars × Json)) (url : Chars) : Except Raised ClientDocument :=
  let field (name : String) := Json.get members name.toList
  if !(field "client_id").any (·.isText url) then
    refuse "document client_id does not equal its URL"
  else if !(field "token_endpoint_auth_method").any (·.isText "none".toList) then
    refuse "document must declare a public client: token_endpoint_auth_method none"
  else
    match usableUris (field "redirect_uris") with
    | none => refuse "document has no usable redirect_uris"
    | some uris => do
      checkGrants (field "grant_types")
      .ok ⟨url, clientName lib (field "client_name"), uris⟩

def parseDocument (body : Bytes) (url : Chars) : Except Raised ClientDocument :=
  match lib.loads body with
  | .error .value => refuse "document is not JSON"
  | .error .recursion => .error (.exception .recursion)
  | .ok (.object members) => checkMembers lib members url
  | .ok _ => refuse "document is not a JSON object"

def readBody : List Bytes → Bytes → Except Raised Bytes
  | [], body => .ok body
  | chunk :: chunks, body =>
    if maxDocumentBytes < (body ++ chunk).length then refuse "document is larger than the limit"
    else readBody chunks (body ++ chunk)

def raiseIf {α : Type} (e : Option Exception) (r : Except Raised α) : Except Raised α :=
  match e with
  | some e => .error (.exception e)
  | none => r

-- The `finally` closes the response last.
def received (answer : ServerAnswer) : Except Raised Bytes :=
  raiseIf answer.closing
    (if answer.status ≠ 200 then refuse ("document request answered " ++ toString answer.status)
    else do
      let body ← readBody answer.chunks []
      raiseIf answer.ending (.ok body))

def exchange (request : PinnedRequest) : Fetch Bytes :=
  .call (.buildRequest request) fun
    | some e => .raise (.exception e)
    | none => .call (.send request) fun
      | .error e => .raise (.exception e)
      | .ok answer => .ofExcept (received answer)

def pinnedRequest (parts : SplitResult) (host pinned : Chars) (port : Nat) : PinnedRequest :=
  let portText := (toString port).toList
  let netloc :=
    if ':' ∈ pinned then '[' :: pinned ++ ']' :: ':' :: portText else pinned ++ ':' :: portText
  let path := if parts.path = [] then ['/'] else parts.path
  { address := pinned
    port := port
    url := urlunsplit lib.paddedUnsplit "https".toList netloc path parts.query
    hostHeader := if port = 443 then host else host ++ ':' :: portText
    sniHostname := host }

def ofHttp : Raised → Fetch Bytes
  | .exception .http => .raise (.document "document could not be fetched")
  | e => .raise e

def resolveHost (host : Chars) : Fetch (List Chars) :=
  .call (.resolve host) fun
    | .error .os | .error .timeout => .raise (.document "client id host does not resolve")
    | .error e => .raise (.exception e)
    | .ok addresses => .ret addresses

def vetted (addresses : List Chars) : Except Raised Chars :=
  match addresses with
  | [] => refuse "client id host does not resolve"
  | pinned :: _ =>
    if addresses.all (isPublicAddress lib) then .ok pinned
    else refuse "client id host resolves to a non-public address"

-- `parts.port or 443`.
def portOf (parts : SplitResult) : Except Raised Nat :=
  match parts.port with
  | none => .error (.exception .value)
  | some none | some (some 0) => .ok 443
  | some (some port) => .ok port

def fetchUnbounded (url : Chars) : Fetch ClientDocument := do
  let parts ← .ofExcept (checkUrl lib url)
  let host := (parts.hostname lib.url).getD []
  let addresses ← resolveHost host
  let pinned ← .ofExcept (vetted lib addresses)
  let port ← .ofExcept (portOf parts)
  let body ← (exchange (pinnedRequest lib parts host pinned port)).rescue ofHttp
  .ofExcept (parseDocument lib body url)

def ofTimeout : Raised → Fetch ClientDocument
  | .exception .timeLimit | .exception .timeout =>
    .raise (.document "document fetch exceeded the time limit")
  | e => .raise e

def fetchDocument (url : Chars) : Fetch ClientDocument := (fetchUnbounded lib url).rescue ofTimeout

section Guards

variable {lib} {answer : (op : Op) → op.Answer} {α β : Type}

-- The exceptions that the time limit accounts for.
def Limited (e : Exception) : Prop := e = .timeout ∨ e = .timeLimit

def Within (A : Exception → Prop) (r : Except Raised α) : Prop :=
  ∀ e, r = .error (.exception e) → A e

theorem within_ok (A : Exception → Prop) (a : α) : Within A (.ok a : Except Raised α) := nofun

theorem within_refuse (A : Exception → Prop) (message : String) :
    Within A (refuse message : Except Raised α) := nofun

theorem within_exception {A : Exception → Prop} {e : Exception} :
    Within A (.error (.exception e) : Except Raised α) ↔ A e := by
  constructor
  · exact fun h => h e rfl
  · rintro h e' he
    cases he
    exact h

theorem within_bind {A : Exception → Prop} {p : Fetch α} {f : α → Fetch β} :
    Within A ((p.bind f).result answer) ↔
      Within A (p.result answer) ∧ ∀ a, p.result answer = .ok a → Within A ((f a).result answer) := by
  rw [Program.result_bind]
  cases hp : p.result answer with
  | ok a =>
    constructor
    · refine fun h => ⟨within_ok A a, fun b hb => ?_⟩
      cases hb
      exact h
    · exact fun h => h.2 a rfl
  | error e =>
    constructor
    · refine fun h => ⟨fun e' he => h e' ?_, nofun⟩
      cases he
      rfl
    · rintro ⟨h, -⟩ e' he
      cases he
      exact h e' rfl

theorem within_rescue {p : Fetch α} {handler : Raised → Fetch α} {A B : Exception → Prop}
    (hdocument : ∀ message, handler (.document message) = .raise (.document message))
    (hcaught : ∀ e, B e → ∃ message, handler (.exception e) = .raise (.document message))
    (hraised : ∀ e, ¬B e → handler (.exception e) = .raise (.exception e)) :
    Within A ((p.rescue handler).result answer) ↔
      Within (fun e => B e ∨ A e) (p.result answer) := by
  rw [Program.result_rescue]
  cases hp : p.result answer with
  | ok a => exact iff_of_true (within_ok _ _) (within_ok _ _)
  | error r =>
    cases r with
    | document message =>
      dsimp only
      rw [hdocument]
      exact iff_of_true (within_refuse _ message) (within_refuse _ message)
    | exception e =>
      rw [within_exception]
      by_cases he : B e
      · obtain ⟨message, hmessage⟩ := hcaught e he
        dsimp only
        rw [hmessage]
        exact iff_of_true (within_refuse _ message) (.inl he)
      · dsimp only
        rw [hraised e he, Program.result_raise, within_exception]
        simp [he]

theorem within_ofHttp {p : Fetch Bytes} {A : Exception → Prop} :
    Within A ((p.rescue ofHttp).result answer) ↔
      Within (fun e => e = .http ∨ A e) (p.result answer) := by
  refine within_rescue (fun _ => rfl) ?_ fun e he => ?_
  · rintro e rfl
    exact ⟨_, rfl⟩
  · cases e with
    | http => exact (he rfl).elim
    | _ => rfl

theorem within_ofTimeout {p : Fetch ClientDocument} {A : Exception → Prop} :
    Within A ((p.rescue ofTimeout).result answer) ↔
      Within (fun e => Limited e ∨ A e) (p.result answer) := by
  refine within_rescue (fun _ => rfl) ?_ fun e he => ?_
  · rintro e (rfl | rfl) <;> exact ⟨_, rfl⟩
  · cases e with
    | timeout => exact (he (.inl rfl)).elim
    | timeLimit => exact (he (.inr rfl)).elim
    | _ => rfl

theorem readBody_eq {chunks : List Bytes} {body : Bytes} (h : body.length ≤ maxDocumentBytes) :
    readBody chunks body = if (body ++ chunks.flatten).length ≤ maxDocumentBytes then
      .ok (body ++ chunks.flatten) else refuse "document is larger than the limit" := by
  induction chunks generalizing body with
  | nil =>
    rw [List.flatten_nil, List.append_nil, if_pos h]
    rfl
  | cons chunk chunks ih =>
    rw [readBody, List.flatten_cons, ← List.append_assoc]
    split
    · next hlarge =>
      rw [if_neg]
      rw [List.length_append]
      omega
    · next hsmall => exact ih (Nat.le_of_not_lt hsmall)

-- What the client's server has to keep to.
structure Answered (loads : Bytes → Except LoadsError Json) (url : Chars) (a : ServerAnswer) : Prop where
  closing : ∀ e, a.closing = some e → e = .http ∨ Limited e
  ending : a.closing = none → a.status = 200 → a.chunks.flatten.length ≤ maxDocumentBytes →
    ∀ e, a.ending = some e → e = .http ∨ Limited e
  nesting : a.closing = none → a.status = 200 → a.chunks.flatten.length ≤ maxDocumentBytes →
    a.ending = none → loads a.chunks.flatten ≠ .error .recursion
  grants : a.closing = none → a.status = 200 → a.chunks.flatten.length ≤ maxDocumentBytes →
    a.ending = none → ∀ members, loads a.chunks.flatten = .ok (.object members) →
    (Json.get members "client_id".toList).any (·.isText url) = true →
    (Json.get members "token_endpoint_auth_method".toList).any (·.isText "none".toList) = true →
    usableUris (Json.get members "redirect_uris".toList) ≠ none →
    ∀ b text, Json.get members "grant_types".toList ≠ some (.bool b) ∧
      Json.get members "grant_types".toList ≠ some (.number text)

theorem within_checkGrants {A : Exception → Prop} (hA : ¬A .type) (grants : Option Json) :
    Within A (checkGrants grants) ↔
      ∀ b text, grants ≠ some (.bool b) ∧ grants ≠ some (.number text) := by
  cases grants with
  | none => exact iff_of_true (within_ok _ _) fun _ _ => ⟨nofun, nofun⟩
  | some value =>
    cases value with
    | null => exact iff_of_true (within_ok _ _) fun _ _ => ⟨nofun, nofun⟩
    | bool b =>
      exact iff_of_false (fun h => hA (h .type rfl)) fun h => (h b []).1 rfl
    | number text =>
      exact iff_of_false (fun h => hA (h .type rfl)) fun h => (h true text).2 rfl
    | string text =>
      refine iff_of_true ?_ fun _ _ => ⟨nofun, nofun⟩
      simp only [checkGrants, allowsCode]
      cases decide (authorizationCode <:+: text)
      · exact within_refuse _ _
      · exact within_ok _ _
    | array items =>
      refine iff_of_true ?_ fun _ _ => ⟨nofun, nofun⟩
      simp only [checkGrants, allowsCode]
      cases items.any (·.isText authorizationCode)
      · exact within_refuse _ _
      · exact within_ok _ _
    | object members =>
      refine iff_of_true ?_ fun _ _ => ⟨nofun, nofun⟩
      simp only [checkGrants, allowsCode]
      cases members.any fun m => decide (m.1 = authorizationCode)
      · exact within_refuse _ _
      · exact within_ok _ _

theorem within_pair {A : Exception → Prop} {r : Except Raised Unit} {a : α} :
    Within A (r >>= fun _ => .ok a) ↔ Within A r := by
  cases r with
  | ok u => exact iff_of_true (within_ok _ _) (within_ok _ _)
  | error e => exact ⟨fun h e' he => h e' (by cases he; rfl), fun h e' he => h e' (by cases he; rfl)⟩

theorem within_checkMembers {A : Exception → Prop} (hA : ¬A .type) (members : List (Chars × Json))
    (url : Chars) : Within A (checkMembers lib members url) ↔
      ((Json.get members "client_id".toList).any (·.isText url) = true →
        (Json.get members "token_endpoint_auth_method".toList).any (·.isText "none".toList) = true →
        usableUris (Json.get members "redirect_uris".toList) ≠ none →
        ∀ b text, Json.get members "grant_types".toList ≠ some (.bool b) ∧
          Json.get members "grant_types".toList ≠ some (.number text)) := by
  unfold checkMembers
  dsimp only
  cases (Json.get members "client_id".toList).any (·.isText url) with
  | false => exact iff_of_true (within_refuse _ _) nofun
  | true =>
    cases (Json.get members "token_endpoint_auth_method".toList).any (·.isText "none".toList) with
    | false => exact iff_of_true (within_refuse _ _) nofun
    | true =>
      cases usableUris (Json.get members "redirect_uris".toList) with
      | none => exact iff_of_true (within_refuse _ _) fun _ _ h => (h rfl).elim
      | some uris =>
        have hgrants : Within A (checkGrants (Json.get members "grant_types".toList)) ↔ _ :=
          within_checkGrants hA _
        simp only [Bool.not_true, Bool.false_eq_true, if_false, true_implies, ne_eq,
          reduceCtorEq, not_false_eq_true]
        exact within_pair.trans hgrants

theorem within_parseDocument {A : Exception → Prop} (hrec : ¬A .recursion)
    (body : Bytes) (url : Chars) : Within A (parseDocument lib body url) ↔
      lib.loads body ≠ .error .recursion ∧
        ∀ members, lib.loads body = .ok (.object members) →
          Within A (checkMembers lib members url) := by
  unfold parseDocument
  cases hloads : lib.loads body with
  | error e =>
    cases e with
    | value => exact iff_of_true (within_refuse _ _) ⟨nofun, nofun⟩
    | recursion => exact iff_of_false (fun h => hrec (h _ rfl)) fun h => h.1 rfl
  | ok value =>
    cases value with
    | object members =>
      refine ⟨fun h => ⟨nofun, fun members' hmembers => ?_⟩, fun h => h.2 members rfl⟩
      cases hmembers
      exact h
    | _ => exact iff_of_true (within_refuse _ _) ⟨nofun, nofun⟩

theorem received_eq (a : ServerAnswer) : received a = raiseIf a.closing
    (if a.status ≠ 200 then refuse ("document request answered " ++ toString a.status)
    else if a.chunks.flatten.length ≤ maxDocumentBytes then raiseIf a.ending (.ok a.chunks.flatten)
    else refuse "document is larger than the limit") := by
  have hread : readBody a.chunks [] = if a.chunks.flatten.length ≤ maxDocumentBytes then
      .ok a.chunks.flatten else refuse "document is larger than the limit" :=
    readBody_eq (Nat.zero_le _)
  unfold received
  rw [hread]
  by_cases hlength : a.chunks.flatten.length ≤ maxDocumentBytes
  · rw [if_pos hlength, if_pos hlength]
    rfl
  · rw [if_neg hlength, if_neg hlength]
    rfl

theorem raiseIf_ok {e : Option Exception} {r : Except Raised α} {b : α} :
    raiseIf e r = .ok b ↔ e = none ∧ r = .ok b := by
  cases e with
  | none => simp [raiseIf]
  | some e => simp [raiseIf]

theorem within_raiseIf {A : Exception → Prop} {e : Option Exception} {r : Except Raised α} :
    Within A (raiseIf e r) ↔ (∀ e', e = some e' → A e') ∧ (e = none → Within A r) := by
  cases e with
  | none => simp [raiseIf]
  | some e => simp [raiseIf, within_exception]

theorem received_ok {a : ServerAnswer} {body : Bytes} :
    received a = .ok body ↔ a.closing = none ∧ a.status = 200 ∧
      a.chunks.flatten.length ≤ maxDocumentBytes ∧ a.ending = none ∧ a.chunks.flatten = body := by
  rw [received_eq, raiseIf_ok]
  by_cases hstatus : a.status = 200
  · by_cases hlength : a.chunks.flatten.length ≤ maxDocumentBytes
    · rw [if_neg (not_not_intro hstatus), if_pos hlength, raiseIf_ok]
      simp [hstatus, hlength, -List.length_flatten]
    · rw [if_neg (not_not_intro hstatus), if_neg hlength]
      simp [hlength, refuse, -List.length_flatten]
  · rw [if_pos hstatus]
    simp [hstatus, refuse]

theorem within_received {A : Exception → Prop} {a : ServerAnswer} :
    Within A (received a) ↔ (∀ e, a.closing = some e → A e) ∧
      (a.closing = none → a.status = 200 → a.chunks.flatten.length ≤ maxDocumentBytes →
        ∀ e, a.ending = some e → A e) := by
  rw [received_eq, within_raiseIf]
  by_cases hstatus : a.status = 200
  · by_cases hlength : a.chunks.flatten.length ≤ maxDocumentBytes
    · rw [if_neg (not_not_intro hstatus), if_pos hlength, within_raiseIf]
      simp [hstatus, hlength, within_ok, -List.length_flatten]
    · rw [if_neg (not_not_intro hstatus), if_neg hlength]
      simp [hlength, within_refuse, -List.length_flatten]
  · rw [if_pos hstatus]
    simp [hstatus, within_refuse]

theorem within_exchange {A : Exception → Prop} {request : PinnedRequest} :
    Within A ((exchange request).result answer) ↔
      (∀ e, answer (.buildRequest request) = some e → A e) ∧
      (answer (.buildRequest request) = none →
        (∀ e, answer (.send request) = .error e → A e) ∧
        ∀ a, answer (.send request) = .ok a → Within A (received a)) := by
  unfold exchange
  rw [Program.result_call]
  cases hbuild : answer (.buildRequest request) with
  | some e => simp [within_exception]
  | none =>
    simp only [Program.result_call]
    cases hsend : answer (.send request) with
    | error e => simp [within_exception]
    | ok a => simp

theorem exchange_ok {request : PinnedRequest} {body : Bytes} :
    (exchange request).result answer = .ok body ↔ answer (.buildRequest request) = none ∧
      ∃ a, answer (.send request) = .ok a ∧ received a = .ok body := by
  unfold exchange
  rw [Program.result_call]
  cases hbuild : answer (.buildRequest request) with
  | some e => simp
  | none =>
    simp only [Program.result_call]
    cases hsend : answer (.send request) with
    | error e => simp
    | ok a => simp

theorem within_resolveHost {host : Chars} :
    Within Limited ((resolveHost host).result answer) ↔
      ∀ e, answer (.resolve host) = .error e → e = .os ∨ Limited e := by
  unfold resolveHost
  rw [Program.result_call]
  cases hresolve : answer (.resolve host) with
  | ok addresses => simp [within_ok]
  | error e =>
    cases e with
    | os => exact iff_of_true (within_refuse _ _) fun e he => (by cases he; exact .inl rfl)
    | timeout =>
      exact iff_of_true (within_refuse _ _) fun e he => (by cases he; exact .inr (.inl rfl))
    | _ => simp [within_exception]

theorem resolveHost_ok {host : Chars} {addresses : List Chars} :
    (resolveHost host).result answer = .ok addresses ↔ answer (.resolve host) = .ok addresses := by
  unfold resolveHost
  rw [Program.result_call]
  cases hresolve : answer (.resolve host) with
  | ok addresses => simp
  | error e => cases e <;> simp

theorem vetted_ok {addresses : List Chars} {pinned : Chars} : vetted lib addresses = .ok pinned ↔
    addresses.head? = some pinned ∧ ∀ a ∈ addresses, isPublicAddress lib a = true := by
  cases addresses with
  | nil => simp [vetted, refuse]
  | cons a addresses =>
    have hall : (a :: addresses).all (isPublicAddress lib) = true ↔ _ := List.all_eq_true
    unfold vetted
    dsimp only
    rw [← hall]
    split
    · next h => simp [h]
    · next h => simp [h, refuse]

-- The parts of a client id that is an HTTPS URL with a host, and with neither credentials nor a
-- fragment.
structure Admissible (checks : UrlChecks) (url : Chars) (parts : SplitResult) : Prop where
  split : urlsplit checks url = some parts
  scheme : parts.scheme = "https".toList
  host : parts.hostname checks ≠ none
  username : parts.username.getD [] = []
  password : parts.password.getD [] = []
  fragment : parts.fragment = []

theorem checkUrl_ok {url : Chars} {parts : SplitResult} :
    checkUrl lib url = .ok parts ↔ Admissible lib.url url parts := by
  constructor
  · intro h
    unfold checkUrl at h
    split at h
    · cases h
    · next parts' hsplit =>
      split at h
      · cases h
      · next hscheme =>
        split at h
        · cases h
        · next hhost =>
          split at h
          · cases h
          · next hcredentials =>
            split at h
            · cases h
            · next hfragment =>
              cases h
              obtain ⟨husername, hpassword⟩ := not_or.mp hcredentials
              exact ⟨hsplit, not_not.mp hscheme, hhost, not_not.mp husername, not_not.mp hpassword,
                not_not.mp hfragment⟩
  · rintro ⟨hsplit, hscheme, hhost, husername, hpassword, hfragment⟩
    simp [checkUrl, hsplit, hscheme, hhost, husername, hpassword, hfragment]

def orHttps (port : Option Nat) : Nat := if port.getD 0 = 0 then 443 else port.getD 0

theorem portOf_ok {parts : SplitResult} {port : Nat} :
    portOf parts = .ok port ↔ ∃ p, parts.port = some p ∧ port = orHttps p := by
  unfold portOf
  cases parts.port with
  | none => simp
  | some p =>
    rcases p with - | - | n
    · simp [orHttps, eq_comm]
    · simp [orHttps, eq_comm]
    · simp [orHttps, eq_comm]

-- The inputs on which nothing but a `DocumentError` can get out.
structure Orderly (lib : Library) (answer : (op : Op) → op.Answer) (url : Chars) : Prop where
  splits : urlsplit lib.url url ≠ none
  resolver : ∀ parts, Admissible lib.url url parts →
    ∀ e, answer (.resolve ((parts.hostname lib.url).getD [])) = .error e → e = .os ∨ Limited e
  port : ∀ parts addresses pinned, Admissible lib.url url parts →
    answer (.resolve ((parts.hostname lib.url).getD [])) = .ok addresses →
    addresses.head? = some pinned → (∀ a ∈ addresses, isPublicAddress lib a = true) →
    parts.port ≠ none
  client : ∀ parts addresses pinned port, Admissible lib.url url parts →
    answer (.resolve ((parts.hostname lib.url).getD [])) = .ok addresses →
    addresses.head? = some pinned → (∀ a ∈ addresses, isPublicAddress lib a = true) →
    parts.port = some port → ∀ request,
    request = pinnedRequest lib parts ((parts.hostname lib.url).getD []) pinned (orHttps port) →
      (∀ e, answer (.buildRequest request) = some e → e = .http ∨ Limited e) ∧
      (answer (.buildRequest request) = none →
        (∀ e, answer (.send request) = .error e → e = .http ∨ Limited e) ∧
        ∀ a, answer (.send request) = .ok a → Answered lib.loads url a)

theorem within_checkUrl {A : Exception → Prop} (hA : ¬A .value) {url : Chars} :
    Within A (checkUrl lib url) ↔ urlsplit lib.url url ≠ none := by
  unfold checkUrl
  cases urlsplit lib.url url with
  | none => exact iff_of_false (fun h => hA (h _ rfl)) fun h => h rfl
  | some parts =>
    refine iff_of_true ?_ nofun
    dsimp only
    split
    · exact within_refuse _ _
    · split
      · exact within_refuse _ _
      · split
        · exact within_refuse _ _
        · split
          · exact within_refuse _ _
          · exact within_ok _ _

theorem within_vetted (A : Exception → Prop) (addresses : List Chars) :
    Within A (vetted lib addresses) := by
  unfold vetted
  split
  · exact within_refuse _ _
  · split
    · exact within_ok _ _
    · exact within_refuse _ _

theorem within_portOf {A : Exception → Prop} (hA : ¬A .value) {parts : SplitResult} :
    Within A (portOf parts) ↔ parts.port ≠ none := by
  unfold portOf
  cases parts.port with
  | none => exact iff_of_false (fun hw => hA (hw _ rfl)) fun hne => hne rfl
  | some port =>
    refine iff_of_true ?_ nofun
    split
    · next h => cases h
    · exact within_ok _ _
    · exact within_ok _ _
    · exact within_ok _ _

theorem not_limited_type : ¬Limited .type := by
  rintro (h | h) <;> cases h

theorem not_limited_recursion : ¬Limited .recursion := by
  rintro (h | h) <;> cases h

theorem not_limited_value : ¬Limited .value := by
  rintro (h | h) <;> cases h

theorem answered_iff {url : Chars} {a : ServerAnswer} : Answered lib.loads url a ↔
    Within (fun e => e = .http ∨ Limited e) (received a) ∧
      ∀ body, received a = .ok body → Within Limited (parseDocument lib body url) := by
  have hparse (body : Bytes) : Within Limited (parseDocument lib body url) ↔ _ :=
    within_parseDocument not_limited_recursion body url
  have hmembers (members : List (Chars × Json)) : Within Limited (checkMembers lib members url) ↔ _ :=
    within_checkMembers not_limited_type members url
  constructor
  · intro h
    refine ⟨within_received.mpr ⟨h.closing, h.ending⟩, fun body hbody => ?_⟩
    obtain ⟨hclosing, hstatus, hlength, hending, rfl⟩ := received_ok.mp hbody
    rw [hparse]
    refine ⟨h.nesting hclosing hstatus hlength hending, fun members hloads => ?_⟩
    rw [hmembers]
    exact h.grants hclosing hstatus hlength hending members hloads
  · rintro ⟨hreceived, hbody⟩
    obtain ⟨hclosing, hending⟩ := within_received.mp hreceived
    have hall (h₁ : a.closing = none) (h₂ : a.status = 200)
        (h₃ : a.chunks.flatten.length ≤ maxDocumentBytes) (h₄ : a.ending = none) :=
      (hparse _).mp (hbody _ (received_ok.mpr ⟨h₁, h₂, h₃, h₄, rfl⟩))
    exact ⟨hclosing, hending, fun h₁ h₂ h₃ h₄ => (hall h₁ h₂ h₃ h₄).1,
      fun h₁ h₂ h₃ h₄ members hloads => (hmembers members).mp ((hall h₁ h₂ h₃ h₄).2 members hloads)⟩

theorem within_send {url : Chars} {request : PinnedRequest} :
    Within (fun e => e = .http ∨ Limited e) ((exchange request).result answer) ∧
      (∀ body, (exchange request).result answer = .ok body →
        Within Limited (parseDocument lib body url)) ↔
    (∀ e, answer (.buildRequest request) = some e → e = .http ∨ Limited e) ∧
      (answer (.buildRequest request) = none →
        (∀ e, answer (.send request) = .error e → e = .http ∨ Limited e) ∧
        ∀ a, answer (.send request) = .ok a → Answered lib.loads url a) := by
  rw [within_exchange]
  constructor
  · rintro ⟨⟨hbuild, hsend⟩, hparse⟩
    refine ⟨hbuild, fun hbuilt => ⟨(hsend hbuilt).1, fun a ha => answered_iff.mpr ?_⟩⟩
    exact ⟨(hsend hbuilt).2 a ha, fun body hbody => hparse body (exchange_ok.mpr ⟨hbuilt, a, ha, hbody⟩)⟩
  · rintro ⟨hbuild, hsend⟩
    refine ⟨⟨hbuild, fun hbuilt => ⟨(hsend hbuilt).1, fun a ha => ?_⟩⟩, fun body hbody => ?_⟩
    · exact (answered_iff.mp ((hsend hbuilt).2 a ha)).1
    · obtain ⟨hbuilt, a, ha, hreceived⟩ := exchange_ok.mp hbody
      exact (answered_iff.mp ((hsend hbuilt).2 a ha)).2 body hreceived

theorem ofHttp_ok {p : Fetch Bytes} {body : Bytes} :
    (p.rescue ofHttp).result answer = .ok body ↔ p.result answer = .ok body := by
  rw [Program.result_rescue]
  cases p.result answer with
  | ok b => rfl
  | error r =>
    refine iff_of_false ?_ nofun
    cases r with
    | document message => exact nofun
    | exception e => cases e <;> exact nofun

theorem within_fetch {url : Chars} :
    Within Limited ((fetchUnbounded lib url).result answer) ↔ Orderly lib answer url := by
  unfold fetchUnbounded
  simp only [Program.bind_eq, within_bind, Program.result_ofExcept, within_checkUrl not_limited_value,
    within_resolveHost, within_portOf not_limited_value, resolveHost_ok, within_vetted, true_and,
    within_ofHttp, ofHttp_ok, within_send, checkUrl_ok, vetted_ok, portOf_ok]
  constructor
  · rintro ⟨hsplits, hrest⟩
    refine ⟨hsplits, fun parts hparts => (hrest parts hparts).1, ?_, ?_⟩
    · intro parts addresses pinned hparts hresolve hpinned hpublic
      exact ((hrest parts hparts).2 addresses hresolve pinned ⟨hpinned, hpublic⟩).1
    · rintro parts addresses pinned port hparts hresolve hpinned hpublic hport _ rfl
      have hconnect := ((hrest parts hparts).2 addresses hresolve pinned ⟨hpinned, hpublic⟩).2
      exact hconnect _ ⟨port, hport, rfl⟩
  · rintro ⟨hsplits, hresolver, hport, hclient⟩
    refine ⟨hsplits, fun parts hparts => ⟨hresolver parts hparts, ?_⟩⟩
    rintro addresses hresolve pinned ⟨hpinned, hpublic⟩
    refine ⟨hport parts addresses pinned hparts hresolve hpinned hpublic, ?_⟩
    rintro _ ⟨port, hportOf, rfl⟩
    exact hclient parts addresses pinned port hparts hresolve hpinned hpublic hportOf _ rfl

end Guards

-- What a fetch that ends with a document promises about it.
def Usable (url : Chars) (document : ClientDocument) : Prop :=
  document.clientId = url ∧ document.redirectUris ≠ [] ∧ ∀ uri ∈ document.redirectUris, uri ≠ []

section Documents

variable {lib} {answer : (op : Op) → op.Answer}

theorem usableUris_eq {value : Option Json} {uris : List Chars} (h : usableUris value = some uris) :
    uris ≠ [] ∧ ∀ uri ∈ uris, uri ≠ [] := by
  unfold usableUris at h
  split at h
  · next items =>
    split at h
    · cases h
    · next hall =>
      obtain ⟨hitems, htexts⟩ := not_or.mp hall
      have hfilled : ∀ u ∈ items, u.text?.getD [] ≠ [] := by simpa using htexts
      cases h
      constructor
      · obtain ⟨u, hu⟩ := List.exists_mem_of_ne_nil items hitems
        intro hnil
        have hnone := List.filterMap_eq_nil_iff.mp hnil u hu
        exact hfilled u hu (by rw [hnone]; rfl)
      · intro uri huri
        obtain ⟨u, hu, htext⟩ := List.mem_filterMap.mp huri
        have hne := hfilled u hu
        rw [htext] at hne
        exact hne
  · cases h

theorem checkMembers_usable {members : List (Chars × Json)} {url : Chars} {document : ClientDocument}
    (h : checkMembers lib members url = .ok document) : Usable url document := by
  unfold checkMembers at h
  dsimp only at h
  split at h
  · cases h
  · split at h
    · cases h
    · split at h
      · cases h
      · next uris huris =>
        cases hgrants : checkGrants (Json.get members "grant_types".toList) with
        | error e => rw [hgrants] at h; cases h
        | ok u =>
          rw [hgrants] at h
          cases h
          exact ⟨rfl, usableUris_eq huris⟩

theorem parseDocument_usable {body : Bytes} {url : Chars} {document : ClientDocument}
    (h : parseDocument lib body url = .ok document) : Usable url document := by
  unfold parseDocument at h
  split at h
  · cases h
  · cases h
  · exact checkMembers_usable h
  · cases h

theorem fetchUnbounded_usable {url : Chars} {document : ClientDocument}
    (h : (fetchUnbounded lib url).result answer = .ok document) : Usable url document := by
  obtain ⟨parts, -, h⟩ := Program.result_bind_inv h
  obtain ⟨addresses, -, h⟩ := Program.result_bind_inv h
  obtain ⟨pinned, -, h⟩ := Program.result_bind_inv h
  obtain ⟨port, -, h⟩ := Program.result_bind_inv h
  obtain ⟨body, -, h⟩ := Program.result_bind_inv h
  rw [Program.result_ofExcept] at h
  exact parseDocument_usable h

theorem fetchDocument_usable {url : Chars} {document : ClientDocument}
    (h : (fetchDocument lib url).result answer = .ok document) : Usable url document := by
  rw [fetchDocument, Program.result_rescue] at h
  cases hfetch : (fetchUnbounded lib url).result answer with
  | ok found =>
    rw [hfetch] at h
    cases h
    exact fetchUnbounded_usable hfetch
  | error r =>
    rw [hfetch] at h
    cases r with
    | document message => cases h
    | exception e => cases e <;> cases h

end Documents

section Connections

variable {lib} {answer : (op : Op) → op.Answer}

-- One lookup, every address vetted, and only then a connection to one of them.
def Guarded (lib : Library) (answer : (op : Op) → op.Answer) (asked : List Op) : Prop :=
  ∀ request, .send request ∈ asked → ∃ host addresses later,
    asked = .resolve host :: later ∧ answer (.resolve host) = .ok addresses ∧
    (∀ a ∈ addresses, isPublicAddress lib a = true) ∧ request.address ∈ addresses

theorem asked_exchange {request : PinnedRequest} {op : Op}
    (h : op ∈ (exchange request).asked answer) : op = .buildRequest request ∨ op = .send request := by
  unfold exchange at h
  rw [Program.asked_call] at h
  rcases List.mem_cons.mp h with rfl | h
  · exact .inl rfl
  · cases hbuild : answer (.buildRequest request) with
    | some e =>
      rw [hbuild] at h
      cases h
    | none =>
      rw [hbuild] at h
      simp only [Program.asked_call] at h
      rcases List.mem_cons.mp h with rfl | h
      · exact .inr rfl
      · cases hsend : answer (.send request) with
        | error e => rw [hsend] at h; cases h
        | ok a => rw [hsend] at h; simp at h

theorem asked_ofHttp {p : Fetch Bytes} : (p.rescue ofHttp).asked answer = p.asked answer := by
  refine Program.asked_rescue p fun e => ?_
  cases e with
  | document message => rfl
  | exception e => cases e <;> rfl

theorem asked_ofTimeout {p : Fetch ClientDocument} :
    (p.rescue ofTimeout).asked answer = p.asked answer := by
  refine Program.asked_rescue p fun e => ?_
  cases e with
  | document message => rfl
  | exception e => cases e <;> rfl

theorem asked_resolveHost (host : Chars) : (resolveHost host).asked answer = [.resolve host] := by
  unfold resolveHost
  rw [Program.asked_call]
  cases answer (.resolve host) with
  | ok addresses => rfl
  | error e => cases e <;> rfl

theorem asked_after {α β : Type} {x : Except Raised α} {f : α → Fetch β} {op : Op}
    (h : op ∈ ((Program.ofExcept x).bind f).asked answer) :
    ∃ a, x = .ok a ∧ ((Program.ofExcept x).bind f).asked answer = (f a).asked answer := by
  rw [Program.asked_bind, Program.asked_ofExcept, Program.result_ofExcept, List.nil_append] at h ⊢
  cases x with
  | error e => cases h
  | ok a => exact ⟨a, rfl, rfl⟩

-- The connection that `_fetch_document` makes once it has its addresses.
theorem asked_connect {parts : SplitResult} {host url : Chars} {addresses : List Chars}
    {request : PinnedRequest}
    (h : .send request ∈ Program.asked answer (do
      let pinned ← .ofExcept (vetted lib addresses)
      let port ← .ofExcept (portOf parts)
      let body ← (exchange (pinnedRequest lib parts host pinned port)).rescue ofHttp
      .ofExcept (parseDocument lib body url) : Fetch ClientDocument)) :
    (∀ a ∈ addresses, isPublicAddress lib a = true) ∧ request.address ∈ addresses := by
  obtain ⟨pinned, hvetted, hpinned⟩ := asked_after h
  rw [Program.bind_eq, hpinned] at h
  obtain ⟨port, -, hport⟩ := asked_after h
  rw [Program.bind_eq, hport] at h
  obtain ⟨hhead, hpublic⟩ := vetted_ok.mp hvetted
  refine ⟨hpublic, ?_⟩
  rw [Program.bind_eq, Program.asked_bind, asked_ofHttp] at h
  rcases List.mem_append.mp h with h | h
  · rcases asked_exchange h with h | h
    · cases h
    · cases h
      exact List.mem_of_mem_head? hhead
  · split at h
    · simp at h
    · cases h

theorem asked_fetch (url : Chars) : Guarded lib answer ((fetchDocument lib url).asked answer) := by
  rw [fetchDocument, asked_ofTimeout]
  intro request h
  obtain ⟨parts, -, hparts⟩ := asked_after h
  rw [fetchUnbounded, Program.bind_eq, hparts, Program.bind_eq, Program.asked_bind,
    asked_resolveHost] at h ⊢
  rcases List.mem_append.mp h with h | h
  · cases List.mem_singleton.mp h
  · cases hresolve : (resolveHost ((parts.hostname lib.url).getD [])).result answer with
    | error e =>
      rw [hresolve] at h
      cases h
    | ok addresses =>
      rw [hresolve] at h
      exact ⟨_, addresses, _, rfl, resolveHost_ok.mp hresolve, asked_connect h⟩

end Connections

-- How a fetch may end.
def Refused (r : Except Raised ClientDocument) : Prop := ∃ message, r = .error (.document message)

theorem refused_or {url : Chars} {answer : (op : Op) → op.Answer} :
    (Refused ((fetchDocument lib url).result answer) ∨
      ∃ document, (fetchDocument lib url).result answer = .ok document ∧ Usable url document) ↔
    Within (fun _ => False) ((fetchDocument lib url).result answer) := by
  cases hresult : (fetchDocument lib url).result answer with
  | ok document =>
    exact iff_of_true (.inr ⟨document, rfl, fetchDocument_usable hresult⟩) (within_ok _ _)
  | error r =>
    cases r with
    | document message => exact iff_of_true (.inl ⟨message, rfl⟩) (within_refuse _ _)
    | exception e =>
      refine iff_of_false ?_ fun h => h e rfl
      rintro (⟨message, h⟩ | ⟨document, h, -⟩) <;> cases h

theorem fetchDocument_guarded (url : Chars) (answer : (op : Op) → op.Answer) :
    ((Refused ((fetchDocument lib url).result answer) ∨
        ∃ document, (fetchDocument lib url).result answer = .ok document ∧ Usable url document) ∧
      Guarded lib answer ((fetchDocument lib url).asked answer)) ↔ Orderly lib answer url := by
  have hends : Within (fun _ => False) ((fetchDocument lib url).result answer) ↔ _ :=
    within_ofTimeout
  rw [and_iff_left (asked_fetch url), refused_or, hends, ← within_fetch]
  simp only [or_false]

section Escape

def clientUrl : Chars := "https://app.example/client".toList

def clientBody : Bytes :=
  ("\x7b\"client_id\":\"https://app.example/client\",\"token_endpoint_auth_method\":\"none\"," ++
    "\"redirect_uris\":[\"https://app.example/cb\"],\"grant_types\":5\x7d").toList.map
      fun c => UInt8.ofNat c.toNat

def clientMembers : List (Chars × Json) :=
  [("client_id".toList, .string clientUrl),
    ("token_endpoint_auth_method".toList, .string "none".toList),
    ("redirect_uris".toList, .array [.string "https://app.example/cb".toList]),
    ("grant_types".toList, .number ['5'])]

def stubLibrary : Library where
  url := { nfkc := id, isIpv6Address := fun _ => false, lower := lower }
  ipAddress text := if text = "93.184.216.34".toList then some (.v4 true false) else none
  loads body := if body = clientBody then .ok (.object clientMembers) else .error .value
  isSpace := Char.isWhitespace
  paddedUnsplit := true

def stubAnswer : (op : Op) → op.Answer
  | .resolve _ => .ok ["93.184.216.34".toList]
  | .buildRequest _ => none
  | .send _ => .ok { status := 200, chunks := [clientBody] }

-- A `TypeError` for a number where the document has its list of grants.
theorem fetchDocument_escapes :
    (fetchDocument stubLibrary clientUrl).result stubAnswer = .error (.exception .type) ∧
      ¬(Refused ((fetchDocument stubLibrary clientUrl).result stubAnswer) ∨
        ∃ document, (fetchDocument stubLibrary clientUrl).result stubAnswer = .ok document ∧
          Usable clientUrl document) := by
  have hresult : (fetchDocument stubLibrary clientUrl).result stubAnswer =
      .error (.exception .type) := by decide +kernel
  refine ⟨hresult, ?_⟩
  rw [hresult]
  rintro (⟨message, h⟩ | ⟨document, h, -⟩) <;> cases h

end Escape

end TranscodeForge.Cimd
