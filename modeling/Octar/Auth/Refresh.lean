import Octar.Lib.Signing
import Mathlib.Logic.Encodable.Basic
import Mathlib.Logic.Equiv.List

namespace Octar.Auth

open Go

structure Claims where
  subject : Bytes
  subjectTy : Bytes
  accountID : Bytes
  roles : List Bytes
  perms : List Bytes
  namespaces : List (Bytes × List Bytes)
  method : Bytes
  issuedAt : Int64
  expiresAt : Int64

structure RefreshToken where
  subjectID : Bytes
  subjectType : Bytes
  accountID : Bytes
  roles : List Bytes
  namespaces : List (Bytes × List Bytes)
  issuedAt : Int64
  expiresAt : Int64
  deriving DecidableEq

structure Tokens where
  accessToken : Bytes
  refreshToken : Bytes
  expiresIn : Int64
  tokenType : Bytes

inductive TokenError
  | base64 | json | signing
  | message (text : String)
  | panic (p : Panic)
  deriving DecidableEq, Repr

class TokenLibrary where
  PrivateKey : Type
  sha256 : Bytes → Bytes
  sign : PrivateKey → Bytes → Option Bytes
  stdEncode : Bytes → Bytes
  stdDecode : Bytes → Option Bytes
  rawURLEncode : Bytes → Bytes
  marshalHeader : List (Bytes × Bytes) → Bytes
  marshalClaims : Claims → Bytes
  marshalRefresh : RefreshToken → Bytes
  unmarshalRefresh : Bytes → Option RefreshToken

open TokenLibrary

def hmacHeader : List (Bytes × Bytes) := [(str "alg", str "HS256"), (str "typ", str "JWT")]

/-- The documented behaviour of the library.  `coerce` is what a round trip makes of a value: its
strings become valid UTF-8, and the keys of a map lose their order. -/
structure TokenLibrary.Documented [TokenLibrary] (coerce : RefreshToken → RefreshToken) : Prop where
  stdDecode_stdEncode : ∀ data, stdDecode (stdEncode data) = some data
  unmarshal_marshal : ∀ rt, unmarshalRefresh (marshalRefresh rt) = some (coerce rt)
  length_roles : ∀ rt, (coerce rt).roles.length = rt.roles.length
  expiresAt : ∀ rt, (coerce rt).expiresAt = rt.expiresAt
  rawURLEncode_header :
    rawURLEncode (marshalHeader hmacHeader) = str "eyJhbGciOiJIUzI1NiIsInR5cCI6IkpXVCJ9"
  /-- No JSON value starts with the letter `e`. -/
  unmarshal_letter : ∀ rest, unmarshalRefresh (str "e" ++ rest) = none

def constTimeEqual (a b : Bytes) : Bool :=
  if a.length ≠ b.length then false
  else (List.zipWith (fun x y => x ^^^ y) a b).foldl (fun diff x => diff ||| x) 0 == 0

theorem foldl_or_eq_zero {l : Bytes} {diff : UInt8} :
    l.foldl (fun diff x => diff ||| x) diff = 0 ↔ diff = 0 ∧ ∀ x ∈ l, x = 0 := by
  induction l generalizing diff with
  | nil => simp
  | cons x l ih =>
    rw [List.foldl_cons, ih, List.forall_mem_cons, UInt8.or_eq_zero_iff, and_assoc]

theorem zipWith_xor_eq_zero {a b : Bytes} (h : a.length = b.length) :
    (∀ x ∈ List.zipWith (fun x y => x ^^^ y) a b, x = 0) ↔ a = b := by
  induction a generalizing b with
  | nil =>
    cases b with
    | nil => simp
    | cons y b => cases h
  | cons x a ih =>
    cases b with
    | nil => cases h
    | cons y b =>
      rw [List.zipWith_cons_cons, List.forall_mem_cons, ih (Nat.succ.inj h), UInt8.xor_eq_zero_iff,
        List.cons.injEq]

theorem constTimeEqual_iff {a b : Bytes} : constTimeEqual a b = true ↔ a = b := by
  unfold constTimeEqual
  split
  · rename_i hne
    simp only [Bool.false_eq_true, false_iff]
    rintro rfl
    exact hne rfl
  · rename_i heq
    rw [beq_iff_eq, foldl_or_eq_zero, zipWith_xor_eq_zero (Decidable.not_not.mp heq)]
    simp

variable [TokenLibrary]

structure KeyStore where
  privateKey : PrivateKey
  keyType : Bytes
  keyID : Bytes

structure Manager where
  accessTokenTTL : Int64
  refreshTTL : Int64
  keyStore : Option KeyStore
  hmacSecret : Bytes

def hmacSHA256 (data key : Bytes) : Bytes := sha256 (sha256 (key ++ [1]) ++ data ++ [1])

def permissionsFromRole (role : Bytes) : List Bytes :=
  if role = str "admin" then
    [str "admin", str "publish", str "consume", str "ack", str "nack", str "queues:manage",
      str "users:manage", str "metrics:read"]
  else if role = str "user" then [str "publish", str "consume", str "ack", str "nack",
    str "queues:manage"]
  else []

namespace Manager

def signingInput (header : List (Bytes × Bytes)) (claims : Claims) : Bytes :=
  rawURLEncode (marshalHeader header) ++ str "." ++ rawURLEncode (marshalClaims claims)

def signWithKey (ks : KeyStore) (claims : Claims) : Except TokenError Bytes :=
  let input :=
    signingInput [(str "alg", ks.keyType), (str "typ", str "JWT"), (str "kid", ks.keyID)] claims
  match sign ks.privateKey input with
  | none => .error .signing
  | some sig => .ok (input ++ str "." ++ rawURLEncode sig)

def hmacInput (claims : Claims) : Bytes := signingInput hmacHeader claims

def signHMAC (m : Manager) (claims : Claims) : Bytes :=
  hmacInput claims ++ str "." ++ rawURLEncode (hmacSHA256 (hmacInput claims) m.hmacSecret)

def signClaims (m : Manager) (claims : Claims) : Except TokenError Bytes :=
  match m.keyStore with
  | some ks => signWithKey ks claims
  | none =>
    if 0 < m.hmacSecret.length then .ok (m.signHMAC claims)
    else .error (.message "no signing key configured")

def newRefreshToken (m : Manager) (subjectID subjectType accountID : Bytes) (roles : List Bytes)
    (namespaces : List (Bytes × List Bytes)) (issued now : Int64) : RefreshToken :=
  ⟨subjectID, subjectType, accountID, roles, namespaces, issued, now + m.refreshTTL⟩

def encodeRefreshToken (m : Manager) (rt : RefreshToken) : Bytes :=
  let data := marshalRefresh rt
  stdEncode (if 0 < m.hmacSecret.length then data ++ hmacSHA256 data m.hmacSecret else data)

def generateRefreshToken (m : Manager) (subjectID subjectType accountID : Bytes)
    (roles : List Bytes) (namespaces : List (Bytes × List Bytes)) (issued now : Int64) : Bytes :=
  m.encodeRefreshToken (m.newRefreshToken subjectID subjectType accountID roles
    namespaces issued now)

def checkMAC (m : Manager) (data : Bytes) : Except TokenError Bytes :=
  if 0 < m.hmacSecret.length then
    if data.length < 32 then .error (.message "invalid refresh token")
    else
      let mac := data.drop (data.length - 32)
      let body := data.take (data.length - 32)
      if !constTimeEqual (hmacSHA256 body m.hmacSecret) mac then
        .error (.message "invalid refresh token signature")
      else .ok body
  else .ok data

def validateRefreshToken (m : Manager) (token : Bytes) (now : Int64) :
    Except TokenError RefreshToken :=
  match stdDecode token with
  | none => .error .base64
  | some data => do
    let body ← m.checkMAC data
    match unmarshalRefresh body with
    | none => .error .json
    | some rt => if rt.expiresAt < now then .error (.message "refresh token expired") else .ok rt

def accessTTL (m : Manager) : Int64 := if m.accessTokenTTL = 0 then 900 else m.accessTokenTTL

def firstRole (rt : RefreshToken) : Except TokenError Bytes :=
  match rt.roles with
  | [] => .error (.panic .indexOutOfRange)
  | role :: _ => .ok role

structure Clock where
  checked : Int64
  access : Int64
  issued : Int64
  expires : Int64

def accessClaims (m : Manager) (rt : RefreshToken) (role : Bytes) (now : Int64) : Claims where
  subject := rt.subjectID
  subjectTy := rt.subjectType
  accountID := rt.accountID
  roles := rt.roles
  perms := permissionsFromRole role
  namespaces := rt.namespaces
  method := str "refresh"
  issuedAt := now
  expiresAt := now + m.accessTTL

def refreshTokens (m : Manager) (token : Bytes) (now : Clock) : Except TokenError Tokens := do
  let rt ← m.validateRefreshToken token now.checked
  let role ← firstRole rt
  let accessToken ← m.signClaims (m.accessClaims rt role now.access)
  let newRT :=
    m.generateRefreshToken rt.subjectID rt.subjectType rt.accountID rt.roles
      rt.namespaces now.issued
    now.expires
  return ⟨accessToken, newRT, m.accessTTL, str "Bearer"⟩

def Working (m : Manager) : Prop :=
  match m.keyStore with
  | some ks => ∀ data, (sign ks.privateKey data).isSome
  | none => m.hmacSecret ≠ []

def SameKeys (m m' : Manager) : Prop := m.keyStore = m'.keyStore ∧ m.hmacSecret = m'.hmacSecret

end Manager

structure RefreshCall where
  manager : Manager
  subjectID : Bytes
  subjectType : Bytes
  accountID : Bytes
  roles : List Bytes
  namespaces : List (Bytes × List Bytes)
  issued : Int64
  now : Int64

namespace RefreshCall

def content (c : RefreshCall) : RefreshToken :=
  c.manager.newRefreshToken c.subjectID c.subjectType c.accountID c.roles
    c.namespaces c.issued c.now

def token (c : RefreshCall) : Bytes :=
  c.manager.generateRefreshToken c.subjectID c.subjectType c.accountID c.roles
    c.namespaces c.issued c.now

theorem token_eq (c : RefreshCall) (hpos : 0 < c.manager.hmacSecret.length) :
    c.token = stdEncode (marshalRefresh c.content ++
      hmacSHA256 (marshalRefresh c.content) c.manager.hmacSecret) := by
  rw [token, Manager.generateRefreshToken, Manager.encodeRefreshToken, if_pos hpos]
  rfl

end RefreshCall

inductive IssueCall
  | refresh (c : RefreshCall)
  | access (m : Manager) (claims : Claims)

namespace IssueCall

def manager : IssueCall → Manager
  | .refresh c => c.manager
  | .access m _ => m

def maced : IssueCall → List Bytes
  | .refresh c => if 0 < c.manager.hmacSecret.length then [marshalRefresh c.content] else []
  | .access m claims =>
    if m.keyStore.isNone && 0 < m.hmacSecret.length then [Manager.hmacInput claims] else []

end IssueCall

def NoForgery (m : Manager) (history : List IssueCall) (token : Bytes) : Prop :=
  m.hmacSecret ≠ [] → ∀ body, stdDecode token = some (body ++ hmacSHA256 body m.hmacSecret) →
    ∃ call ∈ history, body ∈ call.maced

def Canonical (token : Bytes) : Prop := ∃ data, token = stdEncode data

namespace Manager

variable {m : Manager}

theorem checkMAC_ok {data body : Bytes} (hsecret : m.hmacSecret ≠ [])
    (h : m.checkMAC data = .ok body) :
    data = body ++ hmacSHA256 body m.hmacSecret := by
  rw [checkMAC, if_pos (List.length_pos_iff.mpr hsecret)] at h
  split at h
  · cases h
  · dsimp only at h
    split at h
    · cases h
    · rename_i hmac
      cases h
      have heq := constTimeEqual_iff.mp (by simpa using hmac)
      rw [heq, List.take_append_drop]

theorem checkMAC_append {body : Bytes} (hsecret : m.hmacSecret ≠ [])
    (hlen : (hmacSHA256 body m.hmacSecret).length = 32) :
    m.checkMAC (body ++ hmacSHA256 body m.hmacSecret) = .ok body := by
  have htotal : (body ++ hmacSHA256 body m.hmacSecret).length - 32 = body.length := by
    rw [List.length_append, hlen, Nat.add_sub_cancel]
  rw [checkMAC, if_pos (List.length_pos_iff.mpr hsecret), if_neg, htotal, List.take_left,
    List.drop_left]
  · dsimp only
    rw [constTimeEqual_iff.mpr rfl]
    rfl
  · rw [List.length_append, hlen]
    omega

theorem validateRefreshToken_ok {token : Bytes} {now : Int64} {rt : RefreshToken} :
    m.validateRefreshToken token now = .ok rt ↔
      ∃ data body, stdDecode token = some data ∧ m.checkMAC data = .ok body ∧
        unmarshalRefresh body = some rt ∧ now ≤ rt.expiresAt := by
  unfold validateRefreshToken
  cases stdDecode token with
  | none => simp
  | some data =>
    simp only [bind_ok, Option.some.injEq]
    constructor
    · rintro ⟨body, hbody, h⟩
      cases hrt : unmarshalRefresh body with
      | none =>
        rw [hrt] at h
        cases h
      | some rt' =>
        rw [hrt] at h
        dsimp only at h
        split at h
        · cases h
        · rename_i hnow
          cases h
          exact ⟨data, body, rfl, hbody, hrt, Int64.not_lt.mp hnow⟩
    · rintro ⟨_, body, rfl, hbody, hrt, hnow⟩
      exact ⟨body, hbody, by rw [hrt]; exact if_neg (Int64.not_lt.mpr hnow)⟩

theorem refreshTokens_ok {token : Bytes} {now : Clock} {tokens : Tokens}
    (h : m.refreshTokens token now = .ok tokens) :
    ∃ rt role, m.validateRefreshToken token now.checked = .ok rt ∧
      m.signClaims (m.accessClaims rt role now.access) = .ok tokens.accessToken := by
  unfold refreshTokens at h
  obtain ⟨rt, hrt, h⟩ := bind_ok.mp h
  obtain ⟨role, -, h⟩ := bind_ok.mp h
  obtain ⟨accessToken, haccess, h⟩ := bind_ok.mp h
  cases h
  exact ⟨rt, role, hrt, haccess⟩

theorem exists_call {coerce : RefreshToken → RefreshToken} (hlib : Documented coerce)
    {history : List IssueCall} {token : Bytes} {now : Int64} {rt : RefreshToken}
    (hsecret : m.hmacSecret ≠ []) (hkeys : ∀ call ∈ history, call.manager.SameKeys m)
    (hforge : NoForgery m history token) (h : m.validateRefreshToken token now = .ok rt) :
    ∃ c, .refresh c ∈ history ∧ stdDecode token = stdDecode c.token ∧ rt = coerce c.content ∧
      now ≤ rt.expiresAt := by
  obtain ⟨data, body, hdata, hmac, hbody, hnow⟩ := validateRefreshToken_ok.mp h
  have hsplit := checkMAC_ok hsecret hmac
  subst hsplit
  obtain ⟨call, hcall, hmaced⟩ := hforge hsecret body hdata
  have hsame := hkeys call hcall
  cases call with
  | refresh c =>
    have hsecret' : c.manager.hmacSecret = m.hmacSecret := hsame.2
    have hpos : 0 < c.manager.hmacSecret.length := by
      rw [hsecret']
      exact List.length_pos_iff.mpr hsecret
    rw [IssueCall.maced, if_pos hpos, List.mem_singleton] at hmaced
    subst hmaced
    rw [hlib.unmarshal_marshal, Option.some.injEq] at hbody
    refine ⟨c, hcall, ?_, hbody.symm, hnow⟩
    rw [c.token_eq hpos, hlib.stdDecode_stdEncode, hdata, hsecret']
  | access m' claims =>
    rw [IssueCall.maced] at hmaced
    split at hmaced
    · rw [List.mem_singleton] at hmaced
      subst hmaced
      -- the text that was signed for an access token starts with the letter of its header
      obtain ⟨rest, hrest⟩ : ∃ rest, hmacInput claims = str "e" ++ rest := by
        rw [hmacInput, signingInput, hlib.rawURLEncode_header]
        exact ⟨_, rfl⟩
      rw [hrest, hlib.unmarshal_letter] at hbody
      cases hbody
    · cases hmaced

theorem Working.signClaims (hm : m.Working) (claims : Claims) :
    ∃ accessToken, m.signClaims claims = .ok accessToken := by
  unfold Working at hm
  unfold Manager.signClaims
  cases hks : m.keyStore with
  | none =>
    rw [hks] at hm
    exact ⟨_, if_pos (List.length_pos_iff.mpr hm)⟩
  | some ks =>
    rw [hks] at hm
    obtain ⟨sig, hsig⟩ := Option.isSome_iff_exists.mp
      (hm (signingInput [(str "alg", ks.keyType), (str "typ", str "JWT"),
        (str "kid", ks.keyID)] claims))
    dsimp only
    rw [signWithKey, hsig]
    exact ⟨_, rfl⟩

theorem Working.refreshTokens (hm : m.Working) {token : Bytes} {now : Clock} {rt : RefreshToken}
    (hvalid : m.validateRefreshToken token now.checked = .ok rt) (hroles : rt.roles ≠ []) :
    ∃ tokens, m.refreshTokens token now = .ok tokens := by
  have hrole : ∃ role, firstRole rt = .ok role := by
    unfold firstRole
    cases hcases : rt.roles with
    | nil => exact absurd hcases hroles
    | cons role roles => exact ⟨role, rfl⟩
  obtain ⟨role, hrole⟩ := hrole
  obtain ⟨accessToken, hsign⟩ := hm.signClaims (m.accessClaims rt role now.access)
  exact ⟨_, bind_ok.mpr ⟨_, hvalid, bind_ok.mpr ⟨_, hrole, bind_ok.mpr ⟨_, hsign, rfl⟩⟩⟩⟩

theorem refreshTokens_forged {coerce : RefreshToken → RefreshToken} (hlib : Documented coerce)
    (hm : m.Working) (hsecret : m.hmacSecret = []) (rt : RefreshToken) (hroles : rt.roles ≠ [])
    (now : Clock) (hnow : now.checked ≤ rt.expiresAt) :
    ∃ tokens, m.refreshTokens (stdEncode (marshalRefresh rt)) now = .ok tokens := by
  have hvalid : m.validateRefreshToken (stdEncode (marshalRefresh rt)) now.checked =
      .ok (coerce rt) := by
    refine validateRefreshToken_ok.mpr ⟨_, _, hlib.stdDecode_stdEncode _, ?_,
      hlib.unmarshal_marshal rt, ?_⟩
    · simp [checkMAC, hsecret]
    · rw [hlib.expiresAt]
      exact hnow
  refine hm.refreshTokens hvalid ?_
  intro hnil
  have hlen := hlib.length_roles rt
  rw [hnil, List.length_nil] at hlen
  exact hroles (List.length_eq_zero_iff.mp hlen.symm)

end Manager

/-- Only earlier tokens are refreshed, for whoever forges no MAC, exactly if there is a secret. -/
theorem refresh_needs_earlier_token_iff {coerce : RefreshToken → RefreshToken}
    (hlib : Documented coerce) {m : Manager} (hm : m.Working) :
    (∀ (history : List IssueCall) (token : Bytes) (now : Manager.Clock) (tokens : Tokens),
      (∀ call ∈ history, call.manager.SameKeys m) → NoForgery m history token →
      m.refreshTokens token now = .ok tokens →
      ∃ c, .refresh c ∈ history ∧ stdDecode token = stdDecode c.token ∧
        (Canonical token → token = c.token) ∧ now.checked ≤ (coerce c.content).expiresAt ∧
        ∃ claims, m.signClaims claims = .ok tokens.accessToken ∧
          claims.subject = (coerce c.content).subjectID ∧
          claims.roles = (coerce c.content).roles ∧
          claims.namespaces = (coerce c.content).namespaces) ↔
      m.hmacSecret ≠ [] := by
  constructor
  · intro hall hsecret
    let rt : RefreshToken := ⟨[], [], [], [str "admin"], [], 0, 0⟩
    let now : Manager.Clock := ⟨0, 0, 0, 0⟩
    have hroles : rt.roles ≠ [] := List.cons_ne_nil _ _
    have hnow : now.checked ≤ rt.expiresAt := Int64.le_refl 0
    obtain ⟨tokens, htokens⟩ := Manager.refreshTokens_forged hlib hm hsecret rt hroles now hnow
    obtain ⟨c, hc, -⟩ := hall [] _ _ tokens (by simp) (fun hne => absurd hsecret hne) htokens
    cases hc
  · intro hsecret history token now tokens hkeys hforge htokens
    obtain ⟨rt, role, hvalid, hsign⟩ := Manager.refreshTokens_ok htokens
    obtain ⟨c, hc, hdecode, rfl, hnow⟩ := Manager.exists_call hlib hsecret hkeys hforge hvalid
    refine ⟨c, hc, hdecode, ?_, hnow, _, hsign, rfl, rfl, rfl⟩
    rintro ⟨data, rfl⟩
    have hc_token : ∃ data', c.token = stdEncode data' := ⟨_, rfl⟩
    obtain ⟨data', hdata'⟩ := hc_token
    rw [hdata', hlib.stdDecode_stdEncode, hlib.stdDecode_stdEncode, Option.some.injEq] at hdecode
    rw [hdata', hdecode]

omit [TokenLibrary]

namespace Sample

def quote (s : Bytes) : Bytes := [34] ++ s ++ [34]

def object (fields : List (Bytes × Bytes)) : Bytes :=
  [123] ++ [44].intercalate (fields.map fun f => quote f.1 ++ [58] ++ f.2) ++ [125]

def strings (l : List Bytes) : Bytes :=
  if l.isEmpty then str "null" else [91] ++ [44].intercalate (l.map quote) ++ [93]

def sorted (fields : List (Bytes × Bytes)) : Bytes :=
  object (fields.insertionSort fun a b => a.1 ≤ b.1)

def header (l : List (Bytes × Bytes)) : Bytes := sorted (l.map fun f => (f.1, quote f.2))

def permissions (l : List (Bytes × List Bytes)) : Bytes :=
  if l.isEmpty then str "null" else sorted (l.map fun n => (n.1, strings n.2))

def integer (n : Int64) : Bytes := str (toString n.toInt)

def omitEmpty (name : Bytes) (empty : Bool) (value : Bytes) : List (Bytes × Bytes) :=
  if empty then [] else [(name, value)]

def claims (c : Claims) : Bytes :=
  object ([(str "sub", quote c.subject)] ++
    omitEmpty (str "sty") c.subjectTy.isEmpty (quote c.subjectTy) ++
    omitEmpty (str "acc") c.accountID.isEmpty (quote c.accountID) ++
    omitEmpty (str "roles") c.roles.isEmpty (strings c.roles) ++
    omitEmpty (str "perms") c.perms.isEmpty (strings c.perms) ++
    omitEmpty (str "ns_perms") c.namespaces.isEmpty (permissions c.namespaces) ++
    omitEmpty (str "method") c.method.isEmpty (quote c.method) ++
    [(str "iat", integer c.issuedAt), (str "exp", integer c.expiresAt)])

def refresh (rt : RefreshToken) : Bytes :=
  object [(str "sid", quote rt.subjectID), (str "sty", quote rt.subjectType),
    (str "acc", quote rt.accountID), (str "roles", strings rt.roles),
    (str "ns_perms", permissions rt.namespaces), (str "iat", integer rt.issuedAt),
    (str "exp", integer rt.expiresAt)]

theorem refresh_starts (rt : RefreshToken) : ∃ rest, refresh rt = 123 :: 34 :: rest := ⟨_, rfl⟩

def ann (now : Int64) : RefreshToken :=
  ⟨str "ann", str "user", str "ann", [str "user"], [], now, now + 604800⟩

def eve (issued expires : Int64) : RefreshToken :=
  ⟨str "eve", str "admin", str "eve", [str "admin"], [], issued, expires⟩

def tokens : List RefreshToken :=
  [ann 1700000000, ann 1700000100, eve 0 9999999999, eve 1700000000 1700604800]

abbrev Fields :=
  (List Nat × List Nat × List Nat) × List (List Nat) × List (List Nat × List (List Nat)) × Int × Int

def fields (rt : RefreshToken) : Fields :=
  ((rt.subjectID.map UInt8.toNat, rt.subjectType.map UInt8.toNat, rt.accountID.map UInt8.toNat),
    rt.roles.map (List.map UInt8.toNat),
    rt.namespaces.map (fun n => (n.1.map UInt8.toNat, n.2.map (List.map UInt8.toNat))),
    rt.issuedAt.toInt, rt.expiresAt.toInt)

def ofFields (x : Fields) : RefreshToken :=
  ⟨x.1.1.map UInt8.ofNat, x.1.2.1.map UInt8.ofNat, x.1.2.2.map UInt8.ofNat,
    x.2.1.map (List.map UInt8.ofNat),
    x.2.2.1.map fun n => (n.1.map UInt8.ofNat, n.2.map (List.map UInt8.ofNat)),
    .ofInt x.2.2.2.1, .ofInt x.2.2.2.2⟩

theorem ofFields_fields (rt : RefreshToken) : ofFields (fields rt) = rt := by
  simp [ofFields, fields, Function.comp_def]

def code (rt : RefreshToken) : Bytes := 123 :: List.replicate (Encodable.encode (fields rt)) 0

def decode (data : Bytes) : Option RefreshToken :=
  if data.head? = some 123 then
    (Encodable.decode (α := Fields) data.tail.length).map ofFields
  else none

theorem decode_code (rt : RefreshToken) : decode (code rt) = some rt := by
  simp only [decode, code, List.head?_cons, if_true, List.tail_cons, List.length_replicate,
    Encodable.encodek, Option.map_some, ofFields_fields]

/-- JSON on the tokens of the samples.  Other tokens get a code that no JSON text of these has. -/
def marshal (rt : RefreshToken) : Bytes := if rt ∈ tokens then refresh rt else code rt

def unmarshal (data : Bytes) : Option RefreshToken :=
  (tokens.find? fun rt => refresh rt = data).or (decode data)

theorem unmarshal_marshal (rt : RefreshToken) : unmarshal (marshal rt) = some rt := by
  have htokens : ∀ rt ∈ tokens, tokens.find? (fun rt' => refresh rt' = refresh rt) = some rt := by
    decide +kernel
  unfold unmarshal marshal
  split
  · rename_i hmem
    rw [htokens rt hmem, Option.some_or]
  · have hnone : tokens.find? (fun rt' => refresh rt' = code rt) = none := by
      rw [List.find?_eq_none]
      intro rt' _ heq
      obtain ⟨rest, hrest⟩ := refresh_starts rt'
      rw [decide_eq_true_eq, hrest, code] at heq
      cases hn : Encodable.encode (fields rt) <;> rw [hn] at heq <;> cases heq
    rw [hnone, Option.none_or, decode_code]

@[reducible] def library : TokenLibrary where
  PrivateKey := RSAKey
  sha256 := Sha256.sum
  sign := RSAKey.sign
  stdEncode := stdEncoding
  stdDecode := stdDecoding
  rawURLEncode := rawURLEncoding
  marshalHeader := header
  marshalClaims := claims
  marshalRefresh := marshal
  unmarshalRefresh := unmarshal

theorem library_documented : @TokenLibrary.Documented library id := by
  refine @TokenLibrary.Documented.mk library id ?_ ?_ ?_ ?_ ?_ ?_
  · exact stdDecoding_stdEncoding
  · exact unmarshal_marshal
  · intro rt
    rfl
  · intro rt
    rfl
  · decide +kernel
  · intro rest
    have hnone : tokens.find? (fun rt => refresh rt = str "e" ++ rest) = none := by
      rw [List.find?_eq_none]
      intro rt _ heq
      obtain ⟨rest', hrest'⟩ := refresh_starts rt
      rw [decide_eq_true_eq, hrest'] at heq
      cases heq
    change (tokens.find? fun rt => refresh rt = str "e" ++ rest).or (decode (str "e" ++ rest)) =
      none
    rw [hnone, Option.none_or]
    exact if_neg (by simp [str])

def word64s (l : List Nat) : Nat := l.foldl (fun n w => n * 2 ^ 64 + w) 0

def modulus : Nat := word64s
  [0xf2be6bc48b74691e, 0x99e7c79c03a2a6d9, 0x36ca8de9ca1c3d90, 0x333f6da7e6e76955,
    0xade0923b7c9e85e9, 0x74042d58c64a6d03, 0x3c806d1dba9eab80, 0x9625a5738635d5a4,
    0x42392758b9f2afa9, 0x203d906f714bc04a, 0xe116d5539a589c3e, 0xd5b79576aa7d6c50,
    0x8ef210f9af323d8c, 0x7002f47600990acc, 0x4380e6d704f72af0, 0xa07a99838c6d3c47]

def exponent : Nat := word64s
  [0x5579b1eefa801a47, 0xd93fe16cd166e3c3, 0x96e48a462991fa27, 0x9db41703c96df10c,
    0x6776ad675f015efc, 0x0e8b2e00958a3d8a, 0xa7323db9fb2dc60c, 0x3852b748cf98834a,
    0x6d28a69a79647720, 0x4ff2908f07b58f51, 0x684fe2b7d4797d11, 0x66a806ebade0fb55,
    0x5cbb557c231b0ba9, 0x42efac51ab365a01, 0xff0b7c29edf83135, 0xcabb5d20c107a089]

def key : RSAKey := ⟨128, modulus, exponent⟩

def hmacManager (secret : Bytes) : @Manager library := @Manager.mk library 900 604800 none secret

def rsaManager : @Manager library :=
  @Manager.mk library 900 604800 (some (@KeyStore.mk library key (str "RSA") (str "auto"))) []

def call : @RefreshCall library :=
  @RefreshCall.mk library (hmacManager (str "secret")) (str "ann") (str "user")
    (str "ann") [str "user"] [] 1700000000 1700000000

end Sample

theorem refresh_needs_earlier_token_iff_sample :
    ∃ tokens, @Manager.refreshTokens Sample.library (Sample.hmacManager (str "secret"))
        (@RefreshCall.token Sample.library Sample.call)
        ⟨1700000100, 1700000100, 1700000100, 1700000100⟩ = .ok tokens ∧
      ∃ c, @IssueCall.refresh Sample.library c ∈ [@IssueCall.refresh Sample.library Sample.call] ∧
        @RefreshCall.token Sample.library Sample.call = @RefreshCall.token Sample.library c := by
  let _ : TokenLibrary := Sample.library
  let m := Sample.hmacManager (str "secret")
  have hworking : m.Working := List.cons_ne_nil _ _
  have hlen : ∀ data, (hmacSHA256 data (str "secret")).length = 32 := fun _ => Sha256.length_sum _
  have htoken : stdDecode Sample.call.token = some (marshalRefresh Sample.call.content ++
      hmacSHA256 (marshalRefresh Sample.call.content) (str "secret")) := by
    rw [Sample.call.token_eq (by decide), Sample.library_documented.stdDecode_stdEncode]
    rfl
  have hmac : m.checkMAC (marshalRefresh Sample.call.content ++
      hmacSHA256 (marshalRefresh Sample.call.content) (str "secret")) =
        .ok (marshalRefresh Sample.call.content) :=
    Manager.checkMAC_append (List.cons_ne_nil _ _) (hlen _)
  have hvalid : m.validateRefreshToken Sample.call.token 1700000100 = .ok Sample.call.content :=
    Manager.validateRefreshToken_ok.mpr
      ⟨_, _, htoken, hmac, Sample.unmarshal_marshal _, by decide⟩
  obtain ⟨tokens, htokens⟩ : ∃ tokens, m.refreshTokens Sample.call.token
      ⟨1700000100, 1700000100, 1700000100, 1700000100⟩ = .ok tokens :=
    hworking.refreshTokens hvalid (List.cons_ne_nil _ _)
  refine ⟨tokens, htokens, ?_⟩
  have hkeys : ∀ call ∈ [IssueCall.refresh Sample.call], call.manager.SameKeys m := by
    intro call hcall
    rw [List.mem_singleton] at hcall
    subst hcall
    exact ⟨rfl, rfl⟩
  have hforge : NoForgery m [.refresh Sample.call] Sample.call.token := by
    intro _ body hbody
    refine ⟨_, List.mem_singleton_self _, ?_⟩
    rw [htoken, Option.some.injEq] at hbody
    have heq := List.append_inj_left' hbody ((hlen _).trans (hlen _).symm)
    rw [← heq]
    exact List.mem_singleton_self _
  obtain ⟨c, hc, -, hcanonical, -⟩ := (refresh_needs_earlier_token_iff Sample.library_documented
    hworking).mpr (List.cons_ne_nil _ _) _ _ _ tokens hkeys hforge htokens
  exact ⟨c, hc, hcanonical ⟨_, rfl⟩⟩

/-- Where only a key signs, a refresh token that no call ever made gives its writer an
administrator's tokens. -/
theorem refresh_token_forged :
    @Manager.Working Sample.library Sample.rsaManager ∧
    ∃ tokens, @NoForgery Sample.library Sample.rsaManager []
        (stdEncoding (Sample.refresh (Sample.eve 0 9999999999))) ∧
      @Manager.refreshTokens Sample.library Sample.rsaManager
        (stdEncoding (Sample.refresh (Sample.eve 0 9999999999)))
        ⟨1700000000, 1700000000, 1700000000, 1700000000⟩ = .ok tokens := by
  let _ : TokenLibrary := Sample.library
  have hworking : Sample.rsaManager.Working := fun _ => rfl
  obtain ⟨tokens, htokens⟩ := Manager.refreshTokens_forged Sample.library_documented hworking rfl
    (Sample.eve 0 9999999999) (List.cons_ne_nil _ _)
    ⟨1700000000, 1700000000, 1700000000, 1700000000⟩ (by decide)
  exact ⟨hworking, tokens, fun hne => absurd rfl hne, htokens⟩

end Octar.Auth
