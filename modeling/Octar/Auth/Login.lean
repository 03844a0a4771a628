import Octar.Auth.Identity
import Octar.Auth.Store
import Octar.Protocol.Codec

namespace Octar.Auth

open Go

structure AuthRequest where
  username : Bytes
  password : Bytes
  apiKey : Bytes
  ns : Bytes

structure Authenticator where
  name : Bytes
  priority : Int
  authenticate : AuthRequest → Except DbError (Option Identity)

def resolvePermissions (role : Bytes) : PermissionSet :=
  if role = str "admin" then
    newPermissionSet [.publish, .consume, .ack, .nack, .manageQueues, .manageUsers, .metricsRead,
      .auditRead, .admin]
  else newPermissionSet [.publish, .consume, .ack, .nack]

def passwordIdentity (user : User) (ns : Bytes) : Identity where
  subjectID := user.username
  subjectType := if user.role = str "admin" then subjectAdmin else subjectUser
  ns := ns
  roles := [user.role]
  permissions := resolvePermissions user.role
  namespaces := none

def passwordAuthenticate [StoreLibrary] (s : Store) (req : AuthRequest) : Option Identity :=
  if req.username = [] ∨ req.password = [] then none
  else if !s.checkPassword req.username req.password then none
  else
    match s.getUser req.username with
    | .error _ => none
    | .ok user => some (passwordIdentity user req.ns)

def passwordAuthenticator [StoreLibrary] (s : Store) : Authenticator where
  name := str "password"
  priority := 10
  authenticate req := .ok (passwordAuthenticate s req)

structure APIKeyEntry where
  subjectID : Bytes
  ns : Bytes
  permissions : List Bytes

def APIKeyEntry.identity (entry : APIKeyEntry) : Identity where
  subjectID := entry.subjectID
  subjectType := subjectService
  ns := entry.ns
  roles := [str "service"]
  permissions := permissionSetFromStrings entry.permissions
  namespaces := some ((∅ : Map Bytes (List Bytes)).insert entry.ns entry.permissions)

class KeyLibrary where
  trimSpace : Bytes → Bytes
  hashKey : (key secret : Bytes) → Bytes

open KeyLibrary in
def apiKeyAuthenticate [KeyLibrary] (keyPrefix secret : Bytes) (keyHash : Map Bytes APIKeyEntry)
    (req : AuthRequest) :
    Option Identity :=
  if req.apiKey = [] then none
  else
    let key := trimSpace req.apiKey
    if keyPrefix ≠ [] ∧ ¬ keyPrefix.isPrefixOf key then none
    else
      match keyHash.lookup (hashKey key secret) with
      | none => none
      | some entry =>
        if req.ns ≠ [] ∧ entry.ns ≠ [] ∧ req.ns ≠ entry.ns then none else some entry.identity

structure Service where
  registry : List Authenticator

namespace Service

def all (svc : Service) (ord : RangeOrder) : List Authenticator :=
  (ord.pick svc.registry).insertionSort fun a b => a.priority ≤ b.priority

def firstIdentity (req : AuthRequest) : List Authenticator → Except DbError (Option Identity)
  | [] => .ok none
  | auth :: rest => do
    let id ← auth.authenticate req
    match id with
    | some id => return some id
    | none => firstIdentity req rest

def authenticateTCP (svc : Service) (ord : RangeOrder) (username password ns : Bytes) :
    Except DbError (Option Identity) :=
  firstIdentity ⟨username, password, [], ns⟩ (svc.all ord)

def authenticateTCPWithKey (svc : Service) (ord : RangeOrder) (apiKey ns : Bytes) :
    Except DbError (Option Identity) :=
  firstIdentity ⟨[], [], apiKey, ns⟩ (svc.all ord)

end Service

structure Login where
  identity : Identity
  username : Bytes
  ns : Bytes

def connectionAuthenticate (svc : Service) (ord : RangeOrder) (remoteAddr : Bytes) :
    Option Protocol.Frame → Protocol.Frame × Option Login
  | some (.connect f) =>
    let id : Option Identity :=
      if f.password ≠ [] ∧ f.username ≠ [] then
        (svc.authenticateTCP ord f.username f.password f.ns).toOption.join
      else none
    let id :=
      if id.isNone ∧ f.apiKey ≠ [] then (svc.authenticateTCPWithKey ord f.apiKey f.ns).toOption.join
      else id
    match id with
    | none => (.connectErr (str "invalid credentials or namespace"), none)
    | some id =>
      if !id.canAccessNamespace f.ns then (.connectErr (str "no access to namespace"), none)
      else (.connectOK remoteAddr, some ⟨id, id.subjectID, f.ns⟩)
  | _ => (.connectErr (str "expected CONNECT frame"), none)

theorem isAdmin_passwordIdentity (user : User) (ns : Bytes) :
    (passwordIdentity user ns).isAdmin = decide (user.role = str "admin") := by
  unfold Identity.isAdmin Identity.hasPermission passwordIdentity resolvePermissions
  by_cases h : user.role = str "admin"
  · simp only [h]
    decide
  · simp only [h]
    decide

theorem canAccessNamespace_passwordIdentity (user : User) (ns ns' : Bytes) :
    (passwordIdentity user ns).canAccessNamespace ns' = decide (user.role = str "admin") := by
  unfold Identity.canAccessNamespace
  rw [isAdmin_passwordIdentity]
  cases decide (user.role = str "admin") <;> rfl

section Password

variable [StoreLibrary] {s : Store} {user : User}

def Store.Granted (s : Store) (username ns : Bytes) : Prop :=
  ∃ grants perms, s.getUserNamespacePermissionsByUsername username = .ok grants ∧
    grants.lookup ns = some perms ∧ perms ≠ []

theorem passwordAuthenticate_correct {req : AuthRequest}
    (huser : s.users.select req.username = some user)
    (hpassword : StoreLibrary.compareHashAndPassword user.passwordHash req.password = true) :
    passwordAuthenticate s req =
      if req.username = [] ∨ req.password = [] then none
      else some (passwordIdentity user req.ns) := by
  have hget := Store.getUser_ok.mpr huser
  have hcheck : s.checkPassword req.username req.password = true := by
    simp only [Store.checkPassword, hget, hpassword]
  simp only [passwordAuthenticate, hcheck, hget, Bool.not_true, Bool.false_eq_true, if_false]

theorem passwordAuthenticate_some {req : AuthRequest} {id : Identity}
    (h : passwordAuthenticate s req = some id) :
    ∃ user, s.getUser req.username = .ok user ∧ id = passwordIdentity user req.ns := by
  unfold passwordAuthenticate at h
  split at h
  · cases h
  · split at h
    · cases h
    · split at h
      · cases h
      · rename_i user huser
        cases h
        exact ⟨user, huser, rfl⟩

def passwordService (s : Store) : Service := ⟨[passwordAuthenticator s]⟩

theorem firstIdentity_passwordService (req : AuthRequest) (ord : RangeOrder) :
    Service.firstIdentity req ((passwordService s).all ord) = .ok (passwordAuthenticate s req) := by
  have hall : (passwordService s).all ord = [passwordAuthenticator s] := by
    rw [Service.all, passwordService, (ord.perm _).eq_singleton]
    rfl
  rw [hall]
  simp only [Service.firstIdentity, passwordAuthenticator, bind, Except.bind]
  cases passwordAuthenticate s req <;> rfl

theorem connectionAuthenticate_password {f : Protocol.ConnectFrame}
    (huser : s.users.select f.username = some user)
    (hpassword : StoreLibrary.compareHashAndPassword user.passwordHash f.password = true)
    (ord : RangeOrder) (remoteAddr : Bytes) :
    (connectionAuthenticate (passwordService s) ord remoteAddr (some (.connect f))).2.isSome =
      true ↔ (f.username ≠ [] ∧ f.password ≠ []) ∧ user.role = str "admin" := by
  have hkey : (passwordService s).authenticateTCPWithKey ord f.apiKey f.ns = .ok none := by
    rw [Service.authenticateTCPWithKey, firstIdentity_passwordService]
    rfl
  have htcp : (passwordService s).authenticateTCP ord f.username f.password f.ns =
      .ok (if f.username = [] ∨ f.password = [] then none
        else some (passwordIdentity user f.ns)) := by
    rw [Service.authenticateTCP, firstIdentity_passwordService,
      passwordAuthenticate_correct huser hpassword]
  simp only [connectionAuthenticate, hkey, htcp]
  by_cases hgiven : f.username ≠ [] ∧ f.password ≠ []
  · have hsome : ¬(f.username = [] ∨ f.password = []) := by
      rintro (h | h)
      · exact hgiven.1 h
      · exact hgiven.2 h
    simp only [if_pos hgiven.symm, if_neg hsome, Except.toOption, Option.join_some,
      Option.isNone_some, Bool.false_eq_true, false_and, if_false,
      canAccessNamespace_passwordIdentity, iff_true_intro hgiven, true_and]
    by_cases hadmin : user.role = str "admin"
    · simp [hadmin]
    · simp [hadmin]
  · have hnone : ¬(f.password ≠ [] ∧ f.username ≠ []) := fun h => hgiven h.symm
    simp only [if_neg hnone, Except.toOption, Option.join_some, ite_self, Option.isSome_none,
      Bool.false_eq_true, iff_false_intro hgiven, false_and]

/-- The provider accepts exactly the users that the store lets into the namespace just when the user
is an admin and gives a name and a password, or is none and the store grants them nothing there. -/
theorem tcp_login_agrees_iff {f : Protocol.ConnectFrame}
    (huser : s.users.select f.username = some user)
    (hpassword : StoreLibrary.compareHashAndPassword user.passwordHash f.password = true)
    (ord : RangeOrder) (remoteAddr : Bytes) :
    ((connectionAuthenticate (passwordService s) ord remoteAddr (some (.connect f))).2.isSome =
      true ↔ user.role = str "admin" ∨ s.Granted f.username f.ns) ↔
      if user.role = str "admin" then f.username ≠ [] ∧ f.password ≠ []
      else ¬s.Granted f.username f.ns := by
  rw [connectionAuthenticate_password huser hpassword]
  by_cases hadmin : user.role = str "admin"
  · simp only [hadmin, and_true, true_or, iff_true, if_true]
  · simp only [hadmin, and_false, false_or, false_iff, if_false]

end Password

def grantedStore (role : Bytes) : Store where
  users := ⟨[⟨1, str "u", str "p", none, role⟩], List.nodup_singleton _⟩
  namespaces := ⟨[⟨1, str "n"⟩], List.nodup_singleton _⟩
  userNamespacePermissions := ⟨[⟨1, 1, str "*"⟩], List.nodup_singleton _⟩
  lastUserID := 1

def sampleConnect : Protocol.ConnectFrame := ⟨str "u", str "p", [], [], str "n"⟩

theorem granted_grantedStore (role : Bytes) :
    @Store.Granted plainLibrary (grantedStore role) (str "u") (str "n") :=
  ⟨_, [str "*"], rfl, rfl, by decide⟩

theorem tcp_login_agrees_sample :
    ((connectionAuthenticate (@passwordService plainLibrary (grantedStore (str "admin"))) .inOrder
      [] (some (.connect sampleConnect))).2.isSome = true ↔
      str "admin" = str "admin" ∨
        @Store.Granted plainLibrary (grantedStore (str "admin")) (str "u") (str "n")) := by
  have h :=
    @tcp_login_agrees_iff plainLibrary (grantedStore (str "admin")) ⟨1, str "u", str "p",
      none, str "admin"⟩
    sampleConnect rfl (by decide) .inOrder []
  apply h.mpr
  rw [if_pos rfl]
  decide

/-- A producer with a permission in the namespace is not let in. -/
theorem granted_user_refused :
    @Store.Granted plainLibrary (grantedStore (str "producer")) (str "u") (str "n") ∧
      (grantedStore (str "producer")).users.select (str "u") = some ⟨1, str "u", str "p", none,
        str "producer"⟩ ∧
      (connectionAuthenticate (@passwordService plainLibrary (grantedStore (str "producer")))
        .inOrder [] (some (.connect sampleConnect))).2.isSome = false :=
  ⟨granted_grantedStore _, rfl, by decide⟩

end Octar.Auth
