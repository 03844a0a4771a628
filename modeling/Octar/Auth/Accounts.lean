import Octar.Auth.Login
import Octar.Auth.Refresh
import Octar.Broker.Deployment

namespace Octar.Auth

open Go Sql

class HumaLibrary where
  isEmail : Bytes → Bool
  runeCount : Bytes → Nat

open HumaLibrary

inductive AccountRequest
  | createUser (username password email role salt : Bytes)
  | updateUser (username : Bytes) (email role password : Option Bytes) (salt : Bytes)
  | deleteUser (username : Bytes)
  | setPermissions (username ns : Bytes) (permissions : List Bytes)
  | deletePermissions (username ns : Bytes)

def AccountRequest.valid [HumaLibrary] : AccountRequest → Bool
  | .createUser username password email role _ =>
    3 ≤ runeCount username && runeCount username ≤ 64 && namePattern username &&
      8 ≤ runeCount password && isEmail email && validRoles.contains role
  | .updateUser _ email role password _ =>
    email.all isEmail && role.all validRoles.contains && password.all fun p => 8 ≤ runeCount p
  | .setPermissions _ _ permissions => 1 ≤ permissions.length
  | .deleteUser _ | .deletePermissions .. => true

def dbError (resource : Bytes) : DbError → ApiError
  | .notFound => .status 404 (resource ++ str " not found")
  | .conflict text => .status 409 text
  | .validation text => .status 422 text
  | .forbidden text => .status 403 text
  | .bcrypt => .status 500 []

def insufficientPermissions : ApiError := .status 403 (str "insufficient permissions")

namespace Store

variable [StoreLibrary] [HumaLibrary]

def handle (s : Store) (id : Identity) : AccountRequest → Except ApiError Store
  | .createUser username password email role salt =>
    if !id.isAdmin && !id.canManageUsers then .error insufficientPermissions
    else (s.createUser username password email role salt).mapError (dbError (str "user"))
  | .updateUser username email role password salt =>
    if !id.isAdmin && !id.canManageUsers && id.subjectID ≠
      username then .error insufficientPermissions
    else (s.updateUser username email role password salt).mapError (dbError (str "user"))
  | .deleteUser username =>
    if !id.isAdmin && !id.canManageUsers then .error insufficientPermissions
    else (s.deleteUser username).mapError (dbError (str "user"))
  | .setPermissions username ns permissions =>
    if !id.isAdmin && !id.canManageUsers then .error insufficientPermissions
    else (s.setUserNamespacePermissionsByName username ns permissions).mapError
      (dbError (str "user or namespace"))
  | .deletePermissions username ns =>
    if !id.isAdmin && !id.canManageUsers then .error insufficientPermissions
    else (s.setUserNamespacePermissionsByName username ns []).mapError
      (dbError (str "user or namespace"))

def request (s : Store) (caller : Option Identity) (req : AccountRequest) : Except ApiError Store :=
  match caller with
  | none => .error (.status 401 (str "unauthorized"))
  | some id =>
    if !req.valid then .error (.status 422 (str "validation failed")) else s.handle id req

def afterRequest (s : Store) (x : Option Identity × AccountRequest) : Except ApiError Store :=
  .ok ((s.request x.1 x.2).toOption.getD s)

end Store

def unprivileged (caller : Option Identity) : Bool :=
  caller.all fun id => !id.isAdmin && !id.canManageUsers

def Store.tokenPermissions [StoreLibrary] (s : Store) (username password : Bytes) :
    Option (List Bytes) :=
  if !s.checkPassword username password then none
  else
    match s.getUser username with
    | .error _ => none
    | .ok user => some (permissionsFromRole user.role)

structure Store.SameRights [StoreLibrary] (s s' : Store) : Prop where
  roles : ∀ name, (s'.getUser name).map User.role = (s.getUser name).map User.role
  permissions : ∀ name, s'.getUserNamespacePermissionsByUsername name =
    s.getUserNamespacePermissionsByUsername name

def Store.changesOwnRole [StoreLibrary] [HumaLibrary] (s : Store) :
    Option Identity × AccountRequest → Bool
  | (some id, .updateUser username email (some role) password salt) =>
    id.subjectID = username &&
      (AccountRequest.updateUser username email (some role) password salt).valid &&
      (password.all fun p => (StoreLibrary.generateFromPassword salt p).isSome) &&
      (s.users.select username).any fun u => u.role ≠ role
  | _ => false

namespace Store

variable [StoreLibrary] {s s' : Store}

theorem SameRights.refl (s : Store) : s.SameRights s := ⟨fun _ => rfl, fun _ => rfl⟩

theorem SameRights.trans {s₁ : Store} (h : s.SameRights s₁) (h' : s₁.SameRights s') :
    s.SameRights s' :=
  ⟨fun name => (h'.roles name).trans (h.roles name),
    fun name => (h'.permissions name).trans (h.permissions name)⟩

theorem SameRights.user (h : s.SameRights s') {name : Bytes} {user' : User}
    (huser' : s'.getUser name = .ok user') :
    ∃ user, s.getUser name = .ok user ∧ user'.username = user.username ∧
      user'.role = user.role := by
  have hrole := h.roles name
  rw [huser'] at hrole
  cases huser : s.getUser name with
  | error e =>
    rw [huser] at hrole
    cases hrole
  | ok user =>
    rw [huser] at hrole
    have hname := (Table.select_eq_some.mp (getUser_ok.mp huser)).2
    have hname' := (Table.select_eq_some.mp (getUser_ok.mp huser')).2
    exact ⟨user, rfl, hname'.trans hname.symm, Except.ok.inj hrole⟩

omit [StoreLibrary] in
theorem getUser_patchUser (s : Store) (username : Bytes) (email role hash : Option Bytes)
    (name : Bytes) :
    (s.patchUser username email role hash).getUser name =
      (s.getUser name).map fun u => if u.username =
        username then u.patch email role hash else u := by
  have hselect : (s.patchUser username email role hash).users.select name =
      (s.users.select name).map fun u => if u.username =
        username then u.patch email role hash else u := by
    apply Table.select_update
    intro u
    rfl
  unfold getUser
  rw [hselect]
  cases s.users.select name <;> rfl

theorem sameRights_patchUser {username : Bytes} {email role hash : Option Bytes} :
    s.SameRights (s.patchUser username email role hash) ↔
      ∀ u, s.users.select username = some u → ∀ r ∈ role, u.role = r := by
  constructor
  · intro h u hu r hr
    have hrole := h.roles username
    obtain ⟨-, hname⟩ := Table.select_eq_some.mp hu
    rw [getUser_patchUser, getUser_ok.mpr hu] at hrole
    cases hr
    simp only [Except.map, if_pos hname] at hrole
    cases hrole
    rfl
  · intro h
    have hkeeps : ∀ name u, s.getUser name = .ok u →
        (if u.username = username then u.patch email role hash else u).role = u.role := by
      intro name u hu
      split
      · rename_i heq
        cases role with
        | none => rfl
        | some r =>
          have hmem := (Table.select_eq_some.mp (getUser_ok.mp hu)).1
          exact (h u (Table.select_eq_some.mpr ⟨hmem, heq⟩) r rfl).symm
      · rfl
    constructor
    · intro name
      rw [getUser_patchUser]
      cases hu : s.getUser name with
      | error e => rfl
      | ok u => exact congrArg Except.ok (hkeeps name u hu)
    · intro name
      unfold getUserNamespacePermissionsByUsername
      rw [getUser_patchUser]
      cases s.getUser name with
      | error e => rfl
      | ok u =>
        have hid : (if u.username = username then u.patch email role hash else u).id = u.id := by
          split
          · rfl
          · rfl
        simp only [Except.map, bind, Except.bind, hid]
        rfl

omit [StoreLibrary] in
theorem mapError_ok {ε ε' α : Type} {x : Except ε α} {f : ε → ε'} {a : α} :
    x.mapError f = .ok a ↔ x = .ok a := by
  cases x with
  | error e => simp [Except.mapError]
  | ok b => simp [Except.mapError]

variable [HumaLibrary]

theorem request_unprivileged {caller : Option Identity} {req : AccountRequest}
    (hcaller : unprivileged caller = true) (h : s.request caller req = .ok s') :
    ∃ id username email role password salt, caller = some id ∧ id.subjectID = username ∧
      req = .updateUser username email role password salt ∧ req.valid = true ∧
      s.updateUser username email role password salt = .ok s' := by
  cases caller with
  | none => cases h
  | some id =>
    have hid : (!id.isAdmin && !id.canManageUsers) = true := hcaller
    simp only [request] at h
    split at h
    · cases h
    · rename_i hvalid
      cases req with
      | createUser | deleteUser | setPermissions | deletePermissions =>
        simp only [handle, hid, if_true] at h
        cases h
      | updateUser username email role password salt =>
        simp only [handle, hid, Bool.true_and] at h
        split at h
        · cases h
        · rename_i hself
          exact ⟨id, username, email, role, password, salt, rfl, by simpa using hself, rfl,
            by simpa using hvalid, mapError_ok.mp h⟩

theorem SameRights.request_iff {caller : Option Identity} {req : AccountRequest}
    (hcaller : unprivileged caller = true) (h : s.request caller req = .ok s') :
    s.SameRights s' ↔ s.changesOwnRole (caller, req) = false := by
  obtain ⟨id, username, email, role, password, salt, rfl, hself, rfl, hvalid, hupdate⟩ :=
    request_unprivileged hcaller h
  obtain ⟨-, hhash, huser, hash, rfl⟩ := updateUser_ok hupdate
  rw [sameRights_patchUser]
  cases role with
  | none => exact ⟨fun _ => rfl, fun _ _ _ r hr => nomatch hr⟩
  | some role =>
    have hhash : (password.all fun p => (StoreLibrary.generateFromPassword salt p).isSome) =
        true := by
      rw [Option.all_eq_true]
      exact hhash
    obtain ⟨user, huser⟩ := Option.isSome_iff_exists.mp huser
    simp [changesOwnRole, hself, hvalid, hhash, huser]

/-- No sequence of requests of such callers changes the users, their roles or their permissions, nor
what a login gives, unless one gives the caller's own account another role. -/
theorem no_privilege_escalation {s₀ : Store}
    (hreach : Reachable afterRequest
      (fun s x => unprivileged x.1 = true ∧ s.changesOwnRole x = false) s₀ s) :
    s₀.SameRights s ∧
      (∀ req id, passwordAuthenticate s req = some id →
        ∃ user, s₀.getUser req.username = .ok user ∧ id = passwordIdentity user req.ns) ∧
      (∀ username password perms, s.tokenPermissions username password = some perms →
        ∃ user, s₀.getUser username = .ok user ∧ perms = permissionsFromRole user.role) ∧
      ∀ caller req s', unprivileged caller = true → s.request caller req = .ok s' →
        (s.SameRights s' ↔ s.changesOwnRole (caller, req) = false) := by
  have hsame : s₀.SameRights s := by
    refine hreach.invariant (.refl s₀) ?_
    rintro s ⟨caller, req⟩ s' hs ⟨hcaller, hrole⟩ h
    cases h
    cases hrequest : s.request caller req with
    | error e => exact hs
    | ok s' => exact hs.trans ((SameRights.request_iff hcaller hrequest).mpr hrole)
  refine ⟨hsame, ?_, ?_, fun caller req s' => SameRights.request_iff⟩
  · intro req id hid
    obtain ⟨user, huser, rfl⟩ := passwordAuthenticate_some hid
    obtain ⟨user₀, huser₀, hname, hrole⟩ := hsame.user huser
    refine ⟨user₀, huser₀, ?_⟩
    simp only [passwordIdentity, hname, hrole]
  · intro username password perms hperms
    unfold tokenPermissions at hperms
    split at hperms
    · cases hperms
    · split at hperms
      · cases hperms
      · rename_i user huser
        cases hperms
        obtain ⟨user₀, huser₀, -, hrole⟩ := hsame.user huser
        exact ⟨user₀, huser₀, congrArg permissionsFromRole hrole⟩

end Store

@[reducible] def plainHuma : HumaLibrary := ⟨fun _ => true, List.length⟩

def producerIdentity : Identity :=
  passwordIdentity ⟨1, str "u", str "p", none, str "producer"⟩ (str "n")

theorem no_privilege_escalation_sample :
    ∃ s : Store, Reachable (@Store.afterRequest plainLibrary plainHuma)
        (fun s x => unprivileged x.1 = true ∧
          @Store.changesOwnRole plainLibrary plainHuma s x = false)
        (grantedStore (str "producer")) s ∧
      @Store.checkPassword plainLibrary s (str "u") (str "password") = true ∧
      @Store.SameRights plainLibrary (grantedStore (str "producer")) s := by
  have htrace : (run (checked (@Store.afterRequest plainLibrary plainHuma)
      (fun s x => unprivileged x.1 && !@Store.changesOwnRole plainLibrary plainHuma s x)
        (.status 0 []))
      (grantedStore (str "producer"))
      [(some producerIdentity, .updateUser (str "u") none none (some (str "password"))
        [])]).toOption.any
        (fun s => @Store.checkPassword plainLibrary s (str "u") (str "password")) = true := by
    decide
  obtain ⟨s, hreach, hend⟩ := Reachable.ofTrace (fun _ _ h => by simpa using h) _ _ htrace
  exact ⟨s, hreach, hend, (@Store.no_privilege_escalation plainLibrary s plainHuma _ hreach).1⟩

/-- A producer makes themselves an admin, and logs in as one. -/
theorem producer_becomes_admin :
    ∃ s : Store, unprivileged (some producerIdentity) = true ∧
      @Store.request plainLibrary plainHuma (grantedStore (str "producer")) (some producerIdentity)
        (.updateUser (str "u") none (some (str "admin")) none []) = .ok s ∧
      ¬@Store.SameRights plainLibrary (grantedStore (str "producer")) s ∧
      ∃ id, @passwordAuthenticate plainLibrary s ⟨str "u", str "p", [], str "n"⟩ = some id ∧
        id.isAdmin = true := by
  have hrequest : (@Store.request plainLibrary plainHuma (grantedStore (str "producer"))
      (some producerIdentity)
      (.updateUser (str "u") none (some (str "admin")) none [])).toOption.any (fun s =>
        (@passwordAuthenticate plainLibrary s ⟨str "u", str "p", [], str "n"⟩).any fun id =>
          id.isAdmin) = true := by
    decide
  obtain ⟨s, hs, hlogin⟩ := any_toOption.mp hrequest
  rw [Option.any_eq_true] at hlogin
  obtain ⟨id, hid, hadmin⟩ := hlogin
  have hcaller : unprivileged (some producerIdentity) = true := by decide
  refine ⟨s, hcaller, hs, ?_, id, hid, hadmin⟩
  rw [@Store.SameRights.request_iff plainLibrary (grantedStore (str "producer")) s
    plainHuma _ _ hcaller hs]
  decide

end Octar.Auth
