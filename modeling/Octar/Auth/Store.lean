import Octar.Lib.GoMap
import Octar.Lib.Run
import Octar.Lib.Table

namespace Octar.Auth

open Go Sql

class StoreLibrary where
  generateFromPassword : (salt password : Bytes) → Option Bytes
  compareHashAndPassword : (hash password : Bytes) → Bool
  marshal : List Bytes → Bytes
  unmarshal : Bytes → List Bytes
  quote : Bytes → Bytes

open StoreLibrary

def validRoles : List Bytes :=
  [str "admin", str "producer", str "consumer", str "observer", str "billing", str "service"]

structure User where
  id : Nat
  username : Bytes
  passwordHash : Bytes
  email : Option Bytes
  role : Bytes
  deriving DecidableEq, Repr

structure Namespace where
  id : Nat
  name : Bytes
  deriving DecidableEq, Repr

structure NamespaceGrant where
  userID : Nat
  namespaceID : Nat
  permissions : Bytes
  deriving DecidableEq, Repr

def NamespaceGrant.key (r : NamespaceGrant) : Nat × Nat := (r.userID, r.namespaceID)

structure Store where
  users : Table User.username
  namespaces : Table Namespace.name
  userNamespacePermissions : Table NamespaceGrant.key
  lastUserID : Nat

inductive DbError
  | notFound
  | conflict (text : Bytes)
  | validation (text : Bytes)
  | forbidden (text : Bytes)
  | bcrypt
  deriving DecidableEq, Repr

namespace Store

def getUser (s : Store) (username : Bytes) : Except DbError User :=
  match s.users.select username with
  | none => .error .notFound
  | some user => .ok user

def getNamespace (s : Store) (name : Bytes) : Except DbError Namespace :=
  match s.namespaces.select name with
  | none => .error .notFound
  | some ns => .ok ns

def adminCount (s : Store) : Nat := s.users.rows.countP fun u => u.role = str "admin"

def removeUser (s : Store) (user : User) : Store :=
  { s with
    users := s.users.delete fun u => u.username = user.username
    userNamespacePermissions := s.userNamespacePermissions.delete fun r => r.userID = user.id }

def deleteUser (s : Store) (username : Bytes) : Except DbError Store :=
  match s.getUser username with
  | .error _ => .error .notFound
  | .ok user =>
    if user.role = str "admin" ∧ s.adminCount ≤ 1 then
      .error (.forbidden (str "forbidden: cannot delete the last admin user"))
    else .ok (s.removeUser user)

def setEmail (s : Store) (username email : Bytes) : Store :=
  { s with
    users := s.users.update (fun u => { u with email := some email }) (fun _ => rfl) username }

def setRole (s : Store) (username role : Bytes) : Store :=
  { s with users := s.users.update (fun u => { u with role := role }) (fun _ => rfl) username }

def setPasswordHash (s : Store) (username hash : Bytes) : Store :=
  { s with
    users := s.users.update (fun u => { u with passwordHash := hash }) (fun _ => rfl) username }

variable [StoreLibrary]

def checkPassword (s : Store) (username password : Bytes) : Bool :=
  match s.getUser username with
  | .error _ => false
  | .ok user => compareHashAndPassword user.passwordHash password

def invalidRole (role : Bytes) : DbError :=
  .validation (str "validation error: invalid role " ++ quote role ++
    str "; must be one of admin, producer, consumer, observer, billing, service")

def createUser (s : Store) (username password email role salt : Bytes) : Except DbError Store :=
  if role ∉ validRoles then .error (invalidRole role)
  else
    match generateFromPassword salt password with
    | none => .error .bcrypt
    | some hash =>
      match s.users.insert ⟨s.lastUserID + 1, username, hash, some email, role⟩ with
      | none => .error (.conflict (str "already exists: username " ++ quote username))
      | some users => .ok { s with users := users, lastUserID := s.lastUserID + 1 }

def updateUser (s : Store) (username : Bytes) (email role password : Option Bytes) (salt : Bytes) :
    Except DbError Store :=
  match role.filter (· ∉ validRoles) with
  | some role => .error (invalidRole role)
  | none =>
    match s.users.select username with
    | none => .error .notFound
    | some _ =>
      let s := email.elim s (s.setEmail username)
      let s := role.elim s (s.setRole username)
      match password with
      | none => .ok s
      | some password =>
        match generateFromPassword salt password with
        | none => .error .bcrypt
        | some hash => .ok (s.setPasswordHash username hash)

def getUserNamespacePermissionsByUsername (s : Store) (username : Bytes) :
    Except DbError (Map Bytes (List Bytes)) := do
  let user ← s.getUser username
  let rows :=
    (s.userNamespacePermissions.rows.filter fun unp => unp.userID = user.id).flatMap fun unp =>
    (s.namespaces.rows.filter fun n => n.id = unp.namespaceID).map fun n =>
      (n.name, unp.permissions)
  return rows.foldl (fun result row => result.insert row.1 (unmarshal row.2)) ∅

def setUserNamespacePermissionsByName (s : Store) (username namespaceName : Bytes)
    (permissions : List Bytes) :
    Except DbError Store := do
  let user ← s.getUser username
  let ns ← s.getNamespace namespaceName
  return { s with
    userNamespacePermissions := s.userNamespacePermissions.replace ⟨user.id, ns.id,
      marshal permissions⟩ }

end Store

def User.patch (email role hash : Option Bytes) (u : User) : User :=
  { u with
    email := email.or u.email, role := role.getD u.role, passwordHash := hash.getD u.passwordHash }

namespace Store

variable {s s' : Store} {username : Bytes}

theorem getUser_ok {user : User} :
    s.getUser username = .ok user ↔ s.users.select username = some user := by
  unfold getUser
  cases s.users.select username <;> simp

theorem deleteUser_ok (h : s.deleteUser username = .ok s') :
    ∃ user, s.users.select username = some user ∧ ¬(user.role = str "admin" ∧ s.adminCount ≤ 1) ∧
      s' = s.removeUser user := by
  unfold deleteUser at h
  split at h
  · cases h
  · rename_i user huser
    split at h
    · cases h
    · rename_i hlast
      cases h
      exact ⟨user, getUser_ok.mp huser, hlast, rfl⟩

def patchUser (s : Store) (username : Bytes) (email role hash : Option Bytes) : Store :=
  { s with users := s.users.update (User.patch email role hash) (fun _ => rfl) username }

theorem patchUser_patchUser (email role hash email' role' hash' : Option Bytes) :
    (s.patchUser username email role hash).patchUser username email' role' hash' =
      s.patchUser username (email'.or email) (role'.or role) (hash'.or hash) := by
  have hpatch : User.patch email' role' hash' ∘ User.patch email role hash =
      User.patch (email'.or email) (role'.or role) (hash'.or hash) := by
    funext u
    cases email' <;> cases role' <;> cases hash' <;> rfl
  have hupdate :=
    s.users.update_update (f := User.patch email role hash) (g := User.patch email' role' hash')
    (fun _ => rfl) (fun _ => rfl) username
  simp only [hpatch] at hupdate
  exact congrArg (fun users => { s with users := users }) hupdate

theorem mem_patchUser {email role hash : Option Bytes} {u' : User} :
    u' ∈ (s.patchUser username email role hash).users.rows ↔
      ∃ u ∈ s.users.rows, u' = if u.username = username then u.patch email role hash else u := by
  apply Table.mem_update
  intro u
  rfl

theorem patchUser_none : s.patchUser username none none none = s := by
  simp only [patchUser]
  exact congrArg (fun users => { s with users := users })
    (s.users.update_id (fun _ => rfl) username)

theorem elim_setEmail (email : Option Bytes) :
    email.elim s (s.setEmail username) = s.patchUser username email none none := by
  cases email with
  | none => exact patchUser_none.symm
  | some email => rfl

theorem elim_setRole (role : Option Bytes) :
    role.elim s (s.setRole username) = s.patchUser username none role none := by
  cases role with
  | none => exact patchUser_none.symm
  | some role => rfl

variable [StoreLibrary]

theorem createUser_ok {password email role salt : Bytes}
    (h : s.createUser username password email role salt = .ok s') :
    ∃ user users, s.users.insert user = some users ∧ user.username = username ∧
      s' = { s with users := users, lastUserID := s.lastUserID + 1 } := by
  unfold createUser at h
  split at h
  · cases h
  · split at h
    · cases h
    · split at h
      · cases h
      · rename_i users hinsert
        cases h
        exact ⟨_, users, hinsert, rfl, rfl⟩

theorem updateUser_ok {email role password : Option Bytes} {salt : Bytes}
    (h : s.updateUser username email role password salt = .ok s') :
    (∀ r ∈ role, r ∈ validRoles) ∧ (∀ p ∈ password, (generateFromPassword salt p).isSome) ∧
      (s.users.select username).isSome ∧ ∃ hash : Option Bytes,
        s' = s.patchUser username email role hash := by
  have hroles : ∀ {r : Bytes}, role.filter (· ∉ validRoles) = none → r ∈ role → r ∈ validRoles := by
    intro r hvalid hr
    have hno := Option.filter_eq_none_iff.mp hvalid r hr
    simpa using hno
  unfold updateUser at h
  split at h
  · cases h
  · rename_i hvalid
    split at h
    · cases h
    · rename_i user huser
      simp only [elim_setEmail, elim_setRole, patchUser_patchUser, Option.or_none,
        Option.none_or] at h
      split at h
      · cases h
        exact ⟨fun r hr => hroles hvalid hr, (fun p hp => by cases hp),
          by rw [huser]; rfl, none, rfl⟩
      · rename_i password
        split at h
        · cases h
        · rename_i hash hhash
          cases h
          refine ⟨fun r hr => hroles hvalid hr, ?_, by rw [huser]; rfl, some hash, ?_⟩
          swap
          · exact patchUser_patchUser email role none none none (some hash)
          intro p hp
          cases hp
          rw [hhash]
          rfl

end Store

inductive UserCall
  | createUser (username password email role salt : Bytes)
  | updateUser (username : Bytes) (email role password : Option Bytes) (salt : Bytes)
  | deleteUser (username : Bytes)

namespace Store

variable [StoreLibrary]

def call (s : Store) : UserCall → Except DbError Store
  | .createUser username password email role salt => s.createUser username password email role salt
  | .updateUser username email role password salt => s.updateUser username email role password salt
  | .deleteUser username => s.deleteUser username

def afterCall (s : Store) (c : UserCall) : Except DbError Store := .ok ((s.call c).toOption.getD s)

def Manageable (s : Store) : Prop := ∃ u ∈ s.users.rows, u.role = str "admin"

instance (s : Store) : Decidable s.Manageable :=
  inferInstanceAs (Decidable (∃ u ∈ s.users.rows, u.role = str "admin"))

def demotesLastAdmin (s : Store) : UserCall → Bool
  | .updateUser username _ (some role) password salt =>
    role ∈ validRoles && role ≠ str "admin" &&
      (password.all fun p => (generateFromPassword salt p).isSome) &&
      s.users.rows.all fun u => u.role ≠ str "admin" || u.username = username
  | _ => false

variable {s s' : Store} {username : Bytes}

theorem Manageable.createUser {password email role salt : Bytes} (hs : s.Manageable)
    (h : s.createUser username password email role salt = .ok s') : s'.Manageable := by
  obtain ⟨user, users, hinsert, -, rfl⟩ := createUser_ok h
  obtain ⟨u, hu, hrole⟩ := hs
  refine ⟨u, ?_, hrole⟩
  rw [Table.insert_rows hinsert]
  exact List.mem_append_left _ hu

omit [StoreLibrary] in
theorem adminCount_le_one (h : ∀ u ∈ s.users.rows, u.role = str "admin" → u.username = username) :
    s.adminCount ≤ 1 := by
  have hunique := (s.users.delete fun u => u.role ≠ str "admin").unique
  have hnames : ∀ name ∈ (s.users.delete fun u => u.role ≠ str "admin").rows.map User.username,
      username = name := by
    intro name hname
    obtain ⟨u, hu, rfl⟩ := List.mem_map.mp hname
    obtain ⟨hmem, hadmin⟩ := Table.mem_delete.mp hu
    exact (h u hmem (by simpa using hadmin)).symm
  have hcount := List.count_eq_length.mpr hnames
  have hle := List.nodup_iff_count_le_one.mp hunique username
  rw [hcount, List.length_map] at hle
  simpa [adminCount, List.countP_eq_length_filter, Table.delete] using hle

omit [StoreLibrary] in
theorem Manageable.deleteUser (hs : s.Manageable) (h : s.deleteUser username = .ok s') :
    s'.Manageable := by
  obtain ⟨user, huser, hlast, rfl⟩ := deleteUser_ok h
  obtain ⟨hmem, hname⟩ := Table.select_eq_some.mp huser
  by_contra hgone
  have hall : ∀ u ∈ s.users.rows, u.role = str "admin" → u.username = username := by
    intro u hu hrole
    by_contra hne
    refine hgone ⟨u, Table.mem_delete.mpr ⟨hu, ?_⟩, hrole⟩
    rw [hname]
    exact decide_eq_false hne
  obtain ⟨admin, hadmin, hrole⟩ := hs
  have heq : admin = user :=
    List.inj_on_of_nodup_map s.users.unique hadmin hmem ((hall admin hadmin hrole).trans hname.symm)
  exact hlast ⟨heq ▸ hrole, adminCount_le_one hall⟩

omit [StoreLibrary] in
theorem manageable_patchUser {email role hash : Option Bytes}
    (huser : (s.users.select username).isSome) (hs : s.Manageable) :
    (s.patchUser username email role hash).Manageable ↔
      ∀ r ∈ role, r ≠ str "admin" → ∃ u ∈ s.users.rows, u.role = str "admin" ∧
        u.username ≠ username := by
  constructor
  · rintro ⟨u', hu', hrole⟩ r rfl hr
    obtain ⟨u, hu, rfl⟩ := mem_patchUser.mp hu'
    split at hrole
    · exact absurd hrole hr
    · rename_i hne
      exact ⟨u, hu, hrole, hne⟩
  · intro h
    obtain ⟨user, huser⟩ := Option.isSome_iff_exists.mp huser
    obtain ⟨hmem, hname⟩ := Table.select_eq_some.mp huser
    by_cases hother : ∃ u ∈ s.users.rows, u.role = str "admin" ∧ u.username ≠ username
    · obtain ⟨u, hu, hrole, hne⟩ := hother
      refine ⟨_, mem_patchUser.mpr ⟨u, hu, rfl⟩, ?_⟩
      rw [if_neg hne]
      exact hrole
    · cases role with
      | none =>
        obtain ⟨u, hu, hrole⟩ := hs
        refine ⟨_, mem_patchUser.mpr ⟨u, hu, rfl⟩, ?_⟩
        split
        · exact hrole
        · exact hrole
      | some role =>
        refine ⟨_, mem_patchUser.mpr ⟨user, hmem, rfl⟩, ?_⟩
        rw [if_pos hname]
        exact not_not.mp fun hr => hother (h role rfl hr)

theorem Manageable.call_iff (hs : s.Manageable) {c : UserCall} (h : s.call c = .ok s') :
    s'.Manageable ↔ s.demotesLastAdmin c = false := by
  cases c with
  | createUser => exact ⟨fun _ => rfl, fun _ => hs.createUser h⟩
  | deleteUser => exact ⟨fun _ => rfl, fun _ => hs.deleteUser h⟩
  | updateUser username email role password salt =>
    obtain ⟨hroles, hpassword, huser, hash, rfl⟩ := updateUser_ok h
    rw [manageable_patchUser huser hs]
    cases role with
    | none => exact ⟨fun _ => rfl, fun _ r hr => nomatch hr⟩
    | some role =>
      have hvalid : role ∈ validRoles := hroles role rfl
      have hhash : (password.all fun p => (generateFromPassword salt p).isSome) = true := by
        rw [Option.all_eq_true]
        exact hpassword
      simp only [demotesLastAdmin, decide_eq_true hvalid, hhash, Bool.true_and, Bool.and_true,
        Option.mem_some_iff, forall_eq', Bool.and_eq_false_iff, decide_eq_false_iff_not, not_not,
        List.all_eq_false, Bool.or_eq_true, decide_eq_true_eq, Decidable.or_iff_not_imp_left,
        Classical.not_imp, ne_eq]

/-- There is an admin after every call of every sequence in which no call gives the last admin
another role; and such a call leaves none. -/
theorem always_an_admin {s₀ : Store} (h₀ : s₀.Manageable)
    (hreach : Reachable afterCall (fun s c => s.demotesLastAdmin c = false) s₀ s) :
    s.Manageable ∧ ∀ c s', s.call c = .ok s' → (s'.Manageable ↔ s.demotesLastAdmin c = false) := by
  have hs : s.Manageable := by
    refine hreach.invariant h₀ ?_
    intro s c s' hs hc h
    cases h
    cases hcall : s.call c with
    | error e => exact hs
    | ok s' => exact (hs.call_iff hcall).mpr hc
  exact ⟨hs, fun c s' h => hs.call_iff h⟩

end Store

@[reducible] def plainLibrary : StoreLibrary where
  generateFromPassword _ password := some password
  compareHashAndPassword hash password := hash = password
  marshal perms := perms.map fun _ => 42
  unmarshal text := text.map fun b => [b]
  quote text := text

def twoAdmins : Store where
  users := ⟨[⟨1, str "a", [], none, str "admin"⟩, ⟨2, str "b", [], none, str "admin"⟩], by decide⟩
  namespaces := ⟨[], by decide⟩
  userNamespacePermissions := ⟨[], by decide⟩
  lastUserID := 2

theorem always_an_admin_sample :
    ∃ s, Reachable (@Store.afterCall plainLibrary)
      (fun s c => @Store.demotesLastAdmin plainLibrary s c = false)
        twoAdmins s ∧ s.adminCount = 1 ∧ s.Manageable ∧
      ∃ c s', @Store.call plainLibrary s c = .ok s' ∧ ¬s'.Manageable := by
  have htrace :
      (run (checked (@Store.afterCall plainLibrary)
        (fun s c => !@Store.demotesLastAdmin plainLibrary s c)
      .notFound) twoAdmins [.updateUser (str "a") none (some (str "producer")) none
        []]).toOption.any (fun s =>
        s.adminCount = 1 && @Store.demotesLastAdmin plainLibrary s
            (.updateUser (str "b") none (some (str "producer")) none []) &&
          (@Store.call plainLibrary s (.updateUser (str "b") none (some (str "producer")) none
            [])).toOption.any fun _ => true) = true := by
    decide
  obtain ⟨s, hreach, hend⟩ := Reachable.ofTrace (fun _ _ h => by simpa using h) _ _ htrace
  simp only [Bool.and_eq_true, decide_eq_true_eq] at hend
  obtain ⟨⟨hcount, hdemotes⟩, hcall⟩ := hend
  obtain ⟨s', hcall, -⟩ := any_toOption.mp hcall
  obtain ⟨hs, hnext⟩ := @Store.always_an_admin plainLibrary s twoAdmins (by decide) hreach
  refine ⟨s, hreach, hcount, hs, _, s', hcall, ?_⟩
  rw [hnext _ s' hcall, hdemotes]
  exact Bool.false_ne_true.symm

/-- The only admin becomes a producer. -/
theorem last_admin_demoted :
    ∃ s s' : Store, s.Manageable ∧
      @Store.call plainLibrary s (.updateUser (str "a") none (some (str "producer")) none []) =
        .ok s' ∧ ¬s'.Manageable := by
  have hcall :
      (@Store.call plainLibrary
        { twoAdmins with users := ⟨[⟨1, str "a", [], none, str "admin"⟩], by decide⟩ }
      (.updateUser (str "a") none (some (str "producer")) none [])).toOption.any
        (fun s' => ¬s'.Manageable) = true := by
    decide
  obtain ⟨s', hs', hnone⟩ := exists_ok hcall
  exact ⟨_, s', by decide, hs', hnone⟩

end Octar.Auth
