import Octar.Lib.GoMap

namespace Octar.Auth

open Go

inductive Permission
  | publish | consume | ack | nack | manageQueues | manageUsers | metricsRead | auditRead | admin
  deriving DecidableEq, Repr

abbrev PermissionSet := NilMap Permission Bool

def newPermissionSet (perms : List Permission) : PermissionSet :=
  some (perms.foldl (fun ps p => ps.insert p true) ∅)

def permissionFromString (p : Bytes) : Option Permission :=
  if p = str "publish" then some .publish
  else if p = str "consume" then some .consume
  else if p = str "ack" then some .ack
  else if p = str "nack" then some .nack
  else if p = str "queues:manage" ∨ p = str "manage_queues" then some .manageQueues
  else if p = str "users:manage" ∨ p = str "manage_users" then some .manageUsers
  else if p = str "metrics:read" then some .metricsRead
  else if p = str "audit:read" then some .auditRead
  else if p = str "admin" then some .admin
  else none

def permissionSetFromStrings (perms : List Bytes) : PermissionSet :=
  newPermissionSet (perms.filterMap permissionFromString)

def subjectUser : Bytes := str "USER"

def subjectService : Bytes := str "SERVICE_ACCOUNT"

def subjectAdmin : Bytes := str "ADMIN"

structure Identity where
  subjectID : Bytes
  subjectType : Bytes
  ns : Bytes
  roles : List Bytes
  permissions : PermissionSet
  namespaces : NilMap Bytes (List Bytes)

namespace Identity

def hasPermission (i : Identity) (p : Permission) : Bool :=
  match i.permissions with
  | none => false
  | some permissions => (permissions.lookup p).getD false

def canPublish (i : Identity) : Bool := i.hasPermission .publish

def canConsume (i : Identity) : Bool := i.hasPermission .consume

def canManageUsers (i : Identity) : Bool := i.hasPermission .manageUsers

def isAdmin (i : Identity) : Bool := i.hasPermission .admin || i.subjectType = subjectAdmin

def canAccessNamespace (i : Identity) (ns : Bytes) : Bool :=
  if i.isAdmin then true
  else
    match i.namespaces.get? ns with
    | some perms => 0 < perms.length
    | none => false

end Identity

end Octar.Auth
