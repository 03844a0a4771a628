import Octar.Queue.Queue

namespace Octar

open Go

structure GroupRef where
  ns : Bytes
  queue : Bytes
  group : Bytes
  deriving DecidableEq, Repr

instance : LawfulBEq (GroupRef × Bytes) := inferInstance

def Message.ref (m : Message) : GroupRef := ⟨m.ns, m.queueName, m.groupKey⟩

/-- Unlike the `path.Match` of the group configs, `*` matches any bytes and there are no classes.  A
star matches the empty string, so consecutive ones need no case of their own. -/
def matchGlob : Bytes → Bytes → Bool
  | [], name => name.isEmpty
  | p :: pattern, name =>
    if p = 42 then pattern.isEmpty || name.tails.any fun rest => matchGlob pattern rest
    else
      match name with
      | [] => false
      | n :: name => (p == 63 || p == n) && matchGlob pattern name

example : matchGlob (str "region/*") (str "region/us-east") = true := by decide

structure SubList where
  conns : List Nat
  cursor : Nat
  deriving DecidableEq, Repr

namespace SubList

def add (l : SubList) (conn : Nat) : SubList := { l with conns := l.conns ++ [conn] }

def remove (l : SubList) (conn : Nat) : SubList := { l with conns := l.conns.erase conn }

def hasAny (l : SubList) : Bool := !l.conns.isEmpty

def next (l : SubList) : SubList × Option Nat :=
  if l.hasAny then ({ l with cursor := (l.cursor + 1) % 2 ^ 64 },
    l.conns[l.cursor % l.conns.length]?)
  else (l, none)

end SubList

structure Registry where
  exact : Map GroupRef SubList
  wildcard : Map GroupRef SubList
  connSubs : Map Nat (List (GroupRef × Bool))

namespace Registry

def empty : Registry := ⟨∅, ∅, ∅⟩

def Covers (pattern g : GroupRef) : Bool :=
  pattern.ns == g.ns && pattern.queue == g.queue && matchGlob pattern.group g.group

def subscribe (subs : Map GroupRef SubList) (key : GroupRef) (conn : Nat) : Map GroupRef SubList :=
  subs.insert key (((subs.lookup key).getD ⟨[], 0⟩).add conn)

def add (r : Registry) (key : GroupRef) (conn : Nat) : Registry :=
  let wildcard := isGlobPattern key.group
  let entries := (r.connSubs.lookup conn).getD [] ++ [(key, wildcard)]
  if wildcard then
    { r with wildcard := subscribe r.wildcard key conn, connSubs := r.connSubs.insert conn entries }
  else { r with exact := subscribe r.exact key conn, connSubs := r.connSubs.insert conn entries }

def has (r : Registry) (g : GroupRef) : Bool :=
  ((r.exact.lookup g).any SubList.hasAny) ||
    r.wildcard.entries.any fun e => Covers e.1 g && e.2.hasAny

/-- The connection for the next message of a group: an exact subscriber, or one of the first pattern
met that covers the group and has one. -/
def next (r : Registry) (ord : RangeOrder) (g : GroupRef) : Registry × Option Nat :=
  match (r.exact.lookup g).filter SubList.hasAny with
  | some l => ({ r with exact := r.exact.insert g l.next.1 }, l.next.2)
  | none =>
    match (ord.pick r.wildcard.entries).find? fun e => Covers e.1 g && e.2.hasAny with
    | some e => ({ r with wildcard := r.wildcard.insert e.1 e.2.next.1 }, e.2.next.2)
    | none => (r, none)

def unsubscribe (subs : Map GroupRef SubList) (key : GroupRef) (conn : Nat) :
    Map GroupRef SubList :=
  match subs.lookup key with
  | none => subs
  | some l => if (l.remove conn).hasAny then subs.insert key (l.remove conn) else subs.erase key

def removeEntry (conn : Nat) (r : Registry) (e : GroupRef × Bool) : Registry :=
  if e.2 then { r with wildcard := unsubscribe r.wildcard e.1 conn }
  else { r with exact := unsubscribe r.exact e.1 conn }

def remove (r : Registry) (conn : Nat) : Registry :=
  ((r.connSubs.lookup conn).getD []).foldl (removeEntry conn)
    { r with connSubs := r.connSubs.erase conn }

end Registry

end Octar
