import Photon.ManagerOps
import Photon.Versioned
/-!
# DictionaryOps — several managers over one `/roles`

`DataDictionary.write` looks up the node of every key, builds a transaction from what it finds, and commits it together
with an update of the base node that needs the version the caller knows.  A manager notes the version when it starts,
before it reads the roles, and counts its own writes from there.  Between any two of these accesses another manager may
make one of its own; within a manager the calls exclude each other.

A ZooKeeper transaction takes effect as a whole or not at all, and a read that is modelled is one that was answered.  A
base node that does not exist yet is one with version 0 and no nodes below it, as `getCurrentVersion` and `getKeys` have
it.
-/
namespace Photon.Chairman

open Keyed (LinkedMap)
open Versioned (Act View)

def invalidVersion : Int := -2

inductive ZkOp where
  | delete (key : String)
  | setData (key : String) (value : Roles)
  | create (key : String) (value : Roles)
  deriving DecidableEq

def ZkOp.apply (content : LinkedMap String Roles) : ZkOp → Option (LinkedMap String Roles)
  | .delete key => if (content.get key).isSome then some (content.remove key) else none
  | .setData key value => if (content.get key).isSome then some (content.put key value) else none
  | .create key value => if (content.get key).isSome then none else some (content.put key value)

structure DataDictionary where
  content : LinkedMap String Roles
  version : Int

namespace DataDictionary

def getCurrentVersion (dict : DataDictionary) : Int := dict.version

def getKeys (dict : DataDictionary) : List String := dict.content.keys

/-- What `write` adds to the transaction for an entry of the change set. -/
def opsFor (dict : DataDictionary) (entry : String × Option Roles) : List ZkOp :=
  match dict.content.get entry.1, entry.2 with
  | some _, none => [.delete entry.1]
  | some _, some value => [.setData entry.1 value]
  | none, some value => [.create entry.1 value]
  | none, none => []

/-- The commit of a transaction, which ends with the update of the base node; the version -1 fits any. -/
def commit (dict : DataDictionary) (transaction : List ZkOp) (version : Int) : Option DataDictionary := do
  let content ← transaction.foldlM ZkOp.apply dict.content
  if version = -1 ∨ version = dict.version then some ⟨content, dict.version + 1⟩ else none

end DataDictionary

inductive Phase where
  | idle
  /-- `init` has read the version and not yet the roles. -/
  | initializing
  /-- `write` has still to look up these entries, and has this much of the transaction. -/
  | writing (todo : List (String × Option Roles)) (transaction : List ZkOp)

structure SharedManager where
  tree : Hierarchy
  hierarchyVersion : Int
  phase : Phase

structure System (ι : Type) where
  rolesDict : DataDictionary
  manager : ι → SharedManager

/-- The accesses of the managers, one at a time, and what else happens to their hierarchies. -/
inductive SharedEvent (ι : Type) where
  /-- Notifications and scans of the hierarchy, between the calls that access `/roles`. -/
  | change (i : ι) (tree : Hierarchy)
  | readVersion (i : ι)
  | readRoles (i : ι) (zkHosts : LinkedMap String HostConfig) (answers : HostRef → Bool)
  | persistDirtyHosts (i : ι)
  | checkExists (i : ι)
  | commit (i : ι)

namespace SharedManager

def isIdle (m : SharedManager) : Bool :=
  match m.phase with
  | .idle => true
  | _ => false

def readVersion (dict : DataDictionary) (m : SharedManager) : SharedManager :=
  { tree := m.tree.clear, hierarchyVersion := dict.getCurrentVersion, phase := .initializing }

/-- The rest of `init`; a manager that meets an exception there goes no further. -/
def readRoles (dict : DataDictionary) (zkHosts : LinkedMap String HostConfig) (answers : HostRef → Bool)
    (m : SharedManager) : SharedManager :=
  match Manager.init m.tree zkHosts dict.content answers with
  | none => m
  | some started => { m with tree := started.tree, phase := .idle }

/-- `persistDirtyHosts` up to the transaction: nothing is written when nothing is dirty, and an exception leaves the
manager as it is. -/
def persistDirtyHosts (dict : DataDictionary) (m : SharedManager) : SharedManager :=
  if m.tree.isHierarchyDirty dict.getKeys then
    match m.tree.leafSchedulers.values.mapM m.tree.leafRoles with
    | none => m
    | some roles =>
      if m.hierarchyVersion = invalidVersion then m
      else { m with phase := .writing (Hierarchy.changeSet dict.getKeys roles).entries [] }
  else m

def checkExists (dict : DataDictionary) (m : SharedManager) : SharedManager :=
  match m.phase with
  | .writing (entry :: todo) transaction => { m with phase := .writing todo (transaction ++ dict.opsFor entry) }
  | _ => m

def committed (dict : DataDictionary) (m : SharedManager) : Option DataDictionary :=
  match m.phase with
  | .writing [] transaction => dict.commit transaction m.hierarchyVersion
  | _ => none

/-- A write that fails leaves nothing behind. -/
def abandon (m : SharedManager) : SharedManager :=
  match m.phase with
  | .writing [] _ => { m with phase := .idle }
  | _ => m

end SharedManager

namespace System

variable {ι : Type} [DecidableEq ι]

def set (s : System ι) (i : ι) (m : SharedManager) : System ι := { s with manager := Function.update s.manager i m }

def step (s : System ι) : SharedEvent ι → System ι
  | .change i tree => if (s.manager i).isIdle then s.set i { s.manager i with tree := tree } else s
  | .readVersion i => if (s.manager i).isIdle then s.set i ((s.manager i).readVersion s.rolesDict) else s
  | .readRoles i zkHosts answers =>
    match (s.manager i).phase with
    | .initializing => s.set i ((s.manager i).readRoles s.rolesDict zkHosts answers)
    | _ => s
  | .persistDirtyHosts i => if (s.manager i).isIdle then s.set i ((s.manager i).persistDirtyHosts s.rolesDict) else s
  | .checkExists i => s.set i ((s.manager i).checkExists s.rolesDict)
  | .commit i =>
    match (s.manager i).committed s.rolesDict with
    | none => s.set i (s.manager i).abandon
    | some dict =>
      { s.set i { s.manager i with hierarchyVersion := (s.manager i).hierarchyVersion + 1, phase := .idle } with
        rolesDict := dict }

def run (s : System ι) (events : List (SharedEvent ι)) : System ι := events.foldl step s

/-- What an event adds to the log: that a manager read the version, or that it committed. -/
def act (s : System ι) : SharedEvent ι → List (Act ι)
  | .readVersion i => if (s.manager i).isIdle then [.synced i] else []
  | .commit i => if ((s.manager i).committed s.rolesDict).isSome then [.committed i] else []
  | _ => []

def log : System ι → List (SharedEvent ι) → List (Act ι)
  | _, [] => []
  | s, e :: events => s.act e ++ log (s.step e) events

/-- The version of `/roles`, and those the managers go by. -/
def view (s : System ι) : View ι := ⟨s.rolesDict.version, fun i => (s.manager i).hierarchyVersion⟩

/-- No manager has been started; what is in `/roles` was left by earlier ones. -/
structure Fresh (s : System ι) : Prop where
  version : 0 ≤ s.rolesDict.version
  manager : ∀ i, (s.manager i).hierarchyVersion = invalidVersion ∧ (s.manager i).phase = .idle

end System
end Photon.Chairman
