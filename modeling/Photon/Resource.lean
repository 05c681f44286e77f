import Photon.Keyed
import Mathlib.Data.Finset.Card
import Mathlib.Data.Multiset.Bind
/-!
# Resource — what a host offers

The thrift records of `resource.thrift` the schedulers exchange, and the chairman's own model of a host's resources
(`chairman/service`).  A `ResourceConstraint` compares all three of its fields; a `Datastore` and a `Network` compare
their ids only, so a Java set of them is a list with distinct ids.
-/
namespace Photon

open Keyed (KeyedList)

inductive ResourceConstraintType where
  | datastore | host | network | availabilityZone | datastoreTag | managementOnly
  deriving DecidableEq

inductive NetworkType where
  | vm | management | ftLogging | vsphereReplication | vsphereReplicationNfc | vmotion | vsan | other
  deriving DecidableEq

structure ResourceConstraint where
  type : ResourceConstraintType
  values : List String
  negative : Option Bool
  deriving DecidableEq

def ResourceConstraint.of (type : ResourceConstraintType) (values : List String) : ResourceConstraint :=
  ⟨type, values, none⟩

/-- The generated `isNegative`: an unset field reads as `false`. -/
def ResourceConstraint.isNegative (c : ResourceConstraint) : Bool := c.negative.getD false

structure AvailabilityZone where
  id : String
  deriving DecidableEq

/-- A datastore with its tags; the type it also carries is read by no modelled function. -/
structure Datastore where
  id : String
  tags : Finset String
  deriving DecidableEq

structure Network where
  id : String
  type : Option (List NetworkType)
  deriving DecidableEq

abbrev DatastoreSet : Type := KeyedList Datastore.id
abbrev NetworkSet : Type := KeyedList Network.id

end Photon
