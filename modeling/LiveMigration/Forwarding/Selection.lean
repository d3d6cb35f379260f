import LiveMigration.Net.Flow

/-!
# Selection

Which slot of a group serves a flow. A hash has a home slot that depends on the number of slots alone; a
flow whose home is not eligible spills over to an eligible slot picked by the high part of its hash.
-/

namespace LiveMigration.Selection

def activeSlots (eligible : List Bool) : List Nat :=
  eligible.zipIdx.filterMap fun (ok, i) => if ok then some i else none

def homeOf (hash : UInt32) (slots : Nat) : Nat := hash.toNat % slots

/-- The slot that serves a hash; none if no slot is eligible. -/
def select (hash : UInt32) (eligible : List Bool) : Option Nat :=
  let slots := eligible.length
  if slots = 0 then none
  else if eligible[homeOf hash slots]? = some true then some (homeOf hash slots)
  else
    let active := activeSlots eligible
    active[hash.toNat / slots % active.length]?

end LiveMigration.Selection

namespace LiveMigration.FiveTuple

/-- The home slot of a flow in a group; a group without slots counts as one of one slot. -/
def homeSlot (t : FiveTuple) (capacity : UInt16) : Nat :=
  Selection.homeOf t.hash (max capacity.toNat 1)

end LiveMigration.FiveTuple
