import SessionWarden.Session.Script
/-!
# The repository of records

The operations on records that the engine builds on. Each enters its part of the world first, which may fail
and then nothing else happens; a rotation is two calls on the table.
-/

namespace SessionWarden.Repository

/-- Stores a record (`MemoryTokenRepo::create`). -/
def create (r : Record) : Action Record := do
  Action.enter .create .store
  Action.table (.insert r)
  return r

/-- The record of an identifier (`get_by_id`). -/
def getById (id : TokenId) : Action (Option Record) := do
  Action.enter .getById .store
  Action.table (.get id)

/-- Records in the order of their expiry; those of one expiry keep their order. -/
def byExpiry (records : List Record) : List Record :=
  records.mergeSort fun a b => decide (a.expires ≤ b.expires)

/-- The records of a user in the order of their expiry (`get_by_user`). -/
def getByUser (user : UserId) : Action (List Record) := do
  Action.enter .getByUser .store
  return byExpiry (← Action.table (.ownedBy user))

/-- Removes the record of an identifier (`delete_by_id`). -/
def deleteById (id : TokenId) : Action Unit := do
  Action.enter .deleteById .store
  Action.table (.remove id)

/-- Removes the records of a user (`delete_by_user`). -/
def deleteByUser (user : UserId) : Action Unit := do
  Action.enter .deleteByUser .store
  Action.table (.removeOwnedBy user)

/-- Puts a new record in the place of one that has not expired (`rotate`); if there is no such record nothing
is stored. -/
def rotate (id : TokenId) (now : Instant) (new : Record) : Action (Option Record) := do
  Action.enter .rotate .store
  let time ← Action.query (.rotationTime id now)
  if ← Action.table (.removeLive id time) then
    Action.table (.insert new)
    return some new
  else return none

/-- The roles of a user (`RoleRepo::get_by_user`). -/
def roles (user : UserId) : Action (List Role) := do
  Action.enter .roles .store
  Action.query (.roles user)

/-- The account of a name (`UserRepo::get_by_name`). -/
def getByName (name : String) : Action (Option Account) := do
  Action.enter .getByName .store
  Action.query (.account name)

theorem mem_byExpiry {records : List Record} {r : Record} : r ∈ byExpiry records ↔ r ∈ records := by
  simp [byExpiry, List.mem_mergeSort]

theorem length_byExpiry (records : List Record) : (byExpiry records).length = records.length := by
  simp [byExpiry]

end SessionWarden.Repository
