import SecurityAudit.Worker.Calls

/-!
# Reading the stream: `consumers/stream_reader.py`
-/

namespace SecurityAudit

namespace StreamReader

/-- `ensure_group`: an existing group is left as it is. -/
def ensureGroup : Worker Unit := do
  match ← (ask .xgroupCreate).attempt with
  | .ok _ => return ()
  | .error .busyGroup => return ()
  | .error e => .raise e

/-- `read_group`. -/
def readGroup (consumer : Str) : Worker (List (Str × List Message)) := ask (.xreadgroup consumer)

/-- `ack`. -/
def ack (id : StreamId) (reason : AckReason) : Worker Unit := ask (.xack id reason)

/-- A poison entry: its id, its fields and how often it was delivered. -/
structure PoisonEntry where
  message_id : StreamId
  fields : Fields
  delivery_attempts : ℕ

/-- `entry_range[0][1] if entry_range else {}`. -/
def fieldsOfRange : List Message → Fields
  | [] => []
  | m :: _ => m.fields

/-- The loop over `poison_ids`: the fields of each entry, read without claiming it. -/
def fetchPoison : List PendingInfo → Worker (List PoisonEntry)
  | [] => return []
  | e :: rest => do
    let range ← ask (.xrange e.message_id)
    let others ← fetchPoison rest
    return ⟨e.message_id, fieldsOfRange range, e.times_delivered⟩ :: others

/-- `claim_stale`, with the configured thresholds: the claimed entries and the poison ones.
The ids of a pending list are distinct, so `deliveries_by_id` of an id is its own count. -/
def claimStale (cfg : AuditConfig) (consumer : Str) :
    Worker (List Message × List PoisonEntry) := do
  let stale ← ask .xpendingRange
  if stale.isEmpty then return ([], [])
  else do
    let poison := stale.filter fun e => decide (cfg.pelMaxDeliveries ≤ e.times_delivered)
    let reclaimable := stale.filter fun e => decide ((e.times_delivered : ℤ) < cfg.pelMaxDeliveries)
    let poisonEntries ← fetchPoison poison
    let claimed ← if reclaimable.isEmpty then pure []
      else ask (.xclaim consumer (reclaimable.map PendingInfo.message_id))
    return (claimed, poisonEntries)

end StreamReader

end SecurityAudit
