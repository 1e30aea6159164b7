import SecurityAudit.Db.Catalog
import SecurityAudit.Db.Immutability
import SecurityAudit.Prog.Observed

/-!
# The migrations: `alembic/versions`

Each revision has an `upgrade` and a `downgrade`, programs of statements that take effect one by
one: MySQL commits every one of them. Alembic reads the recorded revision, runs `upgrade` of the
revisions after it, or `downgrade` of the revisions back to a target, and records the revision
after each. Any call may fail, with or without its effect, which also stands for a command that is
killed; commands do not overlap. Meanwhile others insert rows.
-/

namespace SecurityAudit

open Sql

namespace Migrations

open Immutability (Table)

/-! ## Names -/

inductive ColumnName where
  | event_id
  | timestamp
  | service
  | event_type
  | user_id
  | organization_id
  | tenant_scope
  | action
  | resource
  | decision
  | reason
  | trace_id
  | context
  | integrity_status
  | created_at
  | record_integrity_hash
  | integrity_key_id
  | stream_message_id
  | raw_data
  | raw_signature
  | failure_category
  | failure_detail
  | delivery_attempts
  | quarantined_at
  | record_table
  | record_key
  | held_at
  | held_by
deriving DecidableEq

inductive IndexName where
  | ix_audit_events_org_timestamp_event
deriving DecidableEq

inductive TriggerName where
  | trg_audit_events_no_update
  | trg_audit_events_no_delete
  | trg_quarantined_audit_events_no_update
  | trg_quarantined_audit_events_no_delete
  | trg_audit_legal_holds_no_update
deriving DecidableEq

inductive Revision where
  | audit_events_0001
  | integrity_status_0002
  | tenant_contract_0003
  | quarantined_audit_events_0004
  | retention_immutability_0005
  | integrity_key_id_0006
deriving DecidableEq

abbrev Col : Type := Column ColumnName

abbrev Statement : Type := Ddl Table ColumnName IndexName TriggerName

/-! ## The calls -/

inductive Exc where
  | databaseError
  | runtimeError (message : Str)

inductive Call where
  | ddl (op : Statement)
  /-- `SELECT 1 FROM t WHERE integrity_key_id IS NOT NULL LIMIT 1` -/
  | versioned (t : Table)
  /-- Alembic reads the recorded revision. -/
  | recorded
  /-- Alembic records a revision in the place of another one. -/
  | record (previous next : Option Revision)

def Call.Reply : Call → Type
  | .ddl _ => Unit
  | .versioned _ => Bool
  | .recorded => Option Revision
  | .record _ _ => Unit

abbrev sig : Sig := ⟨Call, Call.Reply, Exc⟩

abbrev ask (c : Call) : Prog sig c.Reply := @Prog.perform sig c

abbrev execute (op : Statement) : Prog sig Unit := ask (.ddl op)

/-! ## The revisions -/

/-- `sa.Column(name, type, nullable=nullable)`. -/
def column (name : ColumnName) (type : ColumnType) (nullable : Bool) : Col :=
  ⟨name, type, nullable, false, none⟩

/-- `sa.Column(name, type, primary_key=True)`. -/
def keyColumn (name : ColumnName) (type : ColumnType) : Col := ⟨name, type, false, true, none⟩

/-- `sa.Column(name, type, nullable=False, server_default=server_default)`. -/
def defaultColumn (name : ColumnName) (type : ColumnType) (server_default : ServerDefault) : Col :=
  ⟨name, type, false, false, some server_default⟩

def upgrade_0001 : Prog sig Unit :=
  execute (.createTable .audit_events
    [keyColumn .event_id (.string 64),
      column .timestamp .dateTime false,
      column .service (.string 255) false,
      column .event_type (.string 255) false,
      column .user_id (.string 255) true,
      defaultColumn .action (.string 255) (.text []),
      column .resource (.string 255) true,
      column .decision (.string 64) true,
      column .reason .text true,
      column .trace_id (.string 255) true,
      column .context .json false,
      defaultColumn .created_at .dateTime .now])

def downgrade_0001 : Prog sig Unit := execute (.dropTable .audit_events)

def upgrade_0002 : Prog sig Unit :=
  execute (.addColumn .audit_events
    (defaultColumn .integrity_status (.string 16) (.text (str "unsigned"))))

def downgrade_0002 : Prog sig Unit := execute (.dropColumn .audit_events .integrity_status)

def upgrade_0003 : Prog sig Unit := do
  execute (.addColumn .audit_events (column .organization_id (.string 255) true))
  execute (.addColumn .audit_events
    (defaultColumn .tenant_scope (.string 16) (.text (str "unknown"))))
  execute (.createIndex .ix_audit_events_org_timestamp_event .audit_events
    [.organization_id, .timestamp, .event_id])

def downgrade_0003 : Prog sig Unit := do
  execute (.dropIndex .ix_audit_events_org_timestamp_event .audit_events)
  execute (.dropColumn .audit_events .tenant_scope)
  execute (.dropColumn .audit_events .organization_id)

def upgrade_0004 : Prog sig Unit :=
  execute (.createTable .quarantined_audit_events
    [keyColumn .stream_message_id (.string 64),
      column .raw_data .text true,
      column .raw_signature .text true,
      column .service (.string 255) true,
      column .failure_category (.string 32) false,
      column .failure_detail (.string 255) true,
      column .delivery_attempts .integer false,
      defaultColumn .quarantined_at .dateTime .now])

def downgrade_0004 : Prog sig Unit := execute (.dropTable .quarantined_audit_events)

/-- `dialect` is `op.get_bind().dialect.name`. -/
def upgrade_0005 (dialect : Str) : Prog sig Unit := do
  execute (.addColumn .audit_events (column .record_integrity_hash (.string 64) true))
  execute (.addColumn .quarantined_audit_events (column .record_integrity_hash (.string 64) true))
  execute (.createTable .audit_legal_holds
    [keyColumn .record_table (.string 32),
      keyColumn .record_key (.string 64),
      defaultColumn .held_at .dateTime .now,
      column .held_by (.string 255) true,
      column .reason (.string 255) true])
  if dialect ≠ str "mysql" then return
  else
    execute (.createTrigger .trg_audit_events_no_update .audit_events)
    execute (.createTrigger .trg_audit_events_no_delete .audit_events)
    execute (.createTrigger .trg_quarantined_audit_events_no_update .quarantined_audit_events)
    execute (.createTrigger .trg_quarantined_audit_events_no_delete .quarantined_audit_events)
    execute (.createTrigger .trg_audit_legal_holds_no_update .audit_legal_holds)

def downgrade_0005 (dialect : Str) : Prog sig Unit := do
  if dialect = str "mysql" then
    execute (.dropTriggerIfExists .trg_audit_legal_holds_no_update)
    execute (.dropTriggerIfExists .trg_quarantined_audit_events_no_delete)
    execute (.dropTriggerIfExists .trg_quarantined_audit_events_no_update)
    execute (.dropTriggerIfExists .trg_audit_events_no_delete)
    execute (.dropTriggerIfExists .trg_audit_events_no_update)
  execute (.dropTable .audit_legal_holds)
  execute (.dropColumn .quarantined_audit_events .record_integrity_hash)
  execute (.dropColumn .audit_events .record_integrity_hash)

def upgrade_0006 : Prog sig Unit := do
  execute (.addColumn .audit_events (column .integrity_key_id (.string 64) true))
  execute (.addColumn .quarantined_audit_events (column .integrity_key_id (.string 64) true))

/-- The turn of one table in the check of `downgrade_0006`. -/
def refuseVersioned (t : Table) : Prog sig Unit := do
  let present : Bool ← ask (.versioned t)
  if present = true then
    .raise (.runtimeError (str "cannot downgrade while " ++ t.name ++
      str " contains versioned integrity records"))
  else return

def downgrade_0006 : Prog sig Unit := do
  Prog.forEach refuseVersioned [.audit_events, .quarantined_audit_events]
  execute (.dropColumn .quarantined_audit_events .integrity_key_id)
  execute (.dropColumn .audit_events .integrity_key_id)

/-- A file of `alembic/versions`. -/
structure Migration where
  revision : Revision
  down_revision : Option Revision
  upgrade : Str → Prog sig Unit
  downgrade : Str → Prog sig Unit

/-- The revisions, from the first one on. -/
def versions : List Migration :=
  [⟨.audit_events_0001, none, fun _ => upgrade_0001, fun _ => downgrade_0001⟩,
    ⟨.integrity_status_0002, some .audit_events_0001, fun _ => upgrade_0002,
      fun _ => downgrade_0002⟩,
    ⟨.tenant_contract_0003, some .integrity_status_0002, fun _ => upgrade_0003,
      fun _ => downgrade_0003⟩,
    ⟨.quarantined_audit_events_0004, some .tenant_contract_0003, fun _ => upgrade_0004,
      fun _ => downgrade_0004⟩,
    ⟨.retention_immutability_0005, some .quarantined_audit_events_0004, upgrade_0005,
      downgrade_0005⟩,
    ⟨.integrity_key_id_0006, some .retention_immutability_0005, fun _ => upgrade_0006,
      fun _ => downgrade_0006⟩]

/-- The last revision. -/
def head : Revision := .integrity_key_id_0006

/-! ## The commands -/

/-- The revisions after the recorded one. -/
def pending : Option Revision → List Migration
  | none => versions
  | some r => (versions.dropWhile fun m => m.revision ≠ r).drop 1

/-- The revisions up to the recorded one, the last one first. -/
def applied (r : Option Revision) : List Migration :=
  (versions.take (versions.length - (pending r).length)).reverse

/-- `alembic upgrade`, by at most `steps` revisions. -/
def alembicUpgrade (dialect : Str) (steps : ℕ) : Prog sig Unit := do
  let recorded : Option Revision ← ask .recorded
  Prog.forEach (fun m => do
    m.upgrade dialect
    ask (.record m.down_revision (some m.revision))) ((pending recorded).take steps)

/-- `alembic downgrade`, by at most `steps` revisions. -/
def alembicDowngrade (dialect : Str) (steps : ℕ) : Prog sig Unit := do
  let recorded : Option Revision ← ask .recorded
  Prog.forEach (fun m => do
    m.downgrade dialect
    ask (.record (some m.revision) m.down_revision)) ((applied recorded).take steps)

/-! ## The database -/

structure State where
  catalog : Catalog Table ColumnName IndexName TriggerName
  rows : Table → List (Cells ColumnName)
  revision : Option Revision

/-- A database without tables. -/
def State.empty : State := ⟨[], fun _ => [], none⟩

/-- Some row of the table has a key id. -/
def State.Versioned (s : State) (t : Table) : Prop :=
  ∃ r ∈ s.rows t, ∃ cell, (ColumnName.integrity_key_id, cell) ∈ r ∧ cell ≠ .null

/-- What a call does that takes effect. -/
inductive Effect : (c : Call) → State → c.Reply → State → Prop where
  | ddl {s : State} {op : Statement} {catalog} (h : op.onCatalog s.catalog = some catalog)
      (now : Naive) : Effect (.ddl op) s () { s with catalog := catalog
                                                     rows := op.onRows now s.rows }
  | versioned {s : State} {t : Table} {present : Bool} (h : present = true ↔ s.Versioned t) :
      Effect (.versioned t) s present s
  | recorded {s : State} : Effect .recorded s s.revision s
  | record {s : State} {previous next : Option Revision} (h : s.revision = previous) :
      Effect (.record previous next) s () { s with revision := next }

/-- A call is answered, or it fails, with its effect or without. -/
inductive Answers : (c : Call) → State → sig.Answer c → State → Prop where
  | ok {c : Call} {s s' : State} {v : c.Reply} (h : Effect c s v s') : Answers c s (.ok v) s'
  | lost {c : Call} {s s' : State} {v : c.Reply} (h : Effect c s v s') :
      Answers c s (.error .databaseError) s'
  | failed (c : Call) (s : State) : Answers c s (.error .databaseError) s

/-- Others insert rows. -/
structure OthersInsert (s s' : State) : Prop where
  catalog : s'.catalog = s.catalog
  revision : s'.revision = s.revision
  rows : ∀ t, ∀ r ∈ s.rows t, r ∈ s'.rows t

def world : World sig State := ⟨Answers, OthersInsert⟩

end Migrations

end SecurityAudit
