import SecurityAudit.Prog.Interleaving
import SecurityAudit.Audit.Config
import SecurityAudit.Db.Models

/-!
# The calls of a worker

What a worker process asks of the world: commands to the one stream and consumer group in
Redis, SQL statements through its session, and the two sources of values that are not a
function of its input, the clock and the default factories of `AuditEvent`. Parsing a payload
is a call for that reason. Printing a line and emitting an alert are calls too: they change
nothing a worker looks at, but they can raise, already when the text is put together.

Three calls carry a label that the code does not send: the stream entry an event was parsed
from, the event and entry a row was written for, and why an id was acknowledged. Nothing
branches on a label; they are there so that a statement about runs can say which row came
from which message.
-/

namespace SecurityAudit

/-- A stream entry id, ordered as Redis orders them. -/
abbrev StreamId : Type := ℕ ×ₗ ℕ

namespace StreamId

/-- The id as Redis prints it, `<ms>-<seq>`. -/
def text (id : StreamId) : Str := natText (ofLex id).1 ++ cp '-' :: natText (ofLex id).2

theorem text_injective : Function.Injective text := by
  intro a b h
  have hdash : ∀ n, cp '-' ∉ natText n := by
    intro n hmem
    have := isDigit_of_mem_natText hmem
    revert this
    decide
  obtain ⟨h₁, -, h₂⟩ := (List.append_cons_inj_of_notMem (hdash _) (hdash _)).mp h
  exact ofLex.injective (Prod.ext (natText_injective h₁) (natText_injective h₂))

end StreamId

/-- The fields of a stream entry, as the `dict` redis-py makes of them. -/
abbrev Fields : Type := List (Str × Str)

/-- `fields.get(name)`. -/
def Fields.get (fields : Fields) (name : String) : Option Str :=
  (fields.find? fun f => f.1 = str name).map Prod.snd

/-- A stream entry: its id and its fields. -/
structure Message where
  id : StreamId
  fields : Fields

/-- A row of an `XPENDING` reply, as far as it is used. -/
structure PendingInfo where
  message_id : StreamId
  times_delivered : ℕ

/-- The integrity classification of an event. -/
inductive IntegrityStatus where
  | valid
  | invalid
  | unsigned
deriving DecidableEq

def IntegrityStatus.text : IntegrityStatus → Str
  | .valid => str "valid"
  | .invalid => str "invalid"
  | .unsigned => str "unsigned"

/-- Label: which of the two places acknowledged an id, and on account of what. -/
inductive AckReason where
  | handled (event : AuditEvent) (status : IntegrityStatus)
  | quarantined

/-- A line that the worker prints. Where it ends with an exception, that one is given. -/
inductive Line where
  /-- `NOGROUP detected during {context}: {e} ...` -/
  | nogroup (context : Str) (e : Exc)
  /-- `auto-recreate attempt failed, will retry: {recreate_error}` -/
  | recreateFailed (e : Exc)
  /-- `auto-recreate attempted for stream/group after NOGROUP ({context})` -/
  | recreateAttempted (context : Str)
  /-- `failed to parse message {message_id}: {e}` -/
  | parseFailed (id : StreamId) (e : Exc)
  /-- `SIGNATURE INVALID for message {message_id} ...` -/
  | signatureInvalid (id : StreamId) (service event_id : Str)
  /-- `failed to persist message {message_id}: {e}` -/
  | persistFailed (id : StreamId) (e : Exc)
  /-- `failed to quarantine poison message {message_id}, ...: {e}` -/
  | quarantineFailed (id : StreamId) (e : Exc)
  /-- `POISON MESSAGE {message_id} quarantined after {delivery_attempts} delivery attempts ...` -/
  | poison (id : StreamId) (delivery_attempts : ℕ)
  /-- `pending-entry sweep failed, will retry: {e}` -/
  | sweepFailed (e : Exc)
  /-- `read_group failed, will retry: {e}` -/
  | readFailed (e : Exc)

/-- An alert that the worker emits: its condition, and what its metadata say. -/
inductive Alert where
  /-- `audit_stream_or_group_missing` -/
  | groupMissing (context : Str)
  /-- `audit_stream_or_group_missing_recovered` -/
  | groupRecreated (context : Str)
  /-- `poison_event_quarantined` -/
  | poisonQuarantined (failure_category : Str) (service : Option Str) (delivery_attempts : ℕ)

/-- The calls. -/
inductive Call where
  /-- `XGROUP CREATE stream group 0-0 MKSTREAM` -/
  | xgroupCreate
  /-- `XREADGROUP GROUP group consumer COUNT 10 BLOCK 5000 STREAMS stream >` -/
  | xreadgroup (consumer : Str)
  /-- `XPENDING stream group IDLE min-idle - + batch` -/
  | xpendingRange
  /-- `XRANGE stream id id` -/
  | xrange (id : StreamId)
  /-- `XCLAIM stream group consumer min-idle ids` -/
  | xclaim (consumer : Str) (ids : List StreamId)
  /-- `XACK stream group id` -/
  | xack (id : StreamId) (reason : AckReason)
  /-- `parse_audit_event(raw)` of the entry `source` -/
  | parse (source : StreamId) (raw : Option Str)
  /-- `SessionLocal()` -/
  | openSession
  /-- `db.close()` -/
  | closeSession
  /-- `db.add(row); db.commit()` of a row for the event of the entry `source` -/
  | commitAuditEvent (source : StreamId) (event : AuditEvent) (status : IntegrityStatus)
      (row : AuditRow)
  /-- `db.add(row); db.commit()` of a quarantine row for the entry `source` -/
  | commitQuarantined (source : StreamId) (row : QuarantineRow)
  /-- `db.rollback()` -/
  | rollback
  /-- `time.monotonic()`, in milliseconds -/
  | monotonic
  /-- `time.sleep(...)` -/
  | sleep (ms : ℕ)
  /-- `print(line)`, the formatting included -/
  | print (line : Line)
  /-- `emit_security_alert(...)` -/
  | alert (alert : Alert)

/-- The result type of each call. A group read answers with the stream's name and its new
messages, or with nothing. -/
def Call.Reply : Call → Type
  | .xreadgroup _ => List (Str × List Message)
  | .xpendingRange => List PendingInfo
  | .xrange _ => List Message
  | .xclaim _ _ => List Message
  | .parse _ _ => AuditEvent
  | .monotonic => ℕ
  | _ => Unit

/-- The signature of a worker. -/
abbrev workerSig : Sig := ⟨Call, Call.Reply, Exc⟩

/-- A worker program. -/
abbrev Worker (α : Type) : Type := Prog workerSig α

/-- Make one call. -/
abbrev ask (c : Call) : Worker c.Reply := @Prog.perform workerSig c

/-- What the code is configured with and calls out to. -/
structure Env where
  cfg : AuditConfig
  crypto : Crypto
  /-- pydantic's reading of a `datetime` -/
  parseDatetime : JVal → Option DateTime

end SecurityAudit
