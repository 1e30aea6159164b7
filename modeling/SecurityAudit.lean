import SecurityAudit.Json.Reading
import SecurityAudit.RedisAcl.Confinement
import SecurityAudit.RedisAcl.Endpoints
import SecurityAudit.RedisAcl.Identity
import SecurityAudit.RedisAcl.FailClosed
import SecurityAudit.Db.Immutability
import SecurityAudit.Worker.Evidence
import SecurityAudit.Worker.Redelivery
import SecurityAudit.Worker.Disjoint
import SecurityAudit.Worker.Provenance
import SecurityAudit.Scripts.WriterAgreement
import SecurityAudit.Scripts.KeyPolicy
import SecurityAudit.Scripts.Retention
import SecurityAudit.Worker.Attempts
import SecurityAudit.Worker.Survival
import SecurityAudit.Worker.Sweeps
import SecurityAudit.Consumers.Diagnosis
import SecurityAudit.Consumers.Relabelling
import SecurityAudit.Api.TimeFilters
import SecurityAudit.Api.Deps
import SecurityAudit.Api.Pages
import SecurityAudit.Audit.CanonicalJson
import SecurityAudit.Worker.Published
import SecurityAudit.Audit.AlertNews
import SecurityAudit.RedisAcl.Messages
import SecurityAudit.Api.Metadata
import SecurityAudit.Audit.Contexts
import SecurityAudit.Audit.TamperEvidence
import SecurityAudit.Worker.Conservation
import SecurityAudit.Worker.Lifecycle
import SecurityAudit.Worker.Stuck
import SecurityAudit.Worker.Blockage
import SecurityAudit.Worker.Recovery
import SecurityAudit.Services.HealthReport
import SecurityAudit.Scripts.RetentionReport
import SecurityAudit.Api.Export
import SecurityAudit.Db.Upgrades
import SecurityAudit.Db.Setup
import SecurityAudit.Worker.Attribution
