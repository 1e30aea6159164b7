import SecurityAudit.Prog.Observed
import SecurityAudit.Services.PipelineHealth
import SecurityAudit.Worker.Conservation

/-!
# What a health report says of the pipeline

The check runs while the workers do: between two of its questions they, the producers and the
clock go on, and any question may fail. Every figure of a report is nevertheless a fact about the
pipeline at a moment of the check, and what was not answered has no figure (`report_true`): a failed
question about the groups or the consumers leaves its own figures out, any other one leaves out
all of its report.

The figures of one report are of different moments. Nothing pending and no lag therefore do not
say that every entry has been handled: an entry that a worker read in between is neither among the
pending ones that were counted first nor among the unread ones that were counted later
(`caught_up`).
-/

namespace SecurityAudit

/-- No worker has been given the entry yet: it is not in the stream, or the group has not come to
it. -/
def Shared.NotRead (s : Shared) (m : Message) : Prop :=
  m ∈ s.stream → ∃ g, s.group = some g ∧ g.lastDelivered < m.id

/-- The group has the entry pending. -/
def Shared.IsPending (s : Shared) (m : Message) : Prop :=
  ∃ g, s.group = some g ∧ ∃ p ∈ g.pel, p.id = m.id

namespace PipelineHealth

open Prog

/-- The workers and what they share. -/
abbrev System : Type := Config workerSig Shared Unit

section

variable (group : Str)

/-- What a question is answered with. Nothing of the shared state tells about consumers and about
the columns the database fills in. -/
inductive Reads : (c : Call) → Shared → c.Reply → Prop where
  | xlen {s : Shared} : Reads .xlen s s.stream.length
  | xpending {s : Shared} {g : Group} (hg : s.group = some g) :
      Reads .xpending s (some g.pel.length)
  | xpendingRange {s : Shared} {g : Group} {count : ℕ} (hg : s.group = some g) :
      Reads (.xpendingRange count) s
        ((g.pel.take count).map fun p => ⟨s.now - p.deliveredAt, p.deliveries⟩)
  | xinfoGroups {s : Shared} {infos : List GroupInfo}
      (h : ∀ i ∈ infos, i.name = group → ∃ g, s.group = some g ∧
        ∀ n, i.lag = some (some n) → (g.unread s.stream).length = n) :
      Reads .xinfoGroups s infos
  | xinfoConsumers {s : Shared} (idles : List ℕ) : Reads .xinfoConsumers s idles
  | maxCreatedAt {s : Shared} (t : Option Naive) : Reads .maxCreatedAt s t
  | countQuarantined {s : Shared} : Reads .countQuarantined s (some s.quarantined.length)
  | maxQuarantinedAt {s : Shared} (t : Option Naive) : Reads .maxQuarantinedAt s t
  | getenv {s : Shared} (name : String) (value : Option Str) : Reads (.getenv name) s value
  | emit {s : Shared} (request : SecurityAlerts.AlertRequest) : Reads (.emit request) s ()
  | utcnow {s : Shared} (t : Naive) : Reads .utcnow s t
  | readText {s : Shared} (dir : Str) (name : String) (text : Option Str) :
      Reads (.readText dir name) s text

/-- The environment and the clock are always there to be read. -/
def Call.MayRaise : Call → Prop
  | .getenv _ | .utcnow => False
  | _ => True

/-- The check among the workers: no question changes anything, and any may fail. -/
def healthWorld (env : Env) : World sig System where
  answers c cfg r cfg' := cfg' = cfg ∧
    match r with
    | .ok v => Reads group c cfg.state v
    | .error _ => c.MayRaise
  drift := Step (world env) (IsWorker env)

end

variable {env : Env} {group : Str} {batch : ℕ} {N : Numerals} {cfg cfg' : System}
  {trace trace' : List (Entry sig System)}

/-! ## What was asked, and when -/

/-- The question was answered with `v` while the pipeline was in the state `s`. -/
def Answered (trace : List (Entry sig System)) (c : Call) (v : c.Reply) (s : Shared) : Prop :=
  ∃ e ∈ trace, e.event = ⟨c, .ok v⟩ ∧ e.before.state = s

/-- It was so at a moment of the check. -/
def Seen (trace : List (Entry sig System)) (P : Shared → Prop) : Prop :=
  ∃ e ∈ trace, P e.before.state

/-- The question raised the exception. -/
def Raises (trace : List (Entry sig System)) (c : Call) (error : Str) : Prop :=
  ∃ e ∈ trace, e.event = ⟨c, .error error⟩

/-- The question could not be answered. -/
def Failed (trace : List (Entry sig System)) (c : Call) : Prop := ∃ error, Raises trace c error

theorem Answered.mono {c : Call} {v : c.Reply} {s : Shared} (h : Answered trace c v s)
    (hsub : ∀ e ∈ trace, e ∈ trace') : Answered trace' c v s :=
  have ⟨e, he, hevent⟩ := h
  ⟨e, hsub e he, hevent⟩

theorem Failed.mono {c : Call} (h : Failed trace c) (hsub : ∀ e ∈ trace, e ∈ trace') :
    Failed trace' c :=
  have ⟨error, e, he, hevent⟩ := h
  ⟨error, e, hsub e he, hevent⟩

/-- What was raised in the part of the trace that may raise it. -/
theorem Raises.of_old {P : Call → Prop} {c : Call} {error : Str} (h : Raises trace' c error)
    (hnew : ∀ e ∈ trace', e ∈ trace ∨ ¬P e.event.1) (hc : P c) : Raises trace c error := by
  obtain ⟨e, he, hevent⟩ := h
  rcases hnew e he with hold | hother
  · exact ⟨e, hold, hevent⟩
  · rw [hevent] at hother
    exact absurd hc hother

theorem Seen.mono {P : Shared → Prop} (h : Seen trace P) (hsub : ∀ e ∈ trace, e ∈ trace') :
    Seen trace' P :=
  have ⟨e, he, hP⟩ := h
  ⟨e, hsub e he, hP⟩

theorem Answered.seen {c : Call} {v : c.Reply} {s : Shared} (h : Answered trace c v s)
    {P : Shared → Prop} (hP : P s) : Seen trace P := by
  obtain ⟨e, he, -, rfl⟩ := h
  exact ⟨e, he, hP⟩

/-- One question. -/
theorem of_ask {c : Call} {o : sig.Answer c}
    (h : Runs (healthWorld group env) (ask c) cfg trace o cfg') :
    match o with
    | .ok v => ∃ s, Answered trace c v s
    | .error _ => Failed trace c := by
  obtain ⟨u, -, -, rfl⟩ := h.of_perform
  cases o with
  | ok v => exact ⟨_, _, List.mem_singleton.mpr rfl, rfl, rfl⟩
  | error e => exact ⟨e, _, List.mem_singleton.mpr rfl, rfl⟩

/-- What was answered is so. -/
theorem Answered.reads {α : Type} {p : Prog sig α} {o : Except sig.Exc α}
    (hrun : Runs (healthWorld group env) p cfg trace o cfg') {c : Call} {v : c.Reply}
    {s : Shared} (h : Answered trace c v s) : Reads group c s v := by
  obtain ⟨⟨before, event, after⟩, he, hevent, rfl⟩ := h
  have hanswered := (hrun.answered _ he).2
  dsimp only at hevent hanswered ⊢
  subst hevent
  exact hanswered

/-! ## Who asks what -/

/-- The questions about the stream and the group. -/
def Call.OfRedis : Call → Prop
  | .xlen | .xpending | .xpendingRange _ | .xinfoGroups | .xinfoConsumers => True
  | _ => False

/-- Those without which there is no report on Redis. -/
def Call.Required : Call → Prop
  | .xlen | .xpending | .xpendingRange _ => True
  | _ => False

/-- The questions to the database. -/
def Call.OfDatabase : Call → Prop
  | .maxCreatedAt | .countQuarantined | .maxQuarantinedAt => True
  | _ => False

/-- The calls that ask neither of them. -/
def Call.Elsewhere : Call → Prop
  | .getenv _ | .emit _ | .utcnow | .readText _ _ => True
  | _ => False

theorem Call.Required.ofRedis {c : Call} (h : c.Required) : c.OfRedis := by
  cases c <;> first | exact h.elim | trivial

theorem Call.OfDatabase.not_ofRedis {c : Call} (h : c.OfDatabase) : ¬c.OfRedis := by
  cases c <;> first | exact h.elim | exact id

theorem Call.Elsewhere.not_ofRedis {c : Call} (h : c.Elsewhere) : ¬c.OfRedis := by
  cases c <;> first | exact h.elim | exact id

theorem Call.Elsewhere.not_ofDatabase {c : Call} (h : c.Elsewhere) : ¬c.OfDatabase := by
  cases c <;> first | exact h.elim | exact id

theorem calls_ask (c : Call) : (ask c).All fun c' => c' = c := all_perform rfl

theorem calls_oldestAge (entries : List PendingEntry) {P : Call → Prop} :
    (oldestAge entries).All P := by
  cases entries with
  | nil => trivial
  | cons e rest =>
    refine All.bind ?_ fun _ => trivial
    unfold seconds
    cases Binary64.ofRatio e.time_since_delivered 1000 <;> trivial

theorem calls_pendingFigures (n : ℕ) :
    (pendingFigures batch n).All fun c : Call => ∃ count, c = .xpendingRange count := by
  unfold pendingFigures
  split_ifs
  · trivial
  · refine (all_perform ⟨1, rfl⟩).bind fun oldest => (calls_oldestAge oldest).bind fun age => ?_
    exact (all_perform ⟨batch, rfl⟩).bind fun sample => trivial

theorem calls_lagFigures : (lagFigures group).All fun c : Call => c = .xinfoGroups := by
  refine (calls_ask .xinfoGroups).attempt.bind fun r => ?_
  cases r with
  | error e => trivial
  | ok infos =>
    dsimp only
    cases lagOf group infos <;> trivial

theorem calls_consumerFigures : consumerFigures.All fun c : Call => c = .xinfoConsumers :=
  (calls_ask .xinfoConsumers).attempt.bind fun r => by cases r <;> trivial

theorem calls_redisFigures : (redisFigures group batch).All Call.OfRedis := by
  refine (all_perform trivial).bind fun length => (all_perform trivial).bind fun summary => ?_
  refine ((calls_pendingFigures _).mono ?_).bind fun _ => (calls_lagFigures.mono ?_).bind fun _ =>
    (calls_consumerFigures.mono ?_).bind fun _ => trivial
  · rintro _ ⟨count, rfl⟩
    trivial
  · rintro _ rfl
    trivial
  · rintro _ rfl
    trivial

/-- `try` stands around the questions about groups and consumers only. -/
theorem strict_redisFigures : (redisFigures group batch).Strict Call.Required := by
  refine (strict_perform _).bind fun length => (strict_perform _).bind fun summary => ?_
  refine Strict.bind ?_ fun _ => (strict_of_all (calls_lagFigures.mono ?_)).bind fun _ =>
    (strict_of_all (calls_consumerFigures.mono ?_)).bind fun _ => trivial
  · unfold pendingFigures
    split_ifs
    · trivial
    · refine (strict_perform _).bind fun oldest => (strict_of_all (calls_oldestAge oldest)).bind
        fun age => ?_
      exact (strict_perform _).bind fun sample => trivial
  · rintro _ rfl
    exact id
  · rintro _ rfl
    exact id

theorem calls_persistenceFigures : persistenceFigures.All Call.OfDatabase :=
  (all_perform trivial).bind fun _ => (all_perform trivial).bind fun _ =>
    (all_perform trivial).bind fun _ => trivial

theorem strict_persistenceFigures : persistenceFigures.Strict Call.OfDatabase :=
  (strict_perform _).bind fun _ => (strict_perform _).bind fun _ =>
    (strict_perform _).bind fun _ => trivial

theorem calls_getRedisPipelineHealth : (getRedisPipelineHealth group batch).All Call.OfRedis :=
  calls_redisFigures.attempt.bind fun r => by cases r <;> trivial

theorem calls_getPersistencePipelineHealth : getPersistencePipelineHealth.All Call.OfDatabase :=
  calls_persistenceFigures.attempt.bind fun r => by cases r <;> trivial

theorem calls_alertAbove {above : ℤ → Bool} {threshold : Option ℤ} {send : ℤ → Prog sig Unit}
    (h : ∀ t, (send t).All Call.Elsewhere) :
    (alertAbove above threshold send).All Call.Elsewhere := by
  unfold alertAbove
  split
  · trivial
  · split_ifs
    · exact h _
    · trivial

theorem calls_intEnv (name : String) : (intEnv N name).All Call.Elsewhere :=
  (all_perform trivial).bind fun _ => trivial

theorem calls_evaluateHealthAlerts (r : RedisPipelineHealth) (p : PersistencePipelineHealth) :
    (evaluateHealthAlerts N r p).All Call.Elsewhere := by
  have hconnection : (connectionAlert r).All Call.Elsewhere := by
    unfold connectionAlert
    split_ifs
    · exact all_perform trivial
    · exact all_perform trivial
    · trivial
  have hbacklog : ∀ pending age stall, (backlogAlerts r pending age stall).All Call.Elsewhere := by
    intro pending age stall
    unfold backlogAlerts
    split_ifs
    · trivial
    · exact (calls_alertAbove fun _ => all_perform trivial).bind fun _ =>
        (calls_alertAbove fun _ => all_perform trivial).bind fun _ =>
          calls_alertAbove fun _ => all_perform trivial
  have hdatabase : ∀ quarantine, (databaseAlert p quarantine).All Call.Elsewhere := by
    intro quarantine
    unfold databaseAlert
    split_ifs
    · exact all_perform trivial
    · exact calls_alertAbove fun _ => all_perform trivial
  refine All.bind (All.attempt ?_) fun _ => trivial
  refine hconnection.bind fun _ => (calls_intEnv _).bind fun pending => (calls_intEnv _).bind
    fun age => (calls_intEnv _).bind fun stall => (calls_intEnv _).bind fun quarantine => ?_
  exact (hbacklog pending age stall).bind fun _ => hdatabase quarantine

theorem calls_getRetentionIntegrityHealth :
    (getRetentionIntegrityHealth N).All Call.Elsewhere := by
  have hfile : ∀ dir name, (readEnvFile dir name).All Call.Elsewhere :=
    fun dir name => (all_perform trivial).bind fun _ => trivial
  refine (all_perform trivial).bind fun dir => ?_
  split
  · trivial
  · exact (hfile _ _).bind fun _ => (hfile _ _).bind fun _ => trivial

/-! ## Figures -/

/-- Where the figures of a report come from. -/
structure Figures (group : Str) (batch : ℕ) (trace : List (Entry sig System))
    (r : RedisPipelineHealth) : Prop where
  available : r.available = true
  error : r.error = none
  stream_length : ∃ n s, Answered trace .xlen n s ∧ r.stream_length = some n
  pending_count : ∃ summary s, Answered trace .xpending summary s ∧
    r.pending_count = some (summary.getD 0)
  oldest : ∀ x, r.oldest_pending_age_seconds = some x → ∃ e rest s mag,
    Answered trace (.xpendingRange 1) (e :: rest) s ∧
      Binary64.ofRatio e.time_since_delivered 1000 = some mag ∧ x = .finite false mag
  retries : ∀ n, r.retry_in_progress_count = some n → ∃ sample s,
    Answered trace (.xpendingRange batch) sample s ∧
      (sample.filter fun e => 1 < e.times_delivered).length = n
  lag : ∀ n, r.consumer_lag = some n → ∃ infos s,
    Answered trace .xinfoGroups infos s ∧ lagOf group infos = some n
  consumers : ∀ n, r.active_consumer_count = some n → ∃ idles s,
    Answered trace .xinfoConsumers idles s ∧ idles.length = n ∧
      r.least_idle_consumer_ms = idles.min?
  no_lag : Failed trace .xinfoGroups → r.consumer_lag = none
  no_consumers : Failed trace .xinfoConsumers →
    r.active_consumer_count = none ∧ r.least_idle_consumer_ms = none

theorem of_quotient {mag? : Option Binary64} {x : PyFloat}
    (h : Runs (healthWorld group env) (quotient mag?) cfg trace (.ok x) cfg') :
    trace = [] ∧ ∃ mag, mag? = some mag ∧ x = .finite false mag := by
  cases mag? with
  | none => cases h
  | some mag =>
    obtain ⟨rfl, hx, -⟩ := h.of_ret
    exact ⟨rfl, mag, rfl, Except.ok.inj hx⟩

/-- The age of the oldest entry was taken from the answer. -/
theorem of_oldestAge {entries : List PendingEntry} {age : Option PyFloat}
    (h : Runs (healthWorld group env) (oldestAge entries) cfg trace (.ok age) cfg') :
    trace = [] ∧ ∀ x, age = some x → ∃ e rest mag, entries = e :: rest ∧
      Binary64.ofRatio e.time_since_delivered 1000 = some mag ∧ x = .finite false mag := by
  cases entries with
  | nil =>
    rw [oldestAge] at h
    obtain ⟨rfl, hage, -⟩ := h.of_ret
    have hnone : age = none := Except.ok.inj hage
    exact ⟨rfl, fun x hx => absurd (hx.symm.trans hnone) (by simp)⟩
  | cons e rest =>
    rw [oldestAge] at h
    obtain ⟨x, first, last, u, rfl, hseconds, h⟩ := h.of_bind_ok
    obtain ⟨rfl, hage, -⟩ := h.of_ret
    obtain ⟨rfl, mag, hmag, hx⟩ := of_quotient hseconds
    have hsome : age = some x := Except.ok.inj hage
    refine ⟨rfl, fun y hy => ⟨e, rest, mag, rfl, hmag, ?_⟩⟩
    rw [← hx]
    exact Option.some.inj (hy.symm.trans hsome)

/-- The figures about pending entries. -/
theorem of_pendingFigures {n : ℕ} {figures : Option PyFloat × Option ℕ}
    (h : Runs (healthWorld group env) (pendingFigures batch n) cfg trace (.ok figures) cfg') :
    (∀ x, figures.1 = some x → ∃ e rest s mag, Answered trace (.xpendingRange 1) (e :: rest) s ∧
      Binary64.ofRatio e.time_since_delivered 1000 = some mag ∧ x = .finite false mag) ∧
    ∀ k, figures.2 = some k → ∃ sample s, Answered trace (.xpendingRange batch) sample s ∧
      (sample.filter fun e => 1 < e.times_delivered).length = k := by
  unfold pendingFigures at h
  split_ifs at h with hn
  · obtain ⟨-, hfigures, -⟩ := h.of_ret
    cases hfigures
    refine ⟨fun x hx => ?_, fun k hk => ?_⟩
    · cases hx
    · cases hk
  · obtain ⟨oldest, first, rest, u, rfl, holdest, h⟩ := h.of_bind_ok
    obtain ⟨age, second, last, v, rfl, hage, h⟩ := h.of_bind_ok
    obtain ⟨sample, third, nothing, w, rfl, hsample, h⟩ := h.of_bind_ok
    obtain ⟨rfl, hfigures, -⟩ := h.of_ret
    cases hfigures
    obtain ⟨s, hanswered⟩ := of_ask holdest
    obtain ⟨s', hanswered'⟩ := of_ask hsample
    obtain ⟨rfl, hfirst⟩ := of_oldestAge hage
    refine ⟨fun x hx => ?_, fun k hk => ⟨sample, s', hanswered'.mono (by simp +contextual), ?_⟩⟩
    · obtain ⟨e, more, mag, rfl, hmag, hx⟩ := hfirst x hx
      exact ⟨e, more, s, mag, hanswered.mono (by simp +contextual), hmag, hx⟩
    · exact Option.some.inj hk

/-- The lag. -/
theorem of_lagFigures {figures : Option ℕ × Option Str}
    (h : Runs (healthWorld group env) (lagFigures group) cfg trace (.ok figures) cfg') :
    ∀ n, figures.1 = some n → ∃ infos s, Answered trace .xinfoGroups infos s ∧
      lagOf group infos = some n := by
  intro n hn
  obtain ⟨r, first, rest, u, rfl, hfirst, h⟩ := h.of_attempt_bind
  cases r with
  | error e =>
    obtain ⟨-, hfigures, -⟩ := h.of_ret
    cases hfigures
    cases hn
  | ok infos =>
    obtain ⟨s, hanswered⟩ := of_ask hfirst
    refine ⟨infos, s, hanswered.mono (by simp +contextual), ?_⟩
    dsimp only at h
    cases hlag : lagOf group infos with
    | none =>
      rw [hlag] at h
      obtain ⟨-, hfigures, -⟩ := h.of_ret
      cases hfigures
      cases hn
    | some lag =>
      rw [hlag] at h
      obtain ⟨-, hfigures, -⟩ := h.of_ret
      cases hfigures
      exact hn

/-- Without an answer there is no lag. -/
theorem lagFigures_of_failed {figures : Option ℕ × Option Str}
    (h : Runs (healthWorld group env) (lagFigures group) cfg trace (.ok figures) cfg')
    (hfailed : Failed trace .xinfoGroups) : figures.1 = none := by
  obtain ⟨r, first, rest, u, rfl, hfirst, hend⟩ := h.of_attempt_bind
  cases r with
  | error e =>
    obtain ⟨-, hfigures, -⟩ := hend.of_ret
    cases hfigures
    rfl
  | ok infos =>
    -- the one question was answered
    obtain ⟨v, -, -, rfl⟩ := hfirst.of_perform
    dsimp only at hend
    exfalso
    cases hlag : lagOf group infos <;> rw [hlag] at hend <;>
      obtain ⟨rfl, -, -⟩ := hend.of_ret <;> simp [Failed, Raises] at hfailed

theorem consumerFigures_of_failed {figures : Option ℕ × Option ℕ}
    (h : Runs (healthWorld group env) consumerFigures cfg trace (.ok figures) cfg')
    (hfailed : Failed trace .xinfoConsumers) : figures = (none, none) := by
  obtain ⟨r, first, rest, u, rfl, hfirst, hend⟩ := h.of_attempt_bind
  cases r with
  | error e =>
    obtain ⟨-, hfigures, -⟩ := hend.of_ret
    exact Except.ok.inj hfigures
  | ok idles =>
    obtain ⟨v, -, -, rfl⟩ := hfirst.of_perform
    obtain ⟨rfl, -, -⟩ := hend.of_ret
    simp [Failed, Raises] at hfailed

/-- The consumers. -/
theorem of_consumerFigures {figures : Option ℕ × Option ℕ}
    (h : Runs (healthWorld group env) consumerFigures cfg trace (.ok figures) cfg') :
    ∀ n, figures.1 = some n → ∃ idles s, Answered trace .xinfoConsumers idles s ∧
      idles.length = n ∧ figures.2 = idles.min? := by
  intro n hn
  obtain ⟨r, first, rest, u, rfl, hfirst, h⟩ := h.of_attempt_bind
  cases r with
  | error e =>
    obtain ⟨-, hfigures, -⟩ := h.of_ret
    cases hfigures
    cases hn
  | ok idles =>
    obtain ⟨s, hanswered⟩ := of_ask hfirst
    obtain ⟨-, hfigures, -⟩ := h.of_ret
    cases hfigures
    exact ⟨idles, s, hanswered.mono (by simp +contextual), Option.some.inj hn, rfl⟩

/-- **The figures of a report were answers of the check.** The pending entries were counted before
the lag was read. -/
theorem of_redisFigures {r : RedisPipelineHealth}
    (h : Runs (healthWorld group env) (redisFigures group batch) cfg trace (.ok r) cfg') :
    Figures group batch trace r ∧ ∃ first rest, trace = first ++ rest ∧
      (∃ summary s, Answered first .xpending summary s ∧ r.pending_count = some (summary.getD 0)) ∧
      ∀ n, r.consumer_lag = some n → ∃ infos s, Answered rest .xinfoGroups infos s ∧
        lagOf group infos = some n := by
  obtain ⟨length, t₁, rest, u₁, rfl, hlength, h⟩ := h.of_bind_ok
  obtain ⟨summary, t₂, rest, u₂, rfl, hsummary, h⟩ := h.of_bind_ok
  obtain ⟨⟨age, retries⟩, t₃, rest, u₃, rfl, hpending, h⟩ := h.of_bind_ok
  obtain ⟨⟨lag, source⟩, t₄, rest, u₄, rfl, hlag, h⟩ := h.of_bind_ok
  obtain ⟨⟨consumers, idle⟩, t₅, rest, u₅, rfl, hconsumers, h⟩ := h.of_bind_ok
  obtain ⟨rfl, hr, -⟩ := h.of_ret
  cases hr
  have hlags := of_lagFigures hlag
  have hidles := of_consumerFigures hconsumers
  -- only its own part of the program asks about the groups, and about the consumers
  have hcalls₄ := hlag.all calls_lagFigures
  have hcalls₅ := hconsumers.all calls_consumerFigures
  have hparts : ∀ e ∈ t₁ ++ (t₂ ++ (t₃ ++ (t₄ ++ (t₅ ++ [])))),
      e ∈ t₄ ∨ e ∈ t₅ ∨ e.event.1.Required := by
    simp only [List.mem_append, List.not_mem_nil, or_false]
    rintro e (he | he | he | he | he)
    · have hcall : e.event.1 = .xlen := hlength.all (calls_ask .xlen) e he
      exact .inr (.inr (by rw [hcall]; trivial))
    · have hcall : e.event.1 = .xpending := hsummary.all (calls_ask .xpending) e he
      exact .inr (.inr (by rw [hcall]; trivial))
    · obtain ⟨count, hcall⟩ := hpending.all (calls_pendingFigures _) e he
      exact .inr (.inr (by rw [hcall]; trivial))
    · exact .inl he
    · exact .inr (.inl he)
  have hgroups : ∀ e ∈ t₁ ++ (t₂ ++ (t₃ ++ (t₄ ++ (t₅ ++ [])))),
      e ∈ t₄ ∨ ¬Call.xinfoGroups = e.event.1 := by
    intro e he
    rcases hparts e he with he | he | he
    · exact .inl he
    · exact .inr (by rw [hcalls₅ e he]; nofun)
    · exact .inr fun hcall => by rw [← hcall] at he; exact he
  have hgroup : ∀ e ∈ t₁ ++ (t₂ ++ (t₃ ++ (t₄ ++ (t₅ ++ [])))),
      e ∈ t₅ ∨ ¬Call.xinfoConsumers = e.event.1 := by
    intro e he
    rcases hparts e he with he | he | he
    · exact .inr (by rw [hcalls₄ e he]; nofun)
    · exact .inl he
    · exact .inr fun hcall => by rw [← hcall] at he; exact he
  obtain ⟨s₁, hlength⟩ := of_ask hlength
  obtain ⟨s₂, hsummary⟩ := of_ask hsummary
  obtain ⟨holdest, hretries⟩ := of_pendingFigures hpending
  refine ⟨⟨rfl, rfl, ⟨length, s₁, hlength.mono (by simp +contextual), rfl⟩,
    ⟨summary, s₂, hsummary.mono (by simp +contextual), rfl⟩, fun x hx => ?_, fun n hn => ?_,
    fun n hn => ?_, fun n hn => ?_, ?_, ?_⟩, t₁ ++ t₂, t₃ ++ (t₄ ++ (t₅ ++ [])), by simp,
    ⟨summary, s₂, hsummary.mono (by simp +contextual), rfl⟩, fun n hn => ?_⟩
  · obtain ⟨e, more, s, mag, hanswered, hage⟩ := holdest x hx
    exact ⟨e, more, s, mag, hanswered.mono (by simp +contextual), hage⟩
  · obtain ⟨sample, s, hanswered, hcount⟩ := hretries n hn
    exact ⟨sample, s, hanswered.mono (by simp +contextual), hcount⟩
  · obtain ⟨infos, s, hanswered, hinfos⟩ := hlags n hn
    exact ⟨infos, s, hanswered.mono (by simp +contextual), hinfos⟩
  · obtain ⟨idles, s, hanswered, hcount⟩ := hidles n hn
    exact ⟨idles, s, hanswered.mono (by simp +contextual), hcount⟩
  · rintro ⟨error, hraises⟩
    exact lagFigures_of_failed hlag ⟨error, hraises.of_old hgroups rfl⟩
  · rintro ⟨error, hraises⟩
    have hnone := consumerFigures_of_failed hconsumers ⟨error, hraises.of_old hgroup rfl⟩
    exact ⟨congrArg Prod.fst hnone, congrArg Prod.snd hnone⟩
  · obtain ⟨infos, s, hanswered, hinfos⟩ := hlags n hn
    exact ⟨infos, s, hanswered.mono (by simp +contextual), hinfos⟩

/-! ## What is raised -/

/-- A question without which there is no report on Redis was not answered, or the answer has no age
in seconds. -/
def Unanswered (trace : List (Entry sig System)) : Prop :=
  (∃ c : Call, c.Required ∧ Failed trace c) ∨
    ∃ e rest s, Answered trace (.xpendingRange 1) (e :: rest) s ∧
      Binary64.ofRatio e.time_since_delivered 1000 = none

theorem Unanswered.mono (h : Unanswered trace) (hsub : ∀ e ∈ trace, e ∈ trace') :
    Unanswered trace' := by
  refine h.imp ?_ ?_
  · exact fun ⟨c, hc, hfailed⟩ => ⟨c, hc, hfailed.mono hsub⟩
  · exact fun ⟨e, rest, s, hanswered, hnone⟩ => ⟨e, rest, s, hanswered.mono hsub, hnone⟩

/-- `try: p` and going on without raising is not raised. -/
theorem not_error_of_attempt {α β : Type} {p : Prog sig α} {f : Except Str α → Prog sig β} {e : Str}
    (hf : ∀ r u rest t, ¬Runs (healthWorld group env) (f r) u rest (.error e) t) :
    ¬Runs (healthWorld group env) (p.attempt >>= f) cfg trace (.error e) cfg' := by
  intro h
  obtain ⟨r, first, rest, u, rfl, -, h⟩ := h.of_attempt_bind
  exact hf r u rest _ h

theorem lagFigures_not_error {e : Str} :
    ¬Runs (healthWorld group env) (lagFigures group) cfg trace (.error e) cfg' := by
  apply not_error_of_attempt
  intro r u rest t h
  cases r with
  | error _ => cases h
  | ok infos =>
    dsimp only at h
    cases hlag : lagOf group infos <;> rw [hlag] at h <;> cases h

theorem consumerFigures_not_error {e : Str} :
    ¬Runs (healthWorld group env) consumerFigures cfg trace (.error e) cfg' := by
  apply not_error_of_attempt
  intro r u rest t h
  cases r <;> cases h

/-- What the figures about pending entries fail of. -/
theorem of_pendingFigures_error {n : ℕ} {e : Str}
    (h : Runs (healthWorld group env) (pendingFigures batch n) cfg trace (.error e) cfg') :
    Unanswered trace := by
  unfold pendingFigures at h
  split_ifs at h with hn
  · cases h
  · obtain ⟨e', -, holdest⟩ | ⟨oldest, first, rest, u, rfl, holdest, h⟩ := h.of_bind
    · exact .inl ⟨.xpendingRange 1, trivial, of_ask holdest⟩
    obtain ⟨e', -, hage⟩ | ⟨age, second, last, v, rfl, hage, h⟩ := h.of_bind
    · -- no age: there is an oldest entry, and its quotient is no float
      right
      obtain ⟨s, hanswered⟩ := of_ask holdest
      cases oldest with
      | nil => cases hage
      | cons entry more =>
        rw [oldestAge] at hage
        refine ⟨entry, more, s, hanswered.mono (by simp +contextual), ?_⟩
        obtain ⟨e'', -, hage⟩ | ⟨x, t₁, t₂, w, rfl, -, hage⟩ := hage.of_bind
        · unfold seconds at hage
          cases hmag : Binary64.ofRatio entry.time_since_delivered 1000 with
          | none => rfl
          | some mag =>
            rw [hmag] at hage
            cases hage
        · cases hage
    obtain ⟨e', -, hsample⟩ | ⟨sample, third, nothing, w, rfl, hsample, h⟩ := h.of_bind
    · exact .inl ⟨.xpendingRange batch, trivial, (of_ask hsample).mono (by simp +contextual)⟩
    · cases h

/-- What the report on Redis fails of. -/
theorem of_redisFigures_error {e : Str}
    (h : Runs (healthWorld group env) (redisFigures group batch) cfg trace (.error e) cfg') :
    Unanswered trace := by
  obtain ⟨e', -, hlength⟩ | ⟨length, t₁, rest, u₁, rfl, hlength, h⟩ := h.of_bind
  · exact .inl ⟨.xlen, trivial, of_ask hlength⟩
  obtain ⟨e', -, hsummary⟩ | ⟨summary, t₂, rest, u₂, rfl, hsummary, h⟩ := h.of_bind
  · exact .inl ⟨.xpending, trivial, (of_ask hsummary).mono (by simp +contextual)⟩
  obtain ⟨e', -, hpending⟩ | ⟨⟨age, retries⟩, t₃, rest, u₃, rfl, hpending, h⟩ := h.of_bind
  · exact (of_pendingFigures_error hpending).mono (by simp +contextual)
  obtain ⟨e', -, hlag⟩ | ⟨⟨lag, source⟩, t₄, rest, u₄, rfl, hlag, h⟩ := h.of_bind
  · exact absurd hlag lagFigures_not_error
  obtain ⟨e', -, hconsumers⟩ | ⟨⟨consumers, idle⟩, t₅, rest, u₅, rfl, hconsumers, h⟩ := h.of_bind
  · exact absurd hconsumers consumerFigures_not_error
  · cases h

/-! ## What the figures say -/

/-- What a report on Redis says, if it says anything, was so at a moment of the check. -/
structure RedisTrue (batch : ℕ) (trace : List (Entry sig System)) (r : RedisPipelineHealth) :
    Prop where
  unavailable : r.available = false →
    Unanswered trace ∧ ∃ error, r = .unavailable error
  refused : ∀ {c : Call} {error}, c.Required → Raises trace c error → r = .unavailable error
  no_lag : Failed trace .xinfoGroups → r.consumer_lag = none
  no_consumers : Failed trace .xinfoConsumers →
    r.active_consumer_count = none ∧ r.least_idle_consumer_ms = none
  answered : r.available = true →
    r.stream_length.isSome ∧ r.pending_count.isSome ∧ r.error = none
  stream_length : ∀ n, r.stream_length = some n → Seen trace fun s => s.stream.length = n
  pending_count : ∀ n, r.pending_count = some n →
    Seen trace fun s => ∃ g, s.group = some g ∧ g.pel.length = n
  oldest : ∀ x, r.oldest_pending_age_seconds = some x → Seen trace fun s =>
    ∃ g p rest mag, s.group = some g ∧ g.pel = p :: rest ∧
      Binary64.ofRatio (s.now - p.deliveredAt) 1000 = some mag ∧ x = .finite false mag
  retries : ∀ n, r.retry_in_progress_count = some n → Seen trace fun s =>
    ∃ g, s.group = some g ∧ ((g.pel.take batch).filter fun p => 1 < p.deliveries).length = n
  lag : ∀ n, r.consumer_lag = some n → Seen trace fun s =>
    ∃ g, s.group = some g ∧ (g.unread s.stream).length = n
  consumers : ∀ n, r.active_consumer_count = some n → ∃ idles s,
    Answered trace .xinfoConsumers idles s ∧ idles.length = n ∧
      r.least_idle_consumer_ms = idles.min?

/-- The lag that is reported is the lag of the group. -/
theorem lag_of_lagOf {infos : List GroupInfo} {s : Shared} {n : ℕ}
    (hreads : Reads group .xinfoGroups s infos) (h : lagOf group infos = some n) :
    ∃ g, s.group = some g ∧ (g.unread s.stream).length = n := by
  unfold lagOf at h
  obtain ⟨lag, hbind, hlag⟩ : ∃ lag, (infos.find? fun g =>
      decide (g.name = group) && g.lag.isSome).bind GroupInfo.lag = some lag ∧ lag = some n := by
    cases hb : (infos.find? fun g => decide (g.name = group) && g.lag.isSome).bind GroupInfo.lag with
    | none => simp [hb] at h
    | some lag => exact ⟨lag, rfl, by simpa [hb] using h⟩
  obtain ⟨i, hfind, hi⟩ := Option.bind_eq_some_iff.mp hbind
  have hname : i.name = group := by
    have hfound := List.find?_some hfind
    rw [Bool.and_eq_true, decide_eq_true_eq] at hfound
    exact hfound.1
  cases hreads with
  | xinfoGroups hrows =>
    obtain ⟨g, hg, hcount⟩ := hrows i (List.mem_of_find?_eq_some hfind) hname
    exact ⟨g, hg, hcount n (hi.trans (congrArg some hlag))⟩

/-- **The figures are true.** -/
theorem Figures.redisTrue {α : Type} {p : Prog sig α} {o : Except Str α} {r : RedisPipelineHealth}
    (hrun : Runs (healthWorld group env) p cfg trace o cfg') (h : Figures group batch trace r)
    (hrefused : ∀ {c : Call} {error}, c.Required → ¬Raises trace c error) :
    RedisTrue batch trace r where
  unavailable hr := absurd (h.available.symm.trans hr) (by simp)
  refused hc hraises := absurd (hrefused hc hraises) id
  no_lag := h.no_lag
  no_consumers := h.no_consumers
  answered _ := by
    obtain ⟨n, s, -, hn⟩ := h.stream_length
    obtain ⟨summary, s', -, hsummary⟩ := h.pending_count
    exact ⟨by rw [hn]; rfl, by rw [hsummary]; rfl, h.error⟩
  stream_length n hn := by
    obtain ⟨k, s, hanswered, hk⟩ := h.stream_length
    apply hanswered.seen
    have hread := hanswered.reads hrun
    cases hread
    exact Option.some.inj (hk.symm.trans hn)
  pending_count n hn := by
    obtain ⟨summary, s, hanswered, hsummary⟩ := h.pending_count
    apply hanswered.seen
    have hread := hanswered.reads hrun
    cases hread with
    | @xpending _ g hg => exact ⟨g, hg, Option.some.inj (hsummary.symm.trans hn)⟩
  oldest x hx := by
    obtain ⟨entry, rest, s, mag, hanswered, hmag, rfl⟩ := h.oldest x hx
    apply hanswered.seen
    have hread := hanswered.reads hrun
    generalize hrows : entry :: rest = rows at hread
    cases hread with
    | @xpendingRange _ g _ hg =>
      -- the list is in id order, so its first row is the oldest entry
      cases hpel : g.pel with
      | nil => simp [hpel] at hrows
      | cons p more =>
        rw [hpel] at hrows
        have hentry : entry = ⟨s.now - p.deliveredAt, p.deliveries⟩ := (List.cons.inj hrows).1
        exact ⟨g, p, more, mag, hg, hpel, by rw [← hmag, hentry], rfl⟩
  retries n hn := by
    obtain ⟨sample, s, hanswered, hcount⟩ := h.retries n hn
    apply hanswered.seen
    have hread := hanswered.reads hrun
    cases hread with
    | @xpendingRange _ g _ hg =>
      refine ⟨g, hg, ?_⟩
      rw [← hcount, List.filter_map, List.length_map]
      rfl
  lag n hn := by
    obtain ⟨infos, s, hanswered, hinfos⟩ := h.lag n hn
    apply hanswered.seen
    exact lag_of_lagOf (hanswered.reads hrun) hinfos
  consumers := h.consumers

theorem redisTrue_unavailable (h : Unanswered trace) (error : Str)
    (hrefused : ∀ {c : Call} {error'}, c.Required → Raises trace c error' → error' = error) :
    RedisTrue batch trace (.unavailable error) where
  unavailable _ := ⟨h, error, rfl⟩
  refused hc hraises := by rw [hrefused hc hraises]
  no_lag _ := rfl
  no_consumers _ := ⟨rfl, rfl⟩
  answered hr := absurd hr (by simp [RedisPipelineHealth.unavailable])
  stream_length n hn := by cases hn
  pending_count n hn := by cases hn
  oldest x hx := by cases hx
  retries n hn := by cases hn
  lag n hn := by cases hn
  consumers n hn := by cases hn

/-- What was asked besides does not matter. -/
theorem RedisTrue.mono {r : RedisPipelineHealth} (h : RedisTrue batch trace r)
    (hsub : ∀ e ∈ trace, e ∈ trace') (hnew : ∀ e ∈ trace', e ∈ trace ∨ ¬e.event.1.OfRedis) :
    RedisTrue batch trace' r where
  unavailable hr := (h.unavailable hr).imp_left fun hu => hu.mono hsub
  refused hc hraises := h.refused hc (hraises.of_old hnew hc.ofRedis)
  no_lag := fun ⟨error, hraises⟩ => h.no_lag ⟨error, hraises.of_old hnew trivial⟩
  no_consumers := fun ⟨error, hraises⟩ => h.no_consumers ⟨error, hraises.of_old hnew trivial⟩
  answered := h.answered
  stream_length n hn := (h.stream_length n hn).mono hsub
  pending_count n hn := (h.pending_count n hn).mono hsub
  oldest x hx := (h.oldest x hx).mono hsub
  retries n hn := (h.retries n hn).mono hsub
  lag n hn := (h.lag n hn).mono hsub
  consumers n hn := by
    obtain ⟨idles, s, hanswered, hidles⟩ := h.consumers n hn
    exact ⟨idles, s, hanswered.mono hsub, hidles⟩

/-- What a report on the database says was so at a moment of the check. -/
structure PersistenceTrue (trace : List (Entry sig System)) (p : PersistencePipelineHealth) :
    Prop where
  unavailable : p.available = false → (∃ c : Call, c.OfDatabase ∧ Failed trace c) ∧
    ∃ error, p = ⟨false, none, none, none, some error⟩
  refused : ∀ {c : Call} {error}, c.OfDatabase → Raises trace c error →
    p = ⟨false, none, none, none, some error⟩
  answered : p.available = true → p.quarantine_count.isSome ∧ p.error = none ∧
    (∃ s, Answered trace .maxCreatedAt p.last_successful_persistence_at s) ∧
      ∃ s, Answered trace .maxQuarantinedAt p.last_quarantine_at s
  quarantine_count : ∀ n, p.quarantine_count = some n →
    Seen trace fun s => s.quarantined.length = n

theorem PersistenceTrue.mono {p : PersistencePipelineHealth} (h : PersistenceTrue trace p)
    (hsub : ∀ e ∈ trace, e ∈ trace') (hnew : ∀ e ∈ trace', e ∈ trace ∨ ¬e.event.1.OfDatabase) :
    PersistenceTrue trace' p where
  refused hc hraises := h.refused hc (hraises.of_old hnew hc)
  unavailable hp := by
    obtain ⟨⟨c, hc, hfailed⟩, herror⟩ := h.unavailable hp
    exact ⟨⟨c, hc, hfailed.mono hsub⟩, herror⟩
  answered hp := by
    obtain ⟨hcount, herror, ⟨s, hcreated⟩, s', hquarantined⟩ := h.answered hp
    exact ⟨hcount, herror, ⟨s, hcreated.mono hsub⟩, s', hquarantined.mono hsub⟩
  quarantine_count n hn := (h.quarantine_count n hn).mono hsub

/-- The report on Redis is made, and is true. -/
theorem redisTrue_of_run {o : Except Str RedisPipelineHealth}
    (h : Runs (healthWorld group env) (getRedisPipelineHealth group batch) cfg trace o cfg') :
    ∃ r, o = .ok r ∧ RedisTrue batch trace r := by
  obtain ⟨figures, first, rest, u, rfl, hfigures, h⟩ := h.of_attempt_bind
  cases figures with
  | ok r =>
    obtain ⟨rfl, rfl, -⟩ := h.of_ret
    have hrefused : ∀ {c : Call} {error}, c.Required → ¬Raises first c error := by
      intro c error hc hraises
      cases hfigures.of_strict strict_redisFigures hc hraises
    exact ⟨r, rfl, ((of_redisFigures hfigures).1.redisTrue hfigures hrefused).mono (by simp)
      (by simp +contextual)⟩
  | error e =>
    obtain ⟨rfl, rfl, -⟩ := h.of_ret
    have hrefused : ∀ {c : Call} {error}, c.Required → Raises first c error → error = e := by
      intro c error hc hraises
      exact (Except.error.inj (hfigures.of_strict strict_redisFigures hc hraises)).symm
    exact ⟨_, rfl, (redisTrue_unavailable (of_redisFigures_error hfigures) e hrefused).mono (by simp)
      (by simp +contextual)⟩

/-- The report on the database is made, and is true. -/
theorem persistenceTrue_of_run {o : Except Str PersistencePipelineHealth}
    (h : Runs (healthWorld group env) getPersistencePipelineHealth cfg trace o cfg') :
    ∃ p, o = .ok p ∧ PersistenceTrue trace p := by
  obtain ⟨figures, first, rest, u, rfl, hfigures, h⟩ := h.of_attempt_bind
  cases figures with
  | ok p =>
    obtain ⟨rfl, rfl, -⟩ := h.of_ret
    suffices htrue : PersistenceTrue first p from
      ⟨p, rfl, htrue.mono (by simp) (by simp +contextual)⟩
    have hrun := hfigures
    -- the three figures were answered, so none of the queries raised
    have hrefused : ∀ {c : Call} {error}, c.OfDatabase → Raises first c error →
        p = ⟨false, none, none, none, some error⟩ := by
      intro c error hc hraises
      cases hrun.of_strict strict_persistenceFigures hc hraises
    obtain ⟨created, t₁, rest, u₁, rfl, hcreated, h⟩ := hfigures.of_bind_ok
    obtain ⟨count, t₂, rest, u₂, rfl, hcount, h⟩ := h.of_bind_ok
    obtain ⟨quarantined, t₃, rest, u₃, rfl, hquarantined, h⟩ := h.of_bind_ok
    obtain ⟨rfl, hp, -⟩ := h.of_ret
    cases hp
    obtain ⟨s₁, hcreated⟩ := of_ask hcreated
    obtain ⟨s₂, hcount⟩ := of_ask hcount
    obtain ⟨s₃, hquarantined⟩ := of_ask hquarantined
    refine ⟨nofun, hrefused, fun _ => ⟨rfl, rfl,
      ⟨s₁, hcreated.mono (by simp +contextual)⟩, s₃, hquarantined.mono (by simp +contextual)⟩,
      fun n hn => ?_⟩
    have hanswered : Answered (t₁ ++ (t₂ ++ (t₃ ++ []))) .countQuarantined count s₂ :=
      hcount.mono (by simp +contextual)
    apply hanswered.seen
    have hread := hanswered.reads hrun
    cases hread
    exact Option.some.inj hn
  | error e =>
    obtain ⟨rfl, rfl, -⟩ := h.of_ret
    have hrefused : ∀ {c : Call} {error}, c.OfDatabase → Raises first c error → error = e := by
      intro c error hc hraises
      exact (Except.error.inj (hfigures.of_strict strict_persistenceFigures hc hraises)).symm
    rw [List.append_nil]
    refine ⟨_, rfl, fun _ => ⟨?_, e, rfl⟩, fun hc hraises => by rw [hrefused hc hraises], nofun,
      nofun⟩
    -- the first query that raised ended the report
    obtain ⟨e', -, hcreated⟩ | ⟨created, t₁, rest, u₁, rfl, hcreated, h⟩ := hfigures.of_bind
    · exact ⟨.maxCreatedAt, trivial, (of_ask hcreated).mono (by simp)⟩
    obtain ⟨e', -, hcount⟩ | ⟨count, t₂, rest, u₂, rfl, hcount, h⟩ := h.of_bind
    · exact ⟨.countQuarantined, trivial, (of_ask hcount).mono (by simp +contextual)⟩
    obtain ⟨e', -, hquarantined⟩ | ⟨quarantined, t₃, rest, u₃, rfl, hquarantined, h⟩ := h.of_bind
    · exact ⟨.maxQuarantinedAt, trivial, (of_ask hquarantined).mono (by simp +contextual)⟩
    · cases h

/-! ## The whole report -/

theorem evaluateHealthAlerts_not_error {r : RedisPipelineHealth} {p : PersistencePipelineHealth}
    {e : Str} :
    ¬Runs (healthWorld group env) (evaluateHealthAlerts N r p) cfg trace (.error e) cfg' := by
  apply not_error_of_attempt
  intro r u rest t h
  cases h

/-- The environment and the clock answer. -/
theorem ask_not_error {c : Call} (hc : ¬c.MayRaise) {e : Str} :
    ¬Runs (healthWorld group env) (ask c) cfg trace (.error e) cfg' := by
  intro h
  obtain ⟨u, -, hanswered, -⟩ := h.of_perform
  exact hc hanswered.2

/-- Only the text of a status file can be missing. -/
theorem of_getRetentionIntegrityHealth_error {e : Str}
    (h : Runs (healthWorld group env) (getRetentionIntegrityHealth N) cfg trace (.error e) cfg') :
    ∃ dir name, Failed trace (.readText dir name) := by
  have hfile : ∀ {dir name cfg cfg' trace},
      Runs (healthWorld group env) (readEnvFile dir name) cfg trace (.error e) cfg' →
        Failed trace (.readText dir name) := by
    intro dir name cfg cfg' trace h
    obtain ⟨e', -, hread⟩ | ⟨text, first, rest, u, rfl, -, h⟩ := h.of_bind
    · exact of_ask hread
    · cases h
  obtain ⟨e', -, hdir⟩ | ⟨dir, first, rest, u, rfl, -, h⟩ := h.of_bind
  · exact absurd hdir (ask_not_error (by simp [Call.MayRaise]))
  cases hset : dir.filter fun dir => dir ≠ [] with
  | none =>
    simp only [hset] at h
    cases h
  | some dir =>
    simp only [hset] at h
    obtain ⟨e', ho, hverification⟩ | ⟨verification, t₁, rest, v, rfl, -, h⟩ := h.of_bind
    · cases ho
      exact ⟨_, _, (hfile hverification).mono (by simp +contextual)⟩
    obtain ⟨e', ho, hretention⟩ | ⟨retention, t₂, rest, w, rfl, -, h⟩ := h.of_bind
    · cases ho
      exact ⟨_, _, (hfile hretention).mono (by simp +contextual)⟩
    · cases h

/-- **A health report makes nothing up.** The check fails only where a status file exists that
cannot be read. Otherwise it reports, and every figure about Redis or the database was true at a
moment of the check; without an answer there is no figure. -/
theorem report_true {o : Except Str AuditPipelineHealth}
    (h : Runs (healthWorld group env) (getPipelineHealth N group batch) cfg trace o cfg') :
    match o with
    | .error _ => ∃ dir name, Failed trace (.readText dir name)
    | .ok health =>
      RedisTrue batch trace health.redis ∧ PersistenceTrue trace health.persistence := by
  obtain ⟨e, rfl, hredis⟩ | ⟨redis, t₁, rest, u₁, rfl, hredis, h⟩ := h.of_bind
  · obtain ⟨r, hr, -⟩ := redisTrue_of_run hredis
    cases hr
  obtain ⟨e, rfl, hpersistence⟩ | ⟨persistence, t₂, rest, u₂, rfl, hpersistence, h⟩ := h.of_bind
  · obtain ⟨p, hp, -⟩ := persistenceTrue_of_run hpersistence
    cases hp
  obtain ⟨e, rfl, halerts⟩ | ⟨_, t₃, rest, u₃, rfl, halerts, h⟩ := h.of_bind
  · exact absurd halerts evaluateHealthAlerts_not_error
  obtain ⟨e, rfl, hnow⟩ | ⟨now, t₄, rest, u₄, rfl, hnow, h⟩ := h.of_bind
  · exact absurd hnow (ask_not_error (by simp [Call.MayRaise]))
  obtain ⟨e, rfl, hretention⟩ | ⟨retention, t₅, rest, u₅, rfl, hretention, h⟩ := h.of_bind
  · obtain ⟨dir, name, hfailed⟩ := of_getRetentionIntegrityHealth_error hretention
    exact ⟨dir, name, hfailed.mono (by simp +contextual)⟩
  obtain ⟨rfl, rfl, -⟩ := h.of_ret
  have hredisRun := hredis
  have hpersistenceRun := hpersistence
  obtain ⟨r, hr, hredis⟩ := redisTrue_of_run hredis
  obtain ⟨p, hp, hpersistence⟩ := persistenceTrue_of_run hpersistence
  cases hr
  cases hp
  -- the parts ask different things
  have hasked₁ : ∀ e ∈ t₁, e.event.1.OfRedis := hredisRun.all calls_getRedisPipelineHealth
  have hasked₂ : ∀ e ∈ t₂, e.event.1.OfDatabase :=
    hpersistenceRun.all calls_getPersistencePipelineHealth
  have hasked : ∀ e ∈ t₃ ++ (t₄ ++ (t₅ ++ [])), e.event.1.Elsewhere := by
    have hasked₃ := halerts.all (calls_evaluateHealthAlerts redis persistence)
    have hasked₄ := hnow.all (calls_ask .utcnow)
    have hasked₅ := hretention.all calls_getRetentionIntegrityHealth
    simp only [List.mem_append, List.not_mem_nil, or_false]
    rintro e (he | he | he)
    · exact hasked₃ e he
    · have hcall : e.event.1 = .utcnow := hasked₄ e he
      rw [hcall]
      trivial
    · exact hasked₅ e he
  refine ⟨hredis.mono (by simp +contextual) fun e he => ?_,
    hpersistence.mono (by simp +contextual) fun e he => ?_⟩
  · rcases List.mem_append.mp he with he | he
    · exact .inl he
    rcases List.mem_append.mp he with he | he
    · exact .inr (hasked₂ e he).not_ofRedis
    · exact .inr (hasked e he).not_ofRedis
  · rcases List.mem_append.mp he with he | he
    · exact .inr fun hdatabase => hdatabase.not_ofRedis (hasked₁ e he)
    rcases List.mem_append.mp he with he | he
    · exact .inl he
    · exact .inr (hasked e he).not_ofDatabase

/-! ## Nothing pending, no lag -/

/-- What is acknowledged stays acknowledged. -/
theorem acked_of_reach {start : Worker Unit → Prop} {id : StreamId}
    (h : Reach (world env) start cfg cfg') (hacked : cfg.state.Acked id) : cfg'.state.Acked id := by
  have hgrows : ∀ {c : SecurityAudit.Call} {s s' : Shared} {v : c.Reply}, Executes env c s v s' →
      s.acked ⊆ s'.acked := by
    intro c s s' v hexec
    cases hexec with
    | xack => exact List.subset_append_left _ _
    | _ => exact List.Subset.refl _
  induction h with
  | refl => exact hacked
  | tail _ hstep ih =>
    obtain ⟨reason, hmem⟩ := ih
    cases hstep with
    | answer running answered =>
      cases answered with
      | done hexec => exact ⟨reason, hgrows hexec hmem⟩
      | lost hexec _ => exact ⟨reason, hgrows hexec hmem⟩
      | refused _ => exact ⟨reason, hmem⟩
    | crash w => exact ⟨reason, hmem⟩
    | spawn free started => exact ⟨reason, hmem⟩
    | drift drifted => cases drifted <;> exact ⟨reason, hmem⟩

/-- **Nothing pending and no lag.** Of the entries that are in the stream when `XINFO GROUPS` reads
the lag, each is acknowledged and has its row, or it is pending and was read by a worker after
`XPENDING` had counted the pending entries. -/
theorem caught_up {r : RedisPipelineHealth}
    (hstart : Reach (world env) (IsWorker env) (Config.idle Shared.initial) cfg)
    (h : Runs (healthWorld group env) (getRedisPipelineHealth group batch) cfg trace (.ok r) cfg')
    (hpending : r.pending_count = some 0) (hlag : r.consumer_lag = some 0) :
    ∃ counted read : Entry sig System, [counted, read].Sublist trace ∧
      counted.event.1 = .xpending ∧ read.event.1 = .xinfoGroups ∧
      ∀ m ∈ read.before.state.stream,
        (read.before.state.Acked m.id ∧ read.before.state.Evidenced env m) ∨
          counted.before.state.NotRead m ∧ read.before.state.IsPending m := by
  -- the state of the workers only goes forward between two questions
  have hclimbs : (∀ e ∈ trace, Reach (world env) (IsWorker env) cfg e.before) ∧
      trace.Pairwise fun a b => Reach (world env) (IsWorker env) a.before b.before := by
    refine Runs.climbs (fun _ => .refl) (fun h h' => h.trans h') (fun h => .single h) ?_ h
    intro c s r s' hanswer
    rw [hanswer.1]
  obtain ⟨figures, all, rest, u, rfl, hfigures, h⟩ := h.of_attempt_bind
  cases figures with
  | error e =>
    obtain ⟨-, hr, -⟩ := h.of_ret
    cases hr
    cases hpending
  | ok r' =>
    obtain ⟨rfl, hr, -⟩ := h.of_ret
    cases hr
    obtain ⟨-, first, last, rfl, ⟨summary, s₁, hsummary, hcount⟩, hlags⟩ := of_redisFigures hfigures
    obtain ⟨infos, s₂, hinfos, hlagOf⟩ := hlags 0 hlag
    have hreads₁ : Reads group .xpending s₁ summary :=
      (hsummary.mono (by simp +contextual)).reads hfigures
    have hreads₂ : Reads group .xinfoGroups s₂ infos :=
      (hinfos.mono (by simp +contextual)).reads hfigures
    obtain ⟨counted, hcounted, hcountedEvent, rfl⟩ := hsummary
    obtain ⟨read, hread, hreadEvent, rfl⟩ := hinfos
    rw [List.append_nil] at hclimbs ⊢
    have hlater : Reach (world env) (IsWorker env) counted.before read.before :=
      (List.pairwise_append.mp hclimbs.2).2.2 counted hcounted read hread
    have hreachable : ∀ e ∈ first ++ last, Reachable env e.before.state :=
      fun e he => ⟨e.before, hstart.trans (hclimbs.1 e he), rfl⟩
    obtain ⟨-, hkept₁⟩ := conserved_rows (hreachable counted (by simp [hcounted]))
    obtain ⟨hi, hkept₂⟩ := conserved_rows (hreachable read (by simp [hread]))
    obtain ⟨g₂, hg₂, hunread⟩ := lag_of_lagOf hreads₂ hlagOf
    refine ⟨counted, read, ?_, by rw [hcountedEvent], by rw [hreadEvent], fun m hm => ?_⟩
    · exact (List.singleton_sublist.mpr hcounted).append (List.singleton_sublist.mpr hread)
    by_cases hacked : read.before.state.Acked m.id
    · exact .inl ⟨hacked, hi.evidenced (hi.stream m hm) hacked⟩
    right
    constructor
    · intro hm₁
      cases hreads₁ with
      | @xpending _ g₁ hg₁ =>
        have hempty : g₁.pel = [] :=
          List.length_eq_zero_iff.mp (Option.some.inj (hcount.symm.trans hpending))
        rcases hkept₁.kept m hm₁ with hacked₁ | hholds
        · exact absurd (acked_of_reach hlater hacked₁) hacked
        · rcases hholds g₁ hg₁ with hunread₁ | ⟨p, hp, -⟩
          · exact ⟨g₁, hg₁, hunread₁⟩
          · rw [hempty] at hp
            cases hp
    · rcases (hkept₂.kept m hm).resolve_left hacked g₂ hg₂ with hunread₂ | hlists
      · -- no lag: there is nothing the group has not come to
        have hnone := List.length_eq_zero_iff.mp hunread
        have hmem : m ∈ g₂.unread read.before.state.stream :=
          List.mem_filter.mpr ⟨hm, decide_eq_true hunread₂⟩
        rw [hnone] at hmem
        cases hmem
      · exact ⟨g₂, hg₂, hlists⟩

/-! ## A check in between -/

/-- A worker created the group and was killed. -/
def created : Shared := { Shared.added [Sample.named] with group := some .fresh }

/-- Another one read the entry and was killed. -/
def received : Shared := Shared.received [Sample.named] (str "worker-1")

theorem reach_created : Reach (world Sample.env) (IsWorker Sample.env)
    (Config.idle Shared.initial) (Config.idle created) := by
  have hadded : Reach (world Sample.env) (IsWorker Sample.env) (Config.idle Shared.initial)
      (Config.idle (Shared.added [Sample.named])) :=
    reach_added id (by decide) (List.pairwise_singleton _ _)
  have hvisit : Solo ((world Sample.env).restrict everything) (run Sample.env (str "worker-0") 1)
      (Shared.added [Sample.named]) _ created :=
    (solo_ensureGroup_new lenient_everything rfl).bind_left _
  exact hadded.trans (Reach.of_restrict (hvisit.visit ⟨str "worker-0", 1, rfl⟩))

theorem reach_received : Reach (world Sample.env) (IsWorker Sample.env)
    (Config.idle created) (Config.idle received) := by
  have hread : Solo ((world Sample.env).restrict everything)
      (readNew Sample.env (str "worker-1") none) created _ received :=
    solo_readNew lenient_everything rfl (str "worker-1") none
  have hvisit : Solo ((world Sample.env).restrict everything) (run Sample.env (str "worker-1") 1)
      created _ received :=
    .bind (solo_ensureGroup_busy lenient_everything rfl)
      (.bind (solo_sweepPending_nothing rfl rfl trivial (str "worker-1") none) (hread.bind_left _))
  exact Reach.of_restrict (hvisit.visit ⟨str "worker-1", 1, rfl⟩)

/-- The name of the consumer group. -/
def workers : Str := str "audit-workers"

/-- What the check is answered before the second worker comes. The database is down. -/
def answers : (c : Call) → sig.Answer c
  | .xlen => .ok (1 : ℕ)
  | .xpending => .ok (some (0 : ℕ))
  | .xpendingRange _ => .ok []
  | .xinfoGroups => .ok [⟨workers, some (some 1)⟩]
  | .xinfoConsumers => .ok []
  | .maxCreatedAt | .countQuarantined | .maxQuarantinedAt => .error (str "OperationalError")
  | .getenv _ => .ok none
  | .emit _ => .ok ()
  | .utcnow => .ok Sample.utcnow
  | .readText _ _ => .ok none

theorem answers_created (c : Call) :
    (healthWorld workers Sample.env).answers c (Config.idle created) (answers c)
      (Config.idle created) := by
  refine ⟨rfl, ?_⟩
  cases c with
  | xlen => exact Reads.xlen (s := created)
  | xpending => exact Reads.xpending (s := created) (g := .fresh) rfl
  | xpendingRange count =>
    have hnone : Group.fresh.pel.take count = [] := List.take_nil
    have hread : Reads workers (.xpendingRange count) created ((Group.fresh.pel.take count).map _) :=
      .xpendingRange rfl
    rw [hnone] at hread
    exact hread
  | xinfoGroups =>
    refine Reads.xinfoGroups fun i hi _ => ⟨.fresh, rfl, fun n hn => ?_⟩
    rw [List.mem_singleton.mp hi] at hn
    cases hn
    decide
  | xinfoConsumers => exact Reads.xinfoConsumers []
  | getenv name => exact Reads.getenv name none
  | emit request => exact Reads.emit request
  | utcnow => exact Reads.utcnow _
  | readText dir name => exact Reads.readText dir name none
  | _ => trivial

/-- One unread entry, and no database. -/
theorem report_true_created : ∃ trace health,
    Runs (healthWorld workers Sample.env)
      (getPipelineHealth (pythonInt fun _ => none) workers 100) (Config.idle created) trace
      (.ok health) (Config.idle created) ∧
    health.redis.consumer_lag = some 1 ∧ health.persistence.available = false ∧
    RedisTrue 100 trace health.redis ∧ PersistenceTrue trace health.persistence := by
  obtain ⟨trace, hrun⟩ := Runs.of_eval answers_created
    (getPipelineHealth (pythonInt fun _ => none) workers 100)
  exact ⟨trace, _, hrun, rfl, rfl, report_true hrun⟩

/-- The second worker reads the entry between the count of the pending entries and the lag. -/
theorem caught_up_between : ∃ trace r,
    Runs (healthWorld workers Sample.env) (getRedisPipelineHealth workers 100)
      (Config.idle created) trace (.ok r) (Config.idle received) ∧
    (∃ counted read : Entry sig System, [counted, read].Sublist trace ∧
      counted.event.1 = .xpending ∧ read.event.1 = .xinfoGroups ∧
      ∀ m ∈ read.before.state.stream,
        (read.before.state.Acked m.id ∧ read.before.state.Evidenced Sample.env m) ∨
          counted.before.state.NotRead m ∧ read.before.state.IsPending m) ∧
    received.stream = [Sample.named] ∧ received.acked = [] := by
  let W := healthWorld workers Sample.env
  have hstay : ∀ {c : Call} {v : c.Reply} {s : Shared}, Reads workers c s v →
      W.answers c (Config.idle s) (.ok v) (Config.idle s) := fun h => ⟨rfl, h⟩
  have hlag : Reads workers .xinfoGroups received [⟨workers, some (some 0)⟩] := by
    refine .xinfoGroups fun i hi _ => ⟨_, rfl, fun n hn => ?_⟩
    rw [List.mem_singleton.mp hi] at hn
    cases hn
    decide
  have hlater : Runs W (lagFigures workers) (Config.idle created) _
      (.ok (some 0, some (str "xinfo_groups"))) (Config.idle received) :=
    Runs.bind (Runs.attempt (.call reach_received (hstay hlag) (.ret _ _))) (.ret _ _)
  have hconsumers : Runs W consumerFigures (Config.idle received) _ (.ok (some 1, some 0)) _ :=
    Runs.bind (Runs.attempt (.perform (hstay (.xinfoConsumers [0])))) (.ret _ _)
  have hfigures : Runs W (redisFigures workers 100) (Config.idle created) _ (.ok _) _ :=
    .perform_bind .refl (hstay .xlen)
      (.perform_bind .refl (hstay (.xpending rfl))
        (.bind (.ret (none, none) _) (.bind hlater (.bind hconsumers (.ret _ _)))))
  have hrun : Runs W (getRedisPipelineHealth workers 100) (Config.idle created) _ (.ok _) _ :=
    .bind hfigures.attempt (.ret _ _)
  exact ⟨_, _, hrun, caught_up reach_created hrun rfl rfl, rfl, rfl⟩

end PipelineHealth

end SecurityAudit
