import SecurityAudit.Prog.Visits
import SecurityAudit.Scripts.Retention
import SecurityAudit.Scripts.VerifyIntegrity
import SecurityAudit.Services.PipelineHealth

/-!
# The status files of the maintenance scripts

`_write_status_file` of `scripts/verify_audit_integrity.py` and of
`scripts/audit_retention_cleanup.py` writes its lines to a file next to the status file and moves
that file into place; the health check reads the status file. A run may be killed anywhere, and a
write may fail with any part of the text in the file. What the health check shows is still always
what one run reported, and once a run has returned it is that run or a later one (`status_read`).
Runs of one script do not overlap here: each starts when the one before it is over.
-/

namespace SecurityAudit

namespace StatusFiles

open Prog

/-! ## Files -/

/-- A file of a directory. -/
structure FilePath where
  dir : Str
  name : Str
deriving DecidableEq

/-- `path.with_suffix(suffix)` of a name with a suffix. -/
def FilePath.withSuffix (path : FilePath) (suffix : String) : FilePath :=
  { path with name := ((path.name.reverse.dropWhile (· ≠ cp '.')).drop 1).reverse ++ str suffix }

inductive Call where
  /-- `os.environ.get("AUDIT_HEALTH_STATUS_DIR")` -/
  | getStatusDir
  /-- `datetime.now(timezone.utc)` -/
  | utcnow
  /-- `path.write_text(text)` -/
  | writeText (path : FilePath) (text : Str)
  /-- `source.replace(target)` -/
  | replace (source target : FilePath)

def Call.Reply : Call → Type
  | .getStatusDir => Option Str
  | .utcnow => Naive
  | .writeText _ _ => Unit
  | .replace _ _ => Unit

/-- Every exception is an `OSError`. -/
abbrev sig : Sig := ⟨Call, Call.Reply, Unit⟩

abbrev ask (c : Call) : Prog sig c.Reply := @perform sig c

/-- `datetime.isoformat()` of a point in UTC. -/
def utcText (t : Naive) : Str := t.isoformat ++ str "+00:00"

/-- `f"{key}={value}"`. -/
def entry (key : String) (value : Str) : Str := str key ++ cp '=' :: value

/-- What both functions do with their lines. -/
def publish (name : String) (lines : Str → List Str) : Prog sig Unit := do
  let status_dir : Option Str ← ask .getStatusDir
  match status_dir.filter fun dir => dir ≠ [] with
  | none => return ()
  | some dir =>
    let path : FilePath := ⟨dir, str name⟩
    let now : Naive ← ask .utcnow
    ask (.writeText (path.withSuffix ".tmp") (unlines (lines (utcText now))))
    ask (.replace (path.withSuffix ".tmp") path)

end StatusFiles

open StatusFiles (entry)

/-- The lines of a verification. -/
def VerifyIntegrity.statusLines (passed : Bool) (events quarantine : Stats) (now : Str) :
    List Str :=
  [entry "LAST_VERIFICATION_TS" now,
    entry "LAST_VERIFICATION_RESULT" (if passed then str "pass" else str "fail"),
    entry "LAST_VERIFICATION_EVENTS_CHECKED" (natText events.checked),
    entry "LAST_VERIFICATION_EVENTS_INVALID" (natText events.invalid.length),
    entry "LAST_VERIFICATION_QUARANTINE_CHECKED" (natText quarantine.checked),
    entry "LAST_VERIFICATION_QUARANTINE_INVALID" (natText quarantine.invalid.length)]

/-- `_write_status_file` of `scripts/verify_audit_integrity.py`. -/
def VerifyIntegrity.writeStatusFile (passed : Bool) (events quarantine : Stats) :
    Prog StatusFiles.sig Unit :=
  StatusFiles.publish "audit-integrity-verification.env" (statusLines passed events quarantine)

namespace Retention

/-- `r.get("count", 0)` where the status is `"success"`. -/
def Result.deleted : Result → ℕ
  | .success count => count
  | _ => 0

/-- `total_deleted`. -/
def totalDeleted (results : List (Table × Result)) : ℕ := (results.map fun r => r.2.deleted).sum

/-- The lines of a retention run. -/
def statusLines (execute overall_ok : Bool) (results : List (Table × Result)) (now : Str) :
    List Str :=
  [entry "LAST_RETENTION_RUN_TS" now,
    entry "LAST_RETENTION_RUN_MODE" (if execute then str "execute" else str "dry_run"),
    entry "LAST_RETENTION_RUN_RESULT"
      (if overall_ok then str "success" else str "failed_or_partial"),
    entry "LAST_RETENTION_RUN_DELETED_TOTAL" (natText (totalDeleted results))]

/-- `_write_status_file` of `scripts/audit_retention_cleanup.py`. -/
def writeStatusFile (execute overall_ok : Bool) (results : List (Table × Result)) :
    Prog StatusFiles.sig Unit :=
  StatusFiles.publish "audit-retention-run.env" (statusLines execute overall_ok results)

end Retention

namespace StatusFiles

open Prog

/-- What a run reports. -/
inductive Report where
  | verification (passed : Bool) (events quarantine : VerifyIntegrity.Stats)
  | retention (execute overall_ok : Bool) (results : List (Immutability.Table × Retention.Result))

namespace Report

/-- The name of its status file. -/
def name : Report → String
  | verification _ _ _ => "audit-integrity-verification.env"
  | retention _ _ _ => "audit-retention-run.env"

/-- Its lines. -/
def lines : Report → Str → List Str
  | verification passed events quarantine =>
    VerifyIntegrity.statusLines passed events quarantine
  | retention execute overall_ok results => Retention.statusLines execute overall_ok results

/-- The end of the run. -/
def write : Report → Prog sig Unit
  | verification passed events quarantine =>
    VerifyIntegrity.writeStatusFile passed events quarantine
  | retention execute overall_ok results =>
    Retention.writeStatusFile execute overall_ok results

theorem write_eq (r : Report) : r.write = publish r.name r.lines := by
  cases r <;> rfl

/-- The text of its status file. -/
def text (r : Report) (now : Naive) : Str := unlines (r.lines (utcText now))

end Report

/-- The names of the status files. -/
def statusNames : List Str := [str "audit-integrity-verification.env", str "audit-retention-run.env"]

theorem Report.name_mem (r : Report) : str r.name ∈ statusNames := by
  cases r <;> simp [Report.name, statusNames]

/-! ## What happens to the calls -/

/-- The environment variable and the files. -/
structure Disk where
  statusDir : Option Str
  text : FilePath → Option Str

def Disk.set (s : Disk) (path : FilePath) (text : Option Str) : Disk :=
  { s with text := Function.update s.text path text }

theorem Disk.set_of_ne (s : Disk) {path path' : FilePath} (text : Option Str) (h : path' ≠ path) :
    (s.set path text).text path' = s.text path' := Function.update_of_ne h _ _

@[simp] theorem Disk.set_self (s : Disk) (path : FilePath) (text : Option Str) :
    (s.set path text).text path = text := Function.update_self _ _ _

/-- How calls are answered. A write that fails may leave the file as it was, or any part of the
text in it. The status files and the files next to them are the scripts' own. -/
def world : World sig Disk where
  answers
    | .getStatusDir, s, r, s' => r = .ok s.statusDir ∧ s' = s
    | .utcnow, s, r, s' => (∃ now, r = .ok now) ∧ s' = s
    | .writeText path text, s, r, s' =>
      (r = .ok () ∧ s' = s.set path (some text)) ∨
        r = .error () ∧ (s' = s ∨ ∃ written, written <+: text ∧ s' = s.set path (some written))
    | .replace source target, s, r, s' =>
      (r = .ok () ∧ s' = (s.set target (s.text source)).set source none) ∨ r = .error () ∧ s' = s
  drift s s' := s'.statusDir = s.statusDir ∧ ∀ path : FilePath, path.name ∈ statusNames →
    s'.text path = s.text path

/-- The name of the file that is moved into place is not the name of a status file. -/
theorem withSuffix_not_mem {path : FilePath} (h : path.name ∈ statusNames) :
    (path.withSuffix ".tmp").name ∉ statusNames := by
  have hboth : ∀ name ∈ statusNames,
      ((name.reverse.dropWhile (· ≠ cp '.')).drop 1).reverse ++ str ".tmp" ∉ statusNames := by decide
  exact hboth path.name h

/-! ## One run -/

variable {s t u : Disk}

/-- Writing next to a status file and moving it there: the status files stay as they are, but for
the one, which may get the whole text. -/
theorem of_solo_place {path : FilePath} {text : Str} {q : Prog sig Unit}
    (hpath : path.name ∈ statusNames)
    (h : Solo world (do
      ask (.writeText (path.withSuffix ".tmp") text)
      ask (.replace (path.withSuffix ".tmp") path)) s q t) :
    t.statusDir = s.statusDir ∧
      (∀ p : FilePath, p.name ∈ statusNames → t.text p = s.text p ∨ p = path ∧ t.text p = some text) ∧
      (q = .ret () → t.text path = some text) := by
  have hkeep : ∀ (s : Disk) (p : FilePath) (text : Option Str), p.name ∈ statusNames →
      (s.set (path.withSuffix ".tmp") text).text p = s.text p := by
    intro s p text hp
    refine s.set_of_ne text fun heq => ?_
    exact withSuffix_not_mem hpath (heq ▸ hp)
  obtain ⟨rfl, hq⟩ | ⟨e, hanswer, hq⟩ | ⟨_, u, hanswer, h⟩ := h.perform_bind_cases
  · exact ⟨rfl, fun _ _ => .inl rfl, fun hret => absurd hret (hq ())⟩
  · -- what a failed write left is not in a status file
    have ht : t = s ∨ ∃ written, t = s.set (path.withSuffix ".tmp") (some written) := by
      obtain ⟨hok, -⟩ | ⟨-, hsame | ⟨written, -, hpart⟩⟩ := hanswer
      · cases hok
      · exact .inl hsame
      · exact .inr ⟨written, hpart⟩
    obtain rfl | ⟨written, rfl⟩ := ht
    · exact ⟨rfl, fun _ _ => .inl rfl, fun hret => absurd hret (hq ())⟩
    · exact ⟨rfl, fun p hp => .inl (hkeep s p _ hp), fun hret => absurd hret (hq ())⟩
  have hu : u = s.set (path.withSuffix ".tmp") (some text) := by
    obtain ⟨-, hu⟩ | ⟨herror, -⟩ := hanswer
    · exact hu
    · cases herror
  -- the move puts the whole text in place
  have hmoved : ∀ v, v = (u.set path (u.text (path.withSuffix ".tmp"))).set
      (path.withSuffix ".tmp") none → v.text path = some text ∧
        ∀ p : FilePath, p.name ∈ statusNames → p ≠ path → v.text p = s.text p := by
    intro v hv
    subst hv
    rw [hkeep _ path _ hpath, Disk.set_self, hu, Disk.set_self]
    refine ⟨rfl, fun p hp hne => ?_⟩
    rw [hkeep _ p _ hp, Disk.set_of_ne _ _ hne, hkeep _ p _ hp]
  have hdir : u.statusDir = s.statusDir := by
    rw [hu]
    rfl
  refine ⟨?_, fun p hp => ?_, fun hret => ?_⟩
  · obtain rfl | ⟨o, ⟨-, rfl⟩ | ⟨-, rfl⟩⟩ := h.perform_cases <;> exact hdir
  · have hsame : u.text p = s.text p := by rw [hu, hkeep _ p _ hp]
    obtain rfl | ⟨o, ⟨-, ht⟩ | ⟨-, rfl⟩⟩ := h.perform_cases
    · exact .inl hsame
    · by_cases hp' : p = path
      · exact .inr ⟨hp', by rw [hp']; exact (hmoved t ht).1⟩
      · exact .inl ((hmoved t ht).2 p hp hp')
    · exact .inl hsame
  · subst hret
    have hend : Solo world (ask (.replace (path.withSuffix ".tmp") path)) u
        (Prog.ofExcept (.ok ())) t := h
    have hanswer := hend.of_perform
    obtain ⟨-, ht⟩ | ⟨herror, -⟩ := hanswer
    · exact (hmoved t ht).1
    · cases herror

/-- What a stretch of a run leaves: every status file as it was, but for its own, which may have
its whole text; and once it has returned, does have it. -/
theorem of_solo_write {r : Report} {q : Prog sig Unit} (h : Solo world r.write s q t) :
    t.statusDir = s.statusDir ∧
      (∀ p : FilePath, p.name ∈ statusNames → t.text p = s.text p ∨
        p.name = str r.name ∧ ∃ now, t.text p = some (r.text now)) ∧
      ∀ dir, s.statusDir = some dir → dir ≠ [] → q = .ret () →
        ∃ now, t.text ⟨dir, str r.name⟩ = some (r.text now) := by
  rw [r.write_eq] at h
  unfold publish at h
  obtain ⟨rfl, hq⟩ | ⟨e, hanswer, hq⟩ | ⟨status_dir, u, hanswer, h⟩ := h.perform_bind_cases
  · exact ⟨rfl, fun _ _ => .inl rfl, fun _ _ _ hret => absurd hret (hq ())⟩
  · cases hanswer.1
  obtain ⟨hdir, rfl⟩ := hanswer
  have hdir : status_dir = u.statusDir := Except.ok.inj hdir
  subst hdir
  cases hset : u.statusDir.filter fun dir => dir ≠ [] with
  | none =>
    rw [hset] at h
    have ht : t = u := by
      cases h
      rfl
    subst ht
    refine ⟨rfl, fun _ _ => .inl rfl, fun dir hdir hne _ => ?_⟩
    simp [hdir, hne] at hset
  | some dir =>
    rw [hset] at h
    obtain ⟨hdir, -⟩ := Option.filter_eq_some_iff.mp hset
    obtain ⟨rfl, hq⟩ | ⟨e, hanswer, hq⟩ | ⟨now, v, hanswer, hplace⟩ := h.perform_bind_cases
    · exact ⟨rfl, fun _ _ => .inl rfl, fun _ _ _ hret => absurd hret (hq ())⟩
    · obtain ⟨⟨now, hnow⟩, -⟩ := hanswer
      cases hnow
    obtain ⟨-, rfl⟩ := hanswer
    have hname : (⟨dir, str r.name⟩ : FilePath).name ∈ statusNames := r.name_mem
    obtain ⟨hstatus, htexts, hret⟩ := of_solo_place hname hplace
    refine ⟨hstatus, fun p hp => (htexts p hp).imp_right ?_, fun dir' hdir' _ hq => ⟨now, ?_⟩⟩
    · rintro ⟨rfl, htext⟩
      exact ⟨rfl, now, htext⟩
    · rw [hdir] at hdir'
      cases hdir'
      exact hret hq

/-- Any number of runs, each cut anywhere: a status file is as it was, or has the whole text of one
of them. -/
theorem of_visits {reports : Report → Prop}
    (h : Visits world (fun p => ∃ r, reports r ∧ p = r.write) s t) :
    t.statusDir = s.statusDir ∧ ∀ p : FilePath, p.name ∈ statusNames → t.text p = s.text p ∨
      ∃ r, reports r ∧ p.name = str r.name ∧ ∃ now, t.text p = some (r.text now) := by
  induction h with
  | refl => exact ⟨rfl, fun _ _ => .inl rfl⟩
  | tail _ hvisit ih =>
    obtain ⟨hdir, htexts⟩ := ih
    cases hvisit with
    | drift drifted =>
      refine ⟨drifted.1.trans hdir, fun p hp => ?_⟩
      rw [drifted.2 p hp]
      exact htexts p hp
    | solo run started =>
      obtain ⟨r, hr, rfl⟩ := started
      obtain ⟨hdir', htexts', -⟩ := of_solo_write run
      refine ⟨hdir'.trans hdir, fun p hp => ?_⟩
      rcases htexts' p hp with hsame | ⟨hname, now, htext⟩
      · rw [hsame]
        exact htexts p hp
      · exact .inr ⟨r, hr, hname, now, htext⟩

/-! ## What is read back -/

/-- A key without `=` and without a line break. -/
def plainKey (key : String) : Bool := (str key).all fun c => c ≠ cp '=' && !isLineBreak c

theorem envEntries_unlines {pairs : List (String × Str)} (hne : pairs ≠ [])
    (hkeys : pairs.all (fun kv => plainKey kv.1) = true)
    (hvalues : ∀ kv ∈ pairs, ∀ c ∈ kv.2, isLineBreak c = false) :
    PipelineHealth.envEntries (unlines (pairs.map fun kv => entry kv.1 kv.2)) =
      pairs.map fun kv => (str kv.1, kv.2) := by
  have hplain : ∀ kv ∈ pairs, ∀ c ∈ str kv.1, c ≠ cp '=' ∧ isLineBreak c = false := by
    intro kv hkv c hc
    have hkey := List.all_eq_true.mp (List.all_eq_true.mp hkeys kv hkv) c hc
    simpa using hkey
  have hlines : splitLines (unlines (pairs.map fun kv => entry kv.1 kv.2)) =
      pairs.map fun kv => entry kv.1 kv.2 := by
    apply splitLines_unlines (by simpa using hne)
    intro line hline c hc
    obtain ⟨kv, hkv, rfl⟩ := List.mem_map.mp hline
    rcases List.mem_append.mp hc with hc | hc
    · exact (hplain kv hkv c hc).2
    · rcases List.mem_cons.mp hc with rfl | hc
      · decide
      · exact hvalues kv hkv c hc
  have hall : (pairs.map fun kv => entry kv.1 kv.2).filter (fun line => decide (cp '=' ∈ line)) =
      pairs.map fun kv => entry kv.1 kv.2 := by
    apply List.filter_eq_self.mpr
    intro line hline
    obtain ⟨kv, -, rfl⟩ := List.mem_map.mp hline
    exact decide_eq_true (by simp [entry])
  unfold PipelineHealth.envEntries
  rw [hlines, hall, List.map_map]
  apply List.map_congr_left
  intro kv hkv
  exact partition_append fun hmem => (hplain kv hkv _ hmem).1 rfl

/-- What a status file of the run says, key by key. -/
def Report.pairs : Report → Str → List (String × Str)
  | verification passed events quarantine, now =>
    [("LAST_VERIFICATION_TS", now),
      ("LAST_VERIFICATION_RESULT", if passed then str "pass" else str "fail"),
      ("LAST_VERIFICATION_EVENTS_CHECKED", natText events.checked),
      ("LAST_VERIFICATION_EVENTS_INVALID", natText events.invalid.length),
      ("LAST_VERIFICATION_QUARANTINE_CHECKED", natText quarantine.checked),
      ("LAST_VERIFICATION_QUARANTINE_INVALID", natText quarantine.invalid.length)]
  | retention execute overall_ok results, now =>
    [("LAST_RETENTION_RUN_TS", now),
      ("LAST_RETENTION_RUN_MODE", if execute then str "execute" else str "dry_run"),
      ("LAST_RETENTION_RUN_RESULT",
        if overall_ok then str "success" else str "failed_or_partial"),
      ("LAST_RETENTION_RUN_DELETED_TOTAL", natText (Retention.totalDeleted results))]

theorem Report.lines_eq (r : Report) (now : Str) :
    r.lines now = (r.pairs now).map fun kv => entry kv.1 kv.2 := by
  cases r <;> rfl

theorem not_isLineBreak_of_isDigit {c : CodePoint} (h : isDigit c = true) :
    isLineBreak c = false := by
  have hdigit := of_decide_eq_true h
  simp only [isLineBreak, decide_eq_false_iff_not]
  omega

theorem not_isLineBreak_natText {n : ℕ} {c : CodePoint} (h : c ∈ natText n) :
    isLineBreak c = false :=
  not_isLineBreak_of_isDigit (isDigit_of_mem_natText h)

theorem not_isLineBreak_of_all {s : Str} (h : s.all (fun c => !isLineBreak c) = true)
    {c : CodePoint} (hc : c ∈ s) : isLineBreak c = false := by
  have := List.all_eq_true.mp h c hc
  simpa using this

theorem not_isLineBreak_utcText {t : Naive} {c : CodePoint} (h : c ∈ utcText t) :
    isLineBreak c = false := by
  rcases List.mem_append.mp h with h | h
  · rcases Naive.mem_isoformat h with hdigit | rfl | rfl | rfl | rfl
    · exact not_isLineBreak_of_isDigit hdigit
    all_goals decide
  · exact not_isLineBreak_of_all (s := str "+00:00") (by decide) h

/-- **A status file reads back.** -/
theorem envEntries_text (r : Report) (now : Naive) :
    PipelineHealth.envEntries (r.text now) =
      (r.pairs (utcText now)).map fun kv => (str kv.1, kv.2) := by
  have hflag : ∀ (b : Bool) (x y : String), (str x ++ str y).all (fun c => !isLineBreak c) = true →
      ∀ c ∈ (if b then str x else str y), isLineBreak c = false := by
    intro b x y hxy c hc
    refine not_isLineBreak_of_all hxy (List.mem_append.mpr ?_)
    cases b
    · exact .inr hc
    · exact .inl hc
  unfold Report.text
  rw [r.lines_eq]
  cases r with
  | verification passed events quarantine =>
    have hkeys : ((Report.verification passed events quarantine).pairs (utcText now)).all
        (fun kv => plainKey kv.1) = true := by
      simp only [Report.pairs, List.all_cons, List.all_nil]
      decide
    refine envEntries_unlines (by simp [Report.pairs]) hkeys ?_
    simp only [Report.pairs, List.forall_mem_cons]
    exact ⟨fun c hc => not_isLineBreak_utcText hc, hflag _ _ _ (by decide),
      fun c hc => not_isLineBreak_natText hc, fun c hc => not_isLineBreak_natText hc,
      fun c hc => not_isLineBreak_natText hc, fun c hc => not_isLineBreak_natText hc, nofun⟩
  | retention execute overall_ok results =>
    have hkeys : ((Report.retention execute overall_ok results).pairs (utcText now)).all
        (fun kv => plainKey kv.1) = true := by
      simp only [Report.pairs, List.all_cons, List.all_nil]
      decide
    refine envEntries_unlines (by simp [Report.pairs]) hkeys ?_
    simp only [Report.pairs, List.forall_mem_cons]
    exact ⟨fun c hc => not_isLineBreak_utcText hc, hflag _ _ _ (by decide), hflag _ _ _ (by decide),
      fun c hc => not_isLineBreak_natText hc, nofun⟩

/-- The value of a key that stands in one line. -/
theorem valueOf_pairs {pairs : List (String × Str)} {key : String} {value : Str}
    (hkeys : (pairs.map fun kv => str kv.1).Nodup) (hmem : (key, value) ∈ pairs) :
    PipelineHealth.valueOf (pairs.map fun kv => (str kv.1, kv.2)) key = some value := by
  have hone : ∀ kv ∈ pairs, str kv.1 = str key → kv = (key, value) :=
    fun kv hkv heq => List.inj_on_of_nodup_map hkeys hkv hmem heq
  unfold PipelineHealth.valueOf
  cases hfind : (pairs.map fun kv => (str kv.1, kv.2)).reverse.find? fun e => e.1 = str key with
  | none =>
    rw [List.find?_eq_none] at hfind
    have hline : (str key, value) ∈ (pairs.map fun kv => (str kv.1, kv.2)).reverse :=
      List.mem_reverse.mpr (List.mem_map.mpr ⟨_, hmem, rfl⟩)
    exact absurd (decide_eq_true rfl) (hfind _ hline)
  | some e =>
    obtain ⟨kv, hkv, rfl⟩ :=
      List.mem_map.mp (List.mem_reverse.mp (List.mem_of_find?_eq_some hfind))
    have hfound := List.find?_some hfind
    have hkey : str kv.1 = str key := of_decide_eq_true hfound
    rw [hone kv hkv hkey]
    rfl

/-- No key stands in two lines. -/
theorem Report.nodup_keys (r : Report) (now : Str) :
    ((r.pairs now).map fun kv => str kv.1).Nodup := by
  cases r
  all_goals
    simp only [Report.pairs, List.map_cons, List.map_nil]
    decide

/-! ## What the health check shows -/

open PipelineHealth (RetentionIntegrityHealth getRetentionIntegrityHealth)

/-- The number of a run that the health check shows. -/
def Report.figure : Report → ℕ
  | verification _ events _ => events.invalid.length
  | retention _ _ results => Retention.totalDeleted results

/-- The health check shows the run. -/
def Report.ShownBy (health : RetentionIntegrityHealth) (now : Str) : Report → Prop
  | verification passed events _ =>
    health.last_integrity_verification_ts = some now ∧
      health.last_integrity_verification_result =
        some (if passed then str "pass" else str "fail") ∧
      health.last_integrity_events_invalid = some (events.invalid.length : ℤ)
  | retention _ overall_ok results =>
    health.last_retention_run_ts = some now ∧
      health.last_retention_run_result =
        some (if overall_ok then str "success" else str "failed_or_partial") ∧
      health.last_retention_deleted_total = some (Retention.totalDeleted results : ℤ)

/-- What the health check finds. -/
def Disk.found (s : Disk) : (c : PipelineHealth.Call) → PipelineHealth.sig.Answer c
  | .getenv "AUDIT_HEALTH_STATUS_DIR" => .ok s.statusDir
  | .getenv _ => .ok none
  | .readText dir name => .ok (s.text ⟨dir, str name⟩)
  | _ => .error []

variable (N : Numerals)

/-- The report from what the two files hold. -/
theorem eval_getRetentionIntegrityHealth {dir : Str} (hdir : s.statusDir = some dir)
    (hne : dir ≠ []) : (getRetentionIntegrityHealth N).eval s.found =
      .ok (PipelineHealth.retentionIntegrity N
        (((s.text ⟨dir, str "audit-integrity-verification.env"⟩).map
          PipelineHealth.envEntries).getD [])
        (((s.text ⟨dir, str "audit-retention-run.env"⟩).map
          PipelineHealth.envEntries).getD [])) := by
  have hset : s.statusDir.filter (fun dir => decide (dir ≠ [])) = some dir := by
    rw [hdir]
    simp [hne]
  show eval (σ := PipelineHealth.sig) s.found
    (match s.statusDir.filter (fun dir => decide (dir ≠ [])) with
    | none => _
    | some dir => _) = _
  rw [hset]
  rfl

variable {N}

/-- A run whose text is in its file is shown. -/
theorem shownBy_of_text {r : Report} {now : Naive} {verification retention : Option Str}
    (hcount : (natText r.figure).length ≤ N.maxDigits)
    (hverification : r.name = "audit-integrity-verification.env" → verification = some (r.text now))
    (hretention : r.name = "audit-retention-run.env" → retention = some (r.text now)) :
    r.ShownBy (PipelineHealth.retentionIntegrity N
      ((verification.map PipelineHealth.envEntries).getD [])
      ((retention.map PipelineHealth.envEntries).getD [])) (utcText now) := by
  have hparse : N.parse (natText r.figure) = some (r.figure : ℤ) :=
    N.parse_intText (n := (r.figure : ℤ)) hcount
  have hvalue : ∀ {key value}, (key, value) ∈ r.pairs (utcText now) →
      PipelineHealth.valueOf ((r.pairs (utcText now)).map fun kv => (str kv.1, kv.2)) key =
        some value := valueOf_pairs (r.nodup_keys _)
  cases r with
  | verification passed events quarantine =>
    rw [hverification rfl, Option.map_some, envEntries_text]
    refine ⟨hvalue (by simp [Report.pairs]), hvalue (by simp [Report.pairs]), ?_⟩
    have hnumber : PipelineHealth.valueOf _ "LAST_VERIFICATION_EVENTS_INVALID" =
        some (natText events.invalid.length) := hvalue (by simp [Report.pairs])
    show (PipelineHealth.valueOf _ _).bind N.parse = _
    rw [Option.getD_some, hnumber]
    exact hparse
  | retention execute overall_ok results =>
    rw [hretention rfl, Option.map_some, envEntries_text]
    refine ⟨hvalue (by simp [Report.pairs]), hvalue (by simp [Report.pairs]), ?_⟩
    have hnumber : PipelineHealth.valueOf _ "LAST_RETENTION_RUN_DELETED_TOTAL" =
        some (natText (Retention.totalDeleted results)) := hvalue (by simp [Report.pairs])
    show (PipelineHealth.valueOf _ _).bind N.parse = _
    rw [Option.getD_some, hnumber]
    exact hparse

/-- The names tell the two files apart. -/
theorem Report.name_eq_of_str {r r' : Report} (h : str r.name = str r'.name) : r.name = r'.name := by
  have hdiffer : str "audit-integrity-verification.env" ≠ str "audit-retention-run.env" := by decide
  cases r <;> cases r'
  · rfl
  · exact absurd h hdiffer
  · exact absurd h.symm hdiffer
  · rfl

/-- **What a run reports is what is shown.** Once a run has returned, the health check shows its
figures, or those of a later run of the same script, wherever the later runs were cut and whatever
became of their writes. -/
theorem status_read {r : Report} {reports : Report → Prop} {dir : Str}
    (hcount : (natText r.figure).length ≤ N.maxDigits)
    (hcounts : ∀ r', reports r' → (natText r'.figure).length ≤ N.maxDigits)
    (hdir : s.statusDir = some dir) (hne : dir ≠ [])
    (hdone : Solo world r.write s (.ret ()) u)
    (hlater : Visits world (fun p => ∃ r', reports r' ∧ p = r'.write) u t) :
    ∃ health, (getRetentionIntegrityHealth N).eval t.found = .ok health ∧
      ∃ r' now, (r' = r ∨ reports r' ∧ r'.name = r.name) ∧ r'.ShownBy health (utcText now) := by
  obtain ⟨hdir', -, hret⟩ := of_solo_write hdone
  obtain ⟨now, htext⟩ := hret dir hdir hne rfl
  obtain ⟨hdir'', htexts⟩ := of_visits hlater
  have hstatus : t.statusDir = some dir := (hdir''.trans hdir').trans hdir
  refine ⟨_, eval_getRetentionIntegrityHealth N hstatus hne, ?_⟩
  -- the file of the run holds its text, or that of a later one
  obtain ⟨r', now', hr', hfile⟩ : ∃ r' now', (r' = r ∨ reports r' ∧ r'.name = r.name) ∧
      t.text ⟨dir, str r.name⟩ = some (r'.text now') := by
    rcases htexts ⟨dir, str r.name⟩ r.name_mem with hsame | ⟨r', hr', hname, now', htext'⟩
    · exact ⟨r, now, .inl rfl, hsame.trans htext⟩
    · exact ⟨r', now', .inr ⟨hr', (Report.name_eq_of_str hname).symm⟩, htext'⟩
  have hname : r'.name = r.name := by
    rcases hr' with rfl | ⟨-, hname⟩
    · rfl
    · exact hname
  have hcount' : (natText r'.figure).length ≤ N.maxDigits := by
    rcases hr' with rfl | ⟨hr', -⟩
    · exact hcount
    · exact hcounts r' hr'
  refine ⟨r', now', hr', shownBy_of_text hcount' ?_ ?_⟩
  · intro hverification
    rw [← hfile, ← hname, hverification]
  · intro hretention
    rw [← hfile, ← hname, hretention]

/-! ## A run, and one that is cut -/

/-- The status directory is there, and empty. -/
def emptyDisk : Disk := ⟨some (str "/status"), fun _ => none⟩

/-- A verification of three rows that found nothing wrong. -/
def passing : Report :=
  .verification true { VerifyIntegrity.Stats.zero with checked := 3, valid := 3 } .zero

/-- One that found a changed row. -/
def failing : Report :=
  .verification false
    { VerifyIntegrity.Stats.zero with checked := 3, valid := 2, invalid := [some (str "evt-1")] } .zero

/-- A run whose write stops after nine characters. -/
theorem solo_failing (h : s.statusDir = some (str "/status")) :
    ∃ t, Solo world failing.write s (.raise ()) t :=
  ⟨_, .answer (.ok (some (str "/status"))) ⟨congrArg Except.ok h.symm, rfl⟩
    (.answer (.ok Retention.Sample.now) ⟨⟨_, rfl⟩, rfl⟩
      (.answer (.error ()) (.inr ⟨rfl, .inr ⟨_, List.take_prefix 9 _, rfl⟩⟩) (.here _ _)))⟩

/-- The first run returns, the second one fails while it writes. -/
theorem status_read_failing : ∃ u t, Solo world passing.write emptyDisk (.ret ()) u ∧
    Visits world (fun p => ∃ r', r' = failing ∧ p = r'.write) u t ∧
    ∃ health, (getRetentionIntegrityHealth (PipelineHealth.pythonInt fun _ => none)).eval t.found =
      .ok health ∧ ∃ r' now, (r' = passing ∨ r' = failing ∧ r'.name = passing.name) ∧
        r'.ShownBy health (utcText now) := by
  have hdone : Solo world passing.write emptyDisk (.ret ()) _ :=
    .answer (.ok (some (str "/status"))) ⟨rfl, rfl⟩
      (.answer (.ok Retention.Sample.now) ⟨⟨_, rfl⟩, rfl⟩
        (.answer (.ok ()) (.inl ⟨rfl, rfl⟩) (.answer (.ok ()) (.inl ⟨rfl, rfl⟩) (.here _ _))))
  obtain ⟨t, hcut⟩ := solo_failing (of_solo_write hdone).1
  have hlater : Visits world (fun p => ∃ r', r' = failing ∧ p = r'.write) _ _ :=
    .single (.solo hcut ⟨failing, rfl, rfl⟩)
  exact ⟨_, t, hdone, hlater,
    status_read (by decide) (by rintro _ rfl; decide) rfl (by decide) hdone hlater⟩

end StatusFiles

end SecurityAudit
