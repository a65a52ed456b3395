import FirmwareJobs.Proofs.Capture.Captured
import FirmwareJobs.Proofs.Files.Appending
import FirmwareJobs.Proofs.Job.Lifecycle
import FirmwareJobs.Proofs.Job.Waiting
import FirmwareJobs.Proofs.Log.Reading
import FirmwareJobs.Toolchain.Workbench

/-!
# Keeping the log of a job

A line is written to the log file first and published after that. Before, between and after these
two strokes the engine and the observers use the job, and everything else on the host goes on, as
long as nobody else touches the log file.
-/

namespace FirmwareJobs.Toolchain

open Capture Files

/-- Something to be logged: a line of the engine, or a captured line that is to be cleaned. -/
inductive Entry where
  | announcement (line : String) (origin : Origin)
  | captured (c : Captured)

/-- The line to log, unless it is to be dropped. -/
def Entry.kept? (action : Action) : Entry → Option (String × Origin)
  | .announcement line origin => some (line, origin)
  | .captured c => (clean? action c.raw).map fun line => (line, .output)

/-- The log file with its place. -/
def Plan.logFile? (plan : Plan) (files : Tree) : Option (Place × List UInt8) :=
  files.file? plan.settings.home plan.logPath

inductive Stroke where
  | openLog
  | write (entry : Entry)
  | publish
  /-- An operation of the engine or of an observer. -/
  | operate (op : Job.Operation)
  /-- Whatever happens on the host besides. -/
  | goOn (host : Machine.Host)

/-- The line that a stroke logs. -/
def Stroke.line? (action : Action) : Stroke → Option String
  | .write entry => (entry.kept? action).map Prod.fst
  | _ => none

/-- The lines that some strokes log. -/
def loggedLines (action : Action) (strokes : List Stroke) : List String :=
  strokes.filterMap (Stroke.line? action)

namespace Workbench

def operate (b : Workbench) (op : Job.Operation) : Workbench := { b with job := b.job.apply op }

theorem emit_eq (b : Workbench) (log : Option Place) (line : String) (origin : Origin) :
    b.emit log line origin = (b.store log line).operate (.publish line origin) := rfl

@[simp] theorem action_store (b : Workbench) (log : Option Place) (line : String) :
    (b.store log line).job.action = b.job.action := rfl

@[simp] theorem action_operate (b : Workbench) (op : Job.Operation) :
    (b.operate op).job.action = b.job.action := (Job.sameOrder_apply b.job op).action

end Workbench

/-- A job at work with the log as it was opened, the line that is written and not published yet,
and the lines published so far. -/
structure Scribe where
  bench : Workbench
  log : Option Place := none
  written : Option (String × Origin) := none
  published : List String := []

namespace Scribe

/-- One stroke; `none` if it is not the time for it. -/
def make? (plan : Plan) (s : Scribe) : Stroke → Option Scribe
  | .openLog =>
    if s.written.isSome then none
    else some { s with log := (s.bench.openLog plan).1, bench := (s.bench.openLog plan).2 }
  | .write entry =>
    if s.log.isNone || s.written.isSome then none
    else
      match entry.kept? s.bench.job.action with
      | none => some s
      | some (line, origin) =>
        some { s with written := some (line, origin), bench := s.bench.store s.log line }
  | .publish => s.written.map fun (line, origin) =>
      { s with
        written := none
        bench := s.bench.operate (.publish line origin)
        published := s.published ++ [line] }
  | .operate op =>
    if op.line?.isSome then none else some { s with bench := s.bench.operate op }
  | .goOn host =>
    if plan.logFile? host.files = plan.logFile? s.bench.host.files then
      some { s with bench := { s.bench with host } }
    else none

def run? (plan : Plan) (s : Scribe) (strokes : List Stroke) : Option Scribe :=
  strokes.foldlM (make? plan) s

/-- The scribe of a job whose log was not opened yet. -/
def start (bench : Workbench) : Scribe := { bench }

@[simp] theorem run?_nil (plan : Plan) (s : Scribe) : s.run? plan [] = some s := rfl

@[simp] theorem run?_cons (plan : Plan) (s : Scribe) (stroke : Stroke) (strokes : List Stroke) :
    s.run? plan (stroke :: strokes) = (s.make? plan stroke).bind (·.run? plan strokes) := rfl

theorem run?_append (plan : Plan) (s : Scribe) (strokes more : List Stroke) :
    s.run? plan (strokes ++ more) = (s.run? plan strokes).bind (·.run? plan more) :=
  List.foldlM_append

/-! ## What a stroke does -/

/-- The strokes that can be made. -/
inductive Step (plan : Plan) (s : Scribe) : Stroke → Scribe → Prop where
  | openLog (hwritten : s.written = none) :
      Step plan s .openLog
        { s with log := (s.bench.openLog plan).1, bench := (s.bench.openLog plan).2 }
  | drop {entry : Entry} (hkept : entry.kept? s.bench.job.action = none) :
      Step plan s (.write entry) s
  | write {entry : Entry} {place : Place} {line : String} {origin : Origin}
      (hlog : s.log = some place) (hwritten : s.written = none)
      (hkept : entry.kept? s.bench.job.action = some (line, origin)) :
      Step plan s (.write entry)
        { s with written := some (line, origin), bench := s.bench.store s.log line }
  | publish {line : String} {origin : Origin} (hwritten : s.written = some (line, origin)) :
      Step plan s .publish
        { s with
          written := none
          bench := s.bench.operate (.publish line origin)
          published := s.published ++ [line] }
  | operate {op : Job.Operation} (hop : op.line? = none) :
      Step plan s (.operate op) { s with bench := s.bench.operate op }
  | goOn {host : Machine.Host}
      (hfile : plan.logFile? host.files = plan.logFile? s.bench.host.files) :
      Step plan s (.goOn host) { s with bench := { s.bench with host } }

theorem step_of_make? {plan : Plan} {s next : Scribe} {stroke : Stroke}
    (h : s.make? plan stroke = some next) : Step plan s stroke next := by
  cases stroke with
  | openLog =>
    rw [make?] at h
    split_ifs at h with hwritten
    cases h
    exact .openLog (by simpa using hwritten)
  | write entry =>
    rw [make?] at h
    split_ifs at h with hready
    simp only [Bool.or_eq_true, Option.isNone_iff_eq_none, not_or, Option.not_isSome_iff_eq_none]
      at hready
    obtain ⟨place, hlog⟩ := Option.ne_none_iff_exists'.1 hready.1
    split at h
    · next hkept =>
      cases h
      exact .drop hkept
    · next line origin hkept =>
      cases h
      exact .write hlog hready.2 hkept
  | publish =>
    obtain ⟨⟨line, origin⟩, hwritten, rfl⟩ := Option.map_eq_some_iff.1 h
    exact .publish hwritten
  | operate op =>
    rw [make?] at h
    split_ifs at h with hop
    cases h
    exact .operate (by simpa using hop)
  | goOn host =>
    rw [make?] at h
    split_ifs at h with hfile
    cases h
    exact .goOn hfile

/-! ## What the log file has -/

/-- The log file has this content, and what is written goes there. -/
structure OnFile (plan : Plan) (place : Place) (content : List UInt8) (s : Scribe) : Prop where
  log : ∀ opened, s.log = some opened → opened = place
  file : plan.logFile? s.bench.host.files = some (place, content)

/-- A scribe who has logged `lines` so far, behind what was in the file before. -/
structure Kept (plan : Plan) (place : Place) (old : List UInt8) (action : Action) (capacity : Nat)
    (lines : List String) (s : Scribe) : Prop where
  action : s.bench.job.action = action
  onFile : s.OnFile plan place (old ++ Log.linesBytes lines)
  lines : lines = s.published ++ (s.written.map Prod.fst).toList
  window : s.bench.job.log = .holding capacity s.published
  awaited : ∀ n line, s.bench.job.Awaits (.line n line) → (n, line) ∈ Log.numbered 0 s.published

section Kept

variable {plan : Plan} {place : Place} {old content : List UInt8} {action : Action}
  {capacity : Nat} {lines : List String} {s next : Scribe}

theorem openLog_of_logFile? {b : Workbench}
    (h : plan.logFile? b.host.files = some (place, content)) :
    b.openLog plan = (some place, b) := by
  rw [Workbench.openLog, Tree.openAppend_of_file? h]

theorem logFile?_store {b : Workbench}
    (h : plan.logFile? b.host.files = some (place, content)) (line : String) :
    plan.logFile? (b.store (some place) line).host.files =
      some (place, content ++ Log.lineBytes line) := by
  obtain ⟨files, happend, hfile⟩ := Tree.append_of_file? h (Log.lineBytes line)
  have hlogged : Workbench.logged b.host.files (some place) line = files := by
    change ((b.host.files.append place (Log.lineBytes line)).toOption).getD b.host.files = files
    rw [happend]
    rfl
  change plan.logFile? (Workbench.logged b.host.files (some place) line) = _
  rw [hlogged]
  exact hfile

/-- A stroke appends the line that it logs. -/
theorem OnFile.step (h : s.OnFile plan place content) {stroke : Stroke}
    (hstep : Step plan s stroke next) :
    next.OnFile plan place
      (content ++ Log.linesBytes (stroke.line? s.bench.job.action).toList) := by
  cases hstep with
  | openLog hwritten =>
    simp only [openLog_of_logFile? h.file, Stroke.line?, Option.toList_none,
      Log.linesBytes_nil, List.append_nil]
    exact ⟨fun opened hopened => (Option.some.inj hopened).symm, h.file⟩
  | drop hkept => simpa [Stroke.line?, hkept] using h
  | write hlog hwritten hkept =>
    simp only [Stroke.line?, hkept, Option.map_some, Option.toList_some, Log.linesBytes_singleton]
    refine ⟨h.log, ?_⟩
    rw [hlog, h.log _ hlog, logFile?_store h.file]
  | publish | operate =>
    simp only [Stroke.line?, Option.toList_none, Log.linesBytes_nil, List.append_nil]
    exact ⟨h.log, h.file⟩
  | goOn hfile =>
    simp only [Stroke.line?, Option.toList_none, Log.linesBytes_nil, List.append_nil]
    exact ⟨h.log, hfile.trans h.file⟩

theorem OnFile.run (h : s.OnFile plan place content) {strokes : List Stroke}
    (hrun : s.run? plan strokes = some next) : ∃ content', next.OnFile plan place content' := by
  induction strokes generalizing s content with
  | nil =>
    cases hrun
    exact ⟨content, h⟩
  | cons stroke strokes ih =>
    obtain ⟨middle, hstep, hrest⟩ := Option.bind_eq_some_iff.1 hrun
    exact ih (h.step (step_of_make? hstep)) hrest

theorem numbered_concat (lines : List String) (line : String) :
    Log.numbered 0 (lines ++ [line]) = Log.numbered 0 lines ++ [(lines.length + 1, line)] := by
  rw [Log.numbered_append, Nat.zero_add]
  rfl

theorem awaited_apply {j : Job} {op : Job.Operation} (hop : op.line? = none) {n : Nat}
    {line : String} (h : (j.apply op).Awaits (.line n line)) : j.Awaits (.line n line) := by
  rcases Job.awaits_apply h with hold | ⟨line, hline, -⟩ | ⟨-, -, hdone⟩
  · exact hold
  · rw [hop] at hline
    contradiction
  · contradiction

theorem Kept.step (h : s.Kept plan place old action capacity lines) {stroke : Stroke}
    (hstep : Step plan s stroke next) :
    next.Kept plan place old action capacity (lines ++ (stroke.line? action).toList) := by
  have honFile := h.onFile.step hstep
  rw [h.action, List.append_assoc, ← Log.linesBytes_append] at honFile
  have hlines := h.lines
  cases hstep with
  | openLog hwritten =>
    refine ⟨?_, honFile, ?_, ?_, ?_⟩ <;> rw [openLog_of_logFile? h.onFile.file]
    · exact h.action
    · simpa [Stroke.line?] using hlines
    · exact h.window
    · exact h.awaited
  | drop hkept =>
    rw [h.action] at hkept
    simpa [Stroke.line?, hkept] using h
  | write hlog hwritten hkept =>
    rw [h.action] at hkept
    refine ⟨h.action, honFile, ?_, h.window, h.awaited⟩
    simpa [Stroke.line?, hkept, hwritten] using hlines
  | @publish line origin hwritten =>
    refine ⟨h.action, honFile, ?_, ?_, ?_⟩
    · simpa [Stroke.line?, hwritten] using hlines
    · change (s.bench.job.apply (.publish line origin)).log = _
      rw [Job.log_apply, h.window]
      exact Log.Window.push_holding capacity s.published line
    · intro n text hawaits
      rw [numbered_concat, List.mem_append]
      rcases Job.awaits_apply hawaits with hold | ⟨_, hline, hevent⟩ | ⟨hop, -, -⟩
      · exact .inl (h.awaited n text hold)
      · -- a new line is numbered by its place among the published ones
        have hlast : s.bench.job.lastNumber = s.published.length := by
          rw [Job.lastNumber, h.window, Log.Window.last_holding]
        cases hline
        cases hevent
        rw [hlast]
        exact .inr List.mem_cons_self
      · contradiction
  | @operate op hop =>
    refine ⟨?_, honFile, ?_, ?_, ?_⟩
    · rw [Workbench.action_operate, h.action]
    · simpa [Stroke.line?] using hlines
    · change (s.bench.job.apply op).log = _
      rw [Job.log_apply, Job.published_singleton_of_none hop]
      exact h.window
    · exact fun n text hawaits => h.awaited n text (awaited_apply hop hawaits)
  | goOn hfile =>
    refine ⟨h.action, honFile, ?_, h.window, h.awaited⟩
    simpa [Stroke.line?] using hlines

theorem Kept.run (h : s.Kept plan place old action capacity lines) {strokes : List Stroke}
    (hrun : s.run? plan strokes = some next) :
    next.Kept plan place old action capacity (lines ++ loggedLines action strokes) := by
  induction strokes generalizing s lines with
  | nil =>
    cases hrun
    simpa [loggedLines] using h
  | cons stroke strokes ih =>
    obtain ⟨middle, hstep, hrest⟩ := Option.bind_eq_some_iff.1 hrun
    have hmore := ih (h.step (step_of_make? hstep)) hrest
    rw [List.append_assoc] at hmore
    convert hmore using 2
    rw [loggedLines, List.filterMap_cons]
    cases stroke.line? action <;> rfl

theorem kept_start (record : Record) (capacity : Nat) {host : Machine.Host}
    (hfile : plan.logFile? host.files = some (place, old)) :
    (start ⟨.ofRecord record capacity, host⟩).Kept plan place old record.action capacity [] where
  action := rfl
  onFile := ⟨nofun, by simpa [start] using hfile⟩
  lines := rfl
  window := Log.Window.ofCapacity_eq capacity
  awaited := by simp [start, Job.Awaits, Job.ofRecord]

/-- A buffer or a listener has a line under a number. -/
def Shows (j : Job) (n : Nat) (line : String) : Prop :=
  (n, line) ∈ j.log.entries ∨ j.Awaits (.line n line)

/-- A file has a line under a number, counted from where `old` ends. -/
def HasLine (old content : List UInt8) (n : Nat) (line : String) : Prop :=
  ∃ before behind, n = before.length + 1 ∧
    content = old ++ Log.linesBytes before ++ Log.lineBytes line ++ behind

theorem Kept.hasLine (h : s.Kept plan place old action capacity lines) {n : Nat} {line : String}
    (hmem : (n, line) ∈ Log.numbered 0 s.published) :
    HasLine old (old ++ Log.linesBytes lines) n line := by
  obtain ⟨before, behind, rfl, hpublished⟩ := Log.exists_of_mem_numbered hmem
  refine ⟨before, Log.linesBytes (behind ++ (s.written.map Prod.fst).toList), by omega, ?_⟩
  rw [h.lines, hpublished]
  simp [Log.linesBytes]

/-- Every line that a buffer or a listener has is in the file already. -/
theorem Kept.hasLine_of_shows (h : s.Kept plan place old action capacity lines) {n : Nat}
    {line : String} (hshows : Shows s.bench.job n line) :
    HasLine old (old ++ Log.linesBytes lines) n line := by
  apply h.hasLine
  rcases hshows with hentry | hawaits
  · rw [h.window] at hentry
    exact List.mem_of_mem_drop hentry
  · exact h.awaited n line hawaits

theorem Kept.hasLine_of_recent (h : s.Kept plan place old action capacity lines) {line : String}
    (hrecent : line ∈ s.bench.job.log.recent) :
    ∃ n, HasLine old (old ++ Log.linesBytes lines) n line := by
  rw [h.window] at hrecent
  have hmem : line ∈ (Log.numbered 0 s.published).map Prod.snd := by
    rw [Log.map_snd_numbered]
    exact List.mem_of_mem_drop hrecent
  obtain ⟨⟨n, text⟩, hnumbered, rfl⟩ := List.mem_map.1 hmem
  exact ⟨n, h.hasLine hnumbered⟩

end Kept

/-! ## Lines of a stream -/

/-- The strokes that log a captured line. -/
def takeDown (action : Action) (c : Captured) : List Stroke :=
  if (clean? action c.raw).isSome then [.write (.captured c), .publish] else [.write (.captured c)]

/-- Captured lines, as such. -/
def capturedLines (lines : List String) (h : ∀ raw ∈ lines, IsCaptured raw) : List Captured :=
  lines.attach.map fun raw => ⟨raw.1, h raw.1 raw.2⟩

theorem map_raw_capturedLines (lines : List String) (h : ∀ raw ∈ lines, IsCaptured raw) :
    (capturedLines lines h).map Captured.raw = lines := by
  rw [capturedLines, List.map_map]
  exact List.attach_map_subtype_val lines

section TakeDown

variable {place : Place} {s : Scribe}

theorem run?_takeDown (plan : Plan) (lines : List Captured) (hlog : s.log = some place)
    (hwritten : s.written = none) :
    ∃ next, s.run? plan (lines.flatMap (takeDown s.bench.job.action)) = some next ∧
      next.bench = (lines.map Captured.raw).foldl (fun b raw => b.output s.log raw) s.bench ∧
      next.log = s.log ∧ next.written = none ∧
      next.published = s.published ++
        (lines.map Captured.raw).filterMap (clean? s.bench.job.action) := by
  induction lines generalizing s with
  | nil => exact ⟨s, rfl, rfl, rfl, hwritten, by simp⟩
  | cons c rest ih =>
    have hready : (s.log.isNone || s.written.isSome) = false := by simp [hlog, hwritten]
    cases hclean : clean? s.bench.job.action c.raw with
    | none =>
      obtain ⟨next, hrun, hbench, hkeep, hnone, hpublished⟩ := ih hlog hwritten
      have hdrop : s.make? plan (.write (.captured c)) = some s := by
        simp [make?, hready, Entry.kept?, hclean]
      refine ⟨next, ?_, ?_, hkeep, hnone, ?_⟩
      · simp [takeDown, hclean, hdrop, hrun]
      · simpa [Workbench.output, hclean] using hbench
      · simpa [hclean] using hpublished
    | some line =>
      let stored : Scribe :=
        { s with written := some (line, .output), bench := s.bench.store s.log line }
      let shown : Scribe :=
        { s with
          bench := s.bench.emit s.log line .output, published := s.published ++ [line] }
      have hwrite : s.make? plan (.write (.captured c)) = some stored := by
        simp [make?, hready, Entry.kept?, hclean, stored]
      have hpublish : stored.make? plan .publish = some shown := by
        simp [make?, stored, shown, Workbench.emit_eq, hwritten]
      have haction : shown.bench.job.action = s.bench.job.action := rfl
      obtain ⟨next, hrun, hbench, hkeep, hnone, hpublished⟩ := ih (s := shown) hlog hwritten
      rw [haction] at hrun hpublished
      refine ⟨next, ?_, ?_, hkeep, hnone, ?_⟩
      · simp [takeDown, hclean, hwrite, hpublish, hrun]
      · simpa [Workbench.output, hclean] using hbench
      · simpa [hclean, shown] using hpublished

end TakeDown

end Scribe

end FirmwareJobs.Toolchain
