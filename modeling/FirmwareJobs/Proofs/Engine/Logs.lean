import FirmwareJobs.Observe.Tail
import FirmwareJobs.Proofs.Engine.Restoring
import FirmwareJobs.Proofs.Toolchain.Scribe

/-!
# Logs on disk

The log file of a job has the lines that were published, and at most one more. It is read back line
by line, also after a restart, when the file is all that is left of the log.
-/

namespace FirmwareJobs

open Capture Files Store Text Time Toolchain

/-! ## Reading the file while the job works -/

namespace Toolchain.Scribe

/-- All announcements among some strokes are single lines. -/
def PlainlyAnnounced (strokes : List Stroke) : Prop :=
  ∀ line origin, .write (.announcement line origin) ∈ strokes → OneLine line.toList

theorem oneLine_of_mem_loggedLines {action : Action} {strokes : List Stroke}
    (h : PlainlyAnnounced strokes) : ∀ line ∈ loggedLines action strokes, OneLine line.toList := by
  intro line hline
  obtain ⟨stroke, hstroke, hlogged⟩ := List.mem_filterMap.1 hline
  cases stroke with
  | write entry =>
    obtain ⟨⟨kept, origin⟩, hkept, rfl⟩ := Option.map_eq_some_iff.1 hlogged
    cases entry with
    | announcement text from' =>
      cases hkept
      exact h _ _ hstroke
    | captured c =>
      obtain ⟨clean, hclean, hpair⟩ := Option.map_eq_some_iff.1 hkept
      cases hpair
      exact oneLine_of_clean? c.oneLine hclean
  | openLog | publish | operate | goOn => contradiction

end Toolchain.Scribe

/-! ## Reading the file after a restart -/

namespace Engine

theorem content?_log_restoreAll (now : Instant) {records : List Record} {e : Engine} {t : Tree}
    (hstands : e.store.Stands t) (hids : ∀ r ∈ records, IsId r.id) {id : String} (hid : IsId id) :
    e.store.content? (restoreAll now e t records).2 (logName id) =
      e.store.content? t (logName id) := by
  induction records generalizing e t with
  | nil => rfl
  | cons r rest ih =>
    obtain ⟨hr, hrest⟩ := List.forall_mem_cons.1 hids
    have hone : e.store.Stands (restore now e t r).2 ∧
        e.store.content? (restore now e t r).2 (logName id) = e.store.content? t (logName id) := by
      rw [restore_eq]
      split_ifs
      · have hsaved := saved_save hstands ((id_recovered now r).symm ▸ hr)
        rw [snd_persist]
        exact ⟨hsaved.stands, hsaved.content?_log hid⟩
      · exact ⟨hstands, rfl⟩
    have hstore : (restore now e t r).1.store = e.store :=
      congrArg ofSettings (restore_fst now e t r).1
    have hmore := ih (e := (restore now e t r).1) (hstore ▸ hone.1) hrest
    rw [hstore] at hmore
    exact hmore.trans hone.2

theorem content?_log_open {settings : Settings} {t u : Tree} {now : Instant} {e : Engine}
    (hstands : (ofSettings settings).Stands t) (htidy : (ofSettings settings).Tidy t)
    (hopen : Engine.open settings t now = .ok (e, u)) {id : String} (hid : IsId id) :
    (ofSettings settings).content? u (logName id) =
      (ofSettings settings).content? t (logName id) := by
  obtain ⟨records, hload, -, hmem⟩ := loadAll_of_tidy hstands htidy
  have hstore := storeOpen_of_stands hstands
  simp only [Engine.open, hstore, hload, Except.ok.injEq] at hopen
  have hids : ∀ r ∈ oldestFirst records, IsId r.id := fun r hr =>
    ((hmem r).1 ((perm_oldestFirst records).mem_iff.1 hr)).1
  have hlogs := content?_log_restoreAll now (e := empty settings) hstands hids hid
  rw [hopen] at hlogs
  exact hlogs

theorem isTerminal_restored {settings : Settings} {now : Instant} {r : Record}
    (h : r.state ≠ .queued) : (restored settings now r).isTerminal = true := by
  rcases (restored settings now r).state_cases with hqueued | hrunning | hend
  · exact absurd (state_recovered_eq_queued.1 hqueued) h
  · exact absurd hrunning (state_recovered_ne_running now r)
  · exact hend

/-- A job that has ended and has nothing in memory shows the end of its file. -/
theorem attach_of_silent {j : Job} (hend : j.isTerminal = true) (hrecent : j.log.recent = [])
    (file : Option (List UInt8)) :
    (Observe.attach j file).1 = ⟨Log.fileTail file Observe.tailDefault, j.record, none⟩ := by
  simp [Observe.attach, Job.attach_of_terminal hend, hrecent]

theorem attach_of_open {settings : Settings} {t : Tree} (now : Instant)
    (hstands : (ofSettings settings).Stands t) (htidy : (ofSettings settings).Tidy t) {r : Record}
    (hid : IsId r.id) (hr : (ofSettings settings).recordOf? t r.id = some r)
    (hstate : r.state ≠ .queued) :
    ∃ e u job, Engine.open settings t now = .ok (e, u) ∧ e.job? r.id = some job ∧
      job.isTerminal = true ∧
      (Observe.attach job (u.content? e.settings.home (e.logPath job))).1.history =
        Log.fileTail ((ofSettings settings).content? t (logName r.id)) Observe.tailDefault ∧
      (Observe.attach job (u.content? e.settings.home (e.logPath job))).1.listener = none := by
  obtain ⟨records, e, u, hopen, hopened⟩ := open_of_tidy now hstands htidy
  have hjob := hopened.job?_eq (hopened.mem_oldestFirst.2 ⟨hid, hr⟩)
  have hfile : u.content? e.settings.home (e.logPath (restored settings now r)) =
      (ofSettings settings).content? t (logName r.id) := by
    rw [← content?_log_open hstands htidy hopen hid, logPath, hopened.store_eq, hopened.settings_eq]
    change u.content? settings.home ((ofSettings settings).logPath (recovered now r).id) = _
    rw [id_recovered]
    rfl
  refine ⟨e, u, _, hopen, hjob, isTerminal_restored hstate, ?_⟩
  rw [hfile, attach_of_silent (isTerminal_restored hstate) rfl, and_iff_left rfl]

end Engine

/-! ## From the output of a process to the history of its job -/

namespace Toolchain.Scribe

/-- What holds at every moment of the work: the file has the lines that were logged, each with an
LF behind it, and all of them but at most one are published; nobody has a line that is not in the
file. -/
structure Faithful (plan : Plan) (place : Place) (old : List UInt8) (action : Action)
    (capacity : Nat) (lines : List String) (s : Scribe) : Prop where
  file : plan.logFile? s.bench.host.files = some (place, old ++ Log.linesBytes lines)
  published : lines = s.published ++ (s.written.map Prod.fst).toList
  window : s.bench.job.log = .holding capacity s.published
  shown : ∀ n line, Shows s.bench.job n line → HasLine old (old ++ Log.linesBytes lines) n line
  recent : ∀ line ∈ s.bench.job.log.recent,
    ∃ n, HasLine old (old ++ Log.linesBytes lines) n line
  /-- The whole output of a stream is logged line by line. -/
  stream : ∀ reads, s.log = some place → s.written = none → ∃ strokes next,
    s.run? plan strokes = some next ∧
      next.bench = (readLines reads).foldl (fun b raw => b.output s.log raw) s.bench ∧
      next.published = s.published ++ (readLines reads).filterMap (clean? action) ∧
      plan.logFile? next.bench.host.files = some (place, old ++ Log.linesBytes lines ++
        Log.linesBytes ((readLines reads).filterMap (clean? action)))
  /-- A line is dropped without a trace, and only while a device log is followed. -/
  dropped : ∀ c : Captured, clean? action c.raw = none → action = .logs ∧
    (s.log = some place → s.written = none → s.make? plan (.write (.captured c)) = some s)

theorem Kept.faithful {plan : Plan} {place : Place} {old : List UInt8} {action : Action}
    {capacity : Nat} {lines : List String} {s : Scribe}
    (h : s.Kept plan place old action capacity lines) :
    s.Faithful plan place old action capacity lines where
  file := h.onFile.file
  published := h.lines
  window := h.window
  shown n line := h.hasLine_of_shows
  recent line := h.hasLine_of_recent
  stream reads hlog hwritten := by
    have hcaptured : ∀ raw ∈ readLines reads, IsCaptured raw := fun raw hraw => ⟨reads, hraw⟩
    obtain ⟨next, hrun, hbench, -, hnone, hpublished⟩ :=
      run?_takeDown plan (capturedLines (readLines reads) hcaptured) hlog hwritten
    rw [map_raw_capturedLines] at hbench hpublished
    rw [h.action] at hpublished
    have hnext := h.run hrun
    have hlines := hnext.lines
    have hold := h.lines
    rw [hwritten, Option.map_none, Option.toList_none, List.append_nil] at hold
    rw [hnone, Option.map_none, Option.toList_none, List.append_nil, hpublished] at hlines
    refine ⟨_, next, hrun, hbench, hpublished, ?_⟩
    rw [hnext.onFile.file, hlines, hold, Log.linesBytes_append, List.append_assoc]
  dropped c hclean := by
    refine ⟨action_of_clean?_eq_none hclean, fun hlog hwritten => ?_⟩
    simp [make?, hlog, hwritten, Entry.kept?, h.action, hclean]

/-- Captured lines are single lines; the log file of a job always has what was published, line by
line, and perhaps the line that is next; every reader of the file finds exactly that; and when no
line is on its way, so does a client who attaches to the ended job after a restart. -/
theorem log_returns_published {plan : Plan} {record : Record} {capacity : Nat}
    {host : Machine.Host} {place : Place} {old : List UInt8} {strokes : List Stroke} {s : Scribe}
    (hfile : plan.logFile? host.files = some (place, old))
    (hrun : (start ⟨.ofRecord record capacity, host⟩).run? plan strokes = some s) :
    (∀ (c : Captured) line, clean? record.action c.raw = some line → OneLine line.toList) ∧
    s.Faithful plan place old record.action capacity (loggedLines record.action strokes) ∧
    (old = [] → PlainlyAnnounced strokes →
      (∀ limit, Log.fileTail (s.bench.host.files.content? plan.settings.home plan.logPath) limit =
        (loggedLines record.action strokes).drop
          ((loggedLines record.action strokes).length - limit)) ∧
      (s.written = none → loggedLines record.action strokes = s.published ∧
        ∀ (t : Tree) (now : Instant) (r : Record), (ofSettings plan.settings).Stands t →
          (ofSettings plan.settings).Tidy t → IsId r.id →
          (ofSettings plan.settings).recordOf? t r.id = some r → r.state ≠ .queued →
          (ofSettings plan.settings).content? t (logName r.id) =
            s.bench.host.files.content? plan.settings.home plan.logPath →
          ∃ e u job, Engine.open plan.settings t now = .ok (e, u) ∧ e.job? r.id = some job ∧
            job.isTerminal = true ∧
            (Observe.attach job (u.content? e.settings.home (e.logPath job))).1.history =
              s.published.drop (s.published.length - Observe.tailDefault) ∧
            (Observe.attach job (u.content? e.settings.home (e.logPath job))).1.listener =
              none)) := by
  have hkept := (kept_start record capacity hfile).run hrun
  rw [List.nil_append] at hkept
  refine ⟨fun c line hclean => oneLine_of_clean? c.oneLine hclean, hkept.faithful, ?_⟩
  rintro rfl hplain
  have htail : ∀ limit,
      Log.fileTail (s.bench.host.files.content? plan.settings.home plan.logPath) limit =
        (loggedLines record.action strokes).drop
          ((loggedLines record.action strokes).length - limit) := by
    intro limit
    rw [Tree.content?_of_file? hkept.onFile.file, List.nil_append,
      Log.fileTail_linesBytes (oneLine_of_mem_loggedLines hplain)]
  refine ⟨htail, fun hwritten => ?_⟩
  have hlines := hkept.lines
  rw [hwritten, Option.map_none, Option.toList_none, List.append_nil] at hlines
  refine ⟨hlines, fun t now r hstands htidy hid hr hstate hlog => ?_⟩
  obtain ⟨e, u, job, hopen, hjob, hend, hhistory, hlistener⟩ :=
    Engine.attach_of_open now hstands htidy hid hr hstate
  rw [hlog, htail, hlines] at hhistory
  exact ⟨e, u, job, hopen, hjob, hend, hhistory, hlistener⟩

/-! ## A build with one line of output -/

def lampPlan : Plan := ⟨Engine.benchSettings, [], "/jobs/lamp.log"⟩

def lampRecord (state : State) : Record :=
  { Record.fresh "lamp" "node.yaml" .compile "" false Job.noon with state }

/-- A job directory with the log of the job and its record, if that is saved. -/
def lampDirectory (log : List UInt8) (records : List (Place × Files.Entry)) : Tree :=
  ⟨[(["jobs"], .directory), (["jobs", "lamp.log"], .file log)] ++ records⟩

def lampBench : Workbench := ⟨.ofRecord (lampRecord .running) 10, { files := lampDirectory [] [] }⟩

/-- A colored word and a line end. -/
def greenLine : Captured where
  raw := "\x1b[32mok"
  isCaptured := ⟨[.bytes [27, 91, 51, 50], .interrupted, .bytes [109, 111, 107, 13, 10]], by
    decide⟩

def lampStrokes : List Stroke :=
  [.openLog, .operate .attach, .write (.announcement "INFO CMD: make" .engine), .publish,
    .write (.captured greenLine), .publish]

theorem clean?_greenLine : clean? .compile greenLine.raw = some "ok" := by cbv

theorem logFile?_lampBench :
    lampPlan.logFile? lampBench.host.files = some (["jobs", "lamp.log"], []) := rfl

theorem run?_lampStrokes : ((start lampBench).run? lampPlan lampStrokes).map
    (fun s => (s.written, s.published)) = some (none, ["INFO CMD: make", "ok"]) := by
  have hopen := openLog_of_logFile? logFile?_lampBench
  have haction : lampBench.job.action = .compile := rfl
  simp [lampStrokes, start, make?, hopen, Entry.kept?, Job.Operation.line?, haction,
    clean?_greenLine]

theorem plainlyAnnounced_lampStrokes : PlainlyAnnounced lampStrokes := by
  intro line origin hmem
  simp only [lampStrokes, List.mem_cons, reduceCtorEq, Stroke.write.injEq, Entry.announcement.injEq,
    List.not_mem_nil, or_false, false_or] at hmem
  rw [hmem.1]
  decide

/-! ## The directory that is found later -/

def lampLater : Tree :=
  lampDirectory (Log.linesBytes ["INFO CMD: make", "ok"])
    [(["jobs", "lamp.json"], .file (recordBytes (lampRecord .failed)))]

theorem entry?_lampLater (name : String) : lampLater.entry? (["jobs"] ++ [name]) =
    if name = "lamp.log" then some (.file (Log.linesBytes ["INFO CMD: make", "ok"]))
    else if name = "lamp.json" then some (.file (recordBytes (lampRecord .failed))) else none := by
  rw [Tree.entry?_concat]
  change List.lookup (["jobs"] ++ [name]) [_, _, _] = _
  simp only [Tree.lookup_cons_place]
  simp

theorem isProper_lampLater : lampLater.IsProper := by decide

theorem standsAt_lampLater : (ofSettings Engine.benchSettings).StandsAt lampLater ["jobs"] := by
  refine ⟨isProper_lampLater, rfl, rfl, fun name e he => ?_⟩
  rw [entry?_lampLater] at he
  split_ifs at he
  · exact .inr ⟨_, (Option.some.inj he).symm⟩
  · exact .inr ⟨_, (Option.some.inj he).symm⟩

theorem recordOf?_lampLater : (ofSettings Engine.benchSettings).recordOf? lampLater "lamp" =
    some (lampRecord .failed) := recordAt?_of_content rfl (by decide)

theorem tidy_lampLater : (ofSettings Engine.benchSettings).Tidy lampLater := by
  intro name r hname hjson hr
  by_cases hrecord : name = "lamp.json"
  · subst hrecord
    rw [← Option.some.inj (recordOf?_lampLater.symm.trans hr)]
    rfl
  · have hlog : name ≠ "lamp.log" := by
      rintro rfl
      exact extension?_logName_ne "lamp" hjson
    have hnone : (ofSettings Engine.benchSettings).content? lampLater name = none := by
      by_cases hfits : (ofSettings Engine.benchSettings).Fits name
      · rw [standsAt_lampLater.content?_of_fits hname hfits, entry?_lampLater, if_neg hlog,
          if_neg hrecord]
        rfl
      · exact standsAt_lampLater.content?_of_not_fits hname hfits
    change ((ofSettings Engine.benchSettings).content? lampLater name).bind _ = _ at hr
    rw [hnone] at hr
    contradiction

/-- The two lines of the build are in the file, and are its history after a restart. -/
theorem log_returns_lamp : ∃ s,
    lampPlan.logFile? lampBench.host.files = some (["jobs", "lamp.log"], []) ∧
    (start lampBench).run? lampPlan lampStrokes = some s ∧
    s.published = ["INFO CMD: make", "ok"] ∧
    Log.fileTail (s.bench.host.files.content? [] "/jobs/lamp.log") 1 = ["ok"] ∧
    ∃ e u job, Engine.open Engine.benchSettings lampLater Job.noon = .ok (e, u) ∧
      e.job? "lamp" = some job ∧
      (Observe.attach job (u.content? e.settings.home (e.logPath job))).1.history =
        ["INFO CMD: make", "ok"] := by
  obtain ⟨s, hrun, hs⟩ := Option.map_eq_some_iff.1 run?_lampStrokes
  obtain ⟨hwritten, hpublished⟩ := Prod.mk.inj hs
  obtain ⟨-, hfaithful, hread⟩ := log_returns_published logFile?_lampBench hrun
  obtain ⟨htail, hrest⟩ := hread rfl plainlyAnnounced_lampStrokes
  obtain ⟨hlines, hlater⟩ := hrest hwritten
  have hid : IsId "lamp" := ⟨by decide, by decide, by decide⟩
  have hcontent := Tree.content?_of_file? hfaithful.file
  rw [hlines, hpublished] at hcontent
  obtain ⟨e, u, job, hopen, hjob, -, hhistory, -⟩ :=
    hlater lampLater Job.noon (lampRecord .failed) ⟨_, standsAt_lampLater⟩ tidy_lampLater hid
      recordOf?_lampLater (by decide) (Eq.trans rfl hcontent.symm)
  rw [hpublished] at hhistory
  have hlast := htail 1
  rw [hlines, hpublished] at hlast
  exact ⟨s, logFile?_lampBench, hrun, hpublished, hlast, e, u, job, hopen, hjob, hhistory⟩

end Toolchain.Scribe

end FirmwareJobs
