import FirmwareJobs.Machine.Standard
import FirmwareJobs.Proofs.Toolchain.Listening

/-!
# Running a command is a session

From turn to turn a run does what some acts of a session do, with the host and those who do not work
on the job in between. So whatever is true of all sessions is true of every command that is run.
-/

namespace FirmwareJobs.Toolchain

open Capture Files

namespace Session

variable {plan : Plan} {s : Session}

/-! ## Turns of a run -/

/-- A run watches as a session does in which everything that was read has been taken. -/
structure Watched (s : Session) (run : Run) : Prop where
  queue : s.queue = []
  unsent : ∀ r ∈ s.readers, r.unsent = []
  readers : ∃ pipes : List Nat, pipes.length = s.readers.length ∧
    run.readers = openReaders pipes s.readers

/-- A session has come to where a turn of a run ends; `old` is what became of the steps before. -/
def Meets (old : List Outcome) (turn : Workbench × Progress Run) (s : Session) : Prop :=
  s.course.bench = turn.1 ∧
    match turn.2 with
    | .going run => s.course.post = run.post ∧ s.course.outcomes = old ∧
        (run.stage = .watching → s.Watched run)
    | .over code => s.course.post.isSupervising = false ∧
        ∃ o, s.course.outcomes = old ++ [o] ∧ o.code = code

theorem leads_world (plan : Plan) (s : Session) (host : Machine.Host) :
    Leads plan s { s with
      course := { s.course with bench := { s.course.bench with host } } } := by
  have hmake : s.make? plan (.world host) = some { s with
      course := { s.course with bench := { s.course.bench with host } } } := rfl
  exact leads_make hmake

theorem leads_meddle (plan : Plan) (s : Session) {ops : List Job.Operation}
    (hops : ∀ op ∈ ops, op.isForeign = true) :
    Leads plan s { s with
      course := { s.course with
        bench := { s.course.bench with job := s.course.bench.job.run ops } } } := by
  induction ops generalizing s with
  | nil => exact .refl plan s
  | cons op ops ih =>
    obtain ⟨hop, hrest⟩ := List.forall_mem_cons.1 hops
    have hfirst : s.make? plan (.meddle op) = some { s with
        course := { s.course with bench := s.course.bench.operate op } } := by
      simp [make?, move?, Course.make?, hop]
    exact (leads_make hfirst).trans (ih _ hrest)

theorem meets_stopping {old : List Outcome} {run : Run} {b : Workbench}
    (hbench : s.course.bench = b) (hpost : s.course.post = .stopping)
    (hold : s.course.outcomes = old) (hstopping : run.post = .stopping) :
    s.Meets old (b, .going run) := by
  refine ⟨hbench, hpost.trans hstopping.symm, hold, fun hstage => ?_⟩
  rw [Run.post, hstage] at hstopping
  contradiction

theorem leads_concluded {c : Course} {o : Outcome} (hcourse : s.course = c.conclude o)
    (plan : Plan) (run : Run) :
    ∃ next, Leads plan s next ∧ next.Meets c.outcomes (run.close c.bench o.code) := by
  refine ⟨_, leads_world plan s (c.bench.host.remove run.child.process), ?_⟩
  rw [hcourse]
  exact ⟨rfl, isSupervising_conclude c o, o, rfl, rfl⟩

/-- A run takes up everything that there is to notice. -/
theorem leads_heard (plan : Plan) {run : Run}
    (hpost : s.course.post = .listening run.log run.supervision) (hwatched : s.Watched run)
    (hopen : run.readers ≠ [] → run.supervision.isOpen = true) :
    ∃ next, Leads plan s next ∧
      next.course = { s.course with bench := run.heard s.course.bench }.judge run.log
        (run.looked s.course.bench).supervision (run.attended s.course.bench).2.2 ∧
      ((run.attended s.course.bench).2.2 = none →
        next.Watched (run.looked s.course.bench)) := by
  obtain ⟨hqueue, hunsent, pipes, hlength, hreaders⟩ := hwatched
  have hstart : s.readers = [] ++ s.readers := rfl
  obtain ⟨mid, hmid, hcourse, -, ⟨sent, hsent, hlines⟩, readers, hmore, hcount, hall, hrest⟩ :=
    leads_readStreams plan pipes hstart hlength hunsent s.course.bench.host
  rw [hqueue, List.nil_append] at hsent
  rw [List.nil_append] at hmore
  rw [← hreaders] at hlines hrest
  have hpipes : pipes.length = readers.length := hlength.trans hcount.symm
  -- the host that was read is put in before anything is taken up
  let told : Session := { mid with
    course := { s.course with
      bench := { s.course.bench with host := (run.notices s.course.bench.host).2.2 } } }
  have htold : Leads plan s told := by
    have hworld := leads_world plan mid (run.notices s.course.bench.host).2.2
    rw [hcourse] at hworld
    exact hmid.trans hworld
  have hready : Ready told.areDone told.queue run.supervision
      (run.notices s.course.bench.host).1 := by
    refine ready_notices run s.course.bench.host ?_ hopen fun hnone => ?_
    · exact (congrArg _ hsent).trans hlines
    · rw [hrest] at hnone
      have hdone := (openReaders_eq_nil_iff hpipes hall).1 hnone
      rwa [← hmore] at hdone
  obtain ⟨next, hnext, hsame, hend, hempty⟩ := leads_attend plan (s := told) hpost hready
  have hkeep : next.readers = readers := hsame.trans hmore
  refine ⟨next, htold.trans hnext, hend, fun hnone => ⟨hempty hnone, ?_, pipes, ?_, ?_⟩⟩
  · rwa [hkeep]
  · rwa [hkeep]
  · rw [hkeep, ← hrest]
    rfl

theorem leads_watch (plan : Plan) {old : List Outcome} {run : Run} {b : Workbench}
    (hstage : run.stage = .watching) (hmeets : s.Meets old (b, .going run))
    (hopen : run.readers ≠ [] → run.supervision.isOpen = true) :
    ∃ next, Leads plan s next ∧ next.Meets old (run.watch b) := by
  obtain ⟨rfl, hpost, hold, hwatched⟩ := hmeets
  rw [Run.post, hstage] at hpost
  obtain ⟨next, hnext, hcourse, hlooked⟩ := leads_heard plan hpost (hwatched hstage) hopen
  rw [Run.watch_eq]
  split
  · next hverdict =>
    rw [hverdict] at hcourse hlooked
    have hkept : (run.looked s.course.bench).stage = .watching := hstage
    refine ⟨next, hnext, congrArg Course.bench hcourse, ?_,
      (congrArg Course.outcomes hcourse).trans hold, fun _ => hlooked rfl⟩
    rw [hcourse, Run.post, hkept]
    rfl
  · next hverdict =>
    rw [hverdict] at hcourse
    have hsignal := leads_world plan next ((run.heard s.course.bench).host.signal
      (run.looked s.course.bench).child.process Machine.Signal.terminate).2
    rw [hcourse] at hsignal
    exact ⟨_, hnext.trans hsignal, meets_stopping rfl rfl hold rfl⟩
  · next code hverdict =>
    rw [hverdict] at hcourse
    obtain ⟨last, hlast, hmeets⟩ := leads_concluded hcourse plan (run.looked s.course.bench)
    exact ⟨last, hnext.trans hlast, hold ▸ hmeets⟩

theorem leads_advance? (plan : Plan) {old : List Outcome} {run : Run} {b : Workbench}
    {turn : Workbench × Progress Run} (hmeets : s.Meets old (b, .going run))
    (hopen : run.stage = .watching → run.readers ≠ [] → run.supervision.isOpen = true)
    (hadvance : run.advance? b = some turn) :
    ∃ next, Leads plan s next ∧ next.Meets old turn := by
  obtain ⟨rfl, hpost, hold, -⟩ := id hmeets
  have hclose : s.course.post = .stopping →
      ∃ next, Leads plan s next ∧ next.Meets old (run.close s.course.bench canceledCode) := by
    intro hstopping
    have hstop : s.make? plan .work = some { s with course := s.course.conclude .stopped } := by
      simp [make?, hstopping, Post.isSupervising, move?, Course.make?, Course.work?]
    obtain ⟨next, hnext, hmeets⟩ := leads_concluded (s := { s with
      course := s.course.conclude .stopped }) rfl plan run
    exact ⟨next, (leads_make hstop).trans hnext, hold ▸ hmeets⟩
  unfold Run.advance? at hadvance
  dsimp only at hadvance
  unfold Run.post at hpost
  cases hstage : run.stage with
  | watching =>
    rw [hstage] at hadvance
    dsimp only at hadvance
    split_ifs at hadvance
    rw [← Option.some.inj hadvance]
    exact leads_watch plan hstage hmeets (hopen hstage)
  | asked killAt =>
    rw [hstage] at hadvance hpost
    dsimp only at hadvance
    split_ifs at hadvance
    · rw [← Option.some.inj hadvance]
      exact hclose hpost
    · rw [← Option.some.inj hadvance]
      exact ⟨_, leads_world plan s _, meets_stopping rfl hpost hold rfl⟩
  | killed =>
    rw [hstage] at hadvance hpost
    dsimp only at hadvance
    split_ifs at hadvance
    rw [← Option.some.inj hadvance]
    exact hclose hpost

/-! ## The whole run -/

section

variable {first : Session} {acts : List Act} {old : List Outcome} {run : Run} {b b' : Workbench}
  {c : Course} {log : Option Place} {meddle : Job → Time.Instant → Job}

theorem Meets.isOpen (hmeets : s.Meets old (b, .going run)) (hfits : s.Fits plan first acts)
    (hstage : run.stage = .watching) (hreading : run.readers ≠ []) :
    run.supervision.isOpen = true := by
  obtain ⟨-, hpost, -, hwatched⟩ := hmeets
  obtain ⟨hqueue, hunsent, pipes, hlength, hreaders⟩ := hwatched hstage
  rw [Run.post, hstage] at hpost
  by_contra hclosed
  -- a worker who was told of the end has taken all lines, so no stream would be open
  have hdrained := (hfits.loops _ _ (.inr hpost)).closed (by simpa using hclosed)
  refine hreading (hreaders.trans ((openReaders_eq_nil_iff hlength hunsent).2 ?_))
  exact (Bool.and_eq_true_iff.1 hdrained).2

theorem Meets.withBench (h : s.Meets old (b, .going run)) (b' : Workbench) :
    Meets old (b', .going run) { s with course := { s.course with bench := b' } } := by
  obtain ⟨-, hpost, hold, hwatched⟩ := h
  refine ⟨rfl, hpost, hold, fun hstage => ?_⟩
  obtain ⟨hqueue, hunsent, hreaders⟩ := hwatched hstage
  exact ⟨hqueue, hunsent, hreaders⟩

/-- A session leads to wherever its run gets. -/
theorem keeps_meets (plan : Plan) (streams : Nat) (hpost : c.post = .looking log {})
    (hrunning : c.bench.job.state = .running) (hmeddle : Course.Visits meddle) :
    Worksite.Keeps ⟨Run.advance?, Run.nextLook?⟩ meddle fun turn =>
      ∃ s, Leads plan (start c streams) s ∧ s.Meets c.outcomes turn := by
  constructor
  · rintro run b turn ⟨s, hlead, hmeets⟩ hadvance
    obtain ⟨acts, hacts⟩ := id hlead
    have hfits := (sound_run hpost hrunning hacts).fits
    obtain ⟨next, hnext, hturn⟩ := leads_advance? plan hmeets (hmeets.isOpen hfits) hadvance
    exact ⟨next, hlead.trans hnext, hturn⟩
  · rintro run b host ⟨s, hlead, hmeets⟩
    obtain rfl : s.course.bench = b := hmeets.1
    exact ⟨_, hlead.trans (leads_world plan s host), hmeets.withBench _⟩
  · rintro run b now ⟨s, hlead, hmeets⟩
    obtain rfl : s.course.bench = b := hmeets.1
    obtain ⟨ops, hops, hmeddled⟩ := hmeddle s.course.bench.job now
    rw [hmeddled]
    exact ⟨_, hlead.trans (leads_meddle plan s hops), hmeets.withBench _⟩

end

end Session

/-! ## Running a command -/

section

variable {plan : Plan} {command : List String} {b b' : Workbench} {run : Run}

theorem Run.start_over {code : Int32} (h : start plan command b = (b', .over code)) :
    code = 1 ∧ b'.job.pid = b.job.pid := by
  have hopen : (b.openLog plan).2.job.pid = b.job.pid :=
    congrArg Job.pid (Course.job_openLog b plan)
  unfold start at h
  dsimp only at h
  split_ifs at h
  · cases h
    exact ⟨rfl, hopen⟩
  · cases h
    exact ⟨rfl, hopen⟩
  · split at h
    · cases h
      exact ⟨rfl, hopen⟩
    · cases h

/-- A run that has started its process and knows nothing of it yet. -/
structure Run.Begins (run : Run) (b : Workbench) : Prop where
  stage : run.stage = .watching
  supervision : run.supervision = {}
  cancelRequested : b.job.cancelRequested = false
  readers : run.readers = run.child.streams.map fun pipe => (pipe, {})

theorem Run.start_going (h : start plan command b = (b', .going run)) :
    run.Begins b' ∧ b'.job.state = b.job.state := by
  have hopen : (b.openLog plan).2.job.state = b.job.state :=
    congrArg Job.state (Course.job_openLog b plan)
  unfold start at h
  dsimp only at h
  split_ifs at h with hcanceled
  · cases h
  · cases h
  · split at h
    · cases h
    · cases h
      exact ⟨⟨rfl, rfl, Bool.eq_false_iff.2 hcanceled, rfl⟩, hopen⟩

/-- The session in which a run listens to its process. -/
def Run.session (run : Run) (b : Workbench) : Session :=
  .start { bench := b, post := .looking run.log {} } run.readers.length

theorem openReaders_replicate (pipes : List Nat) :
    openReaders pipes (List.replicate pipes.length {}) = pipes.map fun pipe => (pipe, {}) := by
  induction pipes with
  | nil => rfl
  | cons pipe pipes ih =>
    rw [List.length_cons, List.replicate_succ, openReaders_cons, ih]
    rfl

theorem Run.Begins.leads (h : run.Begins b) (plan : Plan) :
    ∃ s, Session.Leads plan (run.session b) s ∧ s.Meets [] (b, .going run) := by
  have hlength : run.readers.length = run.child.streams.length := by
    rw [h.readers, List.length_map]
  have hverdict : Supervision.verdict? {} (run.session b).course.bench.host.now
      (run.session b).course.bench.job.cancelRequested = none :=
    if_neg (Bool.eq_false_iff.1 h.cancelRequested)
  have hlook := Session.leads_look plan (s := run.session b) rfl
  rw [hverdict] at hlook
  have hpost : run.post = .listening run.log {} := by
    rw [Run.post, h.stage, h.supervision]
  refine ⟨_, hlook, rfl, hpost.symm, rfl, fun _ => ⟨rfl, ?_, run.child.streams, ?_, ?_⟩⟩
  · intro r hr
    rw [List.eq_of_mem_replicate hr]
  · exact hlength.symm.trans List.length_replicate.symm
  · change run.readers = openReaders run.child.streams (List.replicate run.readers.length {})
    rw [hlength, openReaders_replicate, h.readers]

theorem exists_session_of_runCommand {meddle : Job → Time.Instant → Job}
    (hmeddle : Course.Visits meddle) {now : Time.Instant} {code : Int32}
    (hrunning : b.job.state = .running)
    (h : runCommand plan command meddle now b = some (b', code)) :
    Run.start plan command b = (b', .over code) ∨
      ∃ b₁ run acts s, Run.start plan command b = (b₁, .going run) ∧
        (run.session b₁).run? plan acts = some s ∧ s.course.post.isSupervising = false ∧
        s.course.bench = b' ∧ Session.Returns (run.session b₁) s code := by
  unfold runCommand at h
  split at h
  · next heq =>
    cases h
    exact .inl heq
  · next b₁ run heq =>
    obtain ⟨hbegins, hstate⟩ := Run.start_going heq
    have hkeeps := Session.keeps_meets plan run.readers.length
      (c := { bench := b₁, post := .looking run.log {} }) rfl (hstate.trans hrunning) hmeddle
    obtain ⟨s, ⟨acts, hacts⟩, hbench, hend, hreturns⟩ := hkeeps.complete (hbegins.leads plan) h
    exact .inr ⟨b₁, run, acts, s, heq, hacts, hend, hbench, hreturns⟩

end

/-- When the worker of a running job leaves the loop around a process, the job has no id of a process
any more. If somebody asked to cancel it before that, the code is 1; otherwise it is what the process
has exited with. The lines that were taken are published, and they are the beginning of each stream.
They are all lines if the worker was told of the end of the streams in time; if the streams did end
in time, they are all lines exactly if no line is left in the queue. Running a command is such a
session or does not come to one, and a job has no id of a process whenever its worker does not
supervise one. -/
theorem accounted_of_supervision (plan : Plan) :
    (∀ c log streams acts s, c.post = .looking log {} → c.bench.job.state = .running →
      (Session.start c streams).run? plan acts = some s → s.course.post.isSupervising = false →
        Session.Accounted plan (.start c streams) s acts) ∧
    (∀ command meddle now b b' code, Course.Visits meddle → b.job.state = .running →
      b.job.pid = none → runCommand plan command meddle now b = some (b', code) →
        b'.job.pid = none ∧
          (Run.start plan command b = (b', .over code) ∧ code = 1 ∨
            ∃ b₁ run acts s, Run.start plan command b = (b₁, .going run) ∧
              (run.session b₁).run? plan acts = some s ∧ s.course.bench = b' ∧
              Session.Returns (run.session b₁) s code ∧
              Session.Accounted plan (run.session b₁) s acts)) ∧
    ∀ b moves c, b.job.pid = none → (Course.start b).run? plan moves = some c → c.IsVacant := by
  refine ⟨?_, ?_, ?_⟩
  · intro c log streams acts s hpost hrunning hrun hover
    exact Session.accounted_of_run hpost hrunning hrun hover
  · intro command meddle now b b' code hmeddle hrunning hnew hcommand
    rcases exists_session_of_runCommand hmeddle hrunning hcommand with
      hover | ⟨b₁, run, acts, s, hgoing, hrun, hend, rfl, hreturns⟩
    · obtain ⟨hcode, hpid⟩ := Run.start_over hover
      exact ⟨hpid.trans hnew, .inl ⟨hover, hcode⟩⟩
    · have hstate := (Run.start_going hgoing).2.trans hrunning
      have haccounted := Session.accounted_of_run rfl hstate hrun hend
      exact ⟨haccounted.pid, .inr ⟨b₁, run, acts, s, hgoing, hrun, rfl, hreturns, haccounted⟩⟩
  · intro b moves c hnew hrun
    exact Course.isVacant_run hnew hrun

/-! ## Specimens -/

/-- A job that listens to a process. -/
def listener : Course :=
  { bench := ⟨.ofRecord Course.siteRecord 10, { files := Machine.standardFiles }⟩
    post := .looking none {} }

/-- A process exits before its output is read. An observer comes and lines are taken in another order
than they are read. -/
def hastyExit : List Act :=
  [.work, .read 0 (.bytes [111, 110, 101, 10, 116]), .read 1 (.bytes [115]), .exit (.code 3), .work,
    .send 0, .meddle .attach, .take, .work, .read 0 (.bytes [10]), .read 1 .failed, .send 1,
    .send 0, .read 0 (.bytes []), .take, .work, .tick, .work, .take, .work, .close, .work]

def earlyCancel : List Act := [.work, .meddle (.cancel Job.noon), .tick, .work, .work]

theorem accounted_of_hastyExit :
    (∃ s, (Session.start listener 2).run? Course.sitePlan hastyExit = some s ∧
      s.readers.map (fun r => readLines r.reads) = [["one", "t"], ["s"]] ∧
      s.course.bench.job.pid = none ∧ Session.Returns (.start listener 2) s 3 ∧ s.Captured ∧
      s.course.bench.job.log =
        listener.bench.job.log.pushAll (Session.emitted .ota s.heard)) ∧
    (∃ s, (Session.start listener 2).run? Course.sitePlan earlyCancel = some s ∧
      Session.Returns (.start listener 2) s 1) ∧
    (∃ b, runCommand Course.sitePlan ["/bin/echo", "hello"] (fun j _ => j) Job.noon
      listener.bench = some (b, 0) ∧ b.job.pid = none) ∧
    ∃ c, (Course.start Course.siteBench).run? Course.sitePlan Course.siteMoves = some c ∧
      c.bench.job.pid = none := by
  obtain ⟨hsession, hcommand, hcourse⟩ := accounted_of_supervision Course.sitePlan
  refine ⟨?_, ?_, ?_, ?_⟩
  · have hall : ((Session.start listener 2).run? Course.sitePlan hastyExit).map
        (fun s => (s.course.post.isSupervising, s.queue,
          s.readers.map fun r => readLines r.reads)) =
          some (false, [], [["one", "t"], ["s"]]) := by decide +kernel
    obtain ⟨s, hrun, hs⟩ := Option.map_eq_some_iff.1 hall
    obtain ⟨hover, hqueue, hlines⟩ : _ ∧ _ ∧ _ := by simpa only [Prod.mk.injEq] using hs
    have haccounted := hsession listener none 2 hastyExit s rfl rfl hrun hover
    obtain ⟨e, hexit, hreturns⟩ := haccounted.exited (by decide)
    have hcaptured := (haccounted.captured_iff (by decide) (by decide +kernel)).2 hqueue
    cases hexit
    exact ⟨s, hrun, hlines, haccounted.pid, hreturns, hcaptured, haccounted.published⟩
  · have hall : ((Session.start listener 2).run? Course.sitePlan earlyCancel).map
        (·.course.post.isSupervising) = some false := by decide +kernel
    have hbefore : ((Session.start listener 2).run? Course.sitePlan (earlyCancel.take 3)).map
        (·.course.post.isLooping) = some true := by decide +kernel
    obtain ⟨s, hrun, hover⟩ := Option.map_eq_some_iff.1 hall
    obtain ⟨mid, hmid, hlooping⟩ := Option.map_eq_some_iff.1 hbefore
    have haccounted := hsession listener none 2 earlyCancel s rfl rfl hrun hover
    exact ⟨s, hrun, haccounted.canceled _ (earlyCancel.drop 3) mid rfl hmid hlooping (by decide)⟩
  · have hall : (runCommand Course.sitePlan ["/bin/echo", "hello"] (fun j _ => j) Job.noon
        listener.bench).map Prod.snd = some 0 := by decide +kernel
    obtain ⟨⟨b, code⟩, hrun, rfl⟩ := Option.map_eq_some_iff.1 hall
    have hstays : Course.Visits fun j _ => j := fun j _ => ⟨[], List.forall_mem_nil _, rfl⟩
    exact ⟨b, hrun, (hcommand _ _ _ _ b _ hstays rfl rfl hrun).1⟩
  · obtain ⟨c, hrun, hc⟩ := Option.map_eq_some_iff.1 Course.run?_siteMoves
    have hover : c.post.isSupervising = false := by
      rw [(Prod.mk.inj hc).1]
      rfl
    exact ⟨c, hrun, hcourse Course.siteBench Course.siteMoves c rfl hrun hover⟩

/-- The stream has ended and both of its lines are in the queue when the process exits. It takes as
long to write the first of them as the worker waits for the end of the stream. -/
def slowLog : List Act :=
  [.work, .read 0 (.bytes [111, 110, 101, 10, 116, 119, 111, 10]), .send 0, .send 0,
    .read 0 (.bytes []), .exit (.code 0), .work, .take,
    .world { files := Machine.standardFiles, now := drainNanos }, .work]

/-- The worker gives up a stream that has ended in time, and the second line is lost. -/
theorem lost_of_slowLog : (Session.start listener 1).EndsInTime Course.sitePlan slowLog ∧
    (Session.start listener 1).wasCanceled slowLog = false ∧
    ((Session.start listener 1).run? Course.sitePlan slowLog).map
        (fun s => (s.course.post.isSupervising, s.course.outcomes)) =
      some (false, [.exited 0]) ∧
    ((Session.start listener 1).run? Course.sitePlan slowLog).map
        (fun s => (s.queue, s.readers.map fun r => readLines r.reads)) =
      some ([(0, "two")], [["one", "two"]]) ∧
    ((Session.start listener 1).run? Course.sitePlan slowLog).map (·.course.bench.job.log) =
      some (listener.bench.job.log.pushAll ["one"]) :=
  ⟨by decide +kernel, by decide, by decide +kernel, by decide +kernel, by decide +kernel⟩

end FirmwareJobs.Toolchain
