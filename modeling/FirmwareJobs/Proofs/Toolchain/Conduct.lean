import FirmwareJobs.Proofs.Toolchain.Course
import FirmwareJobs.Proofs.Toolchain.Transcript
import FirmwareJobs.Toolchain.Completion

/-!
# Running a job is a course of it

A pipeline that is started, or goes on, takes its job from one post to another. So the run of a job
from beginning to end is one course, with what others did to the job in between.
-/

namespace FirmwareJobs.Toolchain

open Files

/-- Where the worker of a run is between two turns. -/
def Run.post (run : Run) : Post :=
  match run.stage with
  | .watching => .listening run.log run.supervision
  | .asked _ | .killed => .stopping

/-- Where the worker is after the code of a step. -/
def Post.after (code : Int32) : Post := if code = 0 then .checking 0 else .finished code

/-- Where the worker is after a turn of a run. -/
def Progress.runPost : Progress Run → Post
  | .going run => run.post
  | .over code => .after code

namespace Worksite

variable {α : Type} {site : Worksite α} {meddle : Job → Time.Instant → Job}
  {holds : Workbench × Progress α → Prop}

/-- Whatever holds when work begins holds as long as it goes on and when it is over. -/
structure Keeps (site : Worksite α) (meddle : Job → Time.Instant → Job)
    (holds : Workbench × Progress α → Prop) : Prop where
  advance : ∀ work b turn, holds (b, .going work) → site.advance? work b = some turn → holds turn
  passes : ∀ work (b : Workbench) host, holds (b, .going work) → holds ({ b with host }, .going work)
  visited : ∀ work (b : Workbench) now, holds (b, .going work) →
    holds ({ b with job := meddle b.job now }, .going work)

theorem Keeps.complete (h : Keeps site meddle holds) {now : Time.Instant} {fuel busy : Nat}
    {work : α} {b b' : Workbench} {code : Int32} (hgoing : holds (b, .going work))
    (hcomplete : site.complete meddle now fuel busy work b = some (b', code)) :
    holds (b', .over code) := by
  induction fuel generalizing busy work b with
  | zero => contradiction
  | succ fuel ih =>
    rw [Worksite.complete] at hcomplete
    dsimp only at hcomplete
    split at hcomplete
    · next hadvance =>
      cases hcomplete
      exact h.advance _ _ _ hgoing hadvance
    · next hadvance => exact ih (h.advance _ _ _ hgoing hadvance) hcomplete
    · have hvisited (host : Machine.Host) (t : Time.Instant) :
          holds (⟨meddle b.job t, host⟩, .going work) :=
        h.visited _ _ t (h.passes _ _ host hgoing)
      split_ifs at hcomplete
      · exact ih (h.passes _ _ _ hgoing) hcomplete
      · exact ih (hvisited _ _) hcomplete
      · split at hcomplete
        · exact ih (hvisited _ _) hcomplete
        · contradiction

end Worksite

namespace Course

/-- Some moves lead from one course to the other. -/
def Leads (plan : Plan) (c next : Course) : Prop := ∃ moves, c.run? plan moves = some next

/-- A course has come to where a turn of a run ends. -/
structure MeetsRun (ahead : List (List String)) (turn : Workbench × Progress Run) (c : Course) :
    Prop where
  bench : c.bench = turn.1
  ahead : c.ahead = ahead
  post : c.post = turn.2.runPost

/-- A course has come to where a turn of a pipeline ends. -/
def Meets (turn : Workbench × Progress Pipeline) (c : Course) : Prop :=
  c.bench = turn.1 ∧
    match turn.2 with
    | .going p => c.ahead = p.remaining.map (p.command ++ ·) ∧ c.post = p.run.post
    | .over code => c.post = .finished code

/-- Some moves lead to where a turn of a run ends. -/
def LeadsToRun (plan : Plan) (c : Course) (turn : Workbench × Progress Run) : Prop :=
  ∃ next, Leads plan c next ∧ next.MeetsRun c.ahead turn

/-- Some moves lead to where a turn of a pipeline ends. -/
def LeadsTo (plan : Plan) (c : Course) (turn : Workbench × Progress Pipeline) : Prop :=
  ∃ next, Leads plan c next ∧ next.Meets turn

section

variable {plan : Plan} {c next last : Course}

theorem Leads.refl (plan : Plan) (c : Course) : Leads plan c c := ⟨[], rfl⟩

theorem Leads.trans (h : Leads plan c next) (h' : Leads plan next last) : Leads plan c last := by
  obtain ⟨moves, hrun⟩ := h
  obtain ⟨more, hmore⟩ := h'
  refine ⟨moves ++ more, ?_⟩
  rw [run?_append, hrun]
  exact hmore

theorem LeadsToRun.after {turn : Workbench × Progress Run} (h : LeadsToRun plan next turn)
    (hlead : Leads plan c next) (hahead : next.ahead = c.ahead) : LeadsToRun plan c turn := by
  obtain ⟨last, hlast, hmeets⟩ := h
  rw [hahead] at hmeets
  exact ⟨last, hlead.trans hlast, hmeets⟩

theorem LeadsTo.after {turn : Workbench × Progress Pipeline} (h : LeadsTo plan next turn)
    (hlead : Leads plan c next) : LeadsTo plan c turn := by
  obtain ⟨last, hlast, hmeets⟩ := h
  exact ⟨last, hlead.trans hlast, hmeets⟩

theorem leads_make {move : Move} (h : c.make? plan move = some next) : Leads plan c next := by
  refine ⟨[move], ?_⟩
  rw [run?_cons, h]
  rfl

theorem leads_work (h : c.work? plan = some next) : Leads plan c next := by
  have hmake : c.make? plan .work = some next := h
  exact leads_make hmake

theorem leads_world (plan : Plan) (c : Course) (host : Machine.Host) :
    Leads plan c { c with bench := { c.bench with host } } := by
  have hmake : c.make? plan (.world host) = some { c with bench := { c.bench with host } } := rfl
  exact leads_make hmake

end

theorem leads_meddle (plan : Plan) (c : Course) {ops : List Job.Operation}
    (hops : ∀ op ∈ ops, op.isForeign = true) :
    Leads plan c { c with bench := { c.bench with job := c.bench.job.run ops } } := by
  induction ops generalizing c with
  | nil => exact .refl plan c
  | cons op ops ih =>
    obtain ⟨hop, hrest⟩ := List.forall_mem_cons.1 hops
    have hfirst : c.make? plan (.meddle op) = some { c with bench := c.bench.operate op } := by
      rw [make?, if_pos hop]
    exact (leads_make hfirst).trans (ih _ hrest)

/-! ## Starting a run -/

theorem leads_fail (plan : Plan) {c : Course} {log : Option Place} {message : String}
    (hpost : c.post = .failing log message) :
    Leads plan c { c with bench := c.bench.fail log message, post := .finished Run.failureCode } := by
  have hemit : c.work? plan = some { c with
      bench := c.bench.emit log message .output, post := .explaining message } := by
    rw [work?, hpost]
  exact (leads_work hemit).trans (leads_work rfl)

theorem leads_look (plan : Plan) {c : Course} {log : Option Place} {s : Supervision}
    {verdict : Option Verdict} (hpost : c.post = .looking log s)
    (hverdict : s.verdict? c.bench.host.now c.bench.job.cancelRequested = verdict) :
    Leads plan c (c.judge log s verdict) := by
  apply leads_work
  rw [work?, hpost, ← hverdict]

theorem leads_refuse (plan : Plan) {c : Course} {log : Option Place} {call : List String}
    {message : String} (hpost : c.post = .launching log call)
    (hlaunch : c.launch plan log call = c.refuse log message) :
    LeadsToRun plan c (c.bench.fail log message, .over Run.failureCode) := by
  have hwork : c.work? plan = some (c.refuse log message) := by rw [work?, hpost, ← hlaunch]
  exact ⟨_, (leads_work hwork).trans (leads_fail plan rfl), rfl, rfl, rfl⟩

theorem leads_start (plan : Plan) {c : Course} {call : List String}
    (hpost : c.post = .opening call) :
    LeadsToRun plan c (Run.start plan call c.bench) := by
  let log := (c.bench.openLog plan).1
  let b := (c.bench.openLog plan).2.emit log (Run.commandLine call) .engine
  have hopen : c.work? plan = some { c with
      bench := (c.bench.openLog plan).2, post := .announcing log call } := by
    rw [work?, hpost]
  have hshown : Leads plan c { c with bench := b, post := .confirming log call } :=
    (leads_work hopen).trans (leads_work rfl)
  unfold Run.start
  dsimp only
  split_ifs with hcanceled hempty
  · refine ⟨_, hshown.trans (leads_work (if_pos hcanceled)), rfl, rfl, rfl⟩
  · have hready := hshown.trans (leads_work (if_neg hcanceled))
    have hrefused := leads_refuse plan (c := { c with
      bench := b, post := .launching log call }) rfl (if_pos hempty)
    exact hrefused.after hready rfl
  · have hready := hshown.trans (leads_work (if_neg hcanceled))
    split
    · next fault hfault =>
      have hrefused := leads_refuse plan (c := { c with
        bench := b, post := .launching log call }) rfl (by rw [launch, if_neg hempty, hfault])
      exact hrefused.after hready rfl
    · next child host hok =>
      let looking : Course := { c with
        bench := ⟨b.job.setPid (some child.process), host⟩
        started := c.started ++ [call], post := .looking log {} }
      have hlaunch : launch plan { c with bench := b, post := .launching log call } log call =
          looking := by
        rw [launch, if_neg hempty, hok]
      have hverdict : Supervision.verdict? {} looking.bench.host.now
          looking.bench.job.cancelRequested = none := if_neg hcanceled
      refine ⟨_, (hready.trans (leads_work (congrArg some hlaunch))).trans
        (leads_look plan rfl hverdict), ?_⟩
      exact ⟨rfl, rfl, rfl⟩

/-! ## Listening to a process -/

theorem judge_post (c : Course) (post : Post) (log : Option Place) (s : Supervision)
    (verdict : Option Verdict) :
    ({ c with post } : Course).judge log s verdict = c.judge log s verdict := by
  cases verdict with
  | none => rfl
  | some verdict => cases verdict <;> rfl

/-- Where the worker comes to by what it is told. -/
theorem leads_attend (plan : Plan) {c : Course} {log : Option Place} {s : Supervision}
    (hpost : c.post = .listening log s) (notices : List Notice) :
    Leads plan c
      ({ c with bench := (Run.attend log s c.bench notices).1 }.judge log
        (Run.attend log s c.bench notices).2.1 (Run.attend log s c.bench notices).2.2) := by
  induction notices generalizing c s with
  | nil =>
    obtain ⟨b, post, ahead, started, outcomes⟩ := c
    cases hpost
    exact .refl plan _
  | cons notice rest ih =>
    -- a look at the process follows each notice, and nobody else comes in between
    let heard : Course := { c with
      bench := c.bench.hear log notice, post := .looking log (s.note c.bench.host.now notice) }
    have hhear : c.make? plan (.hear notice) = some heard := by rw [make?, hpost]
    have hlook := (leads_make hhear).trans (leads_look plan rfl rfl)
    unfold Run.attend
    dsimp only
    split
    · next verdict hsome =>
      rw [hsome, judge_post { c with bench := c.bench.hear log notice }] at hlook
      exact hlook
    · next hnone =>
      rw [hnone] at hlook
      have hwhole := hlook.trans (ih (c := { heard with
        post := .listening log (s.note c.bench.host.now notice) }) rfl)
      rw [judge_post { c with bench := _ }] at hwhole
      exact hwhole

theorem leads_watch (plan : Plan) {c : Course} {run : Run} (hstage : run.stage = .watching)
    (hpost : c.post = .listening run.log run.supervision) :
    LeadsToRun plan c (run.watch c.bench) := by
  let told : Course := { c with bench := { c.bench with host := (run.notices c.bench.host).2.2 } }
  have hattend : Leads plan c ({ c with bench := run.heard c.bench }.judge run.log
      (run.attended c.bench).2.1 (run.attended c.bench).2.2) :=
    (leads_world plan c (run.notices c.bench.host).2.2).trans
      (leads_attend plan (c := told) hpost (run.notices c.bench.host).1)
  rw [Run.watch_eq]
  split
  · next hverdict =>
    rw [hverdict] at hattend
    refine ⟨_, hattend, rfl, rfl, ?_⟩
    have hlooked : (run.looked c.bench).stage = .watching := hstage
    rw [Progress.runPost, Run.post, hlooked]
    rfl
  · next hverdict =>
    rw [hverdict] at hattend
    exact ⟨_, hattend.trans (leads_world plan _ _), rfl, rfl, rfl⟩
  · next code hverdict =>
    rw [hverdict] at hattend
    exact ⟨_, hattend.trans (leads_world plan _ _), rfl, rfl, rfl⟩

theorem leads_close (plan : Plan) {c : Course} (run : Run) (hpost : c.post = .stopping) :
    LeadsToRun plan c (run.close c.bench canceledCode) := by
  have hstop : c.work? plan = some (c.conclude .stopped) := by rw [work?, hpost]
  exact ⟨_, (leads_work hstop).trans (leads_world plan _ _), rfl, rfl, rfl⟩

theorem leads_advance? (plan : Plan) {c : Course} {run : Run} {turn : Workbench × Progress Run}
    (hpost : c.post = run.post) (hadvance : run.advance? c.bench = some turn) :
    LeadsToRun plan c turn := by
  unfold Run.advance? at hadvance
  dsimp only at hadvance
  unfold Run.post at hpost
  cases hstage : run.stage with
  | watching =>
    rw [hstage] at hadvance hpost
    dsimp only at hadvance
    split_ifs at hadvance
    rw [← Option.some.inj hadvance]
    exact leads_watch plan hstage hpost
  | asked killAt =>
    rw [hstage] at hadvance hpost
    dsimp only at hadvance
    split_ifs at hadvance
    · rw [← Option.some.inj hadvance]
      exact leads_close plan run hpost
    · rw [← Option.some.inj hadvance]
      exact ⟨_, leads_world plan c _, rfl, rfl, hpost⟩
  | killed =>
    rw [hstage] at hadvance hpost
    dsimp only at hadvance
    split_ifs at hadvance
    rw [← Option.some.inj hadvance]
    exact leads_close plan run hpost

/-! ## The pipeline -/

theorem leads_next (plan : Plan) (words : List String) (steps : List (List String)) {c : Course}
    {code : Int32} (hpost : c.post = .checking code) (hahead : c.ahead = steps.map (words ++ ·)) :
    LeadsTo plan c (Pipeline.next plan words code steps c.bench) := by
  induction steps generalizing c code with
  | nil =>
    have hfinish : c.work? plan = some { c with post := .finished code } := by
      rw [work?, hpost, hahead]
      rfl
    exact ⟨_, leads_work hfinish, rfl, rfl⟩
  | cons step rest ih =>
    rw [Pipeline.next]
    split_ifs with hcanceled
    · have hskip : c.work? plan = some { c with post := .finished code } := by
        rw [work?, hpost, hahead]
        exact if_pos hcanceled
      exact ⟨_, leads_work hskip, rfl, rfl⟩
    · have htake : c.work? plan = some { c with
          post := .opening (words ++ step), ahead := rest.map (words ++ ·) } := by
        rw [work?, hpost, hahead]
        exact if_neg hcanceled
      obtain ⟨next, hnext, hbench, hrest, hcome⟩ := leads_start plan (c := { c with
        post := .opening (words ++ step), ahead := rest.map (words ++ ·) }) rfl
      have hlead := (leads_work htake).trans hnext
      split
      · next b run heq =>
        rw [heq] at hbench hcome
        exact ⟨next, hlead, hbench, hrest, hcome⟩
      · next b code' heq =>
        rw [heq] at hbench hcome
        -- a run that is over at once with 0 would let the next step begin
        split_ifs with hcode
        · subst hcode
          have hmore := ih hcome hrest
          rw [hbench] at hmore
          exact hmore.after hlead
        · refine ⟨next, hlead, hbench, hcome.trans ?_⟩
          exact if_neg hcode

theorem leads_pipeline (plan : Plan) (b : Workbench) :
    LeadsTo plan (start b) (Pipeline.start plan b) := by
  unfold Pipeline.start
  split
  · next fault hfault =>
    have hready : (start b).work? plan =
        some { start b with post := .reporting fault.message } := by
      simp only [work?, start, hfault]
    have hreport := (leads_work hready).trans (leads_work rfl)
    exact ⟨_, hreport.trans (leads_fail plan rfl), rfl, rfl⟩
  · next words hwords =>
    have hready : (start b).work? plan =
        some { start b with post := .checking 0, ahead := plan.calls b.job.record } := by
      simp only [work?, start, hwords]
    have hsteps := leads_next plan words _ (c := { start b with
      post := .checking 0, ahead := plan.calls b.job.record }) rfl (Plan.calls_of_ok hwords _)
    exact hsteps.after (leads_work hready)

theorem leads_turn {plan : Plan} {c : Course} {p : Pipeline} {b : Workbench}
    {turn : Workbench × Progress Pipeline} (h : c.Meets (b, .going p))
    (hadvance : p.advance? plan b = some turn) : LeadsTo plan c turn := by
  obtain ⟨rfl, hahead, hpost⟩ := h
  obtain ⟨⟨b, progress⟩, hrun, hturn⟩ := Option.map_eq_some_iff.1 hadvance
  obtain ⟨next, hnext, hbench, hrest, hcome⟩ := leads_advance? plan hpost hrun
  rw [hahead] at hrest
  rcases progress with run | code
  · rw [← hturn]
    exact ⟨next, hnext, hbench, hrest, hcome⟩
  · rw [← hturn]
    dsimp only
    split_ifs with hcode
    · subst hcode
      have hmore := leads_next plan p.command p.remaining hcome hrest
      rw [hbench] at hmore
      exact hmore.after hnext
    · exact ⟨next, hnext, hbench, hcome.trans (if_neg hcode)⟩

/-! ## The whole run -/

/-- Someone who only does with a job what those do who do not work on it. -/
def Visits (meddle : Job → Time.Instant → Job) : Prop :=
  ∀ j now, ∃ ops : List Job.Operation, (∀ op ∈ ops, op.isForeign = true) ∧ meddle j now = j.run ops

section

variable {plan : Plan} {meddle : Job → Time.Instant → Job} {c : Course} {p : Pipeline}
  {b b' : Workbench} {code : Int32}

theorem Meets.passes (h : c.Meets (b, .going p)) (plan : Plan) (host : Machine.Host) :
    LeadsTo plan c ({ b with host }, .going p) := by
  obtain ⟨rfl, hpost⟩ := h
  exact ⟨_, leads_world plan c host, rfl, hpost⟩

theorem Meets.visited (h : c.Meets (b, .going p)) (plan : Plan) (hmeddle : Visits meddle)
    (now : Time.Instant) : LeadsTo plan c ({ b with job := meddle b.job now }, .going p) := by
  obtain ⟨rfl, hpost⟩ := h
  obtain ⟨ops, hops, hmeddled⟩ := hmeddle c.bench.job now
  rw [hmeddled]
  exact ⟨_, leads_meddle plan c hops, rfl, hpost⟩

theorem leads_complete (hmeddle : Visits meddle) (now : Time.Instant) {fuel busy : Nat}
    (h : c.Meets (b, .going p))
    (hcomplete : Worksite.complete ⟨Pipeline.advance? plan, Pipeline.nextLook?⟩ meddle now fuel busy
      p b = some (b', code)) : LeadsTo plan c (b', .over code) := by
  have hkeeps : Worksite.Keeps ⟨Pipeline.advance? plan, Pipeline.nextLook?⟩ meddle
      fun turn => LeadsTo plan c turn := by
    constructor
    · rintro p b turn ⟨next, hnext, hmeets⟩ hadvance
      exact (leads_turn hmeets hadvance).after hnext
    · rintro p b host ⟨next, hnext, hmeets⟩
      exact (hmeets.passes plan host).after hnext
    · rintro p b t ⟨next, hnext, hmeets⟩
      exact (hmeets.visited plan hmeddle t).after hnext
  exact hkeeps.complete ⟨c, .refl plan c, h⟩ hcomplete

end

theorem exists_course_of_runJob {plan : Plan} {meddle : Job → Time.Instant → Job}
    (hmeddle : Visits meddle) {now : Time.Instant} {b b' : Workbench} {code : Int32}
    (h : runJob plan meddle now b = some (b', code)) :
    ∃ moves c, (start b).run? plan moves = some c ∧ c.bench = b' ∧ c.post = .finished code := by
  have hover : LeadsTo plan (start b) (b', .over code) := by
    have hstart := leads_pipeline plan b
    unfold runJob at h
    split at h
    · next heq =>
      cases h
      rwa [heq] at hstart
    · next heq =>
      rw [heq] at hstart
      obtain ⟨next, hnext, hmeets⟩ := hstart
      exact (leads_complete hmeddle now hmeets h).after hnext
  obtain ⟨next, ⟨moves, hrun⟩, hbench, hpost⟩ := hover
  exact ⟨moves, next, hrun, hbench, hpost⟩

end Course

end FirmwareJobs.Toolchain
