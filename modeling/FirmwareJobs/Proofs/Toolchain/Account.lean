import FirmwareJobs.Proofs.Job.Core
import FirmwareJobs.Proofs.Toolchain.Conduct

/-!
# What becomes of the steps of a job

The commands that were started are the first ones of the action, in order. Each was started after
the ones before it had exited with 0, and after the worker had seen that nobody had asked to cancel
the job. The record with which the job ends follows from what became of the steps and from whether
somebody has asked to cancel it by then.
-/

namespace FirmwareJobs

open Files Time

namespace Job

/-- A running job that was ordered by `record`, with whether somebody asked to cancel it. -/
structure AtWork (record : Record) (canceled : Bool) (j : Job) : Prop where
  state : j.state = .running
  cancelRequested : j.cancelRequested = canceled
  sameOrder : SameOrder record j.record

section

variable {record : Record} {canceled : Bool} {j : Job}

theorem AtWork.of_sameCore {next : Job} (h : j.AtWork record canceled) (hsame : SameCore j next) :
    next.AtWork record canceled := by
  refine ⟨hsame.state.trans h.state, hsame.cancelRequested.trans h.cancelRequested, ?_⟩
  rw [hsame.record]
  exact h.sameOrder

theorem AtWork.apply (h : j.AtWork record canceled) {op : Operation} (hop : op.isFinish = false) :
    (j.apply op).AtWork record (canceled || op.isCancel) := by
  have horder := h.sameOrder.trans (sameOrder_apply j op)
  cases op with
  | finish => contradiction
  | start now =>
    have hbarred : j.IsBarred := .inl (by simp [h.state])
    have hsame : j.apply (.start now) = j := by simp [Job.apply, begin?_of_barred now hbarred]
    simpa only [hsame, Operation.isCancel, Bool.or_false] using h
  | cancel now =>
    have hcancel : j.apply (.cancel now) = { j with cancelRequested := true } := by
      simp [Job.apply, requestCancel_of_running now h.state]
    simp only [hcancel, Operation.isCancel, Bool.or_true]
    exact ⟨h.state, rfl, h.sameOrder⟩
  | publish | setSummary =>
    simp only [Operation.isCancel, Bool.or_false]
    exact ⟨h.state, h.cancelRequested, horder⟩
  | setPid | notifyDone | attach | watch | replay | receive | leave =>
    simp only [Operation.isCancel, Bool.or_false]
    exact h.of_sameCore (sameCore_apply j rfl)

theorem AtWork.run (h : j.AtWork record canceled) {ops : List Operation}
    (hops : ∀ op ∈ ops, op.isFinish = false) :
    (j.run ops).AtWork record (canceled || wasCanceled ops) := by
  induction ops generalizing j canceled with
  | nil => simpa [wasCanceled] using h
  | cons op ops ih =>
    obtain ⟨hop, hrest⟩ := List.forall_mem_cons.1 hops
    have hmore := ih (h.apply hop) hrest
    rwa [Bool.or_assoc] at hmore

theorem AtWork.finish (h : j.AtWork record canceled) (code : Int32) (now : Instant) :
    (j.finish code now).record.state =
        (if canceled then .canceled else if code = 0 then .success else .failed) ∧
      (j.finish code now).record.exitCode = some (if canceled then -1 else code) := by
  have hlive : j.isTerminal = false := by
    rw [isTerminal, show j.record.state = .running from h.state]
    rfl
  rw [finish_of_live code now hlive, finalRecord, h.cancelRequested]
  cases canceled with
  | true => exact ⟨rfl, rfl⟩
  | false =>
    by_cases hcode : code = 0
    · subst hcode
      exact ⟨rfl, rfl⟩
    · simp [hcode]

end

end Job

namespace Toolchain.Course

/-! ## The job under its worker -/

theorem job_openLog (b : Workbench) (plan : Plan) : (b.openLog plan).2.job = b.job := by
  unfold Workbench.openLog
  split <;> rfl

theorem job_hear (b : Workbench) (log : Option Place) (notice : Notice) :
    (b.hear log notice).job = b.job ∨
      ∃ line, (b.hear log notice).job = b.job.apply (.publish line .output) := by
  cases notice with
  | line raw =>
    unfold Workbench.hear Workbench.output
    dsimp only
    split
    · next line hline => exact .inr ⟨line, rfl⟩
    · exact .inl rfl
  | closed | exited | tick => exact .inl rfl

theorem isFinish_of_isForeign {op : Job.Operation} (h : op.isForeign = true) :
    op.isFinish = false := by
  cases op with
  | finish => contradiction
  | _ => rfl

theorem exists_ops {plan : Plan} {c next : Course} {move : Move} (h : Step plan c move next) :
    ∃ ops, next.bench.job = c.bench.job.run ops ∧ (∀ op ∈ ops, op.isFinish = false) ∧
      Job.wasCanceled ops = move.isCancel := by
  have hone {op : Job.Operation} (hop : op.isFinish = false) :
      ∀ o ∈ [op], o.isFinish = false := List.forall_mem_singleton.2 hop
  cases h with
  | invalid | prepare | finish | skip | next | withdraw | confirm | refuse | listen | terminate
  | world => exact ⟨[], rfl, List.forall_mem_nil _, rfl⟩
  | report | openLog => exact ⟨[], job_openLog c.bench plan, List.forall_mem_nil _, rfl⟩
  | @announce log call hpost =>
    exact ⟨[.publish (Run.commandLine call) .engine], rfl, hone rfl, rfl⟩
  | @fail log message hpost => exact ⟨[.publish message .output], rfl, hone rfl, rfl⟩
  | @explain message hpost => exact ⟨[.setSummary message], rfl, hone rfl, rfl⟩
  | @launch log call child host hpost =>
    exact ⟨[.setPid (some child.process)], rfl, hone rfl, rfl⟩
  | exit | stop => exact ⟨[.setPid none], rfl, hone rfl, rfl⟩
  | @hear log s notice hpost =>
    rcases job_hear c.bench log notice with hjob | ⟨line, hjob⟩
    · exact ⟨[], hjob, List.forall_mem_nil _, rfl⟩
    · exact ⟨[.publish line .output], hjob, hone rfl, rfl⟩
  | @meddle op hop =>
    exact ⟨[op], rfl, hone (isFinish_of_isForeign hop), Bool.or_false _⟩

section

variable {plan : Plan} {record : Record} {canceled : Bool} {c next : Course} {move : Move}

theorem atWork_step (h : c.bench.job.AtWork record canceled) (hstep : Step plan c move next) :
    next.bench.job.AtWork record (canceled || move.isCancel) := by
  obtain ⟨ops, hjob, hfinish, hcancel⟩ := exists_ops hstep
  rw [hjob, ← hcancel]
  exact h.run hfinish

theorem cancelRequested_step (h : c.bench.job.AtWork record canceled)
    (hstep : Step plan c move next) (hcanceled : c.bench.job.cancelRequested = true) :
    next.bench.job.cancelRequested = true := by
  rw [(atWork_step h hstep).cancelRequested, ← h.cancelRequested, hcanceled, Bool.true_or]

end

/-! ## What became of the steps -/

/-- Of the commands of an action those before `ahead` were started, and each has exited with 0. -/
structure Reached (calls started ahead : List (List String)) (outcomes : List Outcome) : Prop where
  nonempty : calls ≠ []
  calls : calls = started ++ ahead
  outcomes : outcomes = List.replicate started.length (.exited 0)

/-- The last of the commands that were started has not ended yet. -/
def Underway (calls : List (List String)) (c : Course) : Prop :=
  ∃ earlier call, c.started = earlier ++ [call] ∧
    Reached calls earlier (call :: c.ahead) c.outcomes

/-- The job is to be canceled. -/
def Halted (calls : List (List String)) (c : Course) : Prop :=
  c.bench.job.cancelRequested = true ∧ c.started <+: calls

/-- How the work can have ended, with its code. -/
inductive Ended (plan : Plan) (record : Record) (c : Course) : Int32 → Prop where
  | invalid {fault : ToolchainFault} (hwords : plan.settings.toolchainWords = .error fault)
      (hstarted : c.started = []) : Ended plan record c Run.failureCode
  | complete (h : Reached (plan.calls record) c.started [] c.outcomes) : Ended plan record c 0
  | canceled {code : Int32} (h : Halted (plan.calls record) c) : Ended plan record c code
  | refused {call : List String} {ahead : List (List String)} {outcomes : List Outcome}
      (h : Reached (plan.calls record) c.started (call :: ahead) outcomes)
      (houtcomes : c.outcomes = outcomes ++ [.refused]) : Ended plan record c Run.failureCode
  | failed {earlier ahead : List (List String)} {call : List String} {outcomes : List Outcome}
      {code : Int32} (h : Reached (plan.calls record) earlier (call :: ahead) outcomes)
      (hstarted : c.started = earlier ++ [call])
      (houtcomes : c.outcomes = outcomes ++ [.exited code]) (hcode : code ≠ 0) :
      Ended plan record c code

/-- What became of the steps so far, by the post of the worker. -/
def Fits (plan : Plan) (record : Record) (c : Course) : Prop :=
  match c.post with
  | .ready => c.started = [] ∧ c.outcomes = []
  | .reporting _ => c.started = [] ∧ ∃ fault, plan.settings.toolchainWords = .error fault
  | .checking code => code = 0 ∧ Reached (plan.calls record) c.started c.ahead c.outcomes
  | .opening call | .announcing _ call | .confirming _ call | .launching _ call =>
    Reached (plan.calls record) c.started (call :: c.ahead) c.outcomes
  | .looking .. | .listening .. => Underway (plan.calls record) c
  | .stopping => Halted (plan.calls record) c
  | .failing .. | .explaining _ => Ended plan record c Run.failureCode
  | .finished code => Ended plan record c code

section

variable {plan : Plan} {record : Record} {canceled : Bool} {c next : Course} {move : Move}
  {code : Int32}

theorem Reached.isPrefix {calls started ahead : List (List String)} {outcomes : List Outcome}
    (h : Reached calls started ahead outcomes) : started <+: calls :=
  ⟨ahead, h.calls.symm⟩

theorem Reached.concat {calls started ahead : List (List String)} {call : List String}
    {outcomes : List Outcome} (h : Reached calls started (call :: ahead) outcomes) :
    Reached calls (started ++ [call]) ahead (outcomes ++ [.exited 0]) := by
  refine ⟨h.nonempty, ?_, ?_⟩
  · rw [h.calls, List.append_assoc]
    rfl
  · rw [h.outcomes, List.length_append, List.length_singleton, List.replicate_succ']

theorem Underway.isPrefix {calls : List (List String)} (h : Underway calls c) :
    c.started <+: calls := by
  obtain ⟨earlier, call, hstarted, hreached⟩ := h
  rw [hstarted]
  exact hreached.concat.isPrefix

theorem Halted.mono {calls : List (List String)} (h : Halted calls c)
    (hcanceled : c.bench.job.cancelRequested = true → next.bench.job.cancelRequested = true)
    (hstarted : next.started = c.started) : Halted calls next :=
  ⟨hcanceled h.1, hstarted ▸ h.2⟩

theorem Ended.mono (h : Ended plan record c code)
    (hcanceled : c.bench.job.cancelRequested = true → next.bench.job.cancelRequested = true)
    (hstarted : next.started = c.started) (houtcomes : next.outcomes = c.outcomes) :
    Ended plan record next code := by
  cases h with
  | invalid hwords hnone => exact .invalid hwords (hstarted.trans hnone)
  | complete h => exact .complete (by rwa [hstarted, houtcomes])
  | canceled h => exact .canceled (h.mono hcanceled hstarted)
  | refused h hrefused => exact .refused (hstarted ▸ h) (houtcomes.trans hrefused)
  | failed h hlast hexited hcode =>
    exact .failed h (hstarted.trans hlast) (houtcomes.trans hexited) hcode

theorem Fits.mono (h : Fits plan record c)
    (hcanceled : c.bench.job.cancelRequested = true → next.bench.job.cancelRequested = true)
    (hpost : next.post = c.post) (hahead : next.ahead = c.ahead)
    (hstarted : next.started = c.started) (houtcomes : next.outcomes = c.outcomes) :
    Fits plan record next := by
  unfold Fits at h ⊢
  rw [hpost]
  cases hat : c.post with
  | ready | reporting | checking | opening | announcing | confirming | launching | looking
  | listening =>
    simp only [hat] at h
    simpa only [Underway, hstarted, hahead, houtcomes] using h
  | stopping =>
    rw [hat] at h
    exact h.mono hcanceled hstarted
  | failing | explaining | finished =>
    rw [hat] at h
    exact h.mono hcanceled hstarted houtcomes

theorem Underway.conclude (h : Underway (plan.calls record) c) (code : Int32) :
    Fits plan record (c.conclude (.exited code)) := by
  obtain ⟨earlier, call, hstarted, hreached⟩ := h
  by_cases hcode : code = 0
  · subst hcode
    refine ⟨rfl, ?_⟩
    change Reached _ c.started c.ahead (c.outcomes ++ [.exited 0])
    rw [hstarted]
    exact hreached.concat
  · have hpost : (c.conclude (.exited code)).post = .finished code := if_neg hcode
    rw [Fits, hpost]
    exact .failed hreached hstarted rfl hcode

theorem Fits.step (h : Fits plan record c) (hwork : c.bench.job.AtWork record canceled)
    (hstep : Step plan c move next) : Fits plan record next := by
  have hcanceled := cancelRequested_step hwork hstep
  unfold Fits at h
  cases hstep with
  | invalid hpost hwords =>
    rw [hpost] at h
    exact ⟨h.1, _, hwords⟩
  | prepare hpost hwords =>
    rw [hpost] at h
    refine ⟨rfl, ?_, ?_, ?_⟩
    · simp [Plan.calls_of_ok hwords, steps_ne_nil]
    · rw [h.1]
      exact (plan.calls_of_sameOrder hwork.sameOrder).symm
    · rw [h.1, h.2]
      rfl
  | report hpost =>
    rw [hpost] at h
    obtain ⟨hstarted, fault, hwords⟩ := h
    exact .invalid hwords hstarted
  | finish hpost hahead =>
    rw [hpost, hahead] at h
    rw [h.1]
    exact .complete h.2
  | skip hpost hflag =>
    rw [hpost] at h
    exact .canceled ⟨hflag, h.2.isPrefix⟩
  | next hpost hahead hflag =>
    rw [hpost, hahead] at h
    exact h.2
  | openLog hpost | announce hpost | confirm hpost hflag =>
    rw [hpost] at h
    exact h
  | withdraw hpost hflag =>
    rw [hpost] at h
    exact .canceled ⟨hflag, h.isPrefix⟩
  | refuse hpost =>
    rw [hpost] at h
    exact .refused h rfl
  | launch hpost =>
    rw [hpost] at h
    exact ⟨_, _, rfl, h⟩
  | listen hpost | hear hpost =>
    rw [hpost] at h
    exact h
  | terminate hpost hflag =>
    rw [hpost] at h
    exact ⟨hflag, h.isPrefix⟩
  | exit hpost =>
    rw [hpost] at h
    exact h.conclude _
  | stop hpost =>
    rw [hpost] at h
    exact .canceled (h.mono hcanceled rfl)
  | fail hpost | explain hpost =>
    rw [hpost] at h
    exact h.mono hcanceled rfl rfl
  | meddle | world => exact Fits.mono h hcanceled rfl rfl rfl rfl

theorem Ended.isPrefix (h : Ended plan record c code) : c.started <+: plan.calls record := by
  cases h with
  | invalid hwords hstarted => simp [hstarted]
  | complete h | refused h => exact h.isPrefix
  | canceled h => exact h.2
  | failed h hstarted =>
    rw [hstarted]
    exact h.concat.isPrefix

theorem Fits.isPrefix (h : Fits plan record c) : c.started <+: plan.calls record := by
  unfold Fits at h
  cases hat : c.post <;> rw [hat] at h
  case ready | reporting => simp [h.1]
  case checking => exact h.2.isPrefix
  case opening | announcing | confirming | launching | looking | listening => exact h.isPrefix
  case stopping => exact h.2
  case failing | explaining | finished => exact h.isPrefix

end

/-! ## The checks before a start -/

/-- The worker looked at the job right before it started `call`: every command of `earlier` had been
started and had exited with 0, no other had been started, and nobody had asked to cancel the job. -/
def Cleared (plan : Plan) (bench : Workbench) (moves : List Move) (earlier : List (List String))
    (call : List String) : Prop :=
  ∃ before after c log, moves = before ++ .work :: after ∧ (start bench).run? plan before = some c ∧
    c.post = .confirming log call ∧ wasCanceled before = false ∧ c.started = earlier ∧
    c.outcomes = List.replicate earlier.length (.exited 0)

/-- What holds after some moves. -/
structure Sound (plan : Plan) (bench : Workbench) (moves : List Move) (c : Course) : Prop where
  atWork : c.bench.job.AtWork bench.job.record (wasCanceled moves)
  fits : Fits plan bench.job.record c
  cleared : ∀ earlier call, earlier ++ [call] <+: c.started →
    Cleared plan bench moves earlier call
  launching : ∀ log call, c.post = .launching log call →
    Cleared plan bench moves c.started call

section

variable {plan : Plan} {bench : Workbench} {c next : Course} {moves : List Move} {move : Move}

theorem Cleared.concat {earlier : List (List String)} {call : List String}
    (h : Cleared plan bench moves earlier call) (move : Move) :
    Cleared plan bench (moves ++ [move]) earlier call := by
  obtain ⟨before, after, c, log, rfl, hrun, hrest⟩ := h
  exact ⟨before, after ++ [move], c, log, by simp, hrun, hrest⟩

theorem started_step (hstep : Step plan c move next) :
    next.started = c.started ∨
      ∃ log call, c.post = .launching log call ∧ next.started = c.started ++ [call] := by
  cases hstep with
  | launch hpost => exact .inr ⟨_, _, hpost, rfl⟩
  | _ => exact .inl rfl

theorem launching_step {log : Option Place} {call : List String} (hstep : Step plan c move next)
    (hnext : next.post = .launching log call) :
    next.started = c.started ∧ (c.post = .launching log call ∨
      move = .work ∧ c.post = .confirming log call ∧ c.bench.job.cancelRequested = false) := by
  cases hstep with
  | confirm hpost hcanceled =>
    cases hnext
    exact ⟨rfl, .inr ⟨rfl, hpost, hcanceled⟩⟩
  | meddle | world => exact ⟨rfl, .inl hnext⟩
  | exit | stop =>
    rw [post_conclude] at hnext
    split_ifs at hnext
  | _ => cases hnext

theorem Sound.step (h : Sound plan bench moves c) (hrun : (start bench).run? plan moves = some c)
    (hstep : Step plan c move next) : Sound plan bench (moves ++ [move]) next where
  atWork := by
    rw [wasCanceled_append, wasCanceled_singleton]
    exact atWork_step h.atWork hstep
  fits := h.fits.step h.atWork hstep
  cleared earlier call hprefix := by
    rcases started_step hstep with hstarted | ⟨log, last, hpost, hstarted⟩
    · rw [hstarted] at hprefix
      exact (h.cleared earlier call hprefix).concat move
    · rw [hstarted, List.prefix_concat_iff] at hprefix
      rcases hprefix with hlast | hbefore
      · obtain ⟨rfl, hcall⟩ := List.append_inj' hlast rfl
        cases hcall
        exact (h.launching log call hpost).concat move
      · exact (h.cleared earlier call hbefore).concat move
  launching log call hpost := by
    obtain ⟨hstarted, hbefore | ⟨rfl, hconfirming, hcanceled⟩⟩ := launching_step hstep hpost
    · rw [hstarted]
      exact (h.launching log call hbefore).concat move
    · have hfits := h.fits
      rw [Fits, hconfirming] at hfits
      refine ⟨moves, [], c, log, rfl, hrun, hconfirming, ?_, hstarted.symm, ?_⟩
      · rw [← h.atWork.cancelRequested]
        exact hcanceled
      · rw [hstarted]
        exact hfits.outcomes

theorem sound_run (hrunning : bench.job.state = .running)
    (hnew : bench.job.cancelRequested = false) (hrun : (start bench).run? plan moves = some c) :
    Sound plan bench moves c := by
  -- from the end, since a command is cleared by the moves from the start
  induction moves using List.reverseRecOn generalizing c with
  | nil =>
    cases hrun
    exact ⟨⟨hrunning, hnew, .refl _⟩, ⟨rfl, rfl⟩, by simp [start], nofun⟩
  | append_singleton moves move ih =>
    rw [run?_concat] at hrun
    obtain ⟨middle, hmiddle, hmake⟩ := Option.bind_eq_some_iff.1 hrun
    exact (ih hmiddle).step hmiddle (step_of_make? hmake)

end

/-! ## The record at the end -/

/-- All steps of the action were started, at least one, and each has exited with 0. -/
def Complete (plan : Plan) (record : Record) (c : Course) : Prop :=
  c.started ≠ [] ∧ c.started = plan.calls record ∧
    c.outcomes = List.replicate c.started.length (.exited 0)

section

variable {plan : Plan} {record : Record} {c : Course} {code : Int32}

/-- Work that was not canceled ends with 0 if all steps were done. -/
theorem Ended.complete_iff (h : Ended plan record c code)
    (hnew : c.bench.job.cancelRequested = false) : Complete plan record c ↔ code = 0 := by
  have hfailure : Run.failureCode ≠ 0 := by decide
  cases h with
  | invalid hwords hstarted => exact iff_of_false (fun h => h.1 hstarted) hfailure
  | complete h =>
    have hcalls := h.calls
    rw [List.append_nil] at hcalls
    exact iff_of_true ⟨hcalls ▸ h.nonempty, hcalls.symm, h.outcomes⟩ rfl
  | canceled h =>
    have hcanceled := h.1
    rw [hnew] at hcanceled
    contradiction
  | refused h houtcomes =>
    refine iff_of_false (fun hcomplete => ?_) hfailure
    have hcalls := h.calls
    rw [← hcomplete.2.1] at hcalls
    simp at hcalls
  | failed h hstarted houtcomes hcode =>
    refine iff_of_false (fun hcomplete => ?_) hcode
    -- the last outcome is not an exit with 0
    have hall := hcomplete.2.2
    rw [houtcomes, hstarted, List.length_append, List.length_singleton, List.replicate_succ']
      at hall
    obtain ⟨-, hlast⟩ := List.append_inj' hall rfl
    cases hlast
    exact hcode rfl

/-- Work that was not canceled ends with the code of the last step, or with 1 if there was none. -/
theorem Ended.code_of_failed (h : Ended plan record c code)
    (hnew : c.bench.job.cancelRequested = false) (hcode : code ≠ 0) :
    (∀ fault, plan.settings.toolchainWords = .error fault → code = 1) ∧
      ∀ words, plan.settings.toolchainWords = .ok words →
        ∃ outcome, c.outcomes.getLast? = some outcome ∧ code = outcome.code := by
  cases h with
  | invalid hwords hstarted =>
    refine ⟨fun _ _ => rfl, fun words hok => ?_⟩
    rw [hwords] at hok
    contradiction
  | complete h => contradiction
  | canceled h =>
    have hcanceled := h.1
    rw [hnew] at hcanceled
    contradiction
  | refused h houtcomes =>
    refine ⟨fun _ _ => rfl, fun _ _ => ⟨.refused, ?_, rfl⟩⟩
    rw [houtcomes, List.getLast?_concat]
  | failed h hstarted houtcomes =>
    refine ⟨fun fault hfault => absurd (Plan.calls_of_error hfault record) h.nonempty,
      fun _ _ => ⟨.exited code, ?_, rfl⟩⟩
    rw [houtcomes, List.getLast?_concat]

end

/-! ## All together -/

/-- The record of a job that is finished with this code at this time. -/
def final (c : Course) (code : Int32) (now : Instant) : Record :=
  (c.bench.job.finish code now).record

/-- What a course of a job comes to. -/
structure Accounts (plan : Plan) (bench : Workbench) (moves : List Move) (c : Course) : Prop where
  requested : c.bench.job.cancelRequested = wasCanceled moves
  inOrder : c.started <+: plan.calls bench.job.record
  cleared : ∀ earlier call, earlier ++ [call] <+: c.started →
    Cleared plan bench moves earlier call
  /-- An upload is only started when the configuration is checked and the firmware is built. -/
  upload : ∀ words, plan.settings.toolchainWords = .ok words → bench.job.action = .ota →
    let document := plan.settings.documentPath bench.job.record.document
    words ++ uploadStep bench.job.record document ∈ c.started →
      Cleared plan bench moves
        [words ++ configStep document, words ++ compileStep bench.job.record document]
        (words ++ uploadStep bench.job.record document)
  invalid : ∀ fault, plan.settings.toolchainWords = .error fault → c.started = []
  success : ∀ code now, c.post = .finished code →
    ((c.final code now).state = .success ∧ (c.final code now).exitCode = some 0 ↔
      Complete plan bench.job.record c ∧ wasCanceled moves = false)
  canceled : ∀ code now, c.post = .finished code → wasCanceled moves = true →
    (c.final code now).state = .canceled ∧ (c.final code now).exitCode = some (-1)
  failed : ∀ code now, c.post = .finished code → wasCanceled moves = false →
    ¬ Complete plan bench.job.record c → (c.final code now).state = .failed ∧
      (∀ fault, plan.settings.toolchainWords = .error fault →
        (c.final code now).exitCode = some 1) ∧
      ∀ words, plan.settings.toolchainWords = .ok words →
        ∃ outcome, c.outcomes.getLast? = some outcome ∧
          (c.final code now).exitCode = some outcome.code

section

variable {plan : Plan} {bench : Workbench} {moves : List Move} {c : Course}

theorem Sound.ended (h : Sound plan bench moves c) {code : Int32} (hpost : c.post = .finished code) :
    Ended plan bench.job.record c code := by
  have hfits := h.fits
  rwa [Fits, hpost] at hfits

theorem Sound.accounts (h : Sound plan bench moves c) : Accounts plan bench moves c where
  requested := h.atWork.cancelRequested
  inOrder := h.fits.isPrefix
  cleared := h.cleared
  upload words hwords haction := by
    intro document hmem
    have hcalls : plan.calls bench.job.record =
        [words ++ configStep document, words ++ compileStep bench.job.record document] ++
          [words ++ uploadStep bench.job.record document] := by
      rw [Plan.calls_of_ok hwords, steps_of_ota haction]
      rfl
    have hprefix := h.fits.isPrefix
    rw [hcalls, List.prefix_concat_iff] at hprefix
    rcases hprefix with hall | hearlier
    · exact h.cleared _ _ (hall ▸ List.prefix_rfl)
    · have hsame := hearlier.subset hmem
      simp [configStep, compileStep, uploadStep] at hsame
  invalid fault hfault := by
    have hprefix := h.fits.isPrefix
    rw [Plan.calls_of_error hfault] at hprefix
    exact List.prefix_nil.1 hprefix
  success code now hpost := by
    have hended := h.ended hpost
    obtain ⟨hstate, hcode⟩ := h.atWork.finish code now
    cases hcanceled : wasCanceled moves with
    | true =>
      rw [hcanceled] at hstate
      rw [final, hstate]
      simp
    | false =>
      rw [hcanceled] at hstate hcode
      rw [final, hstate, hcode, hended.complete_iff (h.atWork.cancelRequested.trans hcanceled)]
      by_cases hzero : code = 0 <;> simp [hzero]
  canceled code now hpost hcanceled := by
    have hfinish := h.atWork.finish code now
    rwa [hcanceled] at hfinish
  failed code now hpost hnew hincomplete := by
    have hended := h.ended hpost
    have hflag := h.atWork.cancelRequested.trans hnew
    have hcode : code ≠ 0 := fun hzero => hincomplete ((hended.complete_iff hflag).2 hzero)
    obtain ⟨hstate, hexit⟩ := h.atWork.finish code now
    rw [hnew] at hstate hexit
    obtain ⟨hinvalid, hlast⟩ := hended.code_of_failed hflag hcode
    refine ⟨hstate.trans (if_neg hcode), fun fault hfault => ?_, fun words hwords => ?_⟩
    · exact hexit.trans (congrArg some (hinvalid fault hfault))
    · obtain ⟨outcome, houtcome, hcode⟩ := hlast words hwords
      exact ⟨outcome, houtcome, hexit.trans (congrArg some hcode)⟩

/-- Every course of a running job that nobody has asked to cancel yet comes to what it should. The
start of a pipeline and each of its turns are moves of a course, so every run of the steps comes to
what it should too. An update over the air is a build with an upload behind it, and the option for a
clean build does nothing to a session with the log of a device. -/
theorem accounts_of_run (hrunning : bench.job.state = .running)
    (hnew : bench.job.cancelRequested = false) (hrun : (start bench).run? plan moves = some c) :
    Accounts plan bench moves c ∧
    LeadsTo plan (start bench) (Pipeline.start plan bench) ∧
    (∀ (c : Course) p b turn, c.Meets (b, .going p) → p.advance? plan b = some turn →
      LeadsTo plan c turn) ∧
    (∀ meddle now b code, Visits meddle → runJob plan meddle now bench = some (b, code) →
      ∃ moves c, (start bench).run? plan moves = some c ∧ c.bench = b ∧ c.post = .finished code ∧
        Accounts plan bench moves c) ∧
    (∀ (r s : Record) document, r.action = .compile → s.action = .ota → s.clean = r.clean →
      steps s document = steps r document ++ [uploadStep s document]) ∧
    ∀ (r : Record) clean document, r.action = .logs →
      steps { r with clean } document = steps r document := by
  refine ⟨(sound_run hrunning hnew hrun).accounts, leads_pipeline plan bench,
    fun _ _ _ _ => leads_turn, ?_, ?_, ?_⟩
  · intro meddle now b code hmeddle hjob
    obtain ⟨moves, c, hrun, hbench, hpost⟩ := exists_course_of_runJob hmeddle hjob
    exact ⟨moves, c, hrun, hbench, hpost, (sound_run hrunning hnew hrun).accounts⟩
  · intro r s document hr hs hclean
    rw [steps_of_compile hr, steps_of_ota hs, compileStep, compileStep, cleanOption, cleanOption,
      hclean]
    rfl
  · intro r clean document hr
    have hsame : ({ r with clean } : Record).action = .logs := hr
    rw [steps_of_logs hsame, steps_of_logs hr]
    rfl

end

/-! ## A session that fails -/

def sitePlan : Plan :=
  { settings := { jobDir := "/jobs", workDir := "/", toolchain := "/bin/make", terminal := false }
    inherited := []
    logPath := "/jobs/lamp.log" }

def siteRecord : Record :=
  { Record.fresh "lamp" "lamp.yaml" .ota "lamp.local" false Job.noon with state := .running }

/-- A host with the toolchain and without a directory for logs. -/
def siteBench : Workbench :=
  ⟨.ofRecord siteRecord 10,
    { files := ⟨[(["bin"], .directory), (["bin", "make"], .program "make")]⟩ }⟩

/-- The configuration is found to be wrong, while an observer comes. -/
def siteMoves : List Move :=
  [.work, .work, .work, .meddle .attach, .work, .work, .work, .work, .hear (.exited 2), .work,
    .hear .closed, .work]

theorem run?_siteMoves : ((start siteBench).run? sitePlan siteMoves).map
    (fun c => (c.post, c.started, c.outcomes)) =
      some (.finished 2, [["/bin/make", "config", "/lamp.yaml"]], [.exited 2]) := rfl

/-- A toolchain that finds nothing to complain of. -/
def idlePlan : Plan :=
  { sitePlan with settings := { sitePlan.settings with toolchain := "/bin/true" } }

def idleBench : Workbench :=
  ⟨siteBench.job, { files := ⟨[(["bin"], .directory), (["bin", "true"], .program "true")]⟩ }⟩

theorem runJob_idleBench : (runJob idlePlan (fun j _ => j) Job.noon idleBench).map
    (fun (b, code) => (code, (b.job.finish code Job.noon).record.state,
      (b.job.finish code Job.noon).record.exitCode)) = some (0, .success, some 0) := by
  decide +kernel

/-- Nothing is compiled or uploaded, and the job fails with the code of the first step. With the
toolchain that is content the run comes to its end, and every step was done. -/
theorem accounts_of_siteMoves :
    (∃ c, siteBench.job.state = .running ∧
      siteBench.job.cancelRequested = false ∧ (start siteBench).run? sitePlan siteMoves = some c ∧
      c.started = [["/bin/make", "config", "/lamp.yaml"]] ∧
      (c.final 2 Job.noon).state = .failed ∧ (c.final 2 Job.noon).exitCode = some 2) ∧
    ∃ b moves c, runJob idlePlan (fun j _ => j) Job.noon idleBench = some (b, 0) ∧
      (start idleBench).run? idlePlan moves = some c ∧ c.bench = b ∧ c.post = .finished 0 ∧
      Complete idlePlan idleBench.job.record c ∧ wasCanceled moves = false := by
  constructor
  · obtain ⟨c, hrun, hc⟩ := Option.map_eq_some_iff.1 run?_siteMoves
    obtain ⟨hpost, hrest⟩ := Prod.mk.inj hc
    obtain ⟨hstarted, houtcomes⟩ := Prod.mk.inj hrest
    obtain ⟨haccounts, -⟩ := accounts_of_run rfl rfl hrun
    have hincomplete : ¬ Complete sitePlan siteBench.job.record c := by
      rintro ⟨-, -, hall⟩
      rw [houtcomes, hstarted] at hall
      revert hall
      decide
    obtain ⟨hstate, -, hlast⟩ := haccounts.failed 2 Job.noon hpost rfl hincomplete
    obtain ⟨outcome, houtcome, hexit⟩ := hlast ["/bin/make"] rfl
    rw [houtcomes] at houtcome
    cases houtcome
    exact ⟨c, rfl, rfl, hrun, hstarted, hstate, hexit⟩
  · obtain ⟨⟨b, code⟩, hjob, hb⟩ := Option.map_eq_some_iff.1 runJob_idleBench
    obtain ⟨rfl, hfinal⟩ := Prod.mk.inj hb
    obtain ⟨hstate, hexit⟩ := Prod.mk.inj hfinal
    have hvisits : Visits fun j _ => j := fun j _ => ⟨[], List.forall_mem_nil _, rfl⟩
    obtain ⟨-, -, -, hruns, -⟩ := accounts_of_run rfl rfl (run?_nil idlePlan (start idleBench))
    obtain ⟨moves, c, hrun, rfl, hpost, haccounts⟩ := hruns _ _ _ _ hvisits hjob
    obtain ⟨hcomplete, hnew⟩ := (haccounts.success 0 Job.noon hpost).1 ⟨hstate, hexit⟩
    exact ⟨_, moves, c, hjob, hrun, rfl, hpost, hcomplete, hnew⟩

end Toolchain.Course

end FirmwareJobs
