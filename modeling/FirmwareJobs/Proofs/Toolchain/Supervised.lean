import FirmwareJobs.Proofs.Toolchain.Session

/-!
# What a worker makes of a process

The worker leaves the loop when the process has exited and the streams are at their end, or when he
has waited for that end long enough, or because somebody asked to cancel the job. What he has taken
until then is published, and lines that are still in the queue are lost.
-/

namespace FirmwareJobs.Toolchain

open Capture Files

namespace Session

/-! ## The end of the loop -/

/-- The time is over that the worker waits for the end of the streams. -/
def isDue (s : Session) : Bool :=
  match s.course.post with
  | .looking _ v | .listening _ v => v.deadline.any (· ≤ s.course.bench.host.now)
  | _ => false

/-- The worker is about to give up the streams, as he was not told of their end. -/
def isLate (s : Session) : Bool :=
  match s.course.post with
  | .looking _ v => v.isOpen && v.deadline.any (· ≤ s.course.bench.host.now)
  | _ => false

/-- Something is true at every moment of some acts. -/
def Always (p : Session → Bool) (s : Session) (plan : Plan) (acts : List Act) : Prop :=
  ∀ before mid, before <+: acts → s.run? plan before = some mid → p mid = true

theorem always_iff {p : Session → Bool} {plan : Plan} {s : Session} {acts : List Act} :
    s.Always p plan acts ↔ ∀ before ∈ acts.inits, (s.run? plan before).all p = true := by
  simp only [Always, List.mem_inits, Option.all_eq_true]
  exact forall_congr' fun before => ⟨fun h hbefore mid => h mid hbefore,
    fun h mid hbefore => h hbefore mid⟩

instance (p : Session → Bool) (plan : Plan) (s : Session) (acts : List Act) :
    Decidable (s.Always p plan acts) :=
  decidable_of_iff _ always_iff.symm

theorem Always.of_append {p : Session → Bool} {plan : Plan} {s : Session} {acts more : List Act}
    (h : s.Always p plan (acts ++ more)) : s.Always p plan acts := fun before mid hbefore =>
  h before mid (hbefore.trans (List.prefix_append acts more))

/-- The streams end, and their last lines are sent, before the time is over that the worker waits
for that. -/
def EndsInTime : Session → Plan → List Act → Prop := Always fun s => !s.isDue || s.areDone

/-- The worker is told of the end of the streams before the time is over that he waits for it. -/
def HearsInTime : Session → Plan → List Act → Prop := Always fun s => !s.isLate

instance (plan : Plan) (s : Session) (acts : List Act) : Decidable (s.EndsInTime plan acts) :=
  inferInstanceAs (Decidable (Always _ s plan acts))

instance (plan : Plan) (s : Session) (acts : List Act) : Decidable (s.HearsInTime plan acts) :=
  inferInstanceAs (Decidable (Always _ s plan acts))

/-- What the worker knows while he listens and looks. -/
structure Loops (s : Session) (old : List Outcome) (acts : List Act) (v : Supervision) : Prop where
  outcomes : s.course.outcomes = old
  exit : ∃ e : Option Machine.Exit, exits acts = e.toList ∧ v.exit = e.map Machine.Exit.result
  closed : v.isOpen = false → s.isDrained = true

/-- How the step of a session can have ended. -/
inductive Left (s : Session) (plan : Plan) (first : Session) (acts : List Act) : Outcome → Prop
  | stopped (canceled : first.wasCanceled acts = true) : Left s plan first acts .stopped
  | exited {e : Machine.Exit} (told : exits acts = [e])
      (drained : first.HearsInTime plan acts → s.isDrained = true)
      (done : first.EndsInTime plan acts → s.areDone = true) :
      Left s plan first acts (.exited e.result)

/-- The process is gone and its step has ended. -/
structure Over (s : Session) (plan : Plan) (first : Session) (acts : List Act) : Prop where
  pid : s.course.bench.job.pid = none
  outcome : ∃ o, s.course.outcomes = first.course.outcomes ++ [o] ∧ s.Left plan first acts o

/-- What has become of the process, by the post of the worker. -/
structure Fits (s : Session) (plan : Plan) (first : Session) (acts : List Act) : Prop where
  loops : ∀ log v, s.course.post = .looking log v ∨ s.course.post = .listening log v →
    s.Loops first.course.outcomes acts v
  stopping : s.course.post = .stopping →
    s.course.outcomes = first.course.outcomes ∧ first.wasCanceled acts = true
  ended : s.course.post.isSupervising = false → s.Over plan first acts

section

variable {plan : Plan} {first s next : Session} {acts : List Act} {act : Act}
  {log : Option Place} {v : Supervision}

theorem fits_of_loops (hpost : s.course.post = .looking log v ∨ s.course.post = .listening log v)
    (h : s.Loops first.course.outcomes acts v) : s.Fits plan first acts := by
  constructor
  · rintro log' v' hpost'
    obtain rfl : v = v' := by
      rcases hpost with hat | hat <;> rw [hat] at hpost' <;> simp at hpost' <;> exact hpost'.2
    exact h
  · intro hstopping
    rcases hpost with hat | hat <;> rw [hat] at hstopping <;> contradiction
  · intro hover
    rcases hpost with hat | hat <;> rw [hat] at hover <;> contradiction

theorem fits_of_over (hpost : s.course.post.isSupervising = false) (h : s.Over plan first acts) :
    s.Fits plan first acts := by
  constructor
  · rintro log v (hat | hat) <;> rw [hat] at hpost <;> contradiction
  · intro hat
    rw [hat] at hpost
    contradiction
  · exact fun _ => h

theorem fits_start {c : Course} {streams : Nat} (hpost : c.post = .looking log {}) :
    (start c streams).Fits plan (start c streams) [] :=
  fits_of_loops (.inl hpost) ⟨rfl, ⟨none, rfl, rfl⟩, nofun⟩

theorem Left.aside {o : Outcome} (h : s.Left plan first acts o) (hexit : act.exit? = none)
    (hstep : Step plan s act next) : next.Left plan first (acts ++ [act]) o := by
  cases h with
  | stopped canceled => exact .stopped (by rw [wasCanceled_concat, canceled, Bool.true_or])
  | exited told drained done =>
    exact .exited ((exits_concat_of_none acts act hexit).trans told)
      (fun htime => isDrained_step (drained htime.of_append) hstep)
      fun htime => areDone_step (done htime.of_append) hstep

theorem Fits.aside (h : s.Fits plan first acts) (hstep : Step plan s act next)
    (hexit : act.exit? = none) (hpost : next.course.post = s.course.post)
    (houtcomes : next.course.outcomes = s.course.outcomes)
    (hpid : next.course.bench.job.pid = s.course.bench.job.pid) :
    next.Fits plan first (acts ++ [act]) := by
  have hexits := exits_concat_of_none acts act hexit
  constructor
  · intro log v hat
    rw [hpost] at hat
    have hloops := h.loops log v hat
    exact ⟨houtcomes.trans hloops.outcomes, hexits ▸ hloops.exit,
      fun hclosed => isDrained_step (hloops.closed hclosed) hstep⟩
  · intro hat
    obtain ⟨hold, hcanceled⟩ := h.stopping (hpost ▸ hat)
    exact ⟨houtcomes.trans hold, by rw [wasCanceled_concat, hcanceled, Bool.true_or]⟩
  · intro hat
    obtain ⟨hnone, o, ho, hleft⟩ := h.ended (hpost ▸ hat)
    exact ⟨hpid.trans hnone, o, houtcomes.trans ho, hleft.aside hexit hstep⟩

theorem isSupervising_conclude (c : Course) (o : Outcome) :
    (c.conclude o).post.isSupervising = false := by
  rw [Course.post_conclude]
  split_ifs <;> rfl

theorem verdict?_eq_finished {now : Nat} {canceled : Bool} {code : Int32}
    (h : v.verdict? now canceled = some (.finished code)) :
    v.exit = some code ∧ (v.isOpen = false ∨ v.deadline.any (· ≤ now) = true) := by
  cases canceled with
  | true => simp [Supervision.verdict?] at h
  | false =>
    cases hexit : v.exit with
    | none => simp [Supervision.verdict?, hexit] at h
    | some known =>
      obtain ⟨hend, rfl⟩ : (v.isOpen = false ∨ v.deadline.any (· ≤ now) = true) ∧ known = code := by
        simpa [Supervision.verdict?, hexit] using h
      exact ⟨rfl, hend⟩

theorem Fits.look (h : s.Fits plan first acts) (hrun : first.run? plan acts = some s)
    (hpost : s.course.post = .looking log v)
    (hflag : s.course.bench.job.cancelRequested = first.wasCanceled acts) :
    Fits { s with
      course := s.course.judge log v
        (v.verdict? s.course.bench.host.now s.course.bench.job.cancelRequested) }
      plan first (acts ++ [.work]) := by
  obtain ⟨hold, ⟨e, htold, hexit⟩, hclosed⟩ := h.loops log v (.inl hpost)
  have hexits : exits (acts ++ [.work]) = exits acts := exits_concat_of_none acts .work rfl
  cases hverdict : v.verdict? s.course.bench.host.now s.course.bench.job.cancelRequested with
  | none => exact fits_of_loops (.inr rfl) ⟨hold, ⟨e, hexits.trans htold, hexit⟩, hclosed⟩
  | some verdict =>
    cases verdict with
    | terminate =>
      have hcanceled : first.wasCanceled acts = true :=
        hflag.symm.trans (Course.verdict?_eq_terminate hverdict)
      refine ⟨by rintro _ _ (hat | hat) <;> contradiction, fun _ => ⟨hold, ?_⟩, nofun⟩
      rw [wasCanceled_concat, hcanceled, Bool.true_or]
    | finished code =>
      obtain ⟨hcode, hend⟩ := verdict?_eq_finished hverdict
      refine fits_of_over (isSupervising_conclude _ _) ⟨rfl, .exited code, ?_, ?_⟩
      · exact congrArg (· ++ [.exited code]) hold
      · cases e with
        | none =>
          rw [hexit] at hcode
          contradiction
        | some e =>
          obtain rfl : e.result = code := by simpa [hexit] using hcode
          refine .exited (hexits.trans htold) (fun htime => ?_) fun htime => ?_
          · -- the streams were given up only if this look comes too late
            by_contra hdrained
            have hopen : v.isOpen = true := by
              by_contra hnot
              exact hdrained (hclosed (by simpa using hnot))
            have hintime := htime acts s (List.prefix_append _ _) hrun
            rcases hend with hdone | hlate
            · exact absurd (hopen.symm.trans hdone) nofun
            · simp [isLate, hpost, hopen, hlate] at hintime
          · rcases hend with hdone | hlate
            · exact (isDrained_iff.1 (hclosed hdone)).2
            · have hintime := htime acts s (List.prefix_append _ _) hrun
              have hdone : s.areDone = true := by simpa [isDue, hpost, hlate] using hintime
              exact hdone

theorem Fits.step (h : s.Fits plan first acts) (hrun : first.run? plan acts = some s)
    (hflag : s.course.bench.job.cancelRequested = first.wasCanceled acts)
    (hstep : Step plan s act next) : next.Fits plan first (acts ++ [act]) := by
  have haside := h.aside hstep
  cases hstep with
  | read | send | world => exact haside rfl rfl rfl rfl
  | @meddle op hop => exact haside rfl rfl rfl (Job.pid_apply_of_isForeign _ hop)
  | @take log v sent rest hpost hopen hqueue =>
    obtain ⟨hold, hexit, -⟩ := h.loops log v (.inr hpost)
    rw [← exits_concat_of_none acts .take rfl] at hexit
    exact fits_of_loops (.inl rfl)
      ⟨hold, hexit, fun hclosed => absurd (hopen.symm.trans hclosed) nofun⟩
  | @close log v hpost hopen hall =>
    obtain ⟨hold, hexit, -⟩ := h.loops log v (.inr hpost)
    rw [← exits_concat_of_none acts .close rfl] at hexit
    exact fits_of_loops (.inl rfl) ⟨hold, hexit, fun _ => hall⟩
  | @exit log v e hpost hnone =>
    obtain ⟨hold, ⟨known, htold, hknown⟩, hclosed⟩ := h.loops log v (.inr hpost)
    obtain rfl : known = none := by simpa [hnone] using hknown.symm
    have hnote : v.note s.course.bench.host.now (.exited e.result) = { v with
        exit := some e.result
        deadline := some (s.course.bench.host.now + drainNanos) } := by
      simp [Supervision.note, hnone]
    refine fits_of_loops (.inl rfl) ⟨hold, ⟨some e, ?_, ?_⟩, ?_⟩
    · change exits acts = [] at htold
      simpa [exits, Act.exit?] using htold
    · rw [hnote]
      rfl
    · rw [hnote]
      exact hclosed
  | @tick log v hpost =>
    obtain ⟨hold, hexit, hclosed⟩ := h.loops log v (.inr hpost)
    rw [← exits_concat_of_none acts .tick rfl] at hexit
    exact fits_of_loops (.inl rfl) ⟨hold, hexit, hclosed⟩
  | look hpost => exact h.look hrun hpost hflag
  | stop hpost =>
    obtain ⟨hold, hcanceled⟩ := h.stopping hpost
    refine fits_of_over (isSupervising_conclude _ _) ⟨rfl, .stopped, ?_, .stopped ?_⟩
    · exact congrArg (· ++ [.stopped]) hold
    · rw [wasCanceled_concat, hcanceled, Bool.true_or]

end

/-! ## Whole sessions -/

/-- What holds at every moment of a session that began as `first` with a running job. -/
structure Sound (s : Session) (plan : Plan) (first : Session) (acts : List Act) : Prop where
  flow : s.Flow
  length : s.readers.length = first.readers.length
  atWork : s.course.bench.job.AtWork first.course.bench.job.record (first.wasCanceled acts)
  log : s.course.bench.job.log =
    first.course.bench.job.log.pushAll (emitted first.course.bench.job.action s.heard)
  fits : s.Fits plan first acts

section

variable {plan : Plan} {record : Record} {c : Course} {log : Option Place} {streams : Nat}
  {first s next : Session} {acts : List Act} {act : Act}

theorem atWork_step {canceled : Bool} (h : s.course.bench.job.AtWork record canceled)
    (hstep : Step plan s act next) :
    next.course.bench.job.AtWork record (canceled || act.isCancel) := by
  rcases hstep.move with ⟨hsame, hcancel⟩ | ⟨move, hmove, hcancel⟩
  · rw [hsame, hcancel, Bool.or_false]
    exact h
  · rw [← hcancel]
    exact Course.atWork_step h hmove

theorem sound_start (hpost : c.post = .looking log {}) (hrunning : c.bench.job.state = .running) :
    (start c streams).Sound plan (start c streams) [] where
  flow := flow_start c streams
  length := rfl
  atWork := ⟨hrunning, (Bool.or_false _).symm, .refl _⟩
  log := rfl
  fits := fits_start hpost

theorem Sound.step (h : s.Sound plan first acts) (hrun : first.run? plan acts = some s)
    (hstep : Step plan s act next) : next.Sound plan first (acts ++ [act]) := by
  constructor
  · exact h.flow.step hstep
  · exact (length_readers hstep).trans h.length
  · rw [wasCanceled_concat]
    exact atWork_step h.atWork hstep
  · obtain ⟨taken, hheard, hlog⟩ := log_step hstep
    have haction : s.course.bench.job.action = first.course.bench.job.action :=
      h.atWork.sameOrder.action
    rw [hlog, haction, h.log, hheard, emitted_append, Log.Window.pushAll_append]
  · exact h.fits.step hrun h.atWork.cancelRequested hstep

theorem sound_run (hpost : c.post = .looking log {}) (hrunning : c.bench.job.state = .running)
    (hrun : (start c streams).run? plan acts = some s) :
    s.Sound plan (start c streams) acts := by
  induction acts using List.reverseRecOn generalizing s with
  | nil =>
    cases hrun
    exact sound_start hpost hrunning
  | append_singleton acts act ih =>
    rw [run?_concat] at hrun
    obtain ⟨mid, hmid, hmake⟩ := Option.bind_eq_some_iff.1 hrun
    exact (ih hmid).step hmid (step_of_make? hmake)

/-- A process that is stopped, or is going to be. -/
structure Doomed (s : Session) (old : List Outcome) : Prop where
  canceled : s.course.bench.job.cancelRequested = true
  supervised : s.course.post.isSupervising = true → s.course.outcomes = old
  ended : s.course.post.isSupervising = false → s.course.outcomes = old ++ [.stopped]

theorem Doomed.of_same {old : List Outcome} (h : s.Doomed old)
    (hcanceled : next.course.bench.job.cancelRequested = true)
    (hpost : next.course.post.isSupervising = s.course.post.isSupervising)
    (houtcomes : next.course.outcomes = s.course.outcomes) : next.Doomed old :=
  ⟨hcanceled, fun hat => houtcomes.trans (h.supervised (hpost ▸ hat)),
    fun hat => houtcomes.trans (h.ended (hpost ▸ hat))⟩

theorem Doomed.step {old : List Outcome} {canceled : Bool} (h : s.Doomed old)
    (hjob : s.course.bench.job.AtWork record canceled) (hstep : Step plan s act next) :
    next.Doomed old := by
  have hcanceled : next.course.bench.job.cancelRequested = true := by
    rw [(atWork_step hjob hstep).cancelRequested, ← hjob.cancelRequested, h.canceled,
      Bool.true_or]
  cases hstep with
  | read | send | meddle | world => exact h.of_same hcanceled rfl rfl
  | take hpost | close hpost | exit hpost | tick hpost =>
    exact h.of_same hcanceled (by rw [hpost]; rfl) rfl
  | look hpost =>
    have hold := h.supervised (by rw [hpost]; rfl)
    have hverdict (v : Supervision) (now : Nat) :
        v.verdict? now s.course.bench.job.cancelRequested = some .terminate := if_pos h.canceled
    rw [hverdict] at hcanceled ⊢
    exact ⟨hcanceled, fun _ => hold, nofun⟩
  | stop hpost =>
    have hold := h.supervised (by rw [hpost]; rfl)
    refine ⟨hcanceled, fun hat => ?_, fun _ => congrArg (· ++ [Outcome.stopped]) hold⟩
    rw [isSupervising_conclude] at hat
    contradiction

/-- A request to cancel that comes before the worker has made up his mind stops the process. -/
theorem doomed_run (hpost : c.post = .looking log {}) (hrunning : c.bench.job.state = .running)
    {before after : List Act} {mid : Session}
    (hbefore : (start c streams).run? plan before = some mid)
    (hlooping : mid.course.post.isLooping = true)
    (hcanceled : (start c streams).wasCanceled before = true)
    (hrun : (start c streams).run? plan (before ++ after) = some s) : s.Doomed c.outcomes := by
  induction after using List.reverseRecOn generalizing s with
  | nil =>
    rw [List.append_nil, hbefore] at hrun
    cases hrun
    have hsound := sound_run hpost hrunning hbefore
    have hflag := hsound.atWork.cancelRequested.trans hcanceled
    cases hat : mid.course.post with
    | looking log v =>
      exact ⟨hflag, fun _ => (hsound.fits.loops log v (.inl hat)).outcomes,
        fun hnot => by rw [hat] at hnot; contradiction⟩
    | listening log v =>
      exact ⟨hflag, fun _ => (hsound.fits.loops log v (.inr hat)).outcomes,
        fun hnot => by rw [hat] at hnot; contradiction⟩
    | _ =>
      rw [hat] at hlooping
      contradiction
  | append_singleton after act ih =>
    rw [← List.append_assoc, run?_concat] at hrun
    obtain ⟨last, hlast, hmake⟩ := Option.bind_eq_some_iff.1 hrun
    exact (ih hlast).step (sound_run hpost hrunning hlast).atWork (step_of_make? hmake)

end

/-! ## What is returned -/

/-- These lines, each with the number of its stream, are all the lines of the streams, those of each
stream in their order. -/
structure Merges (streams : List (List String)) (lines : List (Nat × String)) : Prop where
  known : ∀ sent ∈ lines, sent.1 < streams.length
  ofStream : ∀ (i : Nat) (stream : List String), streams[i]? = some stream →
    ofStream i lines = stream

/-- The streams are at their end, and the worker has taken everything that they had. -/
structure Captured (s : Session) : Prop where
  ended : ∀ r ∈ s.readers, r.ended = true
  merges : Merges (s.readers.map fun r => readLines r.reads) s.heard

/-- The step has ended with this code. -/
def Returns (first s : Session) (code : Int32) : Prop :=
  ∃ o, s.course.outcomes = first.course.outcomes ++ [o] ∧ o.code = code

/-- What is known of a session that is over. Whatever the worker has taken is published, and it is
the beginning of what each stream had. Where the streams end in time, lines are lost exactly if some
are left in the queue. -/
structure Accounted (plan : Plan) (first s : Session) (acts : List Act) : Prop where
  pid : s.course.bench.job.pid = none
  canceled : ∀ before after mid, acts = before ++ after → first.run? plan before = some mid →
    mid.course.post.isLooping = true → first.wasCanceled before = true → Returns first s 1
  exited : first.wasCanceled acts = false → ∃ e, exits acts = [e] ∧ Returns first s e.result
  published : s.course.bench.job.log = first.course.bench.job.log.pushAll
    (emitted first.course.bench.job.action s.heard)
  known : ∀ sent ∈ s.heard, sent.1 < s.readers.length
  isPrefix : ∀ (i : Nat) (r : Reader), s.readers[i]? = some r →
    ofStream i s.heard <+: readLines r.reads
  captured : first.wasCanceled acts = false → first.HearsInTime plan acts → s.Captured
  captured_iff : first.wasCanceled acts = false → first.EndsInTime plan acts →
    (s.Captured ↔ s.queue = [])

section

variable {plan : Plan} {c : Course} {log : Option Place} {streams : Nat} {s : Session}
  {acts : List Act}

theorem Flow.captured (h : s.Flow) (hdrained : s.isDrained = true) : s.Captured := by
  refine ⟨fun r hr => ?_, fun sent hsent => ?_, fun i stream hstream => ?_⟩
  · obtain ⟨i, hreader⟩ := List.mem_iff_getElem?.1 hr
    exact (h.heard_eq hdrained hreader).1
  · rw [List.length_map]
    exact h.known sent (List.mem_append_left _ hsent)
  · rw [List.getElem?_map] at hstream
    obtain ⟨r, hreader, rfl⟩ := Option.map_eq_some_iff.1 hstream
    exact (h.heard_eq hdrained hreader).2

theorem Flow.captured_iff (h : s.Flow) (hdone : s.areDone = true) : s.Captured ↔ s.queue = [] := by
  refine ⟨fun hcaptured => ?_, fun hqueue => h.captured (isDrained_iff.2 ⟨hqueue, hdone⟩)⟩
  refine h.queue_eq_nil fun i r hreader => hcaptured.merges.ofStream i _ ?_
  rw [List.getElem?_map, hreader, Option.map_some]

theorem accounted_of_run (hpost : c.post = .looking log {})
    (hrunning : c.bench.job.state = .running) (hrun : (start c streams).run? plan acts = some s)
    (hover : s.course.post.isSupervising = false) : Accounted plan (start c streams) s acts := by
  have hsound := sound_run hpost hrunning hrun
  obtain ⟨hpid, o, houtcomes, hleft⟩ := hsound.fits.ended hover
  have hexited (hnot : (start c streams).wasCanceled acts = false) : ∃ e, o = .exited e.result ∧
      exits acts = [e] ∧ ((start c streams).HearsInTime plan acts → s.isDrained = true) ∧
        ((start c streams).EndsInTime plan acts → s.areDone = true) := by
    cases hleft with
    | stopped canceled =>
      rw [hnot] at canceled
      contradiction
    | @exited e told drained done => exact ⟨e, rfl, told, drained, done⟩
  constructor
  · exact hpid
  · -- whoever is still in the loop then looks at the request before anything else
    rintro before after mid rfl hbefore hlooping hasked
    exact ⟨_, (doomed_run hpost hrunning hbefore hlooping hasked hrun).ended hover, rfl⟩
  · intro hnot
    obtain ⟨e, rfl, htold, -⟩ := hexited hnot
    exact ⟨e, htold, _, houtcomes, rfl⟩
  · exact hsound.log
  · exact fun sent hsent => hsound.flow.known sent (List.mem_append_left _ hsent)
  · exact fun i r hreader => hsound.flow.isPrefix hreader
  · intro hnot htime
    obtain ⟨-, -, -, hdrained, -⟩ := hexited hnot
    exact hsound.flow.captured (hdrained htime)
  · intro hnot htime
    obtain ⟨-, -, -, -, hdone⟩ := hexited hnot
    exact hsound.flow.captured_iff (hdone htime)

end

end Session

/-! ## The id of the process -/

namespace Course

variable {plan : Plan} {c next : Course} {move : Move}

/-- Whoever has no process to supervise has no id of one. -/
def IsVacant (c : Course) : Prop := c.post.isSupervising = false → c.bench.job.pid = none

theorem IsVacant.of_idle (h : c.IsVacant) (hpost : c.post.isSupervising = false)
    (hpid : next.bench.job.pid = c.bench.job.pid) : next.IsVacant := fun _ => hpid.trans (h hpost)

theorem IsVacant.step (h : c.IsVacant) (hstep : Step plan c move next) : next.IsVacant := by
  cases hstep with
  | launch | listen | terminate | hear => exact nofun
  | exit | stop => exact fun _ => rfl
  | meddle hop => exact fun hpost => (Job.pid_apply_of_isForeign _ hop).trans (h hpost)
  | world => exact h
  | report hpost | openLog hpost =>
    exact h.of_idle (by rw [hpost]; rfl) (congrArg Job.pid (job_openLog c.bench plan))
  | invalid hpost | prepare hpost | finish hpost | skip hpost | next hpost | announce hpost
  | withdraw hpost | confirm hpost | refuse hpost | fail hpost | explain hpost =>
    exact h.of_idle (by rw [hpost]; rfl) rfl

theorem isVacant_run {bench : Workbench} {moves : List Move} (hnew : bench.job.pid = none)
    (hrun : (start bench).run? plan moves = some c) : c.IsVacant := by
  induction moves using List.reverseRecOn generalizing c with
  | nil =>
    cases hrun
    exact fun _ => hnew
  | append_singleton moves move ih =>
    rw [run?_concat] at hrun
    obtain ⟨mid, hmid, hmake⟩ := Option.bind_eq_some_iff.1 hrun
    exact (ih hmid).step (step_of_make? hmake)

end Course

end FirmwareJobs.Toolchain
