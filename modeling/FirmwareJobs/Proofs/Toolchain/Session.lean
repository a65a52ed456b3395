import FirmwareJobs.Proofs.Job.Noninterference
import FirmwareJobs.Proofs.Toolchain.Account

/-!
# Listening to a process

Each stream of a process has a reader. It cuts what it reads into lines and puts them into one
queue, one line at a time. The worker takes lines out of the queue, is told when all readers are at
their end, when the process has exited and when time has passed, and looks after each notice whether
it is done. All of them go on in any order, and so do those who do not work on the job.
-/

namespace FirmwareJobs

namespace Job

theorem Operation.line?_of_isForeign {op : Operation} (h : op.isForeign = true) :
    op.line? = none := by
  cases op with
  | publish => contradiction
  | _ => rfl

theorem pid_apply_of_isForeign (j : Job) {op : Operation} (h : op.isForeign = true) :
    (j.apply op).pid = j.pid := by
  by_cases hwork : op.isWork = true
  · exact j.pid_of_work hwork (by rintro pid rfl; contradiction)
  · exact (sameEngine_apply j (by simpa using hwork)).pid

end Job

namespace Toolchain

open Capture Files

/-! ## Readers -/

/-- A reader with all that it has read, and the lines of its last read that are not sent yet. -/
structure Reader where
  reads : List Read := []
  splitter : Splitter := {}
  unsent : List String := []
  ended : Bool := false
  deriving DecidableEq

namespace Reader

/-- Whether the reader has sent the last line of its stream. -/
def isDone (r : Reader) : Bool := r.ended && r.unsent.isEmpty

/-- The stream has ended; what is left of it is the last line. -/
def finish (r : Reader) : Reader :=
  { r with unsent := r.splitter.finish.1.toList, ended := true }

def take (r : Reader) : Read → Reader
  | .bytes chunk =>
    if chunk.isEmpty then r.finish
    else { r with splitter := (r.splitter.feed chunk).2, unsent := (r.splitter.feed chunk).1 }
  | .interrupted => r
  | .failed => r.finish

/-- Read once more; `none` if there are lines to be sent first or the stream has ended. -/
def read? (r : Reader) (x : Read) : Option Reader :=
  if r.ended || !r.unsent.isEmpty then none
  else some ({ r with reads := r.reads ++ [x] }.take x)

/-- The reader has sent these lines, and with those that it still has to send they are the lines of
its stream, whatever it reads later. -/
def Tells (r : Reader) (sent : List String) : Prop :=
  ∀ later, readLines (r.reads ++ later) =
    sent ++ r.unsent ++ if r.ended then [] else readLinesFrom r.splitter later

theorem tells_init : Tells {} [] := fun _ => rfl

theorem Tells.finish {r : Reader} {sent : List String} {x : Read} (h : r.Tells sent)
    (hopen : r.ended = false) (hsent : r.unsent = [])
    (hend : ∀ later, readLinesFrom r.splitter (x :: later) = r.splitter.finish.1.toList) :
    Tells ({ r with reads := r.reads ++ [x] }.finish) sent := by
  intro later
  have hlines := h (x :: later)
  rw [hopen, hsent, if_neg Bool.false_ne_true, hend] at hlines
  simp only [Reader.finish, List.append_assoc, List.singleton_append, if_true, hlines]
  simp

theorem Tells.read {r next : Reader} {sent : List String} {x : Read} (h : r.Tells sent)
    (hread : r.read? x = some next) : next.Tells sent := by
  unfold read? at hread
  split_ifs at hread with hbusy
  obtain ⟨hopen, hsent⟩ : r.ended = false ∧ r.unsent = [] := by simpa using hbusy
  cases hread
  cases x with
  | bytes chunk =>
    rw [take]
    split_ifs with hempty
    · exact h.finish hopen hsent fun later => if_pos hempty
    · intro later
      have hlines := h (.bytes chunk :: later)
      rw [hopen, hsent, if_neg Bool.false_ne_true, readLinesFrom, if_neg hempty] at hlines
      simp [hopen, hlines]
  | interrupted =>
    intro later
    have hlines := h (.interrupted :: later)
    rw [hopen, hsent, if_neg Bool.false_ne_true, readLinesFrom] at hlines
    simp [take, hopen, hsent, hlines]
  | failed => exact h.finish hopen hsent fun later => rfl

theorem Tells.send {r : Reader} {sent rest : List String} {line : String} (h : r.Tells sent)
    (hunsent : r.unsent = line :: rest) :
    Tells { r with unsent := rest } (sent ++ [line]) := by
  intro later
  have hlines := h later
  rw [hunsent] at hlines
  simp [hlines]

theorem Tells.of_isDone {r : Reader} {sent : List String} (h : r.Tells sent)
    (hdone : r.isDone = true) : sent = readLines r.reads := by
  obtain ⟨hended, hunsent⟩ : r.ended = true ∧ r.unsent = [] := by simpa [isDone] using hdone
  have hlines := h []
  simpa [hended, hunsent] using hlines.symm

end Reader

/-! ## Sessions -/

/-- The worker listens to a process or looks at it. -/
def Post.isLooping : Post → Bool
  | .looking .. | .listening .. => true
  | _ => false

/-- The worker has a process that he listens to or stops. -/
def Post.isSupervising : Post → Bool
  | .looking .. | .listening .. | .stopping => true
  | _ => false

/-- Whether the worker listens and what he knows is such. -/
def Course.hears (c : Course) (p : Supervision → Bool) : Bool :=
  match c.post with
  | .listening _ v => p v
  | _ => false

/-- A job whose worker listens to a process: the readers of its streams, the lines that were sent
and not taken yet, and those that were taken, each with the number of its stream. -/
structure Session where
  course : Course
  readers : List Reader
  queue : List (Nat × String) := []
  heard : List (Nat × String) := []

inductive Act where
  /-- A reader reads from its stream. -/
  | read (stream : Nat) (x : Read)
  /-- A reader sends a line. -/
  | send (stream : Nat)
  | take
  | close
  | exit (e : Machine.Exit)
  | tick
  | work
  | meddle (op : Job.Operation)
  | world (host : Machine.Host)

namespace Act

def isCancel : Act → Bool
  | .meddle op => op.isCancel
  | _ => false

def exit? : Act → Option Machine.Exit
  | .exit e => some e
  | _ => none

end Act

namespace Session

/-- A process with so many streams has just been started. -/
def start (c : Course) (streams : Nat) : Session :=
  { course := c, readers := List.replicate streams {} }

/-- All readers have sent the last line of their streams. -/
def areDone (s : Session) : Bool := s.readers.all Reader.isDone

/-- All lines were sent and taken. -/
def isDrained (s : Session) : Bool := s.queue.isEmpty && s.areDone

def move? (plan : Plan) (s : Session) (move : Move) : Option Session :=
  (s.course.make? plan move).map fun course => { s with course }

/-- One act; `none` if it is not the time for it. -/
def make? (plan : Plan) (s : Session) : Act → Option Session
  | .read i x => (s.readers[i]?.bind (·.read? x)).map fun r =>
    { s with readers := s.readers.set i r }
  | .send i =>
    match s.readers[i]? with
    | none => none
    | some r =>
      match r.unsent with
      | [] => none
      | line :: rest => some { s with
          readers := s.readers.set i { r with unsent := rest }, queue := s.queue ++ [(i, line)] }
  | .take =>
    match s.queue with
    | [] => none
    | sent :: rest =>
      if s.course.hears (·.isOpen) then
        { s with queue := rest, heard := s.heard ++ [sent] }.move? plan (.hear (.line sent.2))
      else none
  | .close =>
    if s.isDrained && s.course.hears (·.isOpen) then s.move? plan (.hear .closed) else none
  | .exit e =>
    if s.course.hears (·.exit.isNone) then s.move? plan (.hear (.exited e.result)) else none
  | .tick => s.move? plan (.hear .tick)
  | .work => if s.course.post.isSupervising then s.move? plan .work else none
  | .meddle op => s.move? plan (.meddle op)
  | .world host => s.move? plan (.world host)

def run? (plan : Plan) (s : Session) (acts : List Act) : Option Session :=
  acts.foldlM (make? plan) s

@[simp] theorem run?_nil (plan : Plan) (s : Session) : s.run? plan [] = some s := rfl

theorem run?_append (plan : Plan) (s : Session) (acts more : List Act) :
    s.run? plan (acts ++ more) = (s.run? plan acts).bind (·.run? plan more) := List.foldlM_append

theorem run?_concat (plan : Plan) (s : Session) (acts : List Act) (act : Act) :
    s.run? plan (acts ++ [act]) = (s.run? plan acts).bind (·.make? plan act) := by
  simp [run?, List.foldlM_append]

/-- Whether somebody asked to cancel the job, in these acts or before. -/
def wasCanceled (s : Session) (acts : List Act) : Bool :=
  s.course.bench.job.cancelRequested || acts.any Act.isCancel

/-- The exits of the process that the worker was told. -/
def exits (acts : List Act) : List Machine.Exit := acts.filterMap Act.exit?

theorem wasCanceled_concat (s : Session) (acts : List Act) (act : Act) :
    s.wasCanceled (acts ++ [act]) = (s.wasCanceled acts || act.isCancel) := by
  simp [wasCanceled, Bool.or_assoc]

theorem exits_concat_of_none (acts : List Act) (act : Act) (h : act.exit? = none) :
    exits (acts ++ [act]) = exits acts := by
  simp [exits, h]

/-! ### What an act does -/

/-- The worker takes up a notice. -/
def hear (s : Session) (log : Option Place) (v : Supervision) (notice : Notice) : Session :=
  { s with course := { s.course with
      bench := s.course.bench.hear log notice
      post := .looking log (v.note s.course.bench.host.now notice) } }

/-- The acts that can be done. -/
inductive Step (plan : Plan) (s : Session) : Act → Session → Prop where
  | read {i : Nat} {r next : Reader} {x : Read} (hreader : s.readers[i]? = some r)
      (hread : r.read? x = some next) :
      Step plan s (.read i x) { s with readers := s.readers.set i next }
  | send {i : Nat} {r : Reader} {line : String} {rest : List String}
      (hreader : s.readers[i]? = some r) (hunsent : r.unsent = line :: rest) :
      Step plan s (.send i) { s with
        readers := s.readers.set i { r with unsent := rest }, queue := s.queue ++ [(i, line)] }
  | take {log : Option Place} {v : Supervision} {sent : Nat × String} {rest : List (Nat × String)}
      (hpost : s.course.post = .listening log v) (hopen : v.isOpen = true)
      (hqueue : s.queue = sent :: rest) :
      Step plan s .take
        ({ s with queue := rest, heard := s.heard ++ [sent] }.hear log v (.line sent.2))
  | close {log : Option Place} {v : Supervision} (hpost : s.course.post = .listening log v)
      (hopen : v.isOpen = true) (hdrained : s.isDrained = true) :
      Step plan s .close (s.hear log v .closed)
  | exit {log : Option Place} {v : Supervision} {e : Machine.Exit}
      (hpost : s.course.post = .listening log v) (hexit : v.exit = none) :
      Step plan s (.exit e) (s.hear log v (.exited e.result))
  | tick {log : Option Place} {v : Supervision} (hpost : s.course.post = .listening log v) :
      Step plan s .tick (s.hear log v .tick)
  | look {log : Option Place} {v : Supervision} (hpost : s.course.post = .looking log v) :
      Step plan s .work { s with
        course := s.course.judge log v
          (v.verdict? s.course.bench.host.now s.course.bench.job.cancelRequested) }
  | stop (hpost : s.course.post = .stopping) :
      Step plan s .work { s with course := s.course.conclude .stopped }
  | meddle {op : Job.Operation} (hop : op.isForeign = true) :
      Step plan s (.meddle op)
        { s with course := { s.course with bench := s.course.bench.operate op } }
  | world {host : Machine.Host} :
      Step plan s (.world host)
        { s with course := { s.course with bench := { s.course.bench with host } } }

theorem move?_hear {plan : Plan} {s next : Session} {notice : Notice}
    (h : s.move? plan (.hear notice) = some next) :
    ∃ log v, s.course.post = .listening log v ∧ next = s.hear log v notice := by
  unfold move? Course.make? at h
  dsimp only at h
  split at h
  · next log v hpost =>
    cases h
    exact ⟨log, v, hpost, rfl⟩
  · contradiction

theorem hears_eq {c : Course} {log : Option Place} {v : Supervision}
    (hpost : c.post = .listening log v) (p : Supervision → Bool) : c.hears p = p v := by
  simp [Course.hears, hpost]

theorem step_of_work? {plan : Plan} {s : Session} {course : Course}
    (hsupervising : s.course.post.isSupervising = true)
    (h : s.course.work? plan = some course) : Step plan s .work { s with course } := by
  unfold Course.work? at h
  cases hpost : s.course.post with
  | looking log v =>
    rw [hpost] at h
    cases h
    exact .look hpost
  | stopping =>
    rw [hpost] at h
    cases h
    exact .stop hpost
  | listening log v =>
    rw [hpost] at h
    contradiction
  | _ =>
    rw [hpost] at hsupervising
    contradiction

theorem step_of_make? {plan : Plan} {s next : Session} {act : Act}
    (h : s.make? plan act = some next) : Step plan s act next := by
  unfold make? at h
  cases act with
  | read i x =>
    obtain ⟨r', hr', rfl⟩ := Option.map_eq_some_iff.1 h
    obtain ⟨r, hreader, hread⟩ := Option.bind_eq_some_iff.1 hr'
    exact .read hreader hread
  | send i =>
    dsimp only at h
    split at h
    · contradiction
    · next r hreader =>
      split at h
      · contradiction
      · next line rest hunsent =>
        cases h
        exact .send hreader hunsent
  | take =>
    dsimp only at h
    split at h
    · contradiction
    · next sent rest hqueue =>
      split_ifs at h with hhears
      obtain ⟨log, v, hpost, rfl⟩ := move?_hear h
      exact .take hpost (by rwa [hears_eq hpost] at hhears) hqueue
  | close =>
    dsimp only at h
    split_ifs at h with hclose
    obtain ⟨hdrained, hhears⟩ := Bool.and_eq_true_iff.1 hclose
    obtain ⟨log, v, hpost, rfl⟩ := move?_hear h
    exact .close hpost (by rwa [hears_eq hpost] at hhears) hdrained
  | exit e =>
    dsimp only at h
    split_ifs at h with hhears
    obtain ⟨log, v, hpost, rfl⟩ := move?_hear h
    exact .exit hpost (by simpa [hears_eq hpost] using hhears)
  | tick =>
    obtain ⟨log, v, hpost, rfl⟩ := move?_hear h
    exact .tick hpost
  | work =>
    dsimp only at h
    split_ifs at h with hsupervising
    obtain ⟨course, hwork, rfl⟩ := Option.map_eq_some_iff.1 h
    exact step_of_work? hsupervising hwork
  | meddle op =>
    obtain ⟨course, hmake, rfl⟩ := Option.map_eq_some_iff.1 h
    rw [Course.make?] at hmake
    split_ifs at hmake with hop
    cases hmake
    exact .meddle hop
  | world host =>
    obtain ⟨course, hmake, rfl⟩ := Option.map_eq_some_iff.1 h
    cases hmake
    exact .world

theorem Step.move {plan : Plan} {s next : Session} {act : Act} (h : Step plan s act next) :
    next.course = s.course ∧ act.isCancel = false ∨
      ∃ move, Course.Step plan s.course move next.course ∧ move.isCancel = act.isCancel := by
  cases h with
  | read | send => exact .inl ⟨rfl, rfl⟩
  | take hpost | close hpost | exit hpost | tick hpost => exact .inr ⟨_, .hear hpost, rfl⟩
  | look hpost => exact .inr ⟨_, Course.step_judge plan hpost, rfl⟩
  | stop hpost => exact .inr ⟨_, .stop hpost, rfl⟩
  | meddle hop => exact .inr ⟨_, .meddle hop, rfl⟩
  | world => exact .inr ⟨_, .world, rfl⟩

/-! ### The lines on their way -/

/-- The lines of one stream. -/
def ofStream (i : Nat) (lines : List (Nat × String)) : List String :=
  lines.filterMap fun sent => if sent.1 = i then some sent.2 else none

theorem ofStream_append (i : Nat) (lines more : List (Nat × String)) :
    ofStream i (lines ++ more) = ofStream i lines ++ ofStream i more := List.filterMap_append

@[simp] theorem ofStream_singleton (i k : Nat) (line : String) :
    ofStream i [(k, line)] = if k = i then [line] else [] := by
  unfold ofStream
  split_ifs with h <;> simp [h]

/-- The lines that were taken or are in the queue are those that the readers have sent. -/
structure Flow (s : Session) : Prop where
  tells : ∀ (i : Nat) (r : Reader), s.readers[i]? = some r →
    r.Tells (ofStream i (s.heard ++ s.queue))
  known : ∀ sent ∈ s.heard ++ s.queue, sent.1 < s.readers.length

theorem flow_start (c : Course) (streams : Nat) : (start c streams).Flow := by
  constructor
  · intro i r hreader
    obtain ⟨-, rfl⟩ : i < streams ∧ {} = r := by
      simpa [start, List.getElem?_replicate] using hreader
    exact Reader.tells_init
  · simp [start]

theorem Flow.congr {s next : Session} (h : s.Flow) (hreaders : next.readers = s.readers)
    (hlines : next.heard ++ next.queue = s.heard ++ s.queue) : next.Flow := by
  constructor
  · rw [hreaders, hlines]
    exact h.tells
  · rw [hreaders, hlines]
    exact h.known

theorem Flow.step {plan : Plan} {s next : Session} {act : Act} (h : s.Flow)
    (hstep : Step plan s act next) : next.Flow := by
  cases hstep with
  | @read i r r' x hreader hread =>
    refine ⟨fun k t ht => ?_, by simpa using h.known⟩
    rw [List.getElem?_set] at ht
    split_ifs at ht with hk
    · obtain rfl := Option.some.inj ht
      exact (h.tells k r (hk ▸ hreader)).read hread
    · exact h.tells k t ht
  | @send i r line rest hreader hunsent =>
    have hi : i < s.readers.length := (List.getElem?_eq_some_iff.1 hreader).1
    constructor
    · intro k t ht
      simp only [← List.append_assoc, ofStream_append, ofStream_singleton]
      rw [List.getElem?_set] at ht
      split_ifs at ht with hk
      · obtain rfl := Option.some.inj ht
        rw [if_pos hk, ← ofStream_append]
        exact (h.tells k r (hk ▸ hreader)).send hunsent
      · rw [if_neg hk, List.append_nil, ← ofStream_append]
        exact h.tells k t ht
    · simp only [← List.append_assoc, List.length_set]
      exact List.forall_mem_append.2 ⟨h.known, by simpa using hi⟩
  | take hpost hopen hqueue =>
    -- the first line of the queue becomes the last one that was taken
    exact h.congr rfl (by simp [hear, hqueue])
  | close | exit | tick | look | stop | meddle | world => exact h.congr rfl rfl

theorem length_readers {plan : Plan} {s next : Session} {act : Act} (h : Step plan s act next) :
    next.readers.length = s.readers.length := by
  cases h with
  | read | send => exact List.length_set
  | _ => rfl

theorem areDone_iff {s : Session} : s.areDone = true ↔ ∀ r ∈ s.readers, r.isDone = true :=
  List.all_eq_true

theorem isDrained_iff {s : Session} : s.isDrained = true ↔ s.queue = [] ∧ s.areDone = true := by
  rw [isDrained, Bool.and_eq_true, List.isEmpty_iff]

theorem areDone_step {plan : Plan} {s next : Session} {act : Act} (h : s.areDone = true)
    (hstep : Step plan s act next) : next.areDone = true := by
  have hdone := areDone_iff.1 h
  -- a reader that is done neither reads nor sends
  cases hstep with
  | read hreader hread =>
    have hended := hdone _ (List.mem_of_getElem? hreader)
    simp_all [Reader.isDone, Reader.read?]
  | send hreader hunsent =>
    have hended := hdone _ (List.mem_of_getElem? hreader)
    simp [Reader.isDone, hunsent] at hended
  | take | close | exit | tick | look | stop | meddle | world => exact h

/-- Where all lines have come through there is nothing more to come. -/
theorem isDrained_step {plan : Plan} {s next : Session} {act : Act} (h : s.isDrained = true)
    (hstep : Step plan s act next) : next.isDrained = true := by
  obtain ⟨hqueue, hdone⟩ := isDrained_iff.1 h
  refine isDrained_iff.2 ⟨?_, areDone_step hdone hstep⟩
  cases hstep with
  | send hreader hunsent =>
    have hended := areDone_iff.1 hdone _ (List.mem_of_getElem? hreader)
    simp [Reader.isDone, hunsent] at hended
  | take hpost hopen hmore =>
    rw [hqueue] at hmore
    contradiction
  | read | close | exit | tick | look | stop | meddle | world => exact hqueue

/-- What was taken of a stream is the beginning of its lines. -/
theorem Flow.isPrefix {s : Session} (h : s.Flow) {i : Nat} {r : Reader}
    (hreader : s.readers[i]? = some r) : ofStream i s.heard <+: readLines r.reads := by
  have htells := h.tells i r hreader []
  rw [List.append_nil, ofStream_append, List.append_assoc, List.append_assoc] at htells
  exact htells ▸ List.prefix_append _ _

theorem Flow.heard_eq {s : Session} (h : s.Flow) (hdrained : s.isDrained = true) {i : Nat}
    {r : Reader} (hreader : s.readers[i]? = some r) :
    r.ended = true ∧ ofStream i s.heard = readLines r.reads := by
  obtain ⟨hqueue, hdone⟩ := isDrained_iff.1 hdrained
  have hend := areDone_iff.1 hdone r (List.mem_of_getElem? hreader)
  have htells := h.tells i r hreader
  rw [hqueue, List.append_nil] at htells
  exact ⟨(Bool.and_eq_true_iff.1 hend).1, htells.of_isDone hend⟩

/-- A line in the queue is missing from what was taken of its stream. -/
theorem Flow.queue_eq_nil {s : Session} (h : s.Flow)
    (hheard : ∀ (i : Nat) (r : Reader), s.readers[i]? = some r →
      ofStream i s.heard = readLines r.reads) : s.queue = [] := by
  rw [List.eq_nil_iff_forall_not_mem]
  rintro ⟨i, line⟩ hmem
  have hi := h.known (i, line) (List.mem_append_right _ hmem)
  have hreader := List.getElem?_eq_getElem hi
  have htells := h.tells i _ hreader []
  rw [List.append_nil, ofStream_append, ← hheard i _ hreader, List.append_assoc,
    List.append_assoc, List.self_eq_append_right, List.append_eq_nil_iff] at htells
  have hnone : line ∈ ofStream i s.queue := List.mem_filterMap.2 ⟨(i, line), hmem, if_pos rfl⟩
  rw [htells.1] at hnone
  contradiction

/-! ### The log -/

/-- What is published of some lines of a process. -/
def emitted (action : Action) (lines : List (Nat × String)) : List String :=
  lines.filterMap fun sent => clean? action sent.2

theorem emitted_append (action : Action) (lines more : List (Nat × String)) :
    emitted action (lines ++ more) = emitted action lines ++ emitted action more :=
  List.filterMap_append

theorem log_hear (b : Workbench) (log : Option Place) (sent : Nat × String) :
    (b.hear log (.line sent.2)).job.log = b.job.log.pushAll (emitted b.job.action [sent]) := by
  unfold Workbench.hear Workbench.output
  dsimp only
  split
  · next line hclean =>
    rw [show emitted b.job.action [sent] = [line] by simp [emitted, hclean]]
    rfl
  · next hclean =>
    rw [show emitted b.job.action [sent] = [] by simp [emitted, hclean]]
    rfl

theorem log_judge (c : Course) (log : Option Place) (v : Supervision) (verdict : Option Verdict) :
    (c.judge log v verdict).bench.job.log = c.bench.job.log := by
  cases verdict with
  | none => rfl
  | some verdict => cases verdict <;> rfl

theorem log_step {plan : Plan} {s next : Session} {act : Act} (h : Step plan s act next) :
    ∃ taken, next.heard = s.heard ++ taken ∧ next.course.bench.job.log =
      s.course.bench.job.log.pushAll (emitted s.course.bench.job.action taken) := by
  cases h with
  | @take log v sent rest => exact ⟨[sent], rfl, log_hear s.course.bench log sent⟩
  | look => exact ⟨[], (List.append_nil _).symm, log_judge ..⟩
  | @meddle op hop =>
    refine ⟨[], (List.append_nil _).symm, ?_⟩
    change (s.course.bench.job.apply op).log = _
    rw [Job.log_apply, Job.published_singleton_of_none (Job.Operation.line?_of_isForeign hop)]
    rfl
  | read | send | close | exit | tick | stop | world =>
    exact ⟨[], (List.append_nil _).symm, rfl⟩

end Session

end Toolchain

end FirmwareJobs
