import FirmwareJobs.Proofs.Toolchain.Scribe
import FirmwareJobs.Toolchain.Pipeline

/-!
# The work on a job as strokes

Whatever a run of the toolchain, or the pipeline around it, does to a job and to its log file can be
done by the strokes of a scribe.
-/

namespace FirmwareJobs

open Capture Files

/-! ## The files of the host -/

namespace Machine.Host

theorem files_take (h : Host) (pipe : Nat) : (h.take pipe).2.files = h.files := by
  unfold take
  cases h.pipe? pipe <;> rfl

theorem files_signal (h : Host) (id : Nat) (s : Signal) : (h.signal id s).2.files = h.files := by
  unfold signal
  cases h.process? id with
  | none => rfl
  | some p =>
    dsimp only
    split_ifs <;> rfl

theorem files_outputs (h : Host) (terminal : Bool) : (h.outputs terminal).2.2.files = h.files := by
  unfold outputs
  cases terminal <;> rfl

theorem files_launch {h next : Host} {command : List String} {environment : Environment}
    {settings : Settings} {child : Child}
    (hlaunch : h.launch command environment settings = .ok (child, next)) :
    next.files = h.files := by
  unfold launch at hlaunch
  simp only [bind, Except.bind] at hlaunch
  split_ifs at hlaunch
  split at hlaunch
  · contradiction
  split at hlaunch
  · contradiction
  split at hlaunch
  · split at hlaunch
    · contradiction
    · cases hlaunch
      exact files_outputs h settings.terminal
  · contradiction

end Machine.Host

namespace Toolchain

/-! ## Reading the output of a process -/

/-- A splitter that was fed from the start of a stream. -/
def IsFed (s : Splitter) : Prop := ∃ bytes, s = (Splitter.feed {} bytes).2

theorem isFed_init : IsFed {} := ⟨[], rfl⟩

theorem IsFed.feed {s : Splitter} (h : IsFed s) (bytes : List UInt8) :
    IsFed (s.feed bytes).2 ∧
      ∀ raw ∈ (s.feed bytes).1 ++ (s.feed bytes).2.finish.1.toList, IsCaptured raw := by
  obtain ⟨old, rfl⟩ := h
  have hall := Splitter.feed_append {} old bytes
  refine ⟨⟨old ++ bytes, by rw [hall]⟩, fun raw hraw => ?_⟩
  refine isCaptured_of_mem_feed (old ++ bytes) ?_
  rw [hall]
  rcases List.mem_append.1 hraw with hline | hrest
  · exact List.mem_append_left _ (List.mem_append_right _ hline)
  · exact List.mem_append_right _ hrest

namespace Run

/-- The readers of a run have read their streams from the start. -/
def HasFed (readers : List (Nat × Splitter)) : Prop := ∀ reader ∈ readers, IsFed reader.2

theorem readStream_fed {s : Splitter} (h : IsFed s) (host : Machine.Host) (pipe : Nat) :
    (∀ raw ∈ (readStream host pipe s).1, IsCaptured raw) ∧
      (∀ t, (readStream host pipe s).2.1 = some t → IsFed t) ∧
      (readStream host pipe s).2.2.files = host.files := by
  obtain ⟨hfed, hlines⟩ := h.feed (host.take pipe).1
  unfold readStream
  dsimp only
  split_ifs with hdry
  · exact ⟨hlines, nofun, host.files_take pipe⟩
  · refine ⟨fun raw hraw => hlines raw (List.mem_append_left _ hraw), ?_, host.files_take pipe⟩
    rintro t ht
    rwa [← Option.some.inj ht]

theorem readStreams_fed {readers : List (Nat × Splitter)} (h : HasFed readers)
    (host : Machine.Host) :
    (∀ raw ∈ (readStreams host readers).1, IsCaptured raw) ∧
      HasFed (readStreams host readers).2.1 ∧
      (readStreams host readers).2.2.files = host.files := by
  induction readers generalizing host with
  | nil => exact ⟨nofun, nofun, rfl⟩
  | cons reader rest ih =>
    obtain ⟨hreader, hrest⟩ := List.forall_mem_cons.1 h
    obtain ⟨hlines, hnext, hfiles⟩ := readStream_fed hreader host reader.1
    obtain ⟨hmore, hothers, hmoreFiles⟩ := ih hrest (readStream host reader.1 reader.2).2.2
    refine ⟨fun raw hraw => ?_, fun x hx => ?_, hmoreFiles.trans hfiles⟩
    · rcases List.mem_append.1 hraw with hraw | hraw
      · exact hlines raw hraw
      · exact hmore raw hraw
    · rcases List.mem_append.1 hx with hx | hx
      · obtain ⟨t, ht, rfl⟩ := Option.map_eq_some_iff.1 (Option.mem_toList.1 hx)
        exact hnext t ht
      · exact hothers x hx

theorem line_mem_notices {run : Run} {host : Machine.Host} {raw : String}
    (h : .line raw ∈ (run.notices host).1) : raw ∈ (readStreams host run.readers).1 := by
  unfold notices at h
  simp only [List.mem_append, List.mem_map, Notice.line.injEq, exists_eq_right] at h
  rcases h with ((hline | hclosed) | hexited) | htick
  · exact hline
  · split_ifs at hclosed <;> simp at hclosed
  · split_ifs at hexited <;> simp at hexited
  · split_ifs at htick <;> simp at htick

/-! ### One look at a process -/

/-- What comes of the notices of one look. -/
def attended (run : Run) (b : Workbench) : Workbench × Supervision × Option Verdict :=
  attend run.log run.supervision { b with host := (run.notices b.host).2.2 } (run.notices b.host).1

/-- The job and the host after the lines that were taken. -/
def heard (run : Run) (b : Workbench) : Workbench := (run.attended b).1

/-- The run that has looked. -/
def looked (run : Run) (b : Workbench) : Run :=
  { run with
    readers := (run.notices b.host).2.1
    supervision := (run.attended b).2.1
    pollAt :=
      if (run.notices b.host).1.isEmpty then run.pollAt
      else (run.heard b).host.now + pollNanos }

theorem watch_eq (run : Run) (b : Workbench) : run.watch b =
    match (run.attended b).2.2 with
    | none => (run.heard b, .going (run.looked b))
    | some .terminate => (run.looked b).terminate (run.heard b)
    | some (.finished code) => (run.looked b).close (run.heard b) code := rfl

end Run

/-! ## Strokes -/

/-- Whatever was published before, strokes lead from one state of the work to the other, with no
line waiting to be published at either end. -/
def Scribed (plan : Plan) (b : Workbench) (log : Option Place) (next : Workbench)
    (log' : Option Place) : Prop :=
  ∀ published, ∃ strokes published',
    Scribe.run? plan ⟨b, log, none, published⟩ strokes = some ⟨next, log', none, published'⟩

namespace Scribed

variable {plan : Plan} {b next last : Workbench} {log log' log'' : Option Place} {place : Place}
  {content : List UInt8}

theorem refl (plan : Plan) (b : Workbench) (log : Option Place) : Scribed plan b log b log :=
  fun published => ⟨[], published, rfl⟩

theorem trans (h : Scribed plan b log next log') (h' : Scribed plan next log' last log'') :
    Scribed plan b log last log'' := by
  intro published
  obtain ⟨strokes, published', hrun⟩ := h published
  obtain ⟨more, published'', hmore⟩ := h' published'
  refine ⟨strokes ++ more, published'', ?_⟩
  rw [Scribe.run?_append, hrun]
  exact hmore

theorem openLog (plan : Plan) (b : Workbench) (log : Option Place) :
    Scribed plan b log (b.openLog plan).2 (b.openLog plan).1 :=
  fun published => ⟨[.openLog], published, rfl⟩

theorem emit (plan : Plan) (b : Workbench) (place : Place) (line : String) (origin : Origin) :
    Scribed plan b (some place) (b.emit (some place) line origin) (some place) :=
  fun published => ⟨[.write (.announcement line origin), .publish], published ++ [line], rfl⟩

theorem operate (plan : Plan) (b : Workbench) (log : Option Place) (op : Job.Operation)
    (hop : op.line? = none) : Scribed plan b log (b.operate op) log := by
  refine fun published => ⟨[.operate op], published, ?_⟩
  simp [Scribe.make?, hop]

theorem goOn (plan : Plan) (b : Workbench) (log : Option Place) {host : Machine.Host}
    (hfiles : host.files = b.host.files) : Scribed plan b log { b with host } log := by
  refine fun published => ⟨[.goOn host], published, ?_⟩
  simp [Scribe.make?, hfiles]

theorem output (plan : Plan) (b : Workbench) (place : Place) {raw : String}
    (hraw : IsCaptured raw) :
    Scribed plan b (some place) (b.output (some place) raw) (some place) := by
  intro published
  let s : Scribe := ⟨b, some place, none, published⟩
  obtain ⟨next, hrun, hbench, hlog, hwritten, -⟩ :=
    Scribe.run?_takeDown plan (s := s) [⟨raw, hraw⟩] rfl rfl
  refine ⟨_, next.published, hrun.trans ?_⟩
  obtain ⟨bench, opened, written, published'⟩ := next
  cases hbench
  cases hlog
  cases hwritten
  rfl

theorem attend (plan : Plan) (place : Place) {notices : List Notice}
    (hlines : ∀ raw, .line raw ∈ notices → IsCaptured raw) (s : Supervision) (b : Workbench) :
    Scribed plan b (some place) (Run.attend (some place) s b notices).1 (some place) := by
  induction notices generalizing s b with
  | nil => exact .refl plan b _
  | cons notice rest ih =>
    have hfirst : Scribed plan b (some place) (b.hear (some place) notice) (some place) := by
      cases notice with
      | line raw => exact output plan b place (hlines raw List.mem_cons_self)
      | closed | exited | tick => exact .refl plan b _
    unfold Run.attend
    dsimp only
    split
    · exact hfirst
    · exact hfirst.trans (ih (fun raw hraw => hlines raw (List.mem_cons_of_mem _ hraw)) _ _)

theorem fail (plan : Plan) (b : Workbench) (place : Place) (message : String) :
    Scribed plan b (some place) (b.fail (some place) message) (some place) :=
  (emit plan b place message .output).trans
    (operate plan (b.emit (some place) message .output) (some place) (.setSummary message) rfl)

theorem logFile? (h : Scribed plan b (some place) next (some place))
    (hfile : plan.logFile? b.host.files = some (place, content)) :
    ∃ content', plan.logFile? next.host.files = some (place, content') := by
  obtain ⟨strokes, published, hrun⟩ := h []
  have hfirst : Scribe.OnFile plan place content ⟨b, some place, none, []⟩ :=
    ⟨fun opened hopened => (Option.some.inj hopened).symm, hfile⟩
  obtain ⟨content', hnext⟩ := hfirst.run hrun
  exact ⟨content', hnext.file⟩

end Scribed

/-! ## The parts of the work -/

section Work

variable {plan : Plan} {b b' : Workbench} {place : Place} {content : List UInt8}

namespace Run

/-- A run that goes on with its log open. -/
def IsLogged (place : Place) (run : Run) : Prop := run.log = some place ∧ HasFed run.readers

theorem scribed_start (hfile : plan.logFile? b.host.files = some (place, content))
    (command : List String) (log : Option Place) :
    Scribed plan b log (start plan command b).1 (some place) ∧
      (∀ run, (start plan command b).2 = .going run → run.IsLogged place) ∧
      ∀ code, (start plan command b).2 = .over code → code ≠ 0 := by
  have hopen := Scribe.openLog_of_logFile? hfile
  have hopened := Scribed.openLog plan b log
  rw [hopen] at hopened
  have hshown := hopened.trans (Scribed.emit plan b place (commandLine command) .engine)
  unfold start
  rw [hopen]
  dsimp only
  split_ifs with hcanceled hempty
  · refine ⟨hshown, nofun, fun code hcode => ?_⟩
    cases hcode
    decide
  · refine ⟨hshown.trans (Scribed.fail plan _ place _), nofun, fun code hcode => ?_⟩
    cases hcode
    decide
  · split
    · refine ⟨hshown.trans (Scribed.fail plan _ place _), nofun, fun code hcode => ?_⟩
      cases hcode
      decide
    · next child host hlaunch =>
      refine ⟨?_, ?_, nofun⟩
      · refine hshown.trans ((Scribed.goOn plan _ _ (Machine.Host.files_launch hlaunch)).trans ?_)
        exact Scribed.operate plan _ _ (.setPid (some child.process)) rfl
      · intro run hrun
        cases hrun
        refine ⟨rfl, fun reader hreader => ?_⟩
        obtain ⟨pipe, -, rfl⟩ := List.mem_map.1 hreader
        exact isFed_init

theorem scribed_close {run : Run} (b : Workbench) (log : Option Place) (code : Int32) :
    Scribed plan b log (run.close b code).1 log :=
  (Scribed.operate plan b log (.setPid none) rfl).trans (Scribed.goOn plan _ log rfl)

theorem scribed_watch (plan : Plan) {run : Run} (h : run.IsLogged place) (b : Workbench) :
    Scribed plan b (some place) (run.watch b).1 (some place) ∧
      ∀ after, (run.watch b).2 = .going after → after.IsLogged place := by
  obtain ⟨hlog, hfed⟩ := h
  obtain ⟨hlines, hreaders, hfiles⟩ := readStreams_fed hfed b.host
  have hheard : Scribed plan b (some place) (run.heard b) (some place) := by
    unfold heard attended
    rw [hlog]
    exact (Scribed.goOn plan b _ hfiles).trans
      (Scribed.attend plan place (fun raw hraw => hlines raw (line_mem_notices hraw)) _ _)
  have hlooked : (run.looked b).IsLogged place := ⟨hlog, hreaders⟩
  rw [watch_eq]
  split
  · refine ⟨hheard, fun after hafter => ?_⟩
    cases hafter
    exact hlooked
  · refine ⟨hheard.trans (Scribed.goOn plan _ _ (Machine.Host.files_signal _ _ _)), ?_⟩
    intro after hafter
    cases hafter
    exact hlooked
  · exact ⟨hheard.trans (scribed_close _ _ _), nofun⟩

theorem scribed_advance? (plan : Plan) {run : Run} {progress : Progress Run}
    (h : run.IsLogged place) (hadvance : run.advance? b = some (b', progress)) :
    Scribed plan b (some place) b' (some place) ∧
      ∀ after, progress = .going after → after.IsLogged place := by
  unfold advance? at hadvance
  dsimp only at hadvance
  cases hstage : run.stage with
  | watching =>
    rw [hstage] at hadvance
    dsimp only at hadvance
    split_ifs at hadvance
    have hwatch := scribed_watch plan h b
    rw [Option.some.inj hadvance] at hwatch
    exact hwatch
  | asked killAt =>
    rw [hstage] at hadvance
    dsimp only at hadvance
    split_ifs at hadvance
    · cases hadvance
      exact ⟨scribed_close b _ canceledCode, nofun⟩
    · cases hadvance
      refine ⟨Scribed.goOn plan b _ (b.host.files_signal _ _), fun after hafter => ?_⟩
      cases hafter
      exact h
  | killed =>
    rw [hstage] at hadvance
    dsimp only at hadvance
    split_ifs at hadvance
    cases hadvance
    exact ⟨scribed_close b _ canceledCode, nofun⟩

end Run

namespace Pipeline

def IsLogged (place : Place) (p : Pipeline) : Prop := p.run.IsLogged place

/-- From `b` strokes lead to where a part of the work ends, and the log is open if there is more to
do. -/
def Leads (plan : Plan) (place : Place) (b : Workbench) (log : Option Place)
    (outcome : Workbench × Progress Pipeline) : Prop :=
  ∃ log', Scribed plan b log outcome.1 log' ∧
    ∀ p, outcome.2 = .going p → log' = some place ∧ p.IsLogged place

theorem leads_next (hfile : plan.logFile? b.host.files = some (place, content))
    (command : List String) (code : Int32) (steps : List (List String)) (log : Option Place) :
    Leads plan place b log (next plan command code steps b) := by
  cases steps with
  | nil => exact ⟨log, .refl plan b log, nofun⟩
  | cons step rest =>
    obtain ⟨hstart, hgoing, hover⟩ := Run.scribed_start hfile (command ++ step) log
    rw [next]
    split_ifs with hcanceled
    · exact ⟨log, .refl plan b log, nofun⟩
    · split
      · next b' run heq =>
        rw [heq] at hstart hgoing
        refine ⟨some place, hstart, fun p hp => ?_⟩
        cases hp
        exact ⟨rfl, hgoing run rfl⟩
      · next b' code' heq =>
        rw [heq] at hstart hover
        rw [if_neg (hover code' rfl)]
        exact ⟨some place, hstart, nofun⟩

theorem leads_start (hfile : plan.logFile? b.host.files = some (place, content)) :
    Leads plan place b none (start plan b) := by
  unfold start
  split
  · next fault hfault =>
    have hopened := Scribed.openLog plan b none
    rw [Scribe.openLog_of_logFile? hfile] at hopened
    refine ⟨some place, ?_, nofun⟩
    rw [Workbench.report, Scribe.openLog_of_logFile? hfile]
    exact hopened.trans (Scribed.fail plan b place fault.message)
  · exact leads_next hfile _ 0 _ none

theorem leads_advance? {p : Pipeline} {progress : Progress Pipeline} (h : p.IsLogged place)
    (hfile : plan.logFile? b.host.files = some (place, content))
    (hadvance : p.advance? plan b = some (b', progress)) :
    Leads plan place b (some place) (b', progress) := by
  obtain ⟨⟨middle, turn⟩, hrun, hturn⟩ := Option.map_eq_some_iff.1 hadvance
  obtain ⟨hmiddle, hgoing⟩ := Run.scribed_advance? plan h hrun
  rcases turn with run | code
  · cases hturn
    refine ⟨some place, hmiddle, fun q hq => ?_⟩
    cases hq
    exact ⟨rfl, hgoing run rfl⟩
  · dsimp only at hturn
    split_ifs at hturn with hcode
    · obtain ⟨content', hfile'⟩ := hmiddle.logFile? hfile
      obtain ⟨log', hnext, hlogged⟩ := leads_next hfile' p.command code p.remaining (some place)
      rw [hturn] at hnext hlogged
      exact ⟨log', hmiddle.trans hnext, hlogged⟩
    · cases hturn
      exact ⟨some place, hmiddle, nofun⟩

end Pipeline

end Work

end Toolchain

end FirmwareJobs
