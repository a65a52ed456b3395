import FirmwareJobs.Proofs.Toolchain.Supervised

/-!
# Everything at once

A run reads all its streams in one go and then takes up everything that there is to notice, one
thing after the other. Some acts of a session do the same, each reader and each notice for itself.
-/

namespace FirmwareJobs.Toolchain

open Capture Files

/-- The streams that are still read, with what is left of the last lines. -/
def openReaders (pipes : List Nat) (readers : List Reader) : List (Nat × Splitter) :=
  (pipes.zip readers).filterMap fun x => if x.2.ended then none else some (x.1, x.2.splitter)

theorem openReaders_cons (pipe : Nat) (pipes : List Nat) (r : Reader) (readers : List Reader) :
    openReaders (pipe :: pipes) (r :: readers) =
      ((if r.ended then none else some r.splitter).map fun splitter => (pipe, splitter)).toList ++
        openReaders pipes readers := by
  cases hended : r.ended <;> simp [openReaders, hended]

theorem Run.readStreams_cons (host : Machine.Host) (pipe : Nat) (splitter : Splitter)
    (readers : List (Nat × Splitter)) :
    readStreams host ((pipe, splitter) :: readers) =
      ((readStream host pipe splitter).1 ++
          (readStreams (readStream host pipe splitter).2.2 readers).1,
        ((readStream host pipe splitter).2.1.map fun rest => (pipe, rest)).toList ++
          (readStreams (readStream host pipe splitter).2.2 readers).2.1,
        (readStreams (readStream host pipe splitter).2.2 readers).2.2) := rfl

theorem openReaders_eq_nil_iff {pipes : List Nat} {readers : List Reader}
    (hlength : pipes.length = readers.length) (hunsent : ∀ r ∈ readers, r.unsent = []) :
    openReaders pipes readers = [] ↔ readers.all Reader.isDone = true := by
  induction readers generalizing pipes with
  | nil => simp [openReaders]
  | cons r readers ih =>
    obtain ⟨hfirst, hothers⟩ := List.forall_mem_cons.1 hunsent
    cases pipes with
    | nil => contradiction
    | cons pipe pipes =>
      have hrest := ih (by simpa using hlength) hothers
      rw [openReaders_cons, List.append_eq_nil_iff, hrest, List.all_cons, Bool.and_eq_true_iff]
      simp [Reader.isDone, hfirst]

namespace Session

/-- Some acts lead from one session to the other. -/
def Leads (plan : Plan) (s next : Session) : Prop := ∃ acts, s.run? plan acts = some next

section

variable {plan : Plan} {s next last : Session}

theorem Leads.refl (plan : Plan) (s : Session) : Leads plan s s := ⟨[], rfl⟩

theorem Leads.trans (h : Leads plan s next) (h' : Leads plan next last) : Leads plan s last := by
  obtain ⟨acts, hrun⟩ := h
  obtain ⟨more, hmore⟩ := h'
  refine ⟨acts ++ more, ?_⟩
  rw [run?_append, hrun]
  exact hmore

theorem leads_make {act : Act} (h : s.make? plan act = some next) : Leads plan s next := by
  refine ⟨[] ++ [act], ?_⟩
  rw [run?_concat]
  exact h

end

/-! ## Reading -/

variable {plan : Plan} {s : Session} {before after : List Reader} {r : Reader}

theorem leads_send (plan : Plan) (hreaders : s.readers = before ++ r :: after) :
    Leads plan s { s with
      readers := before ++ { r with unsent := [] } :: after
      queue := s.queue ++ r.unsent.map (Prod.mk before.length) } := by
  obtain ⟨reads, splitter, unsent, ended⟩ := r
  induction unsent generalizing s with
  | nil =>
    rw [List.map_nil, List.append_nil, ← hreaders]
    exact .refl plan s
  | cons line rest ih =>
    have hsend : s.make? plan (.send before.length) = some { s with
        readers := before ++ ⟨reads, splitter, rest, ended⟩ :: after
        queue := s.queue ++ [(before.length, line)] } := by
      simp [make?, hreaders]
    have hall := (leads_make hsend).trans (ih rfl)
    simpa using hall

theorem leads_read (plan : Plan) (hreaders : s.readers = before ++ r :: after)
    (hopen : r.ended = false) (hsent : r.unsent = []) (x : Read) :
    Leads plan s { s with
      readers := before ++
        { { r with reads := r.reads ++ [x] }.take x with unsent := [] } :: after
      queue := s.queue ++
        ({ r with reads := r.reads ++ [x] }.take x).unsent.map (Prod.mk before.length) } := by
  have hread : s.make? plan (.read before.length x) = some { s with
      readers := before ++ { r with reads := r.reads ++ [x] }.take x :: after } := by
    simp [make?, hreaders, Reader.read?, hopen, hsent]
  exact (leads_make hread).trans (leads_send plan rfl)

/-- A run has read one stream: what it got was sent, and the reader has the rest. -/
structure HasRead (s next : Session) (before after : List Reader)
    (lines : List String) (rest : Option Splitter) : Prop where
  course : next.course = s.course
  heard : next.heard = s.heard
  queue : next.queue = s.queue ++ lines.map (Prod.mk before.length)
  readers : ∃ r, next.readers = before ++ r :: after ∧ r.unsent = [] ∧
    rest = if r.ended then none else some r.splitter

theorem leads_feed (plan : Plan) (hreaders : s.readers = before ++ r :: after)
    (hopen : r.ended = false) (hsent : r.unsent = []) (bytes : List UInt8) :
    ∃ next, Leads plan s next ∧ HasRead s next before after
      (r.splitter.feed bytes).1 (some (r.splitter.feed bytes).2) := by
  by_cases hempty : bytes.isEmpty = true
  · obtain rfl := List.isEmpty_iff.1 hempty
    exact ⟨s, .refl plan s, rfl, rfl, (List.append_nil _).symm, r, hreaders, hsent, by simp [hopen]⟩
  · refine ⟨_, leads_read plan hreaders hopen hsent (.bytes bytes), rfl, rfl, ?_, _, rfl, rfl, ?_⟩
    · simp [Reader.take, hempty]
    · simp [Reader.take, hempty, hopen]

theorem leads_finish (plan : Plan) (hreaders : s.readers = before ++ r :: after)
    (hopen : r.ended = false) (hsent : r.unsent = []) :
    ∃ next, Leads plan s next ∧
      HasRead s next before after r.splitter.finish.1.toList none :=
  ⟨_, leads_read plan hreaders hopen hsent (.bytes []), rfl, rfl, rfl, _, rfl, rfl, rfl⟩

theorem leads_readStream (plan : Plan) (hreaders : s.readers = before ++ r :: after)
    (hopen : r.ended = false) (hsent : r.unsent = []) (host : Machine.Host) (pipe : Nat) :
    ∃ next, Leads plan s next ∧ HasRead s next before after
      (Run.readStream host pipe r.splitter).1 (Run.readStream host pipe r.splitter).2.1 := by
  obtain ⟨mid, hmid, hcourse, hheard, hqueue, r', hmore, hsent', hrest⟩ :=
    leads_feed plan hreaders hopen hsent (host.take pipe).1
  obtain ⟨hopen', hsplitter⟩ : r'.ended = false ∧
      (r.splitter.feed (host.take pipe).1).2 = r'.splitter := by
    split_ifs at hrest with hended
    exact ⟨by simpa using hended, Option.some.inj hrest⟩
  unfold Run.readStream
  dsimp only
  split_ifs with hdry
  · obtain ⟨next, hnext, hcourse', hheard', hqueue', hend⟩ :=
      leads_finish plan hmore hopen' hsent'
    refine ⟨next, hmid.trans hnext, hcourse'.trans hcourse, hheard'.trans hheard, ?_, hend⟩
    rw [hqueue', hqueue, hsplitter, List.append_assoc, ← List.map_append]
  · exact ⟨mid, hmid, hcourse, hheard, hqueue, r', hmore, hsent', hrest⟩

/-- A run has read its streams: the lines that it got are in the queue. -/
structure HaveRead (s next : Session) (pipes : List Nat) (before after : List Reader)
    (lines : List String) (rest : List (Nat × Splitter)) : Prop where
  course : next.course = s.course
  heard : next.heard = s.heard
  queue : ∃ sent, next.queue = s.queue ++ sent ∧ sent.map Prod.snd = lines
  readers : ∃ readers, next.readers = before ++ readers ∧ readers.length = after.length ∧
    (∀ r ∈ readers, r.unsent = []) ∧ rest = openReaders pipes readers

theorem leads_readStreams (plan : Plan) (pipes : List Nat) {readers : List Reader}
    (hreaders : s.readers = before ++ readers) (hlength : pipes.length = readers.length)
    (hsent : ∀ r ∈ readers, r.unsent = []) (host : Machine.Host) :
    ∃ next, Leads plan s next ∧ HaveRead s next pipes before readers
      (Run.readStreams host (openReaders pipes readers)).1
      (Run.readStreams host (openReaders pipes readers)).2.1 := by
  induction readers generalizing s pipes before host with
  | nil =>
    refine ⟨s, .refl plan s, rfl, rfl, ⟨[], ?_⟩, [], hreaders, rfl, by simp, ?_⟩
    · simp [openReaders, Run.readStreams]
    · simp [openReaders, Run.readStreams]
  | cons r rest ih =>
    obtain ⟨hfirst, hothers⟩ := List.forall_mem_cons.1 hsent
    cases pipes with
    | nil => contradiction
    | cons pipe pipes =>
      have hlength' : pipes.length = rest.length := by simpa using hlength
      rw [openReaders_cons]
      cases hended : r.ended with
      | true =>
        -- a stream that has ended is passed over
        have hsplit : s.readers = (before ++ [r]) ++ rest := by simp [hreaders]
        obtain ⟨next, hnext, hcourse, hheard, hqueue, readers, hafter, hcount, hall, hrest⟩ :=
          ih pipes hsplit hlength' hothers host
        refine ⟨next, hnext, hcourse, hheard, hqueue, r :: readers, by simp [hafter],
          by simp [hcount], List.forall_mem_cons.2 ⟨hfirst, hall⟩, ?_⟩
        rw [openReaders_cons, hended, ← hrest]
        rfl
      | false =>
        obtain ⟨mid, hmid, hcourse, hheard, hqueue, r', hreader, hsent', hrest⟩ :=
          leads_readStream plan hreaders hended hfirst host pipe
        have hsplit : mid.readers = (before ++ [r']) ++ rest := by simp [hreader]
        obtain ⟨next, hnext, hcourse', hheard', ⟨sent, hqueue', hlines⟩, readers, hafter, hcount,
          hall, hmore⟩ :=
            ih pipes hsplit hlength' hothers (Run.readStream host pipe r.splitter).2.2
        have hread := Run.readStreams_cons host pipe r.splitter (openReaders pipes rest)
        refine ⟨next, hmid.trans hnext, hcourse'.trans hcourse, hheard'.trans hheard,
          ⟨(Run.readStream host pipe r.splitter).1.map (Prod.mk before.length) ++ sent, ?_, ?_⟩,
          r' :: readers, by simp [hafter], by simp [hcount],
          List.forall_mem_cons.2 ⟨hsent', hall⟩, ?_⟩
        · rw [hqueue', hqueue, List.append_assoc]
        · refine Eq.trans ?_ (congrArg Prod.fst hread).symm
          simp [hlines, Function.comp_def]
        · refine (congrArg (·.2.1) hread).trans ?_
          rw [openReaders_cons, ← hrest, ← hmore]

/-! ## Taking up notices -/

/-- A worker who knows `v` can take up the notices in order: the lines are those in the queue, and
the end of the streams comes after all of them. -/
def Ready (done : Bool) : List (Nat × String) → Supervision → List Notice → Prop
  | queue, _, [] => queue = []
  | queue, v, .line raw :: rest =>
    v.isOpen = true ∧ ∃ i more, queue = (i, raw) :: more ∧ Ready done more v rest
  | queue, v, .closed :: rest => v.isOpen = true ∧ queue = [] ∧ done = true ∧
    ∀ now, Ready done queue (v.note now .closed) rest
  | queue, v, .exited code :: rest => v.exit = none ∧ (∃ e : Machine.Exit, e.result = code) ∧
    ∀ now, Ready done queue (v.note now (.exited code)) rest
  | queue, v, .tick :: rest => Ready done queue v rest

theorem Ready.first (plan : Plan) {log : Option Place} {v : Supervision} {notice : Notice}
    {rest : List Notice} (hpost : s.course.post = .listening log v)
    (h : Ready s.areDone s.queue v (notice :: rest)) :
    ∃ (act : Act) (mid : Session), s.make? plan act = some (mid.hear log v notice) ∧
      mid.course = s.course ∧ mid.readers = s.readers ∧
      Ready s.areDone mid.queue (v.note s.course.bench.host.now notice) rest := by
  have hhears (p : Supervision → Bool) : s.course.hears p = p v := hears_eq hpost p
  have hmove (t : Session) (ht : t.course = s.course) (n : Notice) :
      t.move? plan (.hear n) = some (t.hear log v n) := by
    simp [move?, Course.make?, ht, hpost, hear]
  cases notice with
  | line raw =>
    obtain ⟨hopen, i, more, hqueue, hrest⟩ := h
    refine ⟨.take, { s with queue := more, heard := s.heard ++ [(i, raw)] }, ?_, rfl, rfl, hrest⟩
    simp only [make?, hqueue, hhears, hopen, if_true]
    exact hmove { s with queue := more, heard := s.heard ++ [(i, raw)] } rfl _
  | closed =>
    obtain ⟨hopen, hqueue, hdone, hrest⟩ := h
    refine ⟨.close, s, ?_, rfl, rfl, hrest _⟩
    have hdrained : s.isDrained = true := by
      rw [isDrained, hqueue]
      exact hdone
    simp only [make?, hdrained, hhears, hopen, Bool.and_self, if_true]
    exact hmove _ rfl _
  | exited code =>
    obtain ⟨hexit, ⟨e, rfl⟩, hrest⟩ := h
    refine ⟨.exit e, s, ?_, rfl, rfl, hrest _⟩
    simp only [make?, hhears, hexit, Option.isNone_none, if_true]
    exact hmove _ rfl _
  | tick => exact ⟨.tick, s, hmove _ rfl _, rfl, rfl, h⟩

theorem leads_look (plan : Plan) {log : Option Place} {v : Supervision}
    (hpost : s.course.post = .looking log v) :
    Leads plan s { s with
      course := s.course.judge log v
        (v.verdict? s.course.bench.host.now s.course.bench.job.cancelRequested) } := by
  have hlook : s.make? plan .work = some { s with
      course := s.course.judge log v
        (v.verdict? s.course.bench.host.now s.course.bench.job.cancelRequested) } := by
    simp [make?, hpost, Post.isSupervising, move?, Course.make?, Course.work?]
  exact leads_make hlook

theorem leads_attend (plan : Plan) {log : Option Place} {v : Supervision} {notices : List Notice}
    (hpost : s.course.post = .listening log v) (hready : Ready s.areDone s.queue v notices) :
    ∃ next, Leads plan s next ∧ next.readers = s.readers ∧
      next.course = { s.course with
          bench := (Run.attend log v s.course.bench notices).1 }.judge log
        (Run.attend log v s.course.bench notices).2.1
        (Run.attend log v s.course.bench notices).2.2 ∧
      ((Run.attend log v s.course.bench notices).2.2 = none → next.queue = []) := by
  induction notices generalizing s v with
  | nil =>
    refine ⟨s, .refl plan s, rfl, ?_, fun _ => hready⟩
    obtain ⟨⟨b, post, ahead, started, outcomes⟩, readers, queue, heard⟩ := s
    cases hpost
    rfl
  | cons notice rest ih =>
    obtain ⟨act, mid, hact, hcourse, hreaders, hrest⟩ := Ready.first plan hpost hready
    let heard : Course := { s.course with
      bench := s.course.bench.hear log notice
      post := .looking log (v.note s.course.bench.host.now notice) }
    have hheard : (mid.hear log v notice).course = heard := by
      rw [hear, hcourse]
    -- a look follows each notice, and nobody else comes in between
    have hlook := (leads_make hact).trans (leads_look plan (congrArg Course.post hheard))
    rw [hheard] at hlook
    unfold Run.attend
    dsimp only
    split
    · next verdict hsome =>
      rw [hsome] at hlook
      refine ⟨_, hlook, hreaders, ?_, fun hnone => absurd hnone (Option.some_ne_none _)⟩
      rw [Course.judge_post { s.course with bench := s.course.bench.hear log notice }]
    · next hnone =>
      rw [hnone] at hlook
      obtain ⟨next, hnext, hsameReaders, hend, hqueue⟩ := ih (s := { mid with
        course := { heard with post := .listening log (v.note s.course.bench.host.now notice) } })
        rfl (by rwa [areDone, hreaders])
      refine ⟨next, hlook.trans hnext, hsameReaders.trans hreaders, ?_, hqueue⟩
      rw [hend, Course.judge_post { s.course with bench := _ }]

/-- Lines can be taken as long as the streams are open. -/
theorem ready_lines {done : Bool} {v : Supervision} {rest : List Notice}
    {queue : List (Nat × String)} (hopen : queue ≠ [] → v.isOpen = true)
    (h : Ready done [] v rest) :
    Ready done queue v ((queue.map Prod.snd).map .line ++ rest) := by
  induction queue with
  | nil => exact h
  | cons sent queue ih =>
    have hfirst := hopen (List.cons_ne_nil _ _)
    exact ⟨hfirst, sent.1, queue, rfl, ih fun _ => hfirst⟩

theorem ready_notices {done : Bool} (run : Run) (host : Machine.Host)
    {queue : List (Nat × String)}
    (hqueue : queue.map Prod.snd = (Run.readStreams host run.readers).1)
    (hopen : run.readers ≠ [] → run.supervision.isOpen = true)
    (hdone : (Run.readStreams host run.readers).2.1 = [] → done = true) :
    Ready done queue run.supervision (run.notices host).1 := by
  have hticks (host : Machine.Host) (v : Supervision) :
      Ready done [] v (if run.pollAt ≤ host.now then [Notice.tick] else []) := by
    split_ifs <;> rfl
  have hexited (host : Machine.Host) (v : Supervision) (hexit : v.exit = run.supervision.exit) :
      Ready done [] v
        ((if run.supervision.exit.isSome then []
          else ((host.exit? run.child.process).map fun e => Notice.exited e.result).toList) ++
          if run.pollAt ≤ host.now then [Notice.tick] else []) := by
    by_cases hknown : run.supervision.exit.isSome = true
    · rw [if_pos hknown]
      exact hticks host v
    · rw [if_neg hknown]
      cases host.exit? run.child.process with
      | none => exact hticks host v
      | some e => exact ⟨by simpa [hexit] using hknown, ⟨e, rfl⟩, fun _ => hticks host _⟩
  -- the lines come first, then the end of the streams, which needs all of them to be taken
  unfold Run.notices
  dsimp only
  rw [← hqueue, List.append_assoc, List.append_assoc]
  refine ready_lines (fun hsome => hopen fun hnone => hsome ?_) ?_
  · rw [hnone] at hqueue
    exact List.map_eq_nil_iff.1 hqueue
  · by_cases hclosed : (Run.readStreams host run.readers).2.1.isEmpty = true ∧
        (!run.readers.isEmpty) = true
    · rw [if_pos hclosed]
      obtain ⟨hend, hsome⟩ := hclosed
      exact ⟨hopen (by simpa using hsome), rfl, hdone (List.isEmpty_iff.1 hend),
        fun _ => hexited _ _ rfl⟩
    · rw [if_neg hclosed]
      exact hexited _ _ rfl

end Session

end FirmwareJobs.Toolchain
