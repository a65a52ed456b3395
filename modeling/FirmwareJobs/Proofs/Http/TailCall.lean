import FirmwareJobs.Proofs.Http.Asking

/-!
# Offsets and limits between client and server

The client sends an offset and a limit as numbers of 64 bits, and the route reads them as signed
ones. Below `2 ^ 63` the two ends agree. From there on the route takes the number for one that was
not given: the offset becomes 0, and the limit the one of a call that names none.
-/

namespace FirmwareJobs.Http

open Text Url

/-! ## What a number becomes -/

/-- The offset that the route takes for the one in the call. -/
def heardSince (since : Nat) : Nat := if since < 2 ^ 63 then since else 0

/-- The count of lines that the route takes for the limit in the call. -/
def heardLimit (limit : Nat) : Nat :=
  if limit < 2 ^ 63 then min (max limit 1) 5000 else Observe.tailDefault

theorem startOffset_digits (n : Nat) :
    Observe.startOffset (signedWithin? 64 (digits n)) = heardSince n := by
  rw [signedWithin?_digits, heardSince]
  split_ifs <;> rfl

theorem tailLimit_digits (n : Nat) :
    Observe.tailLimit (signedWithin? 64 (digits n)) = heardLimit n := by
  rw [signedWithin?_digits, heardLimit]
  split_ifs
  · simp only [Observe.tailLimit, Observe.lineLimit]
    omega
  · rfl

/-- Both numbers arrive, the limit within its bounds, if and only if both are small enough. -/
theorem heard_iff (since limit : Nat) :
    heardSince since = since ∧ heardLimit limit = min (max limit 1) 5000 ↔
      since < 2 ^ 63 ∧ limit < 2 ^ 63 := by
  unfold heardSince heardLimit Observe.tailDefault
  split_ifs <;> omega

/-! ## The route -/

/-- A target that asks for the log of a job with these fields. -/
def tailTarget (id : String) (since limit : Nat) : Target :=
  ⟨["api", "jobs", id, "tail"],
    [("since", String.ofList (digits since)), ("limit", String.ofList (digits limit))]⟩

theorem integer?_tailTarget (id : String) (since limit : Nat) :
    (tailTarget id since limit).integer? "since" = signedWithin? 64 (digits since) ∧
      (tailTarget id since limit).integer? "limit" = signedWithin? 64 (digits limit) := by
  constructor <;> simp [tailTarget, Target.integer?, Target.value?]

section

variable {s : Service} {id : String} {position : Nat} {job : Job}

theorem respond_of_tailTarget (hposition : s.engine.position? id = some position)
    (hjob : s.job? position = some job) {target : String} {since limit : Nat}
    (htarget : Target.ofText? target = some (tailTarget id since limit)) :
    s.respond { method := .get, target } =
      (page (Observe.tail job (s.logFile job) (heardSince since) (heardLimit limit)), s) := by
  obtain ⟨hsince, hlimit⟩ := integer?_tailTarget id since limit
  have hroute : Route.find? { method := .get, target } (tailTarget id since limit) =
      some (.tail id) := by
    simp [Route.find?, Route.reading?, tailTarget]
  simp [Service.respond, htarget, hroute, Service.handle, Service.withJob, hposition,
    Service.tail?, hjob, hsince, hlimit, startOffset_digits, tailLimit_digits]

theorem exists_respond_tail {isSecure : Bool} {authority : List Char} {base : String} {site : Url}
    (hbase : IsOrigin isSecure authority base) (hsite : Url.ofText? base = some site)
    (hid : IsSegment id.toList) (hposition : s.engine.position? id = some position)
    (hjob : s.job? position = some job) (since limit : Nat) :
    ∃ url, (Client.Operation.tail id since limit).call.url? base = some url ∧
      url.origin = site.origin ∧ s.respond { method := .get, target := url.target } =
        (page (Observe.tail job (s.logFile job) (heardSince since) (heardLimit limit)), s) := by
  obtain ⟨url, hurl, horigin, htarget⟩ :=
    (Client.shows_tail hid since limit).exists_url hbase hsite
  exact ⟨url, hurl, horigin, respond_of_tailTarget hposition hjob htarget⟩

end

theorem page_eq_iff {a b : Observe.Answer} (ha : a.next < 2 ^ 64) (hb : b.next < 2 ^ 64) :
    page a = page b ↔ a = b := by
  refine ⟨fun h => ?_, congrArg page⟩
  have hread {a : Observe.Answer} (ha : a.next < 2 ^ 64) :
      Api.Page.format.decode (Utf8.ofString (Api.Page.format.encode ⟨a.record, a.lines, a.next⟩)) =
        .ok ⟨a.record, a.lines, a.next⟩ :=
    (Api.Page.faithful_format ha).decode_encode
  have htext : Api.Page.format.encode ⟨a.record, a.lines, a.next⟩ =
      Api.Page.format.encode ⟨b.record, b.lines, b.next⟩ := by
    simpa [page, Response.ok] using h
  have hpages := hread ha
  rw [htext, hread hb] at hpages
  injection hpages with hpages
  injection hpages with hrecord hlines hnext
  cases a
  cases b
  subst hrecord hlines hnext
  rfl

end FirmwareJobs.Http

namespace FirmwareJobs.Observe

open Job

theorem fileTail_eq_nil_iff {file : Option (List UInt8)} {limit : Nat} (hlimit : 1 ≤ limit) :
    Log.fileTail file limit = [] ↔ Log.fileLines (file.getD []) = [] := by
  have htail : Log.fileTail file limit = (Log.fileLines (file.getD [])).drop
      ((Log.fileLines (file.getD [])).length - limit) := rfl
  rw [htail, List.drop_eq_nil_iff]
  refine ⟨fun h => List.length_eq_zero_iff.1 (by omega), fun h => ?_⟩
  rw [h, List.length_nil, Nat.zero_sub]

/-- From the last line on there is nothing to answer, and the offset stays; but a job that ended in
a former life shows its file for every offset. -/
theorem tail_of_end_iff {record : Record} {capacity : Nat} {ops : List Operation}
    (file : Option (List UInt8)) {since limit : Nat} (hend : (published ops).length ≤ since)
    (hlimit : 1 ≤ limit) :
    let job := (ofRecord record capacity).run ops
    (tail job file since limit).lines = [] ∧ (tail job file since limit).next = since ↔
      (published ops = [] → job.record.state.isTerminal = true →
        Log.fileLines (file.getD []) = []) := by
  intro job
  rw [tail, replay_eq]
  by_cases hnone : published ops = []
  · rw [hnone, Log.Window.after_nil, resolve, ← fileTail_eq_nil_iff hlimit]
    by_cases hterminal : job.record.state.isTerminal = true
    · simp [hterminal]
    · simp [hterminal]
  · rw [Log.Window.after_of_upToDate limit hnone hend, resolve]
    simp [hnone]

end FirmwareJobs.Observe

namespace FirmwareJobs.Http

open Text Url

/-- The call for the log of a job goes to the site of the base, and the route answers it from the
offset and with the limit that it hears. These are the offset and the limit of the call, within
bounds, if and only if both are below `2 ^ 63`; then an offset at the end or beyond it is answered
with no lines and itself, unless the job ended in a former life with lines in its file. -/
theorem tail_heard_iff {isSecure : Bool} {authority : List Char} {base : String} {site : Url}
    (hbase : IsOrigin isSecure authority base) (hsite : Url.ofText? base = some site)
    {id : String} (hid : IsSegment id.toList) {s : Service} {position : Nat} {job : Job}
    (hposition : s.engine.position? id = some position) (hjob : s.job? position = some job)
    (since limit : Nat) :
    let answer := Observe.tail job (s.logFile job) (heardSince since) (heardLimit limit)
    (∃ url, (Client.Operation.tail id since limit).call.url? base = some url ∧
      url.origin = site.origin ∧
      s.respond { method := .get, target := url.target } = (page answer, s)) ∧
    (heardSince since = since ∧ heardLimit limit = min (max limit 1) 5000 ↔
      since < 2 ^ 63 ∧ limit < 2 ^ 63) ∧
    ∀ record capacity ops, job = (Job.ofRecord record capacity).run ops → since < 2 ^ 63 →
      (Job.published ops).length ≤ since →
        (answer.lines = [] ∧ answer.next = since ↔
          (Job.published ops = [] → job.record.state.isTerminal = true →
            Log.fileLines ((s.logFile job).getD []) = [])) := by
  intro answer
  refine ⟨exists_respond_tail hbase hsite hid hposition hjob since limit, heard_iff since limit, ?_⟩
  rintro record capacity ops rfl hsince hend
  have hheard : heardSince since = since := if_pos hsince
  have hlimit : 1 ≤ heardLimit limit := by
    unfold heardLimit Observe.tailDefault
    split_ifs <;> omega
  simp only [answer, hheard]
  exact Observe.tail_of_end_iff _ hend hlimit

/-! ## A call from a workbench -/

def benchBase : String := "http://bench"

def benchUrl : Url := ⟨false, "bench".toList, none, [[]], none⟩

theorem isOrigin_benchBase : IsOrigin false "bench".toList benchBase := by
  have hplain : IsPlain "bench".toList := by decide
  exact ⟨by decide, by decide, fun c hc => (isPlain_laws (hplain c hc)).1,
    fun c hc => undivided_of_isPlain (hplain c hc)⟩

theorem host?_bench : host? "bench".toList = some "bench".toList := by
  have hdecoded : Utf8.decode? (percentDecode "bench".toList) = some "bench".toList := by
    rw [percentDecode_of_noPercent (by decide), Utf8.decode?_encode]
  change ((Utf8.decode? (percentDecode "bench".toList)).bind _) = _
  rw [hdecoded]
  rfl

theorem ofText?_benchBase : Url.ofText? benchBase = some benchUrl := by
  have hparts : ofText? (benchBase ++ "") = _ :=
    ofText?_append isOrigin_benchBase ⟨.inl rfl, by simp, by simp⟩
  have hsite : site? false "bench".toList = some ("bench".toList, none) := by
    have hname : splitPort (withoutUser "bench".toList) = ("bench".toList, []) := by decide
    simp only [site?, hname, host?_bench]
    rfl
  rw [hsite] at hparts
  exact hparts

/-- A job that has printed a line. -/
def benchJob : Job := (Job.ofRecord Job.specimen 10).run [.publish "1" .output]

/-- A server with this job. -/
def callBench : Service :=
  { host := {}
    engine :=
      { settings := { jobDir := "/jobs", workDir := "/" }
        jobs := [benchJob]
        table := [("a", 0)]
        queue := [0] }
    inherited := []
    epoch := Job.noon }

theorem isSegment_specimen : IsSegment "a".toList := by
  constructor <;> decide

theorem position?_callBench : callBench.engine.position? "a" = some 0 := rfl

theorem job?_callBench : callBench.job? 0 = some benchJob := rfl

/-- An offset at the end of the log is answered with no lines and itself. -/
theorem tail_heard_bench : ∃ url answer,
    (Client.Operation.tail "a" 1 0).call.url? benchBase = some url ∧
      url.origin = "http://bench" ∧
      callBench.respond { method := .get, target := url.target } = (page answer, callBench) ∧
      answer.lines = [] ∧ answer.next = 1 := by
  obtain ⟨⟨url, hurl, horigin, hrespond⟩, -, hend⟩ :=
    tail_heard_iff isOrigin_benchBase ofText?_benchBase isSegment_specimen
      position?_callBench job?_callBench 1 0
  have hlast := (hend Job.specimen 10 [.publish "1" .output] rfl (by decide) (by decide)).2
    (by decide)
  exact ⟨url, _, hurl, horigin.trans (by decide), hrespond, hlast⟩

/-- The client sends an offset that the route does not hear, and gets the log from its start. -/
theorem tail_unheard :
    Client.invocation none
      ["--url", "http://bench/", "tail", "a", "--since", "9223372036854775808"] =
        .perform benchBase (.tail "a" (2 ^ 63) 2000) ∧
    ∃ url, (Client.Operation.tail "a" (2 ^ 63) 2000).call.url? benchBase = some url ∧
      callBench.respond { method := .get, target := url.target } =
        (page ⟨benchJob.record, ["1"], 1⟩, callBench) ∧
      callBench.respond { method := .get, target := url.target } ≠
        (page (Observe.tail benchJob (callBench.logFile benchJob) (2 ^ 63) 2000), callBench) := by
  obtain ⟨url, hurl, -, hrespond⟩ :=
    exists_respond_tail isOrigin_benchBase ofText?_benchBase isSegment_specimen
      position?_callBench job?_callBench (2 ^ 63) 2000
  have hanswer : Observe.tail benchJob (callBench.logFile benchJob) (heardSince (2 ^ 63))
      (heardLimit 2000) = ⟨benchJob.record, ["1"], 1⟩ := by decide
  have hasked : Observe.tail benchJob (callBench.logFile benchJob) (2 ^ 63) 2000 =
      ⟨benchJob.record, [], 2 ^ 63⟩ := by decide
  rw [hanswer] at hrespond
  refine ⟨by decide, url, hurl, hrespond, fun hequal => ?_⟩
  rw [hrespond, hasked] at hequal
  have hpage := (page_eq_iff (by decide) (by decide)).1 (Prod.mk.inj hequal).1
  cases hpage

end FirmwareJobs.Http
