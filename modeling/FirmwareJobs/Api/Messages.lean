import FirmwareJobs.Job.Record
import FirmwareJobs.Job.Request

/-! # Messages between client and server -/

namespace FirmwareJobs.Api

open Json

/-- The answer to an accepted request. -/
structure Submitted where
  jobId : String
  job : Record
  deriving DecidableEq

structure Single where
  job : Record
  deriving DecidableEq

structure Listing where
  jobs : List Record
  deriving DecidableEq

/-- Some log lines of a job and the offset to ask for next. -/
structure Page where
  job : Record
  lines : List String
  next : Nat
  deriving DecidableEq

structure Problem where
  error : String
  code : String
  deriving Repr, DecidableEq

structure Health where
  status : String
  time : Time.Instant
  deriving DecidableEq

def Submitted.format : Format Submitted :=
  (Format.object (.cons "job_id" .text none (.cons "job" Record.format none .nil))).view
    (fun (jobId, job, ()) => ⟨jobId, job⟩) (fun m => (m.jobId, m.job, ()))

def Single.format : Format Single :=
  (Format.object (.cons "job" Record.format none .nil)).view
    (fun (job, ()) => ⟨job⟩) (fun m => (m.job, ()))

def Listing.format : Format Listing :=
  (Format.object (.cons "jobs" (.list Record.format) none .nil)).view
    (fun (jobs, ()) => ⟨jobs⟩) (fun m => (m.jobs, ()))

def Page.format : Format Page :=
  (Format.object
    (.cons "job" Record.format none
      (.cons "lines" (.list .text) none (.cons "next_seq" (.natural 64) none .nil)))).view
    (fun (job, lines, next, ()) => ⟨job, lines, next⟩) (fun m => (m.job, m.lines, m.next, ()))

def Problem.format : Format Problem :=
  (Format.object (.cons "error" .text none (.cons "code" .text none .nil))).view
    (fun (error, code, ()) => ⟨error, code⟩) (fun m => (m.error, m.code, ()))

def Health.format : Format Health :=
  (Format.object (.cons "status" .text none (.cons "ts" .moment none .nil))).view
    (fun (status, time, ()) => ⟨status, time⟩) (fun m => (m.status, m.time, ()))

end FirmwareJobs.Api
