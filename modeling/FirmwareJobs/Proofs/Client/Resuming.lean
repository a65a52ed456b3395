import FirmwareJobs.Client.Session
import Mathlib.Data.Nat.Find

/-!
# A follower through pages and failures

A follower hears a page or a failure on each of its calls. It asks for the lines behind the last
page, however many calls have failed since then, and it returns at the first page whose record is
in a terminal state or at the fourth failure in a row. These rules say what a whole session asks
for, prints and reports, whatever it hears.
-/

namespace FirmwareJobs.Client

open Api

namespace Follow

/-! ## The rules -/

abbrev Answer := Except Fault Page

/-- The pages among some answers. -/
def pages (answers : List Answer) : List Page := answers.filterMap Except.toOption

/-- The offset to go on from: that of the last page, and 0 before the first. -/
def offset (answers : List Answer) : Nat :=
  ((pages answers).getLast?.map Page.next).getD 0

/-- What a follower does on an answer after which it goes on. -/
def report : Answer → List Effect
  | .ok page => page.lines.map .print
  | .error fault => [.complain (fault.message ++ ", retrying"), .pause 1000]

/-- After these answers a follower has had these effects and returns this output. -/
inductive Returns : List Answer → List Effect → String → Prop where
  | found (before : List Answer) {page : Page}
      (h : page.job.state.isTerminal = true) :
      Returns (before ++ [.ok page]) (List.flatMap report (before ++ [.ok page]))
        (describe page.job)
  | gaveUp (before : List Answer) (a b c d : Fault) :
      Returns (before ++ [.error a, .error b, .error c, .error d])
        (List.flatMap report (before ++ [.error a, .error b, .error c])) d.message

def HasReturned (answers : List Answer) : Prop :=
  ∃ effects output, Returns answers effects output

/-! ## One answer -/

def isFailure : Answer → Bool
  | .ok _ => false
  | .error _ => true

/-- The failures since the last page. -/
def failuresSince (answers : List Answer) : Nat :=
  (answers.reverse.takeWhile isFailure).length

/-- The follower after some answers. -/
def after (answers : List Answer) : Follow := ⟨offset answers, failuresSince answers⟩

theorem failuresSince_concat (answers : List Answer) (a : Answer) :
    failuresSince (answers ++ [a]) = if isFailure a then failuresSince answers + 1 else 0 := by
  rw [failuresSince, List.reverse_concat, List.takeWhile_cons]
  split <;> rfl

theorem HasReturned.last {answers : List Answer} {a : Answer} (h : HasReturned (answers ++ [a])) :
    (∃ page, a = .ok page ∧ page.job.state.isTerminal = true) ∨
      (∃ fault, a = .error fault) ∧ 3 ≤ failuresSince answers := by
  obtain ⟨effects, output, hreturns⟩ := h
  generalize hall : answers ++ [a] = all at hreturns
  cases hreturns with
  | found before hend =>
    exact .inl ⟨_, List.singleton_inj.1 (List.append_inj' hall rfl).2, hend⟩
  | gaveUp before x y z fault =>
    have hsplit : before ++ [.error x, .error y, .error z, .error fault] =
        (before ++ [.error x] ++ [.error y] ++ [.error z]) ++ [(.error fault : Answer)] := by simp
    rw [hsplit] at hall
    obtain ⟨rfl, ha⟩ := List.append_inj' hall rfl
    refine .inr ⟨⟨fault, List.singleton_inj.1 ha⟩, ?_⟩
    rw [failuresSince_concat, failuresSince_concat, failuresSince_concat]
    exact Nat.le_add_left 3 _

end Follow

/-! ## Whole sessions -/

namespace Session

open Follow

variable (base id : String) (replies : List Reply)

/-- Whether the calls of a follower have an address. -/
def HasAddress : Prop := (Url.ofText? (base ++ (followCall id 0).path)).isSome = true

instance : Decidable (HasAddress base id) := inferInstanceAs (Decidable (_ = true))

/-- The answer that a follower hears on its call number `k`. A call without an address fails, and
after the last reply the connection is closed. -/
def answer (k : Nat) : Answer :=
  if HasAddress base id then (replies.getD k (.broken "connection closed")).read Page.format
  else .error (.broken "no absolute address")

/-- The first `n` answers. -/
def heard (n : Nat) : List Answer := (List.range n).map (answer base id replies)

/-- The call number `k`: it asks for what comes behind the answers before. -/
def callAt (k : Nat) : Call := followCall id (offset (heard base id replies k))

/-- The call number `k` as a request to a server that replies. -/
def request? (k : Nat) : Option (Call × Url) :=
  if k < replies.length then
    ((callAt base id replies k).url? base).map (callAt base id replies k, ·)
  else none

/-- The requests among the first `n` calls. -/
def requests (n : Nat) : List (Call × Url) := (List.range n).filterMap (request? base id replies)

/-- A transcript that begins with other requests and effects. -/
def Transcript.behind (t : Transcript) (requests : List (Call × Url)) (effects : List Effect) :
    Transcript :=
  ⟨requests ++ t.requests, effects ++ t.effects, t.output⟩

end Session

end FirmwareJobs.Client
