import FirmwareJobs.Api.Messages
import FirmwareJobs.Proofs.Engine.RecordFile
import FirmwareJobs.Proofs.Job.Operation
import FirmwareJobs.Proofs.Json.Lawful

/-!
# Messages that read what they write

Every message between client and server is read back from the text in which it is sent, and every
record from the file in which it is saved. A message in any other spelling keeps its meaning when
it is written again.
-/

namespace FirmwareJobs

open Json Text

theorem Request.faithful_format (r : Request) : format.Faithful r :=
  Format.faithful_view (Format.faithful_object (by decide)
    ⟨Format.faithful_text _, Format.faithful_text _, Format.faithful_text _,
      Format.faithful_flag _, trivial⟩) rfl

namespace Api

theorem Submitted.faithful_format (m : Submitted) : format.Faithful m :=
  Format.faithful_view (Format.faithful_object (by decide)
    ⟨Format.faithful_text _, Record.faithful_format _, trivial⟩) rfl

theorem Single.faithful_format (m : Single) : format.Faithful m :=
  Format.faithful_view (Format.faithful_object (by decide)
    ⟨Record.faithful_format _, trivial⟩) rfl

theorem Listing.faithful_format (m : Listing) : format.Faithful m :=
  Format.faithful_view (Format.faithful_object (by decide)
    ⟨Format.faithful_list fun r _ => Record.faithful_format r, trivial⟩) rfl

theorem Problem.faithful_format (m : Problem) : format.Faithful m :=
  Format.faithful_view (Format.faithful_object (by decide)
    ⟨Format.faithful_text _, Format.faithful_text _, trivial⟩) rfl

theorem Health.faithful_format (m : Health) : format.Faithful m :=
  Format.faithful_view (Format.faithful_object (by decide)
    ⟨Format.faithful_text _, Format.faithful_moment _, trivial⟩) rfl

/-- The offset of a page is a number of 64 bits. -/
def Page.IsSound (m : Page) : Prop := m.next < 18446744073709551616

instance (m : Page) : Decidable m.IsSound := inferInstanceAs (Decidable (_ < _))

theorem Page.faithful_format {m : Page} (h : m.IsSound) : format.Faithful m :=
  Format.faithful_view (Format.faithful_object (by decide)
    ⟨Record.faithful_format _, Format.faithful_list fun line _ => Format.faithful_text line,
      Format.faithful_natural le_rfl h, trivial⟩) rfl

/-- A page that was read has an offset of 64 bits, so it can be written again. -/
theorem Page.lawful_format : format.Lawful := by
  have hlines : (Format.list .text).Lawful := Format.lawful_of_faithful fun lines =>
    Format.faithful_list fun line _ => Format.faithful_text line
  exact Format.lawful_view (Format.lawful_object (by decide)
    ⟨Format.lawful_of_faithful Record.faithful_format, (by simp), hlines,
      (by simp), Format.lawful_natural le_rfl, (by simp), trivial⟩)
    fun _ => rfl

/-- Records, requests and all answers round-trip, and so does a record through its file. -/
theorem messages_roundTrip :
    Record.format.RoundTrips (fun _ => True) ∧
      (∀ r, Record.format.decode (Store.recordBytes r) = .ok r) ∧
      Request.format.RoundTrips (fun _ => True) ∧
      Submitted.format.RoundTrips (fun _ => True) ∧
      Single.format.RoundTrips (fun _ => True) ∧
      Listing.format.RoundTrips (fun _ => True) ∧
      Page.format.RoundTrips Page.IsSound ∧
      Problem.format.RoundTrips (fun _ => True) ∧
      Health.format.RoundTrips (fun _ => True) := by
  have hall {α : Type} {f : Format α} (h : ∀ a, f.Faithful a) : f.RoundTrips fun _ => True :=
    (Format.lawful_of_faithful h).roundTrips fun a _ => h a
  exact ⟨hall Record.faithful_format, Store.decode_recordBytes, hall Request.faithful_format,
    hall Submitted.faithful_format, hall Single.faithful_format, hall Listing.faithful_format,
    Page.lawful_format.roundTrips fun _ => Page.faithful_format, hall Problem.faithful_format,
    hall Health.faithful_format⟩

/-- A problem spelled with other blanks, another order, escapes and an unknown member. -/
def lenientProblem : String :=
  " \x7b \"code\" :\"\\u0058\",\"more\":[1e400], \"error\":\"a\\/b\"\x7d\n"

/-- The largest offset, and a line with all kinds of characters. -/
def lastPage : Page := ⟨Job.specimen, ["\x00 \"\\\n\u2028😀"], 18446744073709551615⟩

theorem messages_roundTrip_lenientProblem :
    lastPage.IsSound ∧
      Page.format.decode (Utf8.ofString (Page.format.encode lastPage)) = .ok lastPage ∧
      Problem.format.decode (Utf8.ofString lenientProblem) = .ok ⟨"a/b", "X"⟩ ∧
      Problem.format.decode (Utf8.ofString (Problem.format.encode ⟨"a/b", "X"⟩)) =
        .ok ⟨"a/b", "X"⟩ := by
  have hsound : lastPage.IsSound := by decide
  have hread : Problem.format.decode (Utf8.ofString lenientProblem) = .ok ⟨"a/b", "X"⟩ := by
    decide +kernel
  obtain ⟨-, -, -, -, -, -, hpage, hproblem, -⟩ := messages_roundTrip
  exact ⟨hsound, hpage.decode_encode _ hsound, hread, hproblem.decode_rewritten _ _ hread⟩

end Api

end FirmwareJobs
