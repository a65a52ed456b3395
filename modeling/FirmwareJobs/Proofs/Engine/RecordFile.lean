import FirmwareJobs.Engine.Store
import FirmwareJobs.Proofs.Json.Members
import FirmwareJobs.Proofs.Json.Whole

/-!
# Saved records

A record file holds the record that was saved: reading the bytes of a record gives it back.
-/

namespace FirmwareJobs

open Json Text

namespace Record

theorem faithful_exitCode (code : Int32) :
    exitCodeFormat.Faithful code ∧ exitCodeFormat.IsPresent code := by
  have hmin := Int32.le_toInt code
  have hmax := Int32.toInt_lt code
  refine ⟨Format.faithful_view ?_ (Int32.ofInt_toInt code), Format.isPresent_view ?_⟩
  · exact Format.faithful_whole (by omega) (by omega) (by omega) (by omega)
  · exact Format.isPresent_whole _ _ _

/-- The values of a record in the order of the declaration. -/
def values (r : Record) : Tuple [String, State, Time.Instant, Option Time.Instant,
    Option Time.Instant, Option Int32, String, String, Action, String, Bool] :=
  (r.id, r.state, r.createdAt, r.startedAt, r.endedAt, r.exitCode, r.errorSummary, r.document,
    r.action, r.device, r.clean, ())

theorem faithful_fields (r : Record) : fields.Faithful r.values := by
  have hmoment : ∀ t, Format.moment.Faithful t ∧ Format.moment.IsPresent t := fun t =>
    ⟨Format.faithful_moment t, Format.isPresent_moment t⟩
  exact ⟨Format.faithful_text _, Format.faithful_choice (State.ofWord?_word _),
    Format.faithful_moment _, Format.faithful_optional hmoment _,
    Format.faithful_optional hmoment _, Format.faithful_optional faithful_exitCode _,
    Format.faithful_text _, Format.faithful_text _,
    Format.faithful_choice (Action.ofWord?_word _), Format.faithful_text _,
    Format.faithful_flag _, trivial⟩

theorem nodup_names : fields.names.Nodup := by decide

theorem faithful_format (r : Record) : format.Faithful r :=
  Format.faithful_view (Format.faithful_object nodup_names r.faithful_fields) rfl

end Record

/-- What is written to a record file reads as the record. -/
theorem Store.decode_recordBytes (r : Record) :
    Record.format.decode (Store.recordBytes r) = .ok r := by
  have hbytes : Store.recordBytes r =
      Utf8.encode (Record.format.write (.indented 0) r) ++ [0x0A] := by
    rw [recordBytes, recordText, Utf8.ofString, String.toList_append, Utf8.encode_append,
      Format.encodeIndented, String.toList_ofList]
    rfl
  rw [hbytes]
  refine Format.decode_written (Record.faithful_format r) _ fun b hb => ?_
  obtain rfl := List.mem_singleton.1 hb
  rfl

end FirmwareJobs
