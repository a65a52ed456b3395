import FirmwareJobs.Job.Record
import Mathlib.Tactic.SplitIfs

/-! # Compact JSON is one line

A string is written with its line breaks escaped, and the compact layout adds none, so the compact
text of a value has no line feed and no carriage return.
-/

namespace FirmwareJobs

open Text

namespace Text

def IsBreak (c : Char) : Prop := c = '\n' ∨ c = '\r'

instance (c : Char) : Decidable (IsBreak c) := inferInstanceAs (Decidable (_ ∨ _))

/-- A text without line breaks. -/
def OneLine (s : List Char) : Prop := ∀ c ∈ s, ¬ IsBreak c

instance (s : List Char) : Decidable (OneLine s) := List.decidableBAll (¬ IsBreak ·) s

theorem oneLine_nil : OneLine [] := List.forall_mem_nil _

theorem oneLine_cons {c : Char} {s : List Char} : OneLine (c :: s) ↔ ¬ IsBreak c ∧ OneLine s :=
  List.forall_mem_cons

theorem oneLine_append {s t : List Char} : OneLine (s ++ t) ↔ OneLine s ∧ OneLine t :=
  List.forall_mem_append

theorem oneLine_digits (n : Nat) : OneLine (digits n) := by
  have hdigit : ∀ d < 10, OneLine [digitChar d] := by decide
  induction n using Nat.strongRecOn with
  | ind n ih =>
    rw [digits]
    split_ifs with h
    · exact hdigit n h
    · exact oneLine_append.mpr ⟨ih (n / 10) (by omega), hdigit _ (Nat.mod_lt _ (by decide))⟩

theorem oneLine_integerDigits (n : Int) : OneLine (integerDigits n) := by
  rw [integerDigits]
  split_ifs
  · exact oneLine_cons.mpr ⟨by decide, oneLine_digits _⟩
  · exact oneLine_digits _

end Text

namespace Json

theorem oneLine_writeChar (c : Char) : OneLine (writeChar c) := by
  have hhex : ∀ n < 16, ¬ IsBreak (hexDigit n) := by decide
  unfold writeChar
  split_ifs with hquoted _ _ hline hreturn _ hcontrol
  · rcases hquoted with rfl | rfl <;> decide
  · decide
  · decide
  · decide
  · decide
  · decide
  · have hfirst := hhex (c.toNat / 16) (by omega)
    have hsecond := hhex (c.toNat % 16) (Nat.mod_lt _ (by decide))
    have hescape : OneLine ['\\', 'u', '0', '0'] := by decide
    exact oneLine_append.mpr ⟨hescape, oneLine_cons.mpr ⟨hfirst, oneLine_cons.mpr ⟨hsecond,
      oneLine_nil⟩⟩⟩
  · exact oneLine_cons.mpr ⟨not_or.mpr ⟨hline, hreturn⟩, oneLine_nil⟩

theorem oneLine_writeString (s : List Char) : OneLine (writeString s) := by
  refine oneLine_cons.mpr ⟨by decide, oneLine_append.mpr ⟨fun c hc => ?_, by decide⟩⟩
  obtain ⟨a, -, ha⟩ := List.mem_flatMap.mp hc
  exact oneLine_writeChar a c ha

theorem oneLine_writeItems {items : List (List Char)} (h : ∀ item ∈ items, OneLine item) :
    OneLine (writeItems .compact items) := by
  induction items with
  | nil => exact oneLine_nil
  | cons item rest ih =>
    obtain ⟨hitem, hrest⟩ := List.forall_mem_cons.mp h
    cases rest with
    | nil => exact hitem
    | cons next rest =>
      exact oneLine_append.mpr ⟨hitem, oneLine_cons.mpr ⟨by decide, ih hrest⟩⟩

theorem oneLine_writeBracketed {opening closing : Char} {items : List (List Char)}
    (hopening : ¬ IsBreak opening) (hclosing : ¬ IsBreak closing)
    (h : ∀ item ∈ items, OneLine item) :
    OneLine (writeBracketed .compact opening closing items) := by
  have hend : OneLine [closing] := oneLine_cons.mpr ⟨hclosing, oneLine_nil⟩
  rw [writeBracketed]
  split_ifs
  · exact oneLine_cons.mpr ⟨hopening, hend⟩
  · exact oneLine_cons.mpr ⟨hopening, oneLine_append.mpr
      ⟨oneLine_append.mpr ⟨oneLine_writeItems h, oneLine_nil⟩, hend⟩⟩

namespace Format

/-- The compact text of every value is one line. -/
def OneLine {α : Type} (f : Format α) : Prop := ∀ a, Text.OneLine (f.write .compact a)

variable {α β : Type} {f : Format α}

theorem oneLine_text : text.OneLine := fun s => oneLine_writeString s.toList

theorem oneLine_moment : moment.OneLine := fun t => oneLine_writeString t.toChars

theorem oneLine_choice (choose : String → Option α) (name : α → String) :
    (choice choose name).OneLine := fun a => oneLine_writeString (name a).toList

theorem oneLine_flag : flag.OneLine := fun b => by
  cases b
  · change Text.OneLine "false".toList
    decide
  · change Text.OneLine "true".toList
    decide

theorem oneLine_whole (low high : Int) : (whole low high).OneLine := oneLine_integerDigits

theorem oneLine_optional (h : f.OneLine) : (optional f).OneLine := fun o => by
  cases o with
  | none =>
    change Text.OneLine "null".toList
    decide
  | some a => exact h a

theorem oneLine_view (h : f.OneLine) (forth : α → β) (back : β → α) :
    (f.view forth back).OneLine := fun b => h (back b)

end Format

/-- All members are written in one line. -/
def Fields.OneLine : {ts : List Type} → Fields ts → Prop
  | _, .nil => True
  | _, .cons _ format _ rest => format.OneLine ∧ rest.OneLine

theorem Fields.oneLine_writeMembers {ts : List Type} {fields : Fields ts} (h : fields.OneLine)
    (as : Tuple ts) : ∀ item ∈ fields.writeMembers .compact as, Text.OneLine item := by
  induction fields with
  | nil => exact List.forall_mem_nil _
  | cons name format fallback rest ih =>
    obtain ⟨a, as⟩ := as
    refine List.forall_mem_cons.mpr ⟨?_, ih h.2 as⟩
    have hcolon : Text.OneLine (Layout.afterName .compact) := by decide
    exact oneLine_append.mpr ⟨oneLine_append.mpr ⟨oneLine_writeString _, hcolon⟩, h.1 a⟩

theorem Format.oneLine_object {ts : List Type} {fields : Fields ts} (h : fields.OneLine) :
    (Format.object fields).OneLine := fun as =>
  oneLine_writeBracketed (by decide) (by decide) (Fields.oneLine_writeMembers h as)

end Json

open Json in
theorem Record.oneLine_format : format.OneLine := by
  have hcode : exitCodeFormat.OneLine := Format.oneLine_view (Format.oneLine_whole _ _) _ _
  have hmoment := Format.oneLine_optional Format.oneLine_moment
  have hfields : fields.OneLine :=
    ⟨Format.oneLine_text, Format.oneLine_choice _ _, Format.oneLine_moment, hmoment, hmoment,
      Format.oneLine_optional hcode, Format.oneLine_text, Format.oneLine_text,
      Format.oneLine_choice _ _, Format.oneLine_text, Format.oneLine_flag, trivial⟩
  exact Format.oneLine_view (Format.oneLine_object hfields) _ _

end FirmwareJobs
