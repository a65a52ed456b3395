import FirmwareJobs.Proofs.Json.Strings
import FirmwareJobs.Proofs.Time.Reading

/-!
# Formats that read what they write

A format is faithful to a value if reading the written value, in any layout and with blanks before
it, gives the value back and stops right after it. Numbers end only where something follows that
is not part of a number, so what follows must be something that can stand after a value.
-/

namespace FirmwareJobs.Json

open Text

/-! ## Blanks and boundaries -/

def AllBlank (s : Bytes) : Prop := ∀ b ∈ s, isBlank b = true

theorem skipBlank_append {blanks : Bytes} (h : AllBlank blanks) (s : Bytes) :
    skipBlank (blanks ++ s) = skipBlank s := by
  rw [skipBlank, skipBlank, List.dropWhile_append_of_pos h]

theorem skipBlank_cons {b : UInt8} (h : isBlank b = false) (s : Bytes) :
    skipBlank (b :: s) = b :: s := by
  rw [skipBlank, List.dropWhile_cons, h]
  rfl

theorem skipBlank_of_allBlank {s : Bytes} (h : AllBlank s) : skipBlank s = [] := by
  have := skipBlank_append h []
  rwa [List.append_nil] at this

/-- What may stand after a value: nothing, a blank, or a byte that divides or closes. -/
def IsBoundary (s : Bytes) : Prop :=
  ∀ b ∈ s.head?, b = comma ∨ b = closeList ∨ b = closeObject ∨ isBlank b = true

theorem isBoundary_cons {b : UInt8} (s : Bytes)
    (h : b = comma ∨ b = closeList ∨ b = closeObject ∨ isBlank b = true) : IsBoundary (b :: s) := by
  intro c hc
  obtain rfl : b = c := by simpa using hc
  exact h

theorem isBoundary_append {blanks s : Bytes} (h : AllBlank blanks) (hs : IsBoundary s) :
    IsBoundary (blanks ++ s) := by
  cases blanks with
  | nil => exact hs
  | cons b blanks => exact isBoundary_cons _ (.inr (.inr (.inr (h b List.mem_cons_self))))

namespace Format

/-- The format reads back what it writes for `a`, and `a` is not written like a blank, the end of a
list or a missing value. -/
structure Faithful {α : Type} (f : Format α) (a : α) : Prop where
  read : ∀ layout blanks s, AllBlank blanks → IsBoundary s →
    f.read (blanks ++ (Utf8.encode (f.write layout a) ++ s)) = .ok (a, s)
  start : ∀ layout, ∃ b r, Utf8.encode (f.write layout a) = b :: r ∧ isBlank b = false ∧
    b ≠ closeList

/-- The value is not written as the name of the missing value. -/
def IsPresent {α : Type} (f : Format α) (a : α) : Prop :=
  ∀ layout, (Utf8.encode (f.write layout a)).head? ≠ some letterN

variable {α β : Type} {f : Format α} {a : α}

/-! ## Strings -/

theorem readString_written (blanks : Bytes) (h : AllBlank blanks) (cs : List Char) (s : Bytes) :
    readString (blanks ++ (Utf8.encode (writeString cs) ++ s)) = .ok (String.ofList cs, s) := by
  rw [encode_writeString, readString, skipBlank_append h, skipBlank_cons (by decide)]
  exact stringRest_written cs s

theorem start_writeString (cs : List Char) :
    ∃ b r, Utf8.encode (writeString cs) = b :: r ∧ isBlank b = false ∧ b ≠ closeList := by
  have h := encode_writeString cs []
  rw [List.append_nil] at h
  exact ⟨quote, _, h, by decide, by decide⟩

theorem head?_writeString (cs : List Char) : (Utf8.encode (writeString cs)).head? = some quote := by
  have h := encode_writeString cs []
  rw [List.append_nil] at h
  rw [h]
  rfl

theorem faithful_text (s : String) : text.Faithful s where
  read _ blanks t h _ := by
    change readString _ = _
    rw [text, readString_written blanks h, String.ofList_toList]
  start _ := start_writeString s.toList

theorem faithful_moment (t : Time.Instant) : moment.Faithful t where
  read _ blanks s h _ := by
    have hstring := readString_written blanks h t.toChars s
    have htime : Time.Instant.ofText? (String.ofList t.toChars) = some t := by
      rw [Time.Instant.ofText?, String.toList_ofList, Time.ofChars?_toChars]
    change readMoment (blanks ++ (Utf8.encode (writeString t.toChars) ++ s)) = _
    simp only [readMoment, hstring, bind, Except.bind, htime]
  start _ := start_writeString t.toChars

theorem isPresent_moment (t : Time.Instant) : moment.IsPresent t := fun _ => by
  change (Utf8.encode (writeString t.toChars)).head? ≠ _
  rw [head?_writeString]
  decide

theorem faithful_choice {choose : String → Option α} {name : α → String}
    (h : choose (name a) = some a) : (choice choose name).Faithful a where
  read _ blanks s hblanks _ := by
    have hstring := readString_written [] (fun b hb => nomatch hb) (name a).toList s
    rw [encode_writeString, List.nil_append] at hstring
    change readChoice choose (blanks ++ (Utf8.encode (writeString (name a).toList) ++ s)) = _
    rw [encode_writeString, readChoice, skipBlank_append hblanks, skipBlank_cons (by decide)]
    simp only [if_true, hstring, bind, Except.bind, String.ofList_toList, h]
  start _ := start_writeString (name a).toList

/-! ## Flags -/

theorem faithful_flag (b : Bool) : flag.Faithful b where
  read _ blanks s h _ := by
    cases b with
    | true =>
      change readFlag (blanks ++ (letterT :: [0x72, 0x75, 0x65] ++ s)) = _
      rw [readFlag, skipBlank_append h]
      rfl
    | false =>
      change readFlag (blanks ++ (letterF :: [0x61, 0x6C, 0x73, 0x65] ++ s)) = _
      rw [readFlag, skipBlank_append h]
      rfl
  start _ := by
    cases b with
    | true => exact ⟨letterT, [0x72, 0x75, 0x65], rfl, by decide, by decide⟩
    | false => exact ⟨letterF, [0x61, 0x6C, 0x73, 0x65], rfl, by decide, by decide⟩

/-! ## Values that may be missing -/

theorem faithful_none : (optional f).Faithful none where
  read _ blanks s h _ := by
    change readOptional f.read (blanks ++ (letterN :: [0x75, 0x6C, 0x6C] ++ s)) = _
    rw [readOptional, skipBlank_append h]
    rfl
  start _ := ⟨letterN, [0x75, 0x6C, 0x6C], rfl, by decide, by decide⟩

theorem faithful_some (h : f.Faithful a) (hpresent : f.IsPresent a) :
    (optional f).Faithful (some a) where
  read layout blanks s hblanks hs := by
    obtain ⟨b, r, hstart, hb, -⟩ := h.start layout
    have hread := h.read layout [] s (fun c hc => nomatch hc) hs
    have hne : b ≠ letterN := fun he => hpresent layout (by rw [hstart, he]; rfl)
    change readOptional f.read (blanks ++ (Utf8.encode (f.write layout a) ++ s)) = _
    rw [List.nil_append] at hread
    rw [hstart] at hread ⊢
    rw [readOptional, skipBlank_append hblanks, List.cons_append, skipBlank_cons hb]
    simp only [if_neg hne]
    rw [← List.cons_append, hread]
    rfl
  start := h.start

theorem faithful_optional (h : ∀ a, f.Faithful a ∧ f.IsPresent a) (o : Option α) :
    (optional f).Faithful o := by
  cases o with
  | none => exact faithful_none
  | some a => exact faithful_some (h a).1 (h a).2

/-! ## Other views -/

theorem faithful_view {forth : α → β} {back : β → α} {b : β} (h : f.Faithful (back b))
    (hback : forth (back b) = b) : (f.view forth back).Faithful b where
  read layout blanks s hblanks hs := by
    change (f.read (blanks ++ (Utf8.encode (f.write layout (back b)) ++ s))).map _ = _
    rw [h.read layout blanks s hblanks hs]
    change Except.ok (forth (back b), s) = _
    rw [hback]
  start := h.start

theorem isPresent_view {forth : α → β} {back : β → α} {b : β} (h : f.IsPresent (back b)) :
    (f.view forth back).IsPresent b := h

/-! ## Whole texts -/

theorem decode_written (h : f.Faithful a) (layout : Layout) {blanks : Bytes}
    (hblanks : AllBlank blanks) :
    f.decode (Utf8.encode (f.write layout a) ++ blanks) = .ok a := by
  have hboundary : IsBoundary blanks := by
    have := isBoundary_append hblanks (s := []) (fun b hb => nomatch hb)
    rwa [List.append_nil] at this
  have hread := h.read layout [] blanks (fun b hb => nomatch hb) hboundary
  rw [List.nil_append] at hread
  simp [decode, hread, bind, Except.bind, skipBlank_of_allBlank hblanks]

end Format

end FirmwareJobs.Json
