import FirmwareJobs.Json.Format
import FirmwareJobs.Proofs.Text.Utf8
import Mathlib.Tactic.IntervalCases

/-!
# Reading written strings

Every character is written as itself or as an escape. The reader takes the bytes of either form
back to the bytes of the character, and the bytes of all characters decode to the text.
-/

namespace FirmwareJobs.Json

open Text

/-! ## Bytes of a string -/

/-- A byte that stands for itself in a string. -/
def IsPlain (b : UInt8) : Prop := b ≠ quote ∧ b ≠ backslash ∧ ¬ b < 0x20

theorem stringBody_plain {b : UInt8} (h : IsPlain b) (t : Bytes) :
    stringBody (b :: t) = (stringBody t).map fun (y, rest) => (b :: y, rest) := by
  rw [stringBody, if_neg h.1, if_neg h.2.1, if_neg h.2.2]

theorem stringBody_append {bs : Bytes} (h : ∀ b ∈ bs, IsPlain b) (t : Bytes) :
    stringBody (bs ++ t) = (stringBody t).map fun (y, rest) => (bs ++ y, rest) := by
  induction bs with
  | nil =>
    rw [List.nil_append]
    cases stringBody t <;> rfl
  | cons b bs ih =>
    rw [List.cons_append, stringBody_plain (h b List.mem_cons_self),
      ih fun c hc => h c (List.mem_cons_of_mem b hc)]
    cases stringBody t <;> rfl

theorem stringBody_escape {s t x : Bytes} (h : escape s = .ok (x, t)) :
    stringBody (backslash :: s) = (stringBody t).map fun (y, rest) => (x ++ y, rest) := by
  rw [stringBody, if_neg (by decide), if_pos rfl]
  split
  · next hs => simp [hs] at h
  · next x' t' hs =>
    rw [hs] at h
    cases h
    rfl

/-! ## Characters of a string -/

theorem isPlain_ofNat {x : Nat} (hcontrol : 0x20 ≤ x % 256) (hquote : x % 256 ≠ 0x22)
    (hslash : x % 256 ≠ 0x5C) : IsPlain (UInt8.ofNat x) := by
  have hvalue : (UInt8.ofNat x).toNat = x % 256 := UInt8.toNat_ofNat'
  refine ⟨fun h => hquote ?_, fun h => hslash ?_, ?_⟩
  · exact hvalue.symm.trans (congrArg UInt8.toNat h)
  · exact hvalue.symm.trans (congrArg UInt8.toNat h)
  · rw [UInt8.lt_iff_toNat_lt, hvalue]
    exact Nat.not_lt.2 hcontrol

theorem isPlain_utf8EncodeChar {c : Char} (hquote : c ≠ '\x22') (hslash : c ≠ '\\')
    (hcontrol : ¬ c.toNat < 0x20) : ∀ b ∈ String.utf8EncodeChar c, IsPlain b := by
  have hquote' : c.val.toNat ≠ 0x22 := fun h => hquote (Char.ext (UInt32.toNat_inj.1 h))
  have hslash' : c.val.toNat ≠ 0x5C := fun h => hslash (Char.ext (UInt32.toNat_inj.1 h))
  have hcontrol' : ¬ c.val.toNat < 0x20 := hcontrol
  simp only [String.utf8EncodeChar]
  generalize c.val.toNat = n at *
  intro b hb
  split_ifs at hb <;> simp only [List.mem_cons, List.not_mem_nil, or_false] at hb
  · subst hb
    exact isPlain_ofNat (by omega) (by omega) (by omega)
  · rcases hb with rfl | rfl <;> exact isPlain_ofNat (by omega) (by omega) (by omega)
  · rcases hb with rfl | rfl | rfl <;> exact isPlain_ofNat (by omega) (by omega) (by omega)
  · rcases hb with rfl | rfl | rfl | rfl <;> exact isPlain_ofNat (by omega) (by omega) (by omega)

theorem escape_control {n : Nat} (h : n < 0x20) (t : Bytes) :
    escape (Utf8.encode ['u', '0', '0', hexDigit (n / 16), hexDigit (n % 16)] ++ t) =
      .ok (String.utf8EncodeChar (Char.ofNat n), t) := by
  interval_cases n <;> rfl

theorem stringBody_writeChar (c : Char) (t : Bytes) :
    stringBody (Utf8.encode (writeChar c) ++ t) =
      (stringBody t).map fun (y, rest) => (String.utf8EncodeChar c ++ y, rest) := by
  unfold writeChar
  split_ifs with hself hb hf hn hr ht hcontrol
  · rcases hself with rfl | rfl <;> exact stringBody_escape rfl
  · subst hb
    exact stringBody_escape rfl
  · subst hf
    exact stringBody_escape rfl
  · subst hn
    exact stringBody_escape rfl
  · subst hr
    exact stringBody_escape rfl
  · subst ht
    exact stringBody_escape rfl
  · have hescape := escape_control hcontrol t
    rw [Char.ofNat_toNat] at hescape
    exact stringBody_escape hescape
  · rw [not_or] at hself
    rw [Utf8.encode, List.flatMap_singleton]
    exact stringBody_append (isPlain_utf8EncodeChar hself.1 hself.2 hcontrol) t

/-! ## Whole strings -/

theorem stringBody_written (s : List Char) (t : Bytes) :
    stringBody (Utf8.encode (s.flatMap writeChar) ++ quote :: t) = .ok (Utf8.encode s, t) := by
  induction s with
  | nil =>
    rw [List.flatMap_nil, Utf8.encode_nil, List.nil_append, stringBody, if_pos rfl]
  | cons c s ih =>
    rw [List.flatMap_cons, Utf8.encode_append, List.append_assoc, stringBody_writeChar, ih]
    rfl

theorem stringRest_written (s : List Char) (t : Bytes) :
    stringRest (Utf8.encode (s.flatMap writeChar) ++ quote :: t) = .ok (String.ofList s, t) := by
  simp [stringRest, stringBody_written, Utf8.decode?_encode, bind, Except.bind]

theorem encode_writeString (s : List Char) (t : Bytes) :
    Utf8.encode (writeString s) ++ t =
      quote :: (Utf8.encode (s.flatMap writeChar) ++ quote :: t) := by
  have hclose : Utf8.encode ['\x22'] = [quote] := rfl
  have hopen : Utf8.encode ('\x22' :: s.flatMap writeChar) =
      quote :: Utf8.encode (s.flatMap writeChar) := rfl
  rw [writeString, Utf8.encode_append, hopen, hclose, List.append_assoc]
  rfl

end FirmwareJobs.Json
