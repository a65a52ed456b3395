import FirmwareJobs.Text.Utf8
import Mathlib.Data.List.Basic
import Mathlib.Tactic.SplitIfs

/-!
# Decoding what was encoded

The bytes of a character lead the automaton from the state between characters back to it, and the
character is the only thing that it reports on the way. An ASCII character is read only from its
own byte, also where the bytes are malformed, and what stands before and behind it is decoded by
itself.
-/

namespace FirmwareJobs.Text.Utf8

/-! ## Single bytes -/

theorem lead_ascii : ∀ x < 0x80, lead (UInt8.ofNat x) = ([some (Char.ofNat x)], none) := by decide

theorem lead_of_two : ∀ k < 32, 2 ≤ k →
    lead (UInt8.ofNat (k + 192)) = ([], some ⟨1, 0x80, 0xBF, k⟩) := by decide

theorem lead_of_three : ∀ k < 16, lead (UInt8.ofNat (k + 224)) =
    ([], some ⟨2, if k = 0 then 0xA0 else 0x80, if k = 13 then 0x9F else 0xBF, k⟩) := by decide

theorem lead_of_four : ∀ k < 5, lead (UInt8.ofNat (k + 240)) =
    ([], some ⟨3, if k = 0 then 0x90 else 0x80, if k = 4 then 0x8F else 0xBF, k⟩) := by decide

theorem step_continuation (p : Partial) {y : Nat} (hy : y < 64)
    (hlow : p.low.toNat ≤ y + 128) (hhigh : y + 128 ≤ p.high.toNat) :
    step (some p) (UInt8.ofNat (y + 128)) =
      if p.missing ≤ 1 then ([some (Char.ofNat (p.bits * 64 + y))], none)
      else ([], some ⟨p.missing - 1, 0x80, 0xBF, p.bits * 64 + y⟩) := by
  have hvalue : (UInt8.ofNat (y + 128)).toNat = y + 128 := by
    rw [UInt8.toNat_ofNat']
    omega
  have hrange : p.low ≤ UInt8.ofNat (y + 128) ∧ UInt8.ofNat (y + 128) ≤ p.high := by
    rw [UInt8.le_iff_toNat_le, UInt8.le_iff_toNat_le, hvalue]
    exact ⟨hlow, hhigh⟩
  have hbits : (y + 128) % 64 = y := by omega
  simp only [step, hrange.1, hrange.2, decide_true, Bool.and_self, if_true, hvalue, hbits]

/-! ## Whole characters -/

theorem scanFrom_pair (state : Option Partial) {p : Partial} {b : UInt8} (t : List UInt8)
    (h : step state b = ([], some p)) : scanFrom state (b :: t) = scanFrom (some p) t := by
  simp [scanFrom_cons, h]

theorem scanFrom_last (state : Option Partial) {c : Char} {b : UInt8} (t : List UInt8)
    (h : step state b = ([some c], none)) :
    scanFrom state (b :: t) = some c :: scanFrom none t := by
  simp [scanFrom_cons, h]

theorem scanFrom_one {low high : UInt8} {bits y : Nat} (t : List UInt8) (hy : y < 64)
    (hlow : low.toNat ≤ y + 128) (hhigh : y + 128 ≤ high.toNat) :
    scanFrom (some ⟨1, low, high, bits⟩) (UInt8.ofNat (y + 128) :: t) =
      some (Char.ofNat (bits * 64 + y)) :: scanFrom none t :=
  scanFrom_last _ t (step_continuation ⟨1, low, high, bits⟩ hy hlow hhigh)

theorem scanFrom_two {low high : UInt8} {bits x y : Nat} (t : List UInt8) (hx : x < 64)
    (hlow : low.toNat ≤ x + 128) (hhigh : x + 128 ≤ high.toNat) (hy : y < 64) :
    scanFrom (some ⟨2, low, high, bits⟩) (UInt8.ofNat (x + 128) :: UInt8.ofNat (y + 128) :: t) =
      some (Char.ofNat ((bits * 64 + x) * 64 + y)) :: scanFrom none t := by
  rw [scanFrom_pair _ _ (step_continuation ⟨2, low, high, bits⟩ hx hlow hhigh)]
  exact scanFrom_one t hy (by simp) (by change y + 128 ≤ 191; omega)

theorem scanFrom_three {low high : UInt8} {bits w x y : Nat} (t : List UInt8) (hw : w < 64)
    (hlow : low.toNat ≤ w + 128) (hhigh : w + 128 ≤ high.toNat) (hx : x < 64) (hy : y < 64) :
    scanFrom (some ⟨3, low, high, bits⟩)
        (UInt8.ofNat (w + 128) :: UInt8.ofNat (x + 128) :: UInt8.ofNat (y + 128) :: t) =
      some (Char.ofNat (((bits * 64 + w) * 64 + x) * 64 + y)) :: scanFrom none t := by
  rw [scanFrom_pair _ _ (step_continuation ⟨3, low, high, bits⟩ hw hlow hhigh)]
  exact scanFrom_two t hx (by simp) (by change x + 128 ≤ 191; omega) hy

theorem scanFrom_utf8EncodeChar (c : Char) (t : List UInt8) :
    scanFrom none (String.utf8EncodeChar c ++ t) = some c :: scanFrom none t := by
  have hvalid : c.val.toNat < 0xD800 ∨ 0xDFFF < c.val.toNat ∧ c.val.toNat < 0x110000 := c.valid
  have hback : ∀ n, n = c.val.toNat → some (Char.ofNat n) = some c := by
    rintro n rfl
    exact congrArg some (Char.ofNat_toNat c)
  simp only [String.utf8EncodeChar]
  generalize c.val.toNat = n at *
  split_ifs with h1 h2 h3
  · rw [List.singleton_append, scanFrom_last none t (lead_ascii n (by omega)), hback n rfl]
  · have hlead := lead_of_two (n / 64 % 32) (by omega) (by omega)
    rw [List.cons_append, List.singleton_append, scanFrom_pair none _ hlead,
      scanFrom_one t (by omega) (by simp) (by simp; omega), hback _ (by omega)]
  · have hlead := lead_of_three (n / 4096 % 16) (by omega)
    rw [List.cons_append, List.cons_append, List.singleton_append, scanFrom_pair none _ hlead,
      scanFrom_two t (by omega) ?low ?high (by omega), hback _ (by omega)]
    case low => split_ifs <;> simp; omega
    case high => split_ifs <;> simp <;> omega
  · have hlead := lead_of_four (n / 262144 % 8) (by omega)
    rw [List.cons_append, List.cons_append, List.cons_append, List.singleton_append,
      scanFrom_pair none _ hlead, scanFrom_three t (by omega) ?low ?high (by omega) (by omega),
      hback _ (by omega)]
    case low => split_ifs <;> simp; omega
    case high => split_ifs <;> simp <;> omega

theorem scan_encode (s : List Char) : scan (encode s) = s.map some := by
  induction s with
  | nil => rfl
  | cons c s ih =>
    change scanFrom none (String.utf8EncodeChar c ++ encode s) = _
    rw [scanFrom_utf8EncodeChar]
    exact congrArg (some c :: ·) ih

theorem decode?_encode (s : List Char) : decode? (encode s) = some s := by
  rw [decode?, scan_encode]
  induction s with
  | nil => rfl
  | cons c s ih => simp [ih]

theorem decodeLossy_encode (s : List Char) : decodeLossy (encode s) = s := by
  rw [decodeLossy, scan_encode, List.map_map]
  exact List.map_id s

/-! ## ASCII characters -/

theorem mem_encode_of_ascii {s : List Char} {b : UInt8} (h : b ∈ encode s) (hb : b.toNat < 0x80) :
    Char.ofNat b.toNat ∈ s := by
  obtain ⟨c, hc, hmem⟩ := List.mem_flatMap.1 h
  have hself : b.toNat = c.toNat := by
    change b.toNat = c.val.toNat
    simp only [String.utf8EncodeChar] at hmem
    split_ifs at hmem <;> simp only [List.mem_cons, List.not_mem_nil, or_false] at hmem
    all_goals
      rcases hmem with rfl | rfl | rfl | rfl <;> simp only [UInt8.toNat_ofNat'] at hb ⊢ <;> omega
  rwa [hself, Char.ofNat_toNat]

theorem toNat_ofNat_cases (n : Nat) : (Char.ofNat n).toNat = n ∨ (Char.ofNat n).toNat = 0 := by
  by_cases h : n.isValidChar
  · left
    rw [Char.ofNat, dif_pos h]
    rfl
  · right
    rw [Char.ofNat, dif_neg h]
    rfl

/-- A character that is begun like this is not an ASCII character. -/
def Partial.Wide (p : Partial) : Prop :=
  p.high.toNat ≤ 0xBF ∧ (2 ≤ p.bits ∨ 2 ≤ p.missing ∧ (1 ≤ p.bits ∨ 0x90 ≤ p.low.toNat))

theorem wide_of_lead {b : UInt8} {p : Partial} (h : (lead b).2 = some p) : p.Wide := by
  unfold lead at h
  split_ifs at h with h1 h2 h3 h4 h5 h6 h7 h8 h9 <;> cases h
  all_goals
    simp only [UInt8.lt_iff_toNat_lt, beq_iff_eq, ← UInt8.toNat_inj] at *
    simp [Partial.Wide] at *
  all_goals omega

theorem mem_lead {b : UInt8} {c : Char} (h : some c ∈ (lead b).1) : c = Char.ofNat b.toNat := by
  unfold lead at h
  split_ifs at h <;> simp_all

theorem step_wide {state : Option Partial} (hwide : ∀ p, state = some p → p.Wide) (b : UInt8) :
    (∀ c, some c ∈ (step state b).1 → 0 < c.toNat → c.toNat < 0x80 → c.toNat = b.toNat) ∧
      ∀ p, (step state b).2 = some p → p.Wide := by
  have hself : ∀ c, some c ∈ (lead b).1 → 0 < c.toNat → c.toNat = b.toNat := by
    intro c hc hpos
    obtain rfl := mem_lead hc
    rcases toNat_ofNat_cases b.toNat with h | h <;> omega
  cases state with
  | none => exact ⟨fun c hc hpos _ => hself c hc hpos, fun p => wide_of_lead⟩
  | some p =>
    obtain ⟨hhigh, hbits⟩ := hwide p rfl
    rw [step]
    split_ifs with hrange hlast
    · rw [Bool.and_eq_true, decide_eq_true_iff, decide_eq_true_iff, UInt8.le_iff_toNat_le,
        UInt8.le_iff_toNat_le] at hrange
      refine ⟨fun c hc hpos hascii => ?_, by simp⟩
      obtain rfl := Option.some.inj (List.mem_singleton.1 hc)
      rcases toNat_ofNat_cases (p.bits * 64 + b.toNat % 64) with h | h <;> omega
    · rw [Bool.and_eq_true, decide_eq_true_iff, decide_eq_true_iff, UInt8.le_iff_toNat_le,
        UInt8.le_iff_toNat_le] at hrange
      refine ⟨by simp, fun q hq => ?_⟩
      obtain rfl := Option.some.inj hq
      refine ⟨by simp, ?_⟩
      dsimp only
      omega
    · refine ⟨fun c hc hpos _ => hself c ?_ hpos, fun p => wide_of_lead⟩
      simpa using hc

theorem mem_scanFrom {state : Option Partial} (hwide : ∀ p, state = some p → p.Wide)
    {bytes : List UInt8} {c : Char} (h : some c ∈ scanFrom state bytes) (hpos : 0 < c.toNat)
    (hascii : c.toNat < 0x80) : ∃ b ∈ bytes, c.toNat = b.toNat := by
  induction bytes generalizing state with
  | nil => cases state <;> simp [scanFrom, flush] at h
  | cons b bytes ih =>
    obtain ⟨hunits, hnext⟩ := step_wide hwide b
    rw [scanFrom_cons, List.mem_append] at h
    rcases h with h | h
    · exact ⟨b, List.mem_cons_self, hunits c h hpos hascii⟩
    · obtain ⟨b', hb', hc⟩ := ih hnext h
      exact ⟨b', List.mem_cons_of_mem b hb', hc⟩

/-- An ASCII character other than NUL is read only from its own byte. -/
theorem mem_of_mem_decodeLossy {bytes : List UInt8} {c : Char} (h : c ∈ decodeLossy bytes)
    (hpos : 0 < c.toNat) (hascii : c.toNat < 0x80) : UInt8.ofNat c.toNat ∈ bytes := by
  obtain ⟨unit, hunit, rfl⟩ := List.mem_map.1 h
  cases unit with
  | none => exact absurd hascii (by decide)
  | some c =>
    obtain ⟨b, hb, hc⟩ := mem_scanFrom (by simp) hunit hpos hascii
    rwa [Option.getD_some, hc, UInt8.ofNat_toNat]

/-! ## Cutting the bytes at an ASCII character -/

theorem low_of_lead {b : UInt8} {p : Partial} (h : (lead b).2 = some p) : 0x80 ≤ p.low := by
  unfold lead at h
  split_ifs at h <;> cases h <;> simp

theorem low_of_step {state : Option Partial} {b : UInt8} {p : Partial}
    (h : (step state b).2 = some p) : 0x80 ≤ p.low := by
  cases state with
  | none => exact low_of_lead h
  | some q =>
    rw [step] at h
    by_cases hrange : (q.low ≤ b && b ≤ q.high) = true
    · rw [if_pos hrange] at h
      dsimp only at h
      split_ifs at h
      cases h
      simp
    · rw [if_neg hrange] at h
      exact low_of_lead h

theorem scanFrom_append_ascii {state : Option Partial}
    (hlow : ∀ p, state = some p → 0x80 ≤ p.low) (bytes rest : List UInt8) {b : UInt8}
    (hb : b < 0x80) :
    scanFrom state (bytes ++ b :: rest) =
      scanFrom state bytes ++ some (Char.ofNat b.toNat) :: scanFrom none rest := by
  induction bytes generalizing state with
  | nil => simp [scanFrom_cons, step_ascii state hb hlow, scanFrom]
  | cons x bytes ih =>
    rw [List.cons_append, scanFrom_cons, scanFrom_cons, ih fun p => low_of_step, List.append_assoc]

/-- What stands on both sides of an ASCII byte is decoded by itself. -/
theorem decodeLossy_append_ascii (bytes rest : List UInt8) {b : UInt8} (hb : b < 0x80) :
    decodeLossy (bytes ++ b :: rest) =
      decodeLossy bytes ++ Char.ofNat b.toNat :: decodeLossy rest := by
  rw [decodeLossy, scan, scanFrom_append_ascii (by simp) bytes rest hb]
  simp [decodeLossy, scan]

/-- A byte reports something or leaves a character unfinished. -/
theorem step_reports {state : Option Partial} {b : UInt8} (h : (step state b).2 = none) :
    (step state b).1 ≠ [] := by
  have hlead : (lead b).2 = none → (lead b).1 ≠ [] := by
    unfold lead
    intro h
    split_ifs at h ⊢ <;> simp_all
  cases state with
  | none => exact hlead h
  | some p =>
    rw [step] at h ⊢
    split_ifs at h ⊢ <;> simp_all

theorem scanFrom_ne_nil {state : Option Partial} {bytes : List UInt8}
    (h : state ≠ none ∨ bytes ≠ []) : scanFrom state bytes ≠ [] := by
  induction bytes generalizing state with
  | nil =>
    cases state with
    | none => simp at h
    | some p => simp [scanFrom, flush]
  | cons b bytes ih =>
    rw [scanFrom_cons]
    by_cases hnext : (step state b).2 = none
    · exact List.append_ne_nil_of_left_ne_nil (step_reports hnext) _
    · exact List.append_ne_nil_of_right_ne_nil _ (ih (.inl hnext))

theorem decodeLossy_ne_nil {bytes : List UInt8} (h : bytes ≠ []) : decodeLossy bytes ≠ [] := by
  simpa [decodeLossy, scan] using scanFrom_ne_nil (.inr h)

end FirmwareJobs.Text.Utf8
