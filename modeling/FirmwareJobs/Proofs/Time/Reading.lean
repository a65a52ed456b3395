import FirmwareJobs.Time.Printer
import FirmwareJobs.Time.Reader
import Mathlib.Data.List.TakeWhile

/-!
# Reading written instants

Every field of a written instant has the width that the reader looks for, so each step of the
reader takes exactly one field off the text and the parts make up the same instant.
-/

namespace FirmwareJobs.Text

/-! ## Padded numbers -/

theorem length_digits_le {n w : Nat} (hw : 0 < w) (h : n < Nat.pow 10 w) :
    (digits n).length ≤ w := by
  induction w generalizing n with
  | zero => contradiction
  | succ w ih =>
    rw [digits]
    split
    · exact Nat.succ_le_succ (Nat.zero_le w)
    · next hn =>
      rw [List.length_append, List.length_singleton]
      have hpow : n < Nat.pow 10 w * 10 := h
      refine Nat.succ_le_succ (ih ?_ (by omega))
      cases w with
      | zero => exact absurd hpow hn
      | succ w => exact Nat.succ_pos w

theorem length_paddedDigits {n w : Nat} (hw : 0 < w) (h : n < Nat.pow 10 w) :
    (paddedDigits w n).length = w := by
  rw [paddedDigits, List.length_append, List.length_replicate]
  have := length_digits_le hw h
  omega

theorem isDigit_of_mem_paddedDigits {w n : Nat} {c : Char} (h : c ∈ paddedDigits w n) :
    isDigit c = true := by
  rcases List.mem_append.1 h with hzero | hdigit
  · rw [List.eq_of_mem_replicate hzero]
    rfl
  · exact List.all_eq_true.1 (all_isDigit_digits n) c hdigit

theorem paddedDigits_ne_nil (w n : Nat) : paddedDigits w n ≠ [] := by
  simp [paddedDigits, digits_ne_nil]

theorem digitsValue_paddedDigits (w n : Nat) : digitsValue 0 (paddedDigits w n) = n := by
  have hzeros : ∀ k, digitsValue 0 (List.replicate k '0') = 0 := by
    intro k
    induction k with
    | zero => rfl
    | succ k ih => exact ih
  rw [paddedDigits, digitsValue_append, hzeros, digitsValue_digits]

/-- A text that does not go on with a digit. -/
def NoDigit (s : List Char) : Prop := ∀ c ∈ s.head?, isDigit c = false

theorem takeWhile_isDigit_append {ds s : List Char} (hds : ∀ c ∈ ds, isDigit c = true)
    (hs : NoDigit s) : (ds ++ s).takeWhile isDigit = ds := by
  rw [List.takeWhile_append_of_pos hds]
  cases s with
  | nil => simp
  | cons c s => simp [hs c rfl]

theorem dropWhile_isDigit {s : List Char} (hs : NoDigit s) : s.dropWhile isDigit = s := by
  cases s with
  | nil => rfl
  | cons c s => simp [hs c rfl]

theorem trimStart_of_digit {c : Char} (s : List Char) (h : isDigit c = true) :
    trimStart (c :: s) = c :: s := by
  have hblank : isBlank c = false := by
    rw [isDigit, Bool.and_eq_true, decide_eq_true_eq, decide_eq_true_eq] at h
    have hlow : 48 ≤ c.toNat := h.1
    have hhigh : c.toNat ≤ 57 := h.2
    simp only [isBlank, Bool.or_eq_false_iff, Bool.and_eq_false_iff, decide_eq_false_iff_not,
      beq_eq_false_iff_ne]
    omega
  simp [trimStart, hblank]

theorem trimStart_paddedDigits (w n : Nat) (s : List Char) :
    trimStart (paddedDigits w n ++ s) = paddedDigits w n ++ s := by
  cases h : paddedDigits w n with
  | nil => exact absurd h (paddedDigits_ne_nil w n)
  | cons c ds =>
    exact trimStart_of_digit _
      (isDigit_of_mem_paddedDigits (w := w) (n := n) (h ▸ List.mem_cons_self))

end FirmwareJobs.Text

namespace FirmwareJobs.Time

open Text

/-! ## Fields -/

theorem takeNumber_some {w : Nat} {ds s : List Char} (hne : ds ≠ [])
    (h : ((ds ++ s).take w).takeWhile isDigit = ds) :
    takeNumber (some w) (ds ++ s) = some (digitsValue 0 ds, s) := by
  simp only [takeNumber, h]
  rw [if_neg (by simpa using hne), List.drop_left]

theorem takeNumber_none {ds s : List Char} (hne : ds ≠ []) (h : (ds ++ s).takeWhile isDigit = ds) :
    takeNumber none (ds ++ s) = some (digitsValue 0 ds, s) := by
  simp only [takeNumber, h]
  rw [if_neg (by simpa using hne), List.drop_left]

theorem takeNumber_paddedDigits {w n : Nat} (hw : 0 < w) (h : n < Nat.pow 10 w) (s : List Char) :
    takeNumber (some w) (paddedDigits w n ++ s) = some (n, s) := by
  have hlength := length_paddedDigits hw h
  rw [takeNumber_some (paddedDigits_ne_nil w n), digitsValue_paddedDigits]
  rw [List.take_left' hlength]
  exact List.takeWhile_eq_self_iff.2 fun c hc => isDigit_of_mem_paddedDigits hc

theorem takeNumber_none_paddedDigits {w n : Nat} {s : List Char} (hs : NoDigit s) :
    takeNumber none (paddedDigits w n ++ s) = some (n, s) := by
  rw [takeNumber_none (paddedDigits_ne_nil w n), digitsValue_paddedDigits]
  exact takeWhile_isDigit_append (fun c hc => isDigit_of_mem_paddedDigits hc) hs

theorem takeField_paddedDigits {n : Nat} (h : n < 100) (s : List Char) :
    takeField (paddedDigits 2 n ++ s) = some (n, s) := by
  rw [takeField, trimStart_paddedDigits]
  exact takeNumber_paddedDigits (by decide) h s

theorem takeNext_paddedDigits {divider : Char} (hdivider : isBlank divider = false) {n : Nat}
    (h : n < 100) (s : List Char) :
    takeNext divider (divider :: (paddedDigits 2 n ++ s)) = some (n, s) := by
  have htrim : trimStart (divider :: (paddedDigits 2 n ++ s)) =
      divider :: (paddedDigits 2 n ++ s) := by
    simp [trimStart, hdivider]
  simp only [takeNext, htrim, takeChar, if_true, Option.bind_eq_bind, Option.bind_some]
  exact takeField_paddedDigits h s

/-! ## Dates -/

theorem takeYear_yearDigits {year : Int} {s : List Char} (hs : NoDigit s) :
    takeYear (yearDigits year ++ s) = some (year, s) := by
  unfold yearDigits
  split
  · next h =>
    have hyear : year.toNat < Nat.pow 10 4 := by
      change year.toNat < 10000
      omega
    have hback : ((year.toNat : Nat) : Int) = year := Int.toNat_of_nonneg h.1
    have hnumber := takeNumber_paddedDigits (by decide) hyear s
    rw [takeYear, trimStart_paddedDigits]
    cases hd : paddedDigits 4 year.toNat with
    | nil => exact absurd hd (paddedDigits_ne_nil 4 year.toNat)
    | cons c ds =>
      have hc : isDigit c = true :=
        isDigit_of_mem_paddedDigits (w := 4) (n := year.toNat) (hd ▸ List.mem_cons_self)
      rw [hd] at hnumber
      rw [List.cons_append] at hnumber ⊢
      split
      · next he => cases he; exact absurd hc (by decide)
      · next he => cases he; exact absurd hc (by decide)
      · rw [hnumber]
        simp [hback]
  · next h =>
    have hnumber := takeNumber_none_paddedDigits (w := 4) (n := year.natAbs) hs
    by_cases hneg : year < 0
    · rw [if_pos hneg, List.cons_append]
      have htrim : ∀ r, trimStart ('-' :: r) = '-' :: r := fun r => rfl
      simp only [takeYear, htrim, hnumber, Option.map_some, Option.some.injEq, Prod.mk.injEq,
        and_true]
      omega
    · rw [if_neg hneg, List.cons_append]
      have htrim : ∀ r, trimStart ('+' :: r) = '+' :: r := fun r => rfl
      simp only [takeYear, htrim, hnumber, Option.map_some, Option.some.injEq, Prod.mk.injEq,
        and_true]
      omega

theorem daysIn_le (year : Int) (month : Nat) : daysIn year month ≤ 31 := by
  unfold daysIn
  split_ifs <;> omega

theorem takeDate_toChars {d : Date} (hd : d.Valid) (s : List Char) :
    takeDate (d.toChars ++ s) = some (d, s) := by
  obtain ⟨-, -, -, hmonth, -, hday⟩ := hd
  have hdays := daysIn_le d.year d.month
  have hyear : ∀ r, takeYear (yearDigits d.year ++ '-' :: r) = some (d.year, '-' :: r) :=
    fun r => takeYear_yearDigits fun c hc => by
      obtain rfl : '-' = c := by simpa using hc
      rfl
  simp only [takeDate, Date.toChars, List.append_assoc, List.cons_append, hyear,
    Option.bind_eq_bind, Option.bind_some]
  rw [takeNext_paddedDigits (by decide) (by omega)]
  simp only [Option.bind_some]
  rw [takeNext_paddedDigits (by decide) (by omega)]
  rfl

/-! ## Times of the day -/

theorem takeFraction_point {k n : Nat} (hk : k ≤ 9) (hk0 : 0 < k) (h : n < Nat.pow 10 k)
    {s : List Char} (hs : NoDigit s) :
    takeFraction ('.' :: (paddedDigits k n ++ s)) = some (n * Nat.pow 10 (9 - k), s) := by
  have hlength := length_paddedDigits hk0 h
  have hrest : NoDigit (s.take (9 - k)) := by
    cases s with
    | nil => simp [NoDigit]
    | cons c s =>
      cases 9 - k with
      | zero => simp [NoDigit]
      | succ i => exact hs
  have hnumber : takeNumber (some 9) (paddedDigits k n ++ s) = some (n, s) := by
    rw [takeNumber_some (paddedDigits_ne_nil k n), digitsValue_paddedDigits]
    rw [List.take_append, List.take_of_length_le (by omega), hlength]
    exact takeWhile_isDigit_append (fun c hc => isDigit_of_mem_paddedDigits hc) hrest
  simp only [takeFraction, hnumber, Option.bind_eq_bind, Option.bind_some, dropWhile_isDigit hs,
    List.length_append, hlength, Nat.add_sub_cancel]

theorem takeFraction_fractionDigits {nano : Nat} (h : nano < nanosPerSecond) {s : List Char}
    (hs : NoDigit s) (hpoint : s.head? ≠ some '.') :
    takeFraction (fractionDigits nano ++ s) = some (nano, s) := by
  have hbound : nano < 1000000000 := h
  unfold fractionDigits
  split_ifs with h0 h3 h6
  · subst h0
    cases s with
    | nil => rfl
    | cons c s =>
      rw [List.nil_append, takeFraction]
      rintro r he
      cases he
      exact hpoint rfl
  · rw [List.cons_append, takeFraction_point (by decide) (by decide) _ hs]
    · rw [Option.some.injEq, Prod.mk.injEq]
      refine ⟨?_, rfl⟩
      change nano / 1000000 * 1000000 = nano
      omega
    · change nano / 1000000 < 1000
      omega
  · rw [List.cons_append, takeFraction_point (by decide) (by decide) _ hs]
    · rw [Option.some.injEq, Prod.mk.injEq]
      refine ⟨?_, rfl⟩
      change nano / 1000 * 1000 = nano
      omega
    · change nano / 1000 < 1000000
      omega
  · rw [List.cons_append, takeFraction_point (by decide) (by decide) _ hs]
    · rw [Option.some.injEq, Prod.mk.injEq]
      exact ⟨Nat.mul_one nano, rfl⟩
    · exact hbound

/-! ## Instants -/

theorem takeTime_written (t : Instant) :
    takeTime (paddedDigits 2 (t.second / 3600) ++
      ':' :: (paddedDigits 2 (t.second / 60 % 60) ++
        ':' :: (paddedDigits 2 t.shownSecond ++
          (fractionDigits (t.nano % nanosPerSecond) ++ ['Z'])))) =
      some ((t.second, t.nano), ['Z']) := by
  obtain ⟨-, hsecond, hnano, hleap⟩ := t.valid
  have hday : secondsPerDay = 86400 := rfl
  have hn : nanosPerSecond = 1000000000 := rfl
  have hz : NoDigit ['Z'] := by
    intro c hc
    obtain rfl : 'Z' = c := by simpa using hc
    rfl
  have hshown : t.shownSecond = t.second % 60 + t.nano / nanosPerSecond := rfl
  rw [hn] at hnano hleap hshown
  simp only [takeTime, Option.bind_eq_bind]
  rw [takeField_paddedDigits (by omega)]
  simp only [Option.bind_some]
  rw [takeNext_paddedDigits (by decide) (by omega)]
  simp only [Option.bind_some]
  rw [takeNext_paddedDigits (by decide) (by omega)]
  simp only [Option.bind_some]
  rw [takeFraction_fractionDigits (Nat.mod_lt _ (by decide)) hz (by decide)]
  simp only [Option.bind_some, hn]
  rw [if_neg (by omega)]
  split_ifs
  · simp only [Option.some.injEq, Prod.mk.injEq, and_true]
    omega
  · simp only [Option.some.injEq, Prod.mk.injEq, and_true]
    omega

theorem ofLocal?_zero (t : Instant) : Instant.ofLocal? t.date t.second t.nano 0 = some t := by
  have hlt : (t.second : Int) < secondsPerDay := Int.ofNat_lt.2 t.valid.2.1
  simp only [Instant.ofLocal?, t.valid, decide_true, Bool.not_true, Bool.false_eq_true, if_false,
    Int.sub_zero]
  rw [if_neg (by omega), if_pos hlt, Int.toNat_natCast]
  exact Instant.ofParts?_eq t

theorem ofChars?_toChars (t : Instant) : Instant.ofChars? t.toChars = some t := by
  have hzone : takeZone (trimStart ['Z']) = some (0, []) := by decide
  have hend : (trimStart []).isEmpty = true := rfl
  have hchars : t.toChars = t.date.toChars ++ 'T' :: (paddedDigits 2 (t.second / 3600) ++
      ':' :: (paddedDigits 2 (t.second / 60 % 60) ++ ':' :: (paddedDigits 2 t.shownSecond ++
        (fractionDigits (t.nano % nanosPerSecond) ++ ['Z'])))) := by
    simp [Instant.toChars]
  rw [hchars]
  simp only [Instant.ofChars?, takeDate_toChars t.valid.1, Option.bind_eq_bind, Option.bind_some,
    true_or, if_true, takeTime_written, hzone, hend]
  exact ofLocal?_zero t

end FirmwareJobs.Time
