import FirmwareJobs.Proofs.Json.Faithful

/-!
# Reading written integers

The digits of an integer stand for themselves as bytes, the first of them is not a zero unless the
number is zero, and the number ends at the boundary after it.
-/

namespace FirmwareJobs.Json

open Text

/-! ## Digits as bytes -/

/-- The byte of a digit. -/
def digitByte (c : Char) : UInt8 := UInt8.ofNat c.toNat

theorem toNat_of_isDigit {c : Char} (h : Text.isDigit c = true) :
    48 ≤ c.toNat ∧ c.toNat ≤ 57 := by
  rw [Text.isDigit, Bool.and_eq_true, decide_eq_true_eq, decide_eq_true_eq] at h
  exact ⟨h.1, h.2⟩

theorem utf8EncodeChar_of_isDigit {c : Char} (h : Text.isDigit c = true) :
    String.utf8EncodeChar c = [digitByte c] := by
  have hc : c.val.toNat ≤ 127 := le_trans (toNat_of_isDigit h).2 (by decide)
  simp only [String.utf8EncodeChar, if_pos hc]
  rfl

theorem encode_digits {ds : List Char} (h : ∀ c ∈ ds, Text.isDigit c = true) :
    Utf8.encode ds = ds.map digitByte := by
  induction ds with
  | nil => rfl
  | cons c ds ih =>
    change String.utf8EncodeChar c ++ Utf8.encode ds = _
    rw [utf8EncodeChar_of_isDigit (h c List.mem_cons_self),
      ih fun d hd => h d (List.mem_cons_of_mem c hd)]
    rfl

theorem toNat_digitByte {c : Char} (h : Text.isDigit c = true) : (digitByte c).toNat = c.toNat := by
  have := toNat_of_isDigit h
  rw [digitByte, UInt8.toNat_ofNat']
  omega

theorem eq_zero_of_digitByte {c : Char} (h : Text.isDigit c = true) (hzero : digitByte c = 0x30) :
    c = '0' := by
  have hnat := toNat_digitByte h
  rw [hzero] at hnat
  rw [← Char.ofNat_toNat c, ← hnat]
  rfl

theorem isDigit_digitByte {c : Char} (h : Text.isDigit c = true) :
    isDigit (digitByte c) = true := by
  have := toNat_of_isDigit h
  rw [isDigit, Bool.and_eq_true, decide_eq_true_eq, decide_eq_true_eq, UInt8.le_iff_toNat_le,
    UInt8.le_iff_toNat_le, toNat_digitByte h]
  exact this

theorem decimalValue_digitBytes {ds : List Char} (h : ∀ c ∈ ds, Text.isDigit c = true) (n : Nat) :
    (ds.map digitByte).foldl (fun n b => n * 10 + b.toNat % 16) n = digitsValue n ds := by
  induction ds generalizing n with
  | nil => rfl
  | cons c ds ih =>
    rw [List.map_cons, List.foldl_cons, toNat_digitByte (h c List.mem_cons_self),
      ih fun d hd => h d (List.mem_cons_of_mem c hd)]
    rfl

theorem head_digits {n : Nat} (hn : n ≠ 0) : ∀ c ∈ (digits n).head?, c ≠ '0' := by
  have hdigit : ∀ k < 10, k ≠ 0 → digitChar k ≠ '0' := by decide
  fun_induction digits n with
  | case1 n h =>
    intro c hc
    obtain rfl : digitChar n = c := by simpa using hc
    exact hdigit n h hn
  | case2 n h ih =>
    intro c hc
    refine ih (by omega) c ?_
    rwa [List.head?_append, Option.or_of_isSome
      (List.isSome_head?.2 (digits_ne_nil (n / 10)))] at hc

/-! ## The end of a number -/

theorem not_isDigit_of_boundary {s : Bytes} (h : IsBoundary s) :
    ∀ b ∈ s.head?, isDigit b = false := by
  intro b hb
  rcases h b hb with rfl | rfl | rfl | hblank
  · rfl
  · rfl
  · rfl
  · simp only [isBlank, Bool.or_eq_true, beq_iff_eq] at hblank
    rcases hblank with ((rfl | rfl) | rfl) | rfl <;> rfl

theorem not_continued_of_boundary {s : Bytes} (h : IsBoundary s) :
    ∀ b ∈ s.head?, b ≠ point ∧ isExponentMark b = false := by
  intro b hb
  rcases h b hb with rfl | rfl | rfl | hblank
  · decide
  · decide
  · decide
  · simp only [isBlank, Bool.or_eq_true, beq_iff_eq] at hblank
    rcases hblank with ((rfl | rfl) | rfl) | rfl <;> decide

theorem isBlank_of_isDigit {b : UInt8} (h : isDigit b = true) : isBlank b = false := by
  by_contra hblank
  simp only [isBlank, Bool.not_eq_false, Bool.or_eq_true, beq_iff_eq] at hblank
  rcases hblank with ((rfl | rfl) | rfl) | rfl <;> exact absurd h (by decide)

theorem ne_of_isDigit {b c : UInt8} (h : isDigit b = true) (hc : isDigit c = false) : b ≠ c := by
  rintro rfl
  rw [h] at hc
  exact nomatch hc

theorem digitsOf_append {ds : List Char} (h : ∀ c ∈ ds, Text.isDigit c = true) {s : Bytes}
    (hs : ∀ b ∈ s.head?, isDigit b = false) : digitsOf (ds.map digitByte ++ s) = ds.map digitByte ∧
      afterDigits (ds.map digitByte ++ s) = s := by
  have hall : ∀ b ∈ ds.map digitByte, isDigit b = true := by
    intro b hb
    obtain ⟨c, hc, rfl⟩ := List.mem_map.1 hb
    exact isDigit_digitByte (h c hc)
  rw [digitsOf, afterDigits, List.takeWhile_append_of_pos hall, List.dropWhile_append_of_pos hall]
  cases s with
  | nil => simp
  | cons b s => simp [hs b rfl]

/-- A number without fraction and exponent. -/
def wholeNumber (negative : Bool) (m : Nat) : Number :=
  if negative then .negative m else .natural m

theorem numberRest_of_boundary {negative : Bool} {m : Nat} {s : Bytes} (hs : IsBoundary s)
    (hneg : negative = true → m ≠ 0 ∧ m ≤ 9223372036854775808)
    (hpos : negative = false → m < 18446744073709551616) :
    numberRest negative m s = .ok (wholeNumber negative m, s) := by
  have hwhole : (if negative then
      if m = 0 ∨ 9223372036854775808 < m then fractionOf m 0 s else .ok (.negative m, s)
    else if m < 18446744073709551616 then .ok (.natural m, s) else fractionOf m 0 s) =
      .ok (wholeNumber negative m, s) := by
    cases negative with
    | true =>
      obtain ⟨h0, hm⟩ := hneg rfl
      rw [if_pos rfl, if_neg (by omega)]
      rfl
    | false =>
      rw [if_neg Bool.false_ne_true, if_pos (hpos rfl)]
      rfl
  unfold numberRest
  cases s with
  | nil => exact hwhole
  | cons b s =>
    have hb := not_continued_of_boundary hs b rfl
    simp only [if_neg hb.1, hb.2, Bool.false_eq_true, if_false]
    exact hwhole

theorem unsignedNumber_digits (negative : Bool) (m : Nat) {s : Bytes} (hs : IsBoundary s)
    (hneg : negative = true → m ≠ 0 ∧ m ≤ 9223372036854775808)
    (hpos : negative = false → m < 18446744073709551616) :
    unsignedNumber negative (Utf8.encode (digits m) ++ s) = .ok (wholeNumber negative m, s) := by
  have hdigits : ∀ c ∈ digits m, Text.isDigit c = true :=
    fun c hc => List.all_eq_true.1 (all_isDigit_digits m) c hc
  have hrest := numberRest_of_boundary hs hneg hpos
  obtain ⟨hof, hafter⟩ := digitsOf_append hdigits (not_isDigit_of_boundary hs)
  have hvalue : decimalValue ((digits m).map digitByte) = m := by
    rw [decimalValue, decimalValue_digitBytes hdigits, digitsValue_digits]
  rw [encode_digits hdigits]
  cases hm : digits m with
  | nil => exact absurd hm (digits_ne_nil m)
  | cons c ds =>
    rw [hm] at hdigits hof hafter hvalue
    rw [List.map_cons, List.cons_append] at hof hafter ⊢
    have hc := isDigit_digitByte (hdigits c List.mem_cons_self)
    rw [List.map_cons] at hvalue
    simp only [unsignedNumber, hc, Bool.not_true, Bool.false_eq_true, if_false, hof, hafter, hvalue]
    split
    · next hzero =>
      -- A number written with a zero in front is zero, and nothing follows that digit.
      have hm0 : m = 0 := by
        by_contra hne
        exact head_digits hne c (by rw [hm]; rfl)
          (eq_zero_of_digitByte (hdigits c List.mem_cons_self) hzero)
      subst hm0
      obtain rfl : ds = [] := by
        have hzeros : digits 0 = ['0'] := by
          rw [digits]
          rfl
        exact (List.cons.inj (hzeros.symm.trans hm)).2.symm
      rw [List.map_nil, List.nil_append]
      cases s with
      | nil => exact hrest
      | cons b s =>
        simp only [not_isDigit_of_boundary hs b rfl, Bool.false_eq_true, if_false]
        exact hrest
    · exact hrest

namespace Format

theorem head_integerDigits (n : Int) : ∃ b r, Utf8.encode (integerDigits n) = b :: r ∧
    (b = minus ∨ isDigit b = true) := by
  rw [integerDigits]
  split
  · exact ⟨minus, Utf8.encode (digits n.natAbs), rfl, .inl rfl⟩
  · have hdigits : ∀ c ∈ digits n.natAbs, Text.isDigit c = true :=
      fun c hc => List.all_eq_true.1 (all_isDigit_digits n.natAbs) c hc
    rw [encode_digits hdigits]
    cases hm : digits n.natAbs with
    | nil => exact absurd hm (digits_ne_nil n.natAbs)
    | cons c ds =>
      exact ⟨digitByte c, ds.map digitByte, rfl,
        .inr (isDigit_digitByte (hdigits c (hm ▸ List.mem_cons_self)))⟩

/-- An integer that a number token can hold. -/
theorem faithful_whole {low high n : Int} (hlow : low ≤ n) (hhigh : n ≤ high)
    (hmin : -9223372036854775808 ≤ n) (hmax : n < 18446744073709551616) :
    (whole low high).Faithful n where
  read _ blanks s h hs := by
    have hrange := And.intro hlow hhigh
    change readWhole low high (blanks ++ (Utf8.encode (integerDigits n) ++ s)) = _
    rw [readWhole, skipBlank_append h]
    by_cases hn : n < 0
    · have hnumber := unsignedNumber_digits true n.natAbs hs
        (fun _ => by omega) (fun hf => nomatch hf)
      have hback : -(n.natAbs : Int) = n := by omega
      have hbytes : Utf8.encode (integerDigits n) ++ s =
          minus :: (Utf8.encode (digits n.natAbs) ++ s) := by
        rw [integerDigits, if_pos hn]
        rfl
      rw [hbytes, skipBlank_cons (by decide)]
      simp only [if_true, hnumber, wholeNumber, bind, Except.bind, hback, if_pos hrange]
    · have hnumber := unsignedNumber_digits false n.natAbs hs
        (fun hf => nomatch hf) (fun _ => by omega)
      have hback : ((n.natAbs : Nat) : Int) = n := by omega
      obtain ⟨b, r, hbytes, hb⟩ := head_integerDigits n
      have hdigits : Utf8.encode (digits n.natAbs) = b :: r := by
        rwa [integerDigits, if_neg hn] at hbytes
      have hdigit : isDigit b = true := by
        rcases hb with rfl | hb
        · rw [hdigits, List.cons_append] at hnumber
          exact nomatch hnumber
        · exact hb
      rw [hdigits, List.cons_append] at hnumber
      rw [hbytes, List.cons_append, skipBlank_cons (isBlank_of_isDigit hdigit)]
      simp only [if_neg (ne_of_isDigit (c := minus) hdigit rfl), hdigit, if_true, hnumber,
        wholeNumber, Bool.false_eq_true, if_false, bind, Except.bind, hback, if_pos hrange]
  start _ := by
    obtain ⟨b, r, hbytes, hb⟩ := head_integerDigits n
    refine ⟨b, r, hbytes, ?_⟩
    rcases hb with rfl | hb
    · exact ⟨rfl, by decide⟩
    · exact ⟨isBlank_of_isDigit hb, ne_of_isDigit hb rfl⟩

theorem natural_eq (bits : Nat) :
    natural bits = (whole 0 (Nat.pow 2 bits - 1)).view Int.toNat Int.ofNat := by
  have hwrite (n : Nat) : integerDigits (Int.ofNat n) = digits n := by
    have hnonneg : ¬ Int.ofNat n < 0 := Int.not_lt.mpr (Int.natCast_nonneg n)
    rw [integerDigits, if_neg hnonneg]
    rfl
  simp only [natural, view, whole, hwrite]

theorem faithful_natural {bits n : Nat} (hbits : bits ≤ 64) (h : n < Nat.pow 2 bits) :
    (natural bits).Faithful n := by
  have hpow : Nat.pow 2 bits ≤ 18446744073709551616 := Nat.pow_le_pow_right (by decide) hbits
  rw [natural_eq]
  refine faithful_view (faithful_whole (Int.natCast_nonneg n) ?_ ?_ ?_) rfl
  · change (n : Int) ≤ (Nat.pow 2 bits : Int) - 1
    omega
  · exact (by decide : (-9223372036854775808 : Int) ≤ 0).trans (Int.natCast_nonneg n)
  · change (n : Int) < 18446744073709551616
    omega

theorem isPresent_whole (low high n : Int) : (whole low high).IsPresent n := fun _ => by
  obtain ⟨b, r, hbytes, hb⟩ := head_integerDigits n
  change (Utf8.encode (integerDigits n)).head? ≠ _
  rw [hbytes, List.head?_cons, ne_eq, Option.some.injEq]
  rcases hb with rfl | hb
  · decide
  · exact ne_of_isDigit hb rfl

end Format

end FirmwareJobs.Json
