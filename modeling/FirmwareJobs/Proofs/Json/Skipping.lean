import FirmwareJobs.Proofs.Json.Grammar
import FirmwareJobs.Proofs.Json.Lists
import FirmwareJobs.Proofs.Json.Whole
import Mathlib.Data.List.DropRight

/-!
# Passing over a value

A value that nobody reads is passed over whole, whatever it is made of and however deep it is
nested. The loop keeps the open lists and objects on a stack; a value takes it from waiting for a
value to waiting for what follows, with the same stack, in at most two rounds for each byte.
-/

namespace FirmwareJobs.Json

open Text

/-! ## Bytes of the grammar -/

theorem Blanks.allBlank (blanks : Blanks) : AllBlank (Utf8.encode blanks.1) := by
  have hchar : ∀ c ∈ [' ', '\n', '\t', '\r'], ∀ b ∈ String.utf8EncodeChar c, isBlank b = true := by
    intro c hc
    simp only [List.mem_cons, List.not_mem_nil, or_false] at hc
    rcases hc with rfl | rfl | rfl | rfl <;> exact List.all_eq_true.1 rfl
  intro b hb
  obtain ⟨c, hc, hbc⟩ := List.mem_flatMap.1 hb
  exact hchar c (blanks.2 c hc) b hbc

theorem encode_quoted (text : List Char) (s : Bytes) :
    Utf8.encode (quoted text) ++ s = quote :: (Utf8.encode text ++ quote :: s) := by
  have hopen : ∀ cs, Utf8.encode ('\x22' :: cs) = quote :: Utf8.encode cs := fun _ => rfl
  rw [quoted, List.cons_append, hopen, Utf8.encode_append, List.cons_append, List.append_assoc]
  rfl

theorem hexValue?_of_mem : ∀ x ∈ hexDigits, Utf8.encode [x.1] = [UInt8.ofNat x.1.toNat] ∧
    hexValue? (UInt8.ofNat x.1.toNat) = some x.2 := by decide

theorem hexQuad_codeUnit (u : CodeUnit) (s : Bytes) :
    hexQuad (Utf8.encode u.text ++ s) = .ok (u.number, s) := by
  obtain ⟨h1, v1⟩ := hexValue?_of_mem _ u.first.2
  obtain ⟨h2, v2⟩ := hexValue?_of_mem _ u.second.2
  obtain ⟨h3, v3⟩ := hexValue?_of_mem _ u.third.2
  obtain ⟨h4, v4⟩ := hexValue?_of_mem _ u.fourth.2
  have hbytes : Utf8.encode u.text = Utf8.encode [u.first.1.1] ++ (Utf8.encode [u.second.1.1] ++
      (Utf8.encode [u.third.1.1] ++ Utf8.encode [u.fourth.1.1])) := by
    simp only [← Utf8.encode_append]
    rfl
  rw [hbytes, h1, h2, h3, h4]
  simp only [List.cons_append, List.nil_append, hexQuad, v1, v2, v3, v4, CodeUnit.number]

/-! ## Strings -/

theorem skipString_append {bs : Bytes} (h : ∀ b ∈ bs, IsPlain b) (s : Bytes) :
    skipString (bs ++ s) = skipString s := by
  induction bs with
  | nil => rfl
  | cons b bs ih =>
    obtain ⟨hquote, hslash, hcontrol⟩ := h b List.mem_cons_self
    rw [List.cons_append, skipString, if_neg hquote, if_neg hslash, if_neg hcontrol,
      ih fun c hc => h c (List.mem_cons_of_mem b hc)]

theorem skipString_escape {s r : Bytes} (h : skipEscape s = .ok r) :
    skipString (backslash :: s) = skipString r := by
  rw [skipString, if_neg (by decide), if_pos rfl]
  split
  · next hs => simp [hs] at h
  · next r' hs =>
    rw [hs] at h
    cases h
    rfl

theorem skipEscape_code (u : CodeUnit) (s : Bytes) :
    skipEscape (letterU :: (Utf8.encode u.text ++ s)) = .ok s := by
  rw [skipEscape, if_neg (by decide), if_neg (by decide), hexQuad_codeUnit]
  rfl

theorem skipEscape_short : ∀ x ∈ shortEscapes, ∀ s,
    skipEscape (Utf8.encode [x.1] ++ s) = .ok s := by
  intro x hx s
  simp only [shortEscapes, List.mem_cons, List.not_mem_nil, or_false] at hx
  rcases hx with rfl | rfl | rfl | rfl | rfl | rfl | rfl | rfl <;> rfl

theorem encode_backslash (cs : List Char) (s : Bytes) :
    Utf8.encode ('\\' :: cs) ++ s = backslash :: (Utf8.encode cs ++ s) := rfl

theorem encode_letterU (cs : List Char) (s : Bytes) :
    Utf8.encode ('u' :: cs) ++ s = letterU :: (Utf8.encode cs ++ s) := rfl

theorem skipString_piece {p : List Char} (h : IsPiece p) (s : Bytes) :
    skipString (Utf8.encode p ++ s) = skipString s := by
  cases h with
  | @verbatim c h =>
    rw [Utf8.encode, List.flatMap_singleton]
    exact skipString_append (isPlain_utf8EncodeChar h.1 h.2.1 (Nat.not_lt.2 h.2.2)) s
  | @short e c h =>
    rw [encode_backslash]
    exact skipString_escape (skipEscape_short (e, c) h s)
  | code u =>
    rw [encode_backslash, encode_letterU]
    exact skipString_escape (skipEscape_code u s)

theorem skipString_content {text : List Char} (h : IsContent text) (s : Bytes) :
    skipString (Utf8.encode text ++ quote :: s) = .ok s := by
  obtain ⟨pieces, hpieces, rfl⟩ := h
  induction pieces with
  | nil => rw [List.flatten_nil, Utf8.encode_nil, List.nil_append, skipString, if_pos rfl]
  | cons p pieces ih =>
    rw [List.forall_mem_cons] at hpieces
    rw [List.flatten_cons, Utf8.encode_append, List.append_assoc, skipString_piece hpieces.1,
      ih hpieces.2]

/-! ## Numbers -/

theorem head_digits_append {ds : List Char} (h : IsDigits ds) (s : Bytes) :
    ∃ c ∈ ds.head?, ∃ r, Utf8.encode ds ++ s = digitByte c :: r ∧ Text.isDigit c = true := by
  obtain ⟨hne, hdigits⟩ := h
  cases ds with
  | nil => exact absurd rfl hne
  | cons c ds =>
    refine ⟨c, rfl, ds.map digitByte ++ s, ?_, hdigits c List.mem_cons_self⟩
    rw [encode_digits hdigits, List.map_cons, List.cons_append]

theorem skip_digits {ds : List Char} (h : IsDigits ds) {s : Bytes}
    (hs : ∀ b ∈ s.head?, isDigit b = false) :
    (digitsOf (Utf8.encode ds ++ s)).isEmpty = false ∧ afterDigits (Utf8.encode ds ++ s) = s := by
  obtain ⟨hof, hafter⟩ := digitsOf_append h.2 hs
  rw [encode_digits h.2, hof, hafter]
  exact ⟨by simpa using h.1, rfl⟩

theorem skipExponent_digits {sign ds : List Char} (hsign : sign ∈ [[], ['+'], ['-']])
    (hds : IsDigits ds) {s : Bytes} (hs : ∀ b ∈ s.head?, isDigit b = false) :
    skipNumber.skipExponent (Utf8.encode (sign ++ ds) ++ s) = .ok s := by
  have hrest : (signOf (Utf8.encode (sign ++ ds) ++ s)).2 = Utf8.encode ds ++ s := by
    rw [Utf8.encode_append, List.append_assoc]
    obtain ⟨c, -, r, hbytes, hc⟩ := head_digits_append hds s
    have hb := isDigit_digitByte hc
    rw [hbytes]
    simp only [List.mem_cons, List.not_mem_nil, or_false] at hsign
    rcases hsign with rfl | rfl | rfl
    · rw [Utf8.encode_nil, List.nil_append, signOf, if_neg (ne_of_isDigit hb rfl),
        if_neg (ne_of_isDigit hb rfl)]
    · rfl
    · rfl
  obtain ⟨hof, hafter⟩ := skip_digits hds hs
  simp only [skipNumber.skipExponent, hrest, hof, hafter, Bool.false_eq_true, if_false]

theorem exponent_cases {exponent : List Char} (h : IsExponent exponent) {s : Bytes}
    (hs : IsBoundary s) : Utf8.encode exponent ++ s = s ∨
      ∃ b r, Utf8.encode exponent ++ s = b :: r ∧ isExponentMark b = true ∧
        skipNumber.skipExponent r = .ok s := by
  rcases h with rfl | ⟨mark, hmark, sign, hsign, ds, hds, rfl⟩
  · exact .inl rfl
  · right
    have hskip := skipExponent_digits hsign hds (not_isDigit_of_boundary hs)
    simp only [List.mem_cons, List.not_mem_nil, or_false] at hmark
    rcases hmark with rfl | rfl
    · exact ⟨0x65, _, rfl, rfl, hskip⟩
    · exact ⟨0x45, _, rfl, rfl, hskip⟩

theorem head_exponent {exponent : List Char} (h : IsExponent exponent) {s : Bytes}
    (hs : IsBoundary s) : ∀ b ∈ (Utf8.encode exponent ++ s).head?,
      isDigit b = false ∧ b ≠ point := by
  rcases exponent_cases h hs with hnone | ⟨b, r, hbytes, hb, -⟩
  · rw [hnone]
    exact fun b hb => ⟨not_isDigit_of_boundary hs b hb, (not_continued_of_boundary hs b hb).1⟩
  · rw [hbytes]
    intro c hc
    obtain rfl : b = c := by simpa using hc
    simp only [isExponentMark, Bool.or_eq_true, beq_iff_eq] at hb
    rcases hb with rfl | rfl <;> decide

theorem skipFraction_exponent {exponent : List Char} (h : IsExponent exponent) {s : Bytes}
    (hs : IsBoundary s) : skipNumber.skipFraction (Utf8.encode exponent ++ s) = .ok s := by
  have hpoint := fun b hb => (head_exponent h hs b hb).2
  rcases exponent_cases h hs with hnone | ⟨b, r, hbytes, hb, hskip⟩
  · rw [hnone] at hpoint ⊢
    cases s with
    | nil => rfl
    | cons b s =>
      simp only [skipNumber.skipFraction, if_neg (hpoint b rfl),
        (not_continued_of_boundary hs b rfl).2, Bool.false_eq_true, if_false]
  · rw [hbytes] at hpoint ⊢
    simp only [skipNumber.skipFraction, if_neg (hpoint b rfl), hb, if_true, hskip]

theorem skipFraction_point {ds exponent : List Char} (hds : IsDigits ds)
    (h : IsExponent exponent) {s : Bytes} (hs : IsBoundary s) :
    skipNumber.skipFraction (point :: (Utf8.encode ds ++ (Utf8.encode exponent ++ s))) =
      .ok s := by
  obtain ⟨hof, hafter⟩ := skip_digits hds fun b hb => (head_exponent h hs b hb).1
  simp only [skipNumber.skipFraction, hof, hafter, Bool.false_eq_true, if_false, if_true]
  rcases exponent_cases h hs with hnone | ⟨b, r, hbytes, hb, hskip⟩
  · rw [hnone]
    cases s with
    | nil => rfl
    | cons b s => simp only [(not_continued_of_boundary hs b rfl).2, Bool.false_eq_true, if_false]
  · rw [hbytes]
    simp only [hb, if_true, hskip]

theorem skipFraction_rest {fraction exponent : List Char} (hfraction : IsFraction fraction)
    (hexponent : IsExponent exponent) {s : Bytes} (hs : IsBoundary s) :
    skipNumber.skipFraction (Utf8.encode fraction ++ (Utf8.encode exponent ++ s)) = .ok s ∧
      ∀ b ∈ (Utf8.encode fraction ++ (Utf8.encode exponent ++ s)).head?, isDigit b = false := by
  rcases hfraction with rfl | ⟨ds, hds, rfl⟩
  · exact ⟨skipFraction_exponent hexponent hs, fun b hb => (head_exponent hexponent hs b hb).1⟩
  · refine ⟨skipFraction_point hds hexponent hs, fun b hb => ?_⟩
    obtain rfl : point = b := Option.some.inj hb
    rfl

theorem skipNumber_whole {whole : List Char} (h : IsWhole whole) {t s : Bytes}
    (hskip : skipNumber.skipFraction t = .ok s) (ht : ∀ b ∈ t.head?, isDigit b = false) :
    ∃ b r, Utf8.encode whole ++ t = b :: r ∧ isDigit b = true ∧ skipNumber (b :: r) = .ok s := by
  rcases h with rfl | ⟨hdigits, hzero⟩
  · refine ⟨0x30, t, rfl, rfl, ?_⟩
    cases t with
    | nil => exact hskip
    | cons b t =>
      have hb := ht b rfl
      rw [skipNumber]
      simp only [hb, Bool.false_eq_true, if_false]
      exact hskip
  · obtain ⟨c, hc, r, hbytes, hdigit⟩ := head_digits_append hdigits t
    have hb := isDigit_digitByte hdigit
    refine ⟨digitByte c, r, hbytes, hb, ?_⟩
    have hne : digitByte c ≠ 0x30 := fun he => hzero (eq_zero_of_digitByte hdigit he ▸ hc)
    obtain ⟨-, hafter⟩ := skip_digits hdigits ht
    rw [hbytes, afterDigits, List.dropWhile_cons, hb, if_pos rfl] at hafter
    simp only [skipNumber, hb, Bool.not_true, Bool.false_eq_true, if_false, if_neg hne, afterDigits,
      hafter, hskip]

/-! ## Scalars -/

/-- The loop takes the text for a value, in at most two rounds for each of its bytes. -/
structure Skips (v : List Char) : Prop where
  rounds : ∃ k, k ≤ 2 * (Utf8.encode v).length ∧ ∀ fuel stack s, IsBoundary s →
    skipFrom (fuel + k) .value stack (Utf8.encode v ++ s) = skipFrom fuel .next stack s
  start : ∃ b r, Utf8.encode v = b :: r ∧ isBlank b = false ∧ b ≠ closeList

theorem skips_scalar {v : List Char} {b : UInt8} {r : Bytes} (hbytes : Utf8.encode v = b :: r)
    (hblank : isBlank b = false) (hb : b ≠ openList ∧ b ≠ openObject ∧ b ≠ closeList)
    (hskip : ∀ s, IsBoundary s → skipScalar b (r ++ s) = .ok s) : Skips v where
  rounds := by
    refine ⟨1, by rw [hbytes, List.length_cons]; omega, fun fuel stack s hs => ?_⟩
    rw [hbytes, List.cons_append, skipFrom, skipBlank_cons hblank]
    simp only [if_neg hb.1, if_neg hb.2.1, hskip s hs, bind, Except.bind]
  start := ⟨b, r, hbytes, hblank, hb.2.2⟩

theorem skipScalar_of_isDigit {b : UInt8} (h : isDigit b = true) (r : Bytes) :
    skipScalar b r = skipNumber (b :: r) := by
  rw [skipScalar, if_neg (ne_of_isDigit h rfl), if_neg (ne_of_isDigit h rfl),
    if_neg (ne_of_isDigit h rfl), if_neg (ne_of_isDigit h rfl), if_pos h]

theorem skips_number {text : List Char} (h : IsNumber text) : Skips text := by
  obtain ⟨sign, hsign, whole, fraction, exponent, hwhole, hfraction, hexponent, rfl⟩ := h
  -- The number without its sign, up to the boundary after it.
  have hnumber : ∀ s, IsBoundary s → ∃ b r, isDigit b = true ∧ skipNumber (b :: r) = .ok s ∧
      Utf8.encode (whole ++ (fraction ++ exponent)) ++ s = b :: r := by
    intro s hs
    obtain ⟨hskip, hhead⟩ := skipFraction_rest hfraction hexponent hs
    obtain ⟨b, r, hbytes, hb, hr⟩ := skipNumber_whole hwhole hskip hhead
    refine ⟨b, r, hb, hr, ?_⟩
    rw [← hbytes, Utf8.encode_append, Utf8.encode_append, List.append_assoc, List.append_assoc]
  simp only [List.mem_cons, List.not_mem_nil, or_false] at hsign
  rcases hsign with rfl | rfl
  · obtain ⟨b, r, hb, -, hbytes⟩ := hnumber [] (fun b hb => nomatch hb)
    rw [List.append_nil] at hbytes
    refine skips_scalar hbytes (isBlank_of_isDigit hb)
      ⟨ne_of_isDigit hb rfl, ne_of_isDigit hb rfl, ne_of_isDigit hb rfl⟩ fun s hs => ?_
    obtain ⟨c, t, -, hskip, hs⟩ := hnumber s hs
    rw [hbytes] at hs
    rw [skipScalar_of_isDigit hb, ← List.cons_append, hs, hskip]
  · refine skips_scalar (b := minus) (r := Utf8.encode (whole ++ (fraction ++ exponent))) rfl rfl
      (by decide) fun s hs => ?_
    obtain ⟨c, t, -, hskip, hbytes⟩ := hnumber s hs
    rw [hbytes]
    exact hskip

theorem skips_string {text : List Char} (h : IsContent text) : Skips (quoted text) := by
  have hbytes := encode_quoted text []
  rw [List.append_nil] at hbytes
  refine skips_scalar hbytes (by decide) (by decide) fun s _ => ?_
  rw [List.append_assoc]
  exact skipString_content h s

/-! ## Items -/

theorem skipBlank_idem (s : Bytes) : skipBlank (skipBlank s) = skipBlank s :=
  List.dropWhile_idempotent isBlank s

/-- Blanks do not matter where an item or what follows a value is awaited. -/
theorem skipFrom_skipBlank (awaiting : Awaiting) (fuel : Nat) (top : Enclosure)
    (stack : List Enclosure) (s : Bytes) :
    skipFrom fuel awaiting (top :: stack) (skipBlank s) =
      skipFrom fuel awaiting (top :: stack) s := by
  cases fuel with
  | zero => rfl
  | succ fuel => cases awaiting <;> simp only [skipFrom, skipBlank_idem]

theorem skipFrom_blanks {blanks : Bytes} (h : AllBlank blanks) (awaiting : Awaiting) (fuel : Nat)
    (top : Enclosure) (stack : List Enclosure) (s : Bytes) :
    skipFrom fuel awaiting (top :: stack) (blanks ++ s) =
      skipFrom fuel awaiting (top :: stack) s := by
  rw [← skipFrom_skipBlank, skipBlank_append h, skipFrom_skipBlank]

/-- The loop takes the text for an item of the enclosure, blanks included. -/
structure Passes (top : Enclosure) (x : List Char) : Prop where
  rounds : ∃ k, k ≤ 2 * (Utf8.encode x).length ∧ ∀ fuel stack s, IsBoundary s →
    skipFrom (fuel + k) top.item (top :: stack) (Utf8.encode x ++ s) =
      skipFrom fuel .next (top :: stack) s
  start : ∃ b r, skipBlank (Utf8.encode x) = b :: r ∧ b ≠ top.closing

theorem encode_item (i : Item) (s : Bytes) : Utf8.encode i.text ++ s =
    Utf8.encode i.before.1 ++ (Utf8.encode i.value ++ (Utf8.encode i.after.1 ++ s)) := by
  simp only [Item.text, Utf8.encode_append, List.append_assoc]

theorem Skips.rounds_item {i : Item} (h : Skips i.value) : ∃ k,
    k ≤ 2 * (Utf8.encode i.text).length ∧ ∀ fuel top stack s, IsBoundary s →
      skipFrom (fuel + k) .value (top :: stack) (Utf8.encode i.text ++ s) =
        skipFrom fuel .next (top :: stack) s := by
  obtain ⟨k, hk, hskip⟩ := h.rounds
  refine ⟨k, ?_, fun fuel top stack s hs => ?_⟩
  · have hlength := congrArg List.length (encode_item i [])
    simp only [List.append_nil, List.length_append] at hlength
    omega
  · rw [encode_item, skipFrom_blanks i.before.allBlank, hskip _ _ _ (isBoundary_append i.after.allBlank hs),
      skipFrom_blanks i.after.allBlank]

theorem Skips.passes {i : Item} (h : Skips i.value) : Passes .list i.text where
  rounds := by
    obtain ⟨k, hk, hskip⟩ := h.rounds_item
    exact ⟨k, hk, fun fuel stack s hs => hskip fuel .list stack s hs⟩
  start := by
    obtain ⟨b, r, hbytes, hb, hne⟩ := h.start
    refine ⟨b, r ++ Utf8.encode i.after.1, ?_, hne⟩
    rw [Item.text, Utf8.encode_append, Utf8.encode_append, hbytes,
      skipBlank_append i.before.allBlank, List.cons_append, skipBlank_cons hb]

theorem encode_member (m : Member) (s : Bytes) :
    Utf8.encode m.text ++ s = Utf8.encode m.before.1 ++ quote :: (Utf8.encode m.spelling ++
      quote :: (Utf8.encode m.between.1 ++ colon :: (Utf8.encode m.item.text ++ s))) := by
  have hcolon : ∀ cs t, Utf8.encode (':' :: cs) ++ t = colon :: (Utf8.encode cs ++ t) :=
    fun _ _ => rfl
  rw [Member.text, Utf8.encode_append, List.append_assoc, Utf8.encode_append, List.append_assoc,
    encode_quoted, Utf8.encode_append, List.append_assoc, hcolon]

theorem passes_member {m : Member} (hname : IsContent m.spelling) (h : Skips m.item.value) :
    Passes .object m.text where
  rounds := by
    obtain ⟨k, hk, hskip⟩ := h.rounds_item
    refine ⟨k + 1, ?_, fun fuel stack s hs => ?_⟩
    · have hlength := congrArg List.length (encode_member m [])
      simp only [List.append_nil, List.length_append, List.length_cons] at hlength
      omega
    · rw [encode_member, skipFrom_blanks m.before.allBlank]
      change skipFrom (fuel + k + 1) .member _ _ = _
      rw [skipFrom, skipBlank_cons (by decide)]
      have hcolon := skipBlank_cons (b := colon) (by decide) (Utf8.encode m.item.text ++ s)
      simp only [ne_eq, not_true_eq_false, if_false, skipString_content hname, bind, Except.bind,
        skipBlank_append m.between.allBlank, hcolon, expect, if_true, hskip _ _ _ _ hs]
  start := by
    have hbytes := encode_member m []
    rw [List.append_nil] at hbytes
    rw [hbytes, skipBlank_append m.before.allBlank, skipBlank_cons (by decide)]
    exact ⟨quote, _, rfl, by decide⟩

/-! ## Lists and objects -/

/-- The texts after the first, each behind a comma. -/
abbrev behindCommas (texts : List (List Char)) : List Char := furtherItems .compact texts

theorem divided_cons (x : List Char) (texts : List (List Char)) :
    divided (x :: texts) = x ++ behindCommas texts := by
  induction texts generalizing x with
  | nil => simp [divided, furtherItems]
  | cons y texts ih =>
    rw [divided, List.intercalate_cons_cons, ← divided, ih]
    simp [furtherItems, Layout.lineBreak]

theorem encode_behindCommas_cons (x : List Char) (texts : List (List Char)) (s : Bytes) :
    Utf8.encode (behindCommas (x :: texts)) ++ s =
      comma :: (Utf8.encode x ++ (Utf8.encode (behindCommas texts) ++ s)) :=
  encode_furtherItems_cons .compact x texts s

theorem isBoundary_closing (top : Enclosure) (s : Bytes) : IsBoundary (top.closing :: s) := by
  cases top with
  | list => exact isBoundary_cons s (.inr (.inl rfl))
  | object => exact isBoundary_cons s (.inr (.inr (.inl rfl)))

theorem isBlank_closing (top : Enclosure) : isBlank top.closing = false := by cases top <;> rfl

theorem skip_behindCommas {top : Enclosure} {texts : List (List Char)}
    (h : ∀ x ∈ texts, Passes top x) : ∃ k,
      k ≤ 2 * (Utf8.encode (behindCommas texts)).length + 1 ∧ ∀ fuel stack s,
        skipFrom (fuel + k) .next (top :: stack)
          (Utf8.encode (behindCommas texts) ++ top.closing :: s) = skipFrom fuel .next stack s := by
  induction texts with
  | nil =>
    refine ⟨1, Nat.le_add_left 1 _, fun fuel stack s => ?_⟩
    have hne : top.closing ≠ comma := by cases top <;> decide
    change skipFrom (fuel + 1) .next _ (top.closing :: s) = _
    rw [skipFrom, skipBlank_cons (isBlank_closing top)]
    simp only [if_neg hne, if_true]
  | cons x texts ih =>
    rw [List.forall_mem_cons] at h
    obtain ⟨k, hk, hrest⟩ := ih h.2
    obtain ⟨j, hj, hitem⟩ := h.1.rounds
    refine ⟨k + j + 1, ?_, fun fuel stack s => ?_⟩
    · have hlength := congrArg List.length (encode_behindCommas_cons x texts [])
      simp only [List.append_nil, List.length_append, List.length_cons] at hlength
      omega
    · have hboundary := isBoundary_furtherItems .compact texts (isBoundary_closing top s)
      rw [encode_behindCommas_cons, ← Nat.add_assoc, ← Nat.add_assoc, skipFrom,
        skipBlank_cons (by decide)]
      simp only [if_true, hitem _ _ _ hboundary, hrest]

theorem skip_enclosed {top : Enclosure} (inner : Blanks) {texts : List (List Char)}
    (h : ∀ x ∈ texts, Passes top x) : ∃ k,
      k ≤ 2 * (Utf8.encode (divided texts)).length + 2 ∧ ∀ fuel stack s,
        skipFrom (fuel + k) .first (top :: stack)
          (Utf8.encode inner.1 ++ (Utf8.encode (divided texts) ++ top.closing :: s)) =
            skipFrom fuel .next stack s := by
  cases texts with
  | nil =>
    refine ⟨1, by omega, fun fuel stack s => ?_⟩
    rw [skipFrom_blanks inner.allBlank]
    change skipFrom (fuel + 1) .first _ (top.closing :: s) = _
    rw [skipFrom, skipBlank_cons (isBlank_closing top)]
    simp only [if_true]
  | cons x texts =>
    rw [List.forall_mem_cons] at h
    obtain ⟨k, hk, hrest⟩ := skip_behindCommas h.2
    obtain ⟨j, hj, hitem⟩ := h.1.rounds
    obtain ⟨b, r, hstart, hne⟩ := h.1.start
    refine ⟨k + j + 1, ?_, fun fuel stack s => ?_⟩
    · rw [divided_cons, Utf8.encode_append, List.length_append]
      omega
    · set further := Utf8.encode (behindCommas texts) ++ top.closing :: s with hfurther
      have hboundary : IsBoundary further :=
        isBoundary_furtherItems .compact texts (isBoundary_closing top s)
      have hblank : skipBlank (Utf8.encode x ++ further) = b :: (r ++ further) := by
        rw [skipBlank, List.dropWhile_append, ← skipBlank, hstart]
        rfl
      have hfirst : skipFrom (fuel + k + j) top.item (top :: stack) (b :: (r ++ further)) =
          skipFrom fuel .next stack s := by
        rw [← hblank, skipFrom_skipBlank, hitem _ _ _ hboundary, hrest]
      rw [skipFrom_blanks inner.allBlank, divided_cons, Utf8.encode_append, List.append_assoc,
        ← hfurther, ← Nat.add_assoc, ← Nat.add_assoc, skipFrom, hblank]
      simp only [if_neg hne, hfirst]

theorem encode_listText (inner : Blanks) (items : List Item) (s : Bytes) :
    Utf8.encode (listText inner items) ++ s = openList :: (Utf8.encode inner.1 ++
      (Utf8.encode (divided (items.map Item.text)) ++ closeList :: s)) := by
  have hopen : ∀ cs, Utf8.encode ('[' :: cs) = openList :: Utf8.encode cs := fun _ => rfl
  have hclose : Utf8.encode [']'] = [closeList] := rfl
  simp only [listText, hopen, Utf8.encode_append, hclose, List.cons_append, List.append_assoc,
    List.nil_append]

theorem encode_objectText (inner : Blanks) (members : List Member) (s : Bytes) :
    Utf8.encode (objectText inner members) ++ s = openObject :: (Utf8.encode inner.1 ++
      (Utf8.encode (divided (members.map Member.text)) ++ closeObject :: s)) := by
  have hopen : ∀ cs, Utf8.encode ('\x7b' :: cs) = openObject :: Utf8.encode cs := fun _ => rfl
  have hclose : Utf8.encode ['\x7d'] = [closeObject] := rfl
  simp only [objectText, hopen, Utf8.encode_append, hclose, List.cons_append, List.append_assoc,
    List.nil_append]

theorem skips_enclosed {top : Enclosure} {inner : Blanks} {texts : List (List Char)}
    (h : ∀ x ∈ texts, Passes top x) {text : List Char} {opening : UInt8}
    (hopen : ∀ fuel stack s, skipFrom (fuel + 1) .value stack (opening :: s) =
      skipFrom fuel .first (top :: stack) s)
    (hstart : isBlank opening = false ∧ opening ≠ closeList)
    (hbytes : ∀ s, Utf8.encode text ++ s = opening :: (Utf8.encode inner.1 ++
      (Utf8.encode (divided texts) ++ top.closing :: s))) : Skips text where
  rounds := by
    obtain ⟨k, hk, hrest⟩ := skip_enclosed inner h
    refine ⟨k + 1, ?_, fun fuel stack s _ => ?_⟩
    · have hlength := congrArg List.length (hbytes [])
      simp only [List.append_nil, List.length_append, List.length_cons, List.length_nil] at hlength
      omega
    · rw [hbytes, ← Nat.add_assoc, hopen, hrest]
  start := ⟨opening, _, (List.append_nil _).symm.trans (hbytes []), hstart⟩

theorem skips_list (inner : Blanks) {items : List Item} (h : ∀ i ∈ items, Skips i.value) :
    Skips (listText inner items) := by
  have hitems : ∀ x ∈ items.map Item.text, Passes .list x :=
    List.forall_mem_map.2 fun i hi => (h i hi).passes
  exact skips_enclosed hitems (fun _ _ _ => rfl) (by decide) (encode_listText inner items)

theorem skips_object (inner : Blanks) {members : List Member}
    (hnames : ∀ m ∈ members, IsContent m.spelling) (h : ∀ m ∈ members, Skips m.item.value) :
    Skips (objectText inner members) := by
  have hmembers : ∀ x ∈ members.map Member.text, Passes .object x :=
    List.forall_mem_map.2 fun m hm => passes_member (hnames m hm) (h m hm)
  exact skips_enclosed hmembers (fun _ _ _ => rfl) (by decide) (encode_objectText inner members)

/-! ## Values -/

theorem IsValue.skips {text : List Char} (h : IsValue text) : Skips text := by
  induction h with
  | null => exact skips_scalar (b := letterN) rfl (by decide) (by decide) fun _ _ => rfl
  | true => exact skips_scalar (b := letterT) rfl (by decide) (by decide) fun _ _ => rfl
  | false => exact skips_scalar (b := letterF) rfl (by decide) (by decide) fun _ _ => rfl
  | number h => exact skips_number h
  | string h => exact skips_string h
  | list inner items _ ih => exact skips_list inner ih
  | object inner members hnames _ ih => exact skips_object inner hnames ih

/-- A value that nobody reads is passed over, whatever it is. -/
theorem skipValue_of_isValue {text : List Char} (h : IsValue text) {blanks : Bytes}
    (hblanks : AllBlank blanks) {s : Bytes} (hs : IsBoundary s) :
    skipValue (blanks ++ (Utf8.encode text ++ s)) = .ok s := by
  obtain ⟨k, hk, hskip⟩ := h.skips.rounds
  have hlead : ∀ fuel t, skipFrom fuel .value [] (blanks ++ t) = skipFrom fuel .value [] t := by
    intro fuel t
    cases fuel <;> simp only [skipFrom, skipBlank_append hblanks]
  obtain ⟨fuel, hfuel⟩ : ∃ fuel, 2 * (blanks ++ (Utf8.encode text ++ s)).length + 2 =
      fuel + 1 + k := by
    refine ⟨2 * (blanks ++ (Utf8.encode text ++ s)).length + 1 - k, ?_⟩
    simp only [List.length_append]
    omega
  rw [skipValue, hlead, hfuel, hskip _ _ _ hs]
  rfl

end FirmwareJobs.Json
