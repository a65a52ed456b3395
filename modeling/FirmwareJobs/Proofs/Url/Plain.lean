import FirmwareJobs.Proofs.Text.Ends
import FirmwareJobs.Proofs.Text.Utf8
import FirmwareJobs.Url.Basic
import Mathlib.Data.List.TakeDrop

/-!
# Addresses of plain texts

A plain text is the same before and after percent encoding, it is not taken apart at a divider, and
none of its characters counts as a blank. So an address that is put together from an origin and from
plain segments and fields is read as it was written, and it asks for a path and a query that show
these segments and fields.
-/

namespace FirmwareJobs.Url

open Text

/-! ## Taking texts apart -/

section

variable {p : Char → Bool} {s : List Char}

theorem splitAtFirst_of_forall (h : ∀ c ∈ s, p c = false) : splitAtFirst p s = (s, []) := by
  rw [splitAtFirst, List.span_eq_takeWhile_dropWhile, List.takeWhile_eq_self_iff.2,
    List.dropWhile_eq_nil_iff.2] <;> simpa using h

theorem splitAtFirst_append {c : Char} (h : ∀ c ∈ s, p c = false) (hc : p c = true)
    (rest : List Char) : splitAtFirst p (s ++ c :: rest) = (s, c :: rest) := by
  have hall : ∀ x ∈ s, (!p x) = true := by simpa using h
  rw [splitAtFirst, List.span_eq_takeWhile_dropWhile, List.takeWhile_append_of_pos hall,
    List.dropWhile_append_of_pos hall, List.takeWhile_cons, List.dropWhile_cons, hc]
  simp

theorem splitOn_of_forall (h : ∀ c ∈ s, p c = false) : splitOn p s = [s] := by
  induction s with
  | nil => rfl
  | cons c s ih =>
    obtain ⟨hc, hs⟩ := List.forall_mem_cons.1 h
    simp [splitOn, hc, ih hs]

theorem splitOn_append {c : Char} (h : ∀ c ∈ s, p c = false) (hc : p c = true)
    (rest : List Char) : splitOn p (s ++ c :: rest) = s :: splitOn p rest := by
  induction s with
  | nil => simp [splitOn, hc]
  | cons x s ih =>
    obtain ⟨hx, hs⟩ := List.forall_mem_cons.1 h
    simp [splitOn, hx, ih hs]

theorem splitOn_joined {divider : Char} (hp : p divider = true) {parts : List (List Char)}
    (hne : parts ≠ []) (h : ∀ part ∈ parts, ∀ c ∈ part, p c = false) :
    splitOn p (Address.joined divider parts) = parts := by
  induction parts with
  | nil => contradiction
  | cons part rest ih =>
    obtain ⟨hpart, hrest⟩ := List.forall_mem_cons.1 h
    cases rest with
    | nil => exact splitOn_of_forall hpart
    | cons next rest =>
      change splitOn p (part ++ divider :: Address.joined divider (next :: rest)) = _
      rw [splitOn_append hpart hp, ih (List.cons_ne_nil _ _) hrest]

theorem mem_joined {divider c : Char} {parts : List (List Char)}
    (h : c ∈ Address.joined divider parts) : c = divider ∨ ∃ part ∈ parts, c ∈ part := by
  induction parts with
  | nil => cases h
  | cons part rest ih =>
    cases rest with
    | nil => exact .inr ⟨part, List.mem_singleton_self _, h⟩
    | cons next rest =>
      change c ∈ part ++ divider :: Address.joined divider (next :: rest) at h
      rcases List.mem_append.1 h with h | h
      · exact .inr ⟨part, List.mem_cons_self, h⟩
      · rcases List.mem_cons.1 h with rfl | h
        · exact .inl rfl
        · rcases ih h with rfl | ⟨found, hfound, hc⟩
          · exact .inl rfl
          · exact .inr ⟨found, List.mem_cons_of_mem _ hfound, hc⟩

end

/-! ## Plain texts -/

/-- A letter or digit of ASCII, or one of the marks that stand for themselves in an address. -/
def isPlain (c : Char) : Bool := isDigit c || c.isAlpha || "-._~".toList.contains c

def IsPlain (s : List Char) : Prop := ∀ c ∈ s, isPlain c = true

instance (s : List Char) : Decidable (IsPlain s) :=
  List.decidableBAll (fun c => isPlain c = true) s

theorem toNat_lt_of_isPlain {c : Char} (h : isPlain c = true) : c.toNat < 128 := by
  have hle {a b : Char} (h : a ≤ b) : a.toNat ≤ b.toNat := h
  have hclasses : c.isAlpha = (decide ('A' ≤ c ∧ c ≤ 'Z') ||
    (decide ('a' ≤ c) && decide (c ≤ 'z'))) := rfl
  simp only [isPlain, isDigit, hclasses, Bool.or_eq_true, Bool.and_eq_true, decide_eq_true_eq,
    List.contains_iff_mem] at h
  rcases h with (⟨-, h⟩ | ⟨-, h⟩ | ⟨-, h⟩) | h
  · exact (hle h).trans_lt (by decide)
  · exact (hle h).trans_lt (by decide)
  · exact (hle h).trans_lt (by decide)
  · have hall : ("-._~".toList.all fun c => decide (c.toNat < 128)) = true := by decide
    exact of_decide_eq_true (List.all_eq_true.1 hall c h)

theorem forall_isPlain {p : Char → Prop}
    (h : ∀ n < 128, isPlain (Char.ofNat n) = true → p (Char.ofNat n)) {c : Char}
    (hc : isPlain c = true) : p c := by
  have hall := h c.toNat (toNat_lt_of_isPlain hc)
  rw [Char.ofNat_toNat] at hall
  exact hall hc

theorem IsPlain.undivided {s : List Char} (h : IsPlain s) {d : Char} (hd : isPlain d = false) :
    ∀ c ∈ s, (c == d) = false := by
  intro c hc
  rw [beq_eq_false_iff_ne]
  rintro rfl
  exact Bool.false_ne_true (hd.symm.trans (h c hc))

theorem isPlain_of_isDigit {c : Char} (h : isDigit c = true) : isPlain c = true := by
  simp [isPlain, h]

theorem isPlain_digits (n : Nat) : IsPlain (digits n) := fun c hc =>
  isPlain_of_isDigit (List.all_eq_true.1 (all_isDigit_digits n) c hc)

theorem isPlain_laws {c : Char} (hc : isPlain c = true) :
    isControlOrSpace c = false ∧ isSlash c = false ∧ isReservedInPath c = false ∧
      c.toNat < 0x7f ∧ c ∉ "?#=&%+".toList :=
  forall_isPlain (p := fun c => isControlOrSpace c = false ∧ isSlash c = false ∧
    isReservedInPath c = false ∧ c.toNat < 0x7f ∧ c ∉ "?#=&%+".toList) (by decide) hc

theorem undivided_of_isPlain {c : Char} (hc : isPlain c = true) :
    isSlash c = false ∧ c ≠ '?' ∧ c ≠ '#' := by
  obtain ⟨-, hslash, -, -, hother⟩ := isPlain_laws hc
  refine ⟨hslash, ?_, ?_⟩ <;> rintro rfl <;> exact hother (by decide)

/-! ## Percent encoding -/

theorem percentEncode_of_isPlain {s : List Char} (h : IsPlain s) :
    percentEncode isReservedInPath s = s := by
  induction s with
  | nil => rfl
  | cons c s ih =>
    obtain ⟨hc, hs⟩ := List.forall_mem_cons.1 h
    obtain ⟨hvisible, -, hfree, hhigh, -⟩ := isPlain_laws hc
    have hlow : ¬ c.toNat ≤ 0x20 := by simpa [isControlOrSpace] using hvisible
    have hkept : ¬ (c.toNat ≤ 0x20 ∨ 0x7f ≤ c.toNat ∨ isReservedInPath c = true) := by
      simp only [hfree, Bool.false_eq_true, or_false]
      omega
    have htail : percentEncode isReservedInPath s = s := ih hs
    rw [percentEncode, List.flatMap_cons, if_neg hkept, List.singleton_append]
    exact congrArg (c :: ·) htail

theorem percentDecode_of_noPercent {s : List Char} (h : '%' ∉ s) :
    percentDecode s = Utf8.encode s := by
  induction s with
  | nil => simp [percentDecode, Utf8.encode]
  | cons c s ih =>
    obtain ⟨hc, hs⟩ := not_or.1 (mt List.mem_cons.2 h)
    rw [percentDecode, ih hs]
    · rfl
    · rintro a b r rfl
      exact absurd rfl hc

/-! ## Segments -/

/-- A segment that names something: plain, and not one of the two that show a way. -/
structure IsSegment (s : List Char) : Prop where
  plain : IsPlain s
  nonempty : s ≠ []
  notHere : s ≠ ".".toList
  notUp : s ≠ "..".toList

theorem toLower_laws {c : Char} (hc : isPlain c = true) :
    c.toLower ≠ '%' ∧ (c.toLower = '.' → c = '.') :=
  forall_isPlain (p := fun c => c.toLower ≠ '%' ∧ (c.toLower = '.' → c = '.')) (by decide) hc

theorem map_toLower_eq_points {s points : List Char} (h : IsPlain s)
    (hpoints : points.all (· == '.') = true) (hmap : s.map Char.toLower = points) :
    s = points := by
  subst hmap
  refine (List.map_id' s).symm.trans (List.map_congr_left fun c hc => ?_)
  have hpoint := beq_iff_eq.1 (List.all_eq_true.1 hpoints _ (List.mem_map_of_mem hc))
  exact ((toLower_laws (h c hc)).2 hpoint).trans hpoint.symm

theorem map_toLower_ne {s word : List Char} (h : IsPlain s) (hword : '%' ∈ word) :
    s.map Char.toLower ≠ word := by
  rintro rfl
  obtain ⟨c, hc, hpercent⟩ := List.mem_map.1 hword
  exact (toLower_laws (h c hc)).1 hpercent

theorem IsSegment.isDot {s : List Char} (h : IsSegment s) : isDot s = false := by
  have hpoint : s.map Char.toLower ≠ ".".toList := fun hmap =>
    h.notHere (map_toLower_eq_points h.plain (by decide) hmap)
  have hencoded : s.map Char.toLower ≠ "%2e".toList := map_toLower_ne h.plain (by decide)
  simp only [Url.isDot, Bool.or_eq_false_iff, beq_eq_false_iff_ne]
  exact ⟨hpoint, hencoded⟩

theorem IsSegment.isDoubleDot {s : List Char} (h : IsSegment s) : isDoubleDot s = false := by
  have hpoints : s.map Char.toLower ≠ "..".toList := fun hmap =>
    h.notUp (map_toLower_eq_points h.plain (by decide) hmap)
  have hencoded {word : List Char} (hword : '%' ∈ word) : s.map Char.toLower ≠ word :=
    map_toLower_ne h.plain hword
  simp only [Url.isDoubleDot, Bool.or_eq_false_iff, beq_eq_false_iff_ne]
  exact ⟨⟨⟨hpoints, hencoded (by decide)⟩, hencoded (by decide)⟩, hencoded (by decide)⟩

theorem resolve_of_isSegment {segments : List (List Char)} (h : ∀ s ∈ segments, IsSegment s)
    (done : List (List Char)) : resolve done segments = done ++ segments := by
  induction segments generalizing done with
  | nil => simp [resolve]
  | cons s segments ih =>
    obtain ⟨hs, hsegments⟩ := List.forall_mem_cons.1 h
    simp [resolve, hs.isDot, hs.isDoubleDot, ih hsegments]

theorem pathSegments_joined {segments : List (List Char)} (hne : segments ≠ [])
    (h : ∀ s ∈ segments, IsSegment s) :
    pathSegments ('/' :: Address.joined '/' segments) = segments := by
  have hundivided : ∀ s ∈ segments, ∀ c ∈ s, isSlash c = false := fun s hs c hc =>
    (isPlain_laws ((h s hs).plain c hc)).2.1
  have hencoded : segments.map (percentEncode isReservedInPath) = segments :=
    (List.map_congr_left fun s hs => percentEncode_of_isPlain (h s hs).plain).trans
      (List.map_id' segments)
  change resolve [] ((splitOn isSlash (Address.joined '/' segments)).map _) = segments
  rw [splitOn_joined rfl hne hundivided, hencoded, resolve_of_isSegment h, List.nil_append]

/-! ## Addresses -/

/-- A scheme and an authority, with nothing that ends the authority or is dropped. -/
structure IsOrigin (isSecure : Bool) (authority : List Char) (base : String) : Prop where
  text : base.toList = (if isSecure then "https://" else "http://").toList ++ authority
  nonempty : authority ≠ []
  visible : ∀ c ∈ authority, isControlOrSpace c = false
  undivided : ∀ c ∈ authority, isSlash c = false ∧ c ≠ '?' ∧ c ≠ '#'

/-- The host and the port of an authority. -/
def site? (isSecure : Bool) (authority : List Char) : Option (List Char × Option Nat) := do
  let (name, rest) := splitPort (withoutUser authority)
  let host ← host? name
  let port ← port? isSecure rest
  some (host, port)

/-- What may follow an origin: nothing, or a path of visible characters without a query. -/
structure IsPath (path : List Char) : Prop where
  start : path = [] ∨ ∃ rest, path = '/' :: rest
  visible : ∀ c ∈ path, isControlOrSpace c = false
  undivided : ∀ c ∈ path, c ≠ '?' ∧ c ≠ '#'

theorem isPath_joined {segments : List (List Char)} (h : ∀ s ∈ segments, IsSegment s) :
    IsPath ('/' :: Address.joined '/' segments) := by
  have hall : ∀ c ∈ '/' :: Address.joined '/' segments, c = '/' ∨ isPlain c = true := by
    intro c hc
    rcases List.mem_cons.1 hc with rfl | hc
    · exact .inl rfl
    · rcases mem_joined hc with rfl | ⟨s, hs, hc⟩
      · exact .inl rfl
      · exact .inr ((h s hs).plain c hc)
  refine ⟨.inr ⟨_, rfl⟩, fun c hc => ?_, fun c hc => ?_⟩
  · rcases hall c hc with rfl | hplain
    · rfl
    · exact (isPlain_laws hplain).1
  · rcases hall c hc with rfl | hplain
    · decide
    · exact (undivided_of_isPlain hplain).2

theorem cleaned_of_visible {s : List Char} (h : ∀ c ∈ s, isControlOrSpace c = false) :
    (((s.dropWhile isControlOrSpace).reverse.dropWhile isControlOrSpace).reverse.filter
      fun c => c != '\t' && c != '\n' && c != '\r') = s := by
  have hfront : s.dropWhile isControlOrSpace = s :=
    (dropWhile_eq_self_iff_head? _ s).2 fun c hc => h c (List.mem_of_head? hc)
  have hback : s.reverse.dropWhile isControlOrSpace = s.reverse :=
    (dropWhile_eq_self_iff_head? _ _).2 fun c hc =>
      h c (List.mem_reverse.1 (List.mem_of_head? hc))
  rw [hfront, hback, List.reverse_reverse, List.filter_eq_self]
  intro c hc
  have hvisible := h c hc
  simp only [Bool.and_eq_true, bne_iff_ne]
  refine ⟨⟨?_, ?_⟩, ?_⟩ <;> rintro rfl <;> exact absurd hvisible (by decide)

theorem scheme?_append (isSecure : Bool) (rest : List Char) :
    scheme? ((if isSecure then "https://" else "http://").toList ++ rest) =
      some (isSecure, "//".toList ++ rest) := by
  cases isSecure <;> rfl

section

variable {isSecure : Bool} {authority : List Char} {base : String}

theorem IsOrigin.visible_text (h : IsOrigin isSecure authority base) {path : List Char}
    (hpath : IsPath path) : ∀ c ∈ base.toList ++ path, isControlOrSpace c = false := by
  have hall : ((if isSecure then "https://" else "http://").toList.all
      (!isControlOrSpace ·)) = true := by
    cases isSecure <;> decide
  have hscheme : ∀ c ∈ (if isSecure then "https://" else "http://").toList,
      isControlOrSpace c = false := by
    simpa using hall
  rw [h.text]
  exact List.forall_mem_append.2 ⟨List.forall_mem_append.2 ⟨hscheme, h.visible⟩, hpath.visible⟩

theorem IsOrigin.dropWhile_isSlash (h : IsOrigin isSecure authority base) (path : List Char) :
    ("//".toList ++ (authority ++ path)).dropWhile isSlash = authority ++ path := by
  obtain ⟨c, rest, rfl⟩ := List.exists_cons_of_ne_nil h.nonempty
  have hc : ¬ isSlash c = true := by simp [(h.undivided c List.mem_cons_self).1]
  rw [List.dropWhile_append_of_pos (List.all_eq_true.1 (by decide)), List.cons_append,
    List.dropWhile_cons_of_neg hc]

theorem IsOrigin.splitAtFirst_isSlash (h : IsOrigin isSecure authority base) {path : List Char}
    (hpath : IsPath path) : splitAtFirst isSlash (authority ++ path) = (authority, path) := by
  have hundivided : ∀ c ∈ authority, isSlash c = false := fun c hc => (h.undivided c hc).1
  rcases hpath.start with rfl | ⟨rest, rfl⟩
  · rw [List.append_nil, splitAtFirst_of_forall hundivided]
  · exact splitAtFirst_append hundivided rfl rest

/-- An address with a plain path has the site of its origin. -/
theorem ofText?_append {path : String} (hbase : IsOrigin isSecure authority base)
    (hpath : IsPath path.toList) :
    ofText? (base ++ path) = (site? isSecure authority).map fun (host, port) =>
      ⟨isSecure, host, port, pathSegments path.toList, none⟩ := by
  have hundivided (c : Char) (hc : c ∈ authority ++ path.toList) : c ≠ '?' ∧ c ≠ '#' :=
    (List.mem_append.1 hc).elim (fun hc => (hbase.undivided c hc).2) (hpath.undivided c)
  have hfragment : splitAtFirst (· == '#') (authority ++ path.toList) =
      (authority ++ path.toList, []) :=
    splitAtFirst_of_forall fun c hc => by simp [(hundivided c hc).2]
  have hquery : splitAtFirst (· == '?') (authority ++ path.toList) =
      (authority ++ path.toList, []) :=
    splitAtFirst_of_forall fun c hc => by simp [(hundivided c hc).1]
  have hvisible := hbase.visible_text hpath
  simp only [ofText?, String.toList_append, cleaned_of_visible hvisible]
  simp only [hbase.text, List.append_assoc, scheme?_append, Option.bind_eq_bind, Option.bind_some,
    hbase.dropWhile_isSlash, hfragment, hquery, hbase.splitAtFirst_isSlash hpath, site?]
  cases host? (splitPort (withoutUser authority)).1 with
  | none => rfl
  | some host =>
    cases port? isSecure (splitPort (withoutUser authority)).2 with
    | none => rfl
    | some port => rfl

end

end FirmwareJobs.Url
