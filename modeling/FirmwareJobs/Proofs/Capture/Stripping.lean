import FirmwareJobs.Capture.Cleaning
import FirmwareJobs.Proofs.Text.Ends
import Mathlib.Data.List.Infix
import Mathlib.Data.List.TakeWhile

/-!
# What is left of a text without its escape sequences

Sequences are removed from left to right in one pass. A removal brings the text before it and the
text after it together, and that is the only way in which a sequence can be left: the removed one
stood inside an unfinished one.
-/

namespace FirmwareJobs.Capture

open Text

namespace Escape

/-! ## Sequences -/

/-- A whole escape sequence. -/
inductive IsSequence : List Char → Prop where
  | single {c : Char} (hc : isSingle c = true) : IsSequence [esc, c]
  | control {parameters intermediates : List Char} {c : Char}
      (hparameters : ∀ x ∈ parameters, isParameter x = true)
      (hintermediates : ∀ x ∈ intermediates, isIntermediate x = true) (hc : isFinal c = true) :
      IsSequence (esc :: '[' :: (parameters ++ (intermediates ++ [c])))

theorem between_iff (a b c : Char) :
    (decide (a ≤ c) && decide (c ≤ b)) = true ↔ a.toNat ≤ c.toNat ∧ c.toNat ≤ b.toNat := by
  rw [Bool.and_eq_true, decide_eq_true_iff, decide_eq_true_iff, Char.le_def, Char.le_def,
    UInt32.le_iff_toNat_le, UInt32.le_iff_toNat_le]
  rfl

theorem isSingle_iff (c : Char) : isSingle c = true ↔
    64 ≤ c.toNat ∧ c.toNat ≤ 90 ∨ 92 ≤ c.toNat ∧ c.toNat ≤ 95 := by
  rw [isSingle, Bool.or_eq_true, between_iff, between_iff]
  rfl

theorem isParameter_iff (c : Char) : isParameter c = true ↔ 48 ≤ c.toNat ∧ c.toNat ≤ 63 :=
  between_iff '0' '?' c

theorem isIntermediate_iff (c : Char) : isIntermediate c = true ↔ 32 ≤ c.toNat ∧ c.toNat ≤ 47 :=
  between_iff ' ' '/' c

theorem isFinal_iff (c : Char) : isFinal c = true ↔ 64 ≤ c.toNat ∧ c.toNat ≤ 126 :=
  between_iff '@' '~' c

theorem ne_esc_of_le {c : Char} (h : 32 ≤ c.toNat) : c ≠ esc := by
  rintro rfl
  exact absurd h (by decide)

theorem afterControl?_eq_some_iff {s r : List Char} : afterControl? s = some r ↔
    ∃ parameters intermediates c, (∀ x ∈ parameters, isParameter x = true) ∧
      (∀ x ∈ intermediates, isIntermediate x = true) ∧ isFinal c = true ∧
      s = parameters ++ (intermediates ++ c :: r) := by
  constructor
  · intro h
    unfold afterControl? at h
    split at h
    · next c t ht =>
      split at h
      · next hc =>
        cases h
        refine ⟨s.takeWhile isParameter, (s.dropWhile isParameter).takeWhile isIntermediate, c,
          fun x hx => List.mem_takeWhile_imp hx, fun x hx => List.mem_takeWhile_imp hx, hc, ?_⟩
        rw [← ht, List.takeWhile_append_dropWhile, List.takeWhile_append_dropWhile]
      · contradiction
    · contradiction
  · rintro ⟨parameters, intermediates, c, hparameters, hintermediates, hc, rfl⟩
    have hrest : (intermediates ++ c :: r).dropWhile isParameter = intermediates ++ c :: r := by
      cases intermediates with
      | nil =>
        refine List.dropWhile_cons_of_neg fun h => ?_
        rw [isParameter_iff] at h
        rw [isFinal_iff] at hc
        omega
      | cons x rest =>
        refine List.dropWhile_cons_of_neg fun h => ?_
        have hx := (isIntermediate_iff x).1 (hintermediates x List.mem_cons_self)
        rw [isParameter_iff] at h
        omega
    have hend : (c :: r).dropWhile isIntermediate = c :: r := by
      refine List.dropWhile_cons_of_neg fun h => ?_
      rw [isIntermediate_iff] at h
      rw [isFinal_iff] at hc
      omega
    rw [afterControl?, List.dropWhile_append_of_pos hparameters, hrest,
      List.dropWhile_append_of_pos hintermediates, hend]
    exact if_pos hc

theorem after?_eq_some_iff {s r : List Char} :
    after? s = some r ↔ ∃ m, IsSequence m ∧ s = m ++ r := by
  constructor
  · intro h
    unfold after? at h
    split at h
    · next a b t =>
      split at h
      · next ha =>
        subst ha
        split at h
        · next hb =>
          cases h
          exact ⟨[esc, b], .single hb, rfl⟩
        · split at h
          · next hb =>
            subst hb
            obtain ⟨parameters, intermediates, c, hparameters, hintermediates, hc, rfl⟩ :=
              afterControl?_eq_some_iff.1 h
            exact ⟨_, .control hparameters hintermediates hc, by simp⟩
          · contradiction
      · contradiction
    · contradiction
  · rintro ⟨m, hm, rfl⟩
    cases hm with
    | single hc => simp [after?, hc]
    | @control parameters intermediates c hparameters hintermediates hc =>
      have hbody : afterControl? (parameters ++ (intermediates ++ [c]) ++ r) = some r :=
        afterControl?_eq_some_iff.2
          ⟨parameters, intermediates, c, hparameters, hintermediates, hc, by simp⟩
      have hbracket : isSingle '[' = false := by decide
      simp only [List.cons_append, after?, if_true, hbracket, Bool.false_eq_true, if_false]
      exact hbody

theorem IsSequence.exists_body {m : List Char} (h : IsSequence m) :
    ∃ body, m = esc :: body ∧ esc ∉ body := by
  cases h with
  | @single c hc =>
    refine ⟨[c], rfl, fun h => ?_⟩
    rw [isSingle_iff] at hc
    exact ne_esc_of_le (by omega) (List.mem_singleton.1 h).symm
  | @control parameters intermediates c hparameters hintermediates hc =>
    refine ⟨_, rfl, fun h => ?_⟩
    rw [isFinal_iff] at hc
    simp only [List.mem_cons, List.mem_append, List.not_mem_nil, or_false] at h
    rcases h with h | h | h | h
    · exact absurd h (by decide)
    · exact ne_esc_of_le (by have := (isParameter_iff _).1 (hparameters _ h); omega) rfl
    · exact ne_esc_of_le (by have := (isIntermediate_iff _).1 (hintermediates _ h); omega) rfl
    · exact ne_esc_of_le (by omega) h.symm

/-- No sequence begins with a shorter one. -/
theorem IsSequence.eq_nil_of_append {m w : List Char} (h : IsSequence m)
    (hlonger : IsSequence (m ++ w)) : w = [] := by
  have hshort : after? (m ++ w) = some w := after?_eq_some_iff.2 ⟨m, h, rfl⟩
  have hlong : after? (m ++ w) = some [] := after?_eq_some_iff.2 ⟨_, hlonger, by simp⟩
  exact Option.some.inj (hshort.symm.trans hlong)

/-! ## Texts without sequences -/

/-- A text that contains no sequence. -/
def IsPlain (s : List Char) : Prop := ∀ m, IsSequence m → ¬ m <:+: s

theorem after?_eq_none_iff {s : List Char} :
    after? s = none ↔ ∀ m, IsSequence m → ¬ m <+: s := by
  rw [Option.eq_none_iff_forall_ne_some]
  constructor
  · rintro h m hm ⟨r, rfl⟩
    exact h r (after?_eq_some_iff.2 ⟨m, hm, rfl⟩)
  · intro h r hr
    obtain ⟨m, hm, rfl⟩ := after?_eq_some_iff.1 hr
    exact h m hm (List.prefix_append m r)

theorem isPlain_cons_iff {c : Char} {s : List Char} :
    IsPlain (c :: s) ↔ after? (c :: s) = none ∧ IsPlain s := by
  rw [after?_eq_none_iff]
  constructor
  · exact fun h => ⟨fun m hm hprefix => h m hm hprefix.isInfix,
      fun m hm hinfix => h m hm (List.infix_cons hinfix)⟩
  · rintro ⟨hhead, htail⟩ m hm hinfix
    rcases List.infix_cons_iff.1 hinfix with h | h
    · exact hhead m hm h
    · exact htail m hm h

theorem isPlain_nil : IsPlain [] := by
  intro m hm hinfix
  obtain ⟨body, rfl, -⟩ := hm.exists_body
  exact absurd (List.infix_nil.1 hinfix) (by simp)

theorem after?_of_ne_esc {c : Char} (h : c ≠ esc) (s : List Char) : after? (c :: s) = none := by
  refine after?_eq_none_iff.2 fun m hm hprefix => ?_
  obtain ⟨body, rfl, -⟩ := hm.exists_body
  exact h (List.cons_prefix_cons.1 hprefix).1.symm

/-! ## The pass over a text -/

theorem strip_sublist (s : List Char) : (strip s).Sublist s := by
  induction s using strip.induct with
  | case1 => rw [strip_nil]
  | case2 c s r h ih =>
    obtain ⟨m, -, hm⟩ := after?_eq_some_iff.1 h
    rw [strip_of_after? h, hm]
    exact ih.trans (List.sublist_append_right m r)
  | case3 c s h ih =>
    rw [strip_cons_of_none h]
    exact ih.cons_cons c

theorem strip_append_of_noEscape {s : List Char} (h : esc ∉ s) (t : List Char) :
    strip (s ++ t) = s ++ strip t := by
  induction s with
  | nil => rfl
  | cons c s ih =>
    rw [List.mem_cons, not_or] at h
    rw [List.cons_append, strip_cons_of_none (after?_of_ne_esc (Ne.symm h.1) _), ih h.2,
      List.cons_append]

/-- Exactly the plain texts stay as they are. -/
theorem strip_eq_self_iff (s : List Char) : strip s = s ↔ IsPlain s := by
  induction s with
  | nil => simp [isPlain_nil]
  | cons c s ih =>
    rw [isPlain_cons_iff]
    cases h : after? (c :: s) with
    | none => rw [strip_cons_of_none h, List.cons.injEq, ih, eq_self, eq_self]
    | some r =>
      have hshorter := (strip_sublist r).length_le.trans_lt (length_after? h)
      rw [strip_of_after? h]
      constructor
      · intro he
        rw [he] at hshorter
        exact absurd hshorter (Nat.lt_irrefl _)
      · exact fun he => absurd he.1 (by simp)

/-- The pass over `s` comes to its end `t`, not from within a sequence that it removes. -/
inductive Reaches : List Char → List Char → Prop where
  | here (s : List Char) : Reaches s s
  | removed {s r t : List Char} (h : after? s = some r) (hr : Reaches r t) : Reaches s t
  | kept {c : Char} {s t : List Char} (h : after? (c :: s) = none) (hs : Reaches s t) :
      Reaches (c :: s) t

theorem Reaches.strip_suffix {s t : List Char} (h : Reaches s t) : strip t <:+ strip s := by
  induction h with
  | here s => exact List.suffix_refl _
  | removed h _ ih => rwa [strip_of_after? h]
  | kept h _ ih =>
    rw [strip_cons_of_none h]
    exact ih.trans (List.suffix_cons _ _)

theorem exists_reaches {s u : List Char} (h : u <:+ strip s) (hne : u ≠ []) :
    ∃ t, Reaches s t ∧ strip t = u ∧ after? t = none := by
  induction s using strip.induct with
  | case1 =>
    rw [strip_nil, List.suffix_nil] at h
    exact absurd h hne
  | case2 c s r hafter ih =>
    rw [strip_of_after? hafter] at h
    obtain ⟨t, hreaches, ht⟩ := ih h
    exact ⟨t, .removed hafter hreaches, ht⟩
  | case3 c s hafter ih =>
    rw [strip_cons_of_none hafter] at h
    rcases List.suffix_cons_iff.1 h with rfl | h
    · exact ⟨c :: s, .here _, strip_cons_of_none hafter, hafter⟩
    · obtain ⟨t, hreaches, ht⟩ := ih h
      exact ⟨t, .kept hafter hreaches, ht⟩

/-! ## Spliced sequences -/

/-- A sequence that the pass removes stands right behind a begun one, and what is left of the text
behind it finishes that one. -/
def Spliced (s : List Char) : Prop :=
  ∃ begun removed rest finish, Reaches s (esc :: (begun ++ (removed ++ rest))) ∧
    IsSequence removed ∧ finish ≠ [] ∧ finish <+: strip rest ∧
    IsSequence (esc :: (begun ++ finish))

theorem prefix_of_noEscape {m s t : List Char} (h : esc ∉ m) (hm : m <+: s ++ esc :: t) :
    m <+: s := by
  rcases List.prefix_or_prefix_of_prefix hm (List.prefix_append s _) with hle | ⟨more, rfl⟩
  · exact hle
  · cases more with
    | nil => rw [List.append_nil]
    | cons c more =>
      rw [List.prefix_append_right_inj, List.cons_prefix_cons] at hm
      exact absurd (hm.1 ▸ List.mem_append_right s List.mem_cons_self) h

theorem Spliced.not_isPlain {s : List Char} (h : Spliced s) : ¬ IsPlain (strip s) := by
  obtain ⟨begun, removed, rest, finish, hreaches, hremoved, hne, ⟨tail, htail⟩, hwhole⟩ := h
  obtain ⟨body, hbody, hnoEscape⟩ := hwhole.exists_body
  obtain rfl : begun ++ finish = body := (List.cons.inj hbody).2
  have hbegun : esc ∉ begun := fun hmem => hnoEscape (List.mem_append_left _ hmem)
  have hafter : after? (removed ++ rest) = some rest := after?_eq_some_iff.2 ⟨_, hremoved, rfl⟩
  -- What is begun there is no sequence by itself, as no sequence begins with another one.
  have hkept : after? (esc :: (begun ++ (removed ++ rest))) = none := by
    refine after?_eq_none_iff.2 fun m hm hprefix => ?_
    obtain ⟨mbody, rfl, hmbody⟩ := hm.exists_body
    obtain ⟨rbody, rfl, -⟩ := hremoved.exists_body
    obtain ⟨more, rfl⟩ := prefix_of_noEscape hmbody (List.cons_prefix_cons.1 hprefix).2
    rw [List.append_assoc] at hwhole
    exact hne (List.append_eq_nil_iff.1 (hm.eq_nil_of_append hwhole)).2
  have hstrip : strip (esc :: (begun ++ (removed ++ rest))) =
      esc :: (begun ++ finish) ++ tail := by
    rw [strip_cons_of_none hkept, strip_append_of_noEscape hbegun, strip_of_after? hafter, ← htail,
      List.cons_append, List.append_assoc]
  intro hplain
  refine hplain _ hwhole (List.IsInfix.trans ?_ hreaches.strip_suffix.isInfix)
  rw [hstrip]
  exact (List.prefix_append _ tail).isInfix

theorem exists_noEscape_prefix (s : List Char) :
    ∃ before behind, s = before ++ behind ∧ esc ∉ before ∧ ∀ c ∈ behind.head?, c = esc := by
  induction s with
  | nil => exact ⟨[], [], rfl, List.not_mem_nil, by simp⟩
  | cons c s ih =>
    by_cases hc : c = esc
    · exact ⟨[], c :: s, rfl, List.not_mem_nil, by simp [hc]⟩
    · obtain ⟨before, behind, rfl, hbefore, hbehind⟩ := ih
      refine ⟨c :: before, behind, rfl, ?_, hbehind⟩
      rw [List.mem_cons, not_or]
      exact ⟨Ne.symm hc, hbefore⟩

/-- A sequence in the stripped text was put together by a removal. -/
theorem spliced_of_not_isPlain {s : List Char} (h : ¬ IsPlain (strip s)) : Spliced s := by
  simp only [IsPlain, not_forall, not_not] at h
  obtain ⟨m, hm, before, behind, hstrip⟩ := h
  have hbody := hm.exists_body
  obtain ⟨body, rfl, hnoEscape⟩ := hbody
  rw [List.append_assoc] at hstrip
  obtain ⟨t, hreaches, ht, hafter⟩ :=
    exists_reaches (u := esc :: body ++ behind) ⟨before, hstrip⟩ (by simp)
  obtain ⟨t, rfl⟩ : ∃ t', t = esc :: t' := by
    cases t with
    | nil => simp at ht
    | cons c t =>
      rw [strip_cons_of_none hafter] at ht
      exact ⟨t, by rw [(List.cons.inj ht).1]⟩
  have hbehind : strip t = body ++ behind := by
    rw [strip_cons_of_none hafter] at ht
    exact (List.cons.inj ht).2
  have hlonger : ¬ body <+: t := fun hprefix =>
    after?_eq_none_iff.1 hafter _ hm (List.cons_prefix_cons.2 ⟨rfl, hprefix⟩)
  -- The text goes on without ESC for a while; there the pass changes nothing.
  obtain ⟨begun, t, rfl, hbegun, hhead⟩ := exists_noEscape_prefix t
  rw [strip_append_of_noEscape hbegun] at hbehind
  obtain ⟨finish, rfl⟩ : begun <+: body := by
    rcases List.prefix_or_prefix_of_prefix (List.prefix_append begun (strip t))
      (hbehind ▸ List.prefix_append body behind) with hle | hle
    · exact hle
    · exact absurd (hle.trans (List.prefix_append begun t)) hlonger
  have hne : finish ≠ [] := by
    rintro rfl
    exact hlonger (by rw [List.append_nil]; exact List.prefix_append begun t)
  rw [List.append_assoc, List.append_cancel_left_eq] at hbehind
  cases hnext : after? t with
  | none =>
    cases t with
    | nil =>
      rw [strip_nil] at hbehind
      exact absurd (List.append_eq_nil_iff.1 hbehind.symm).1 hne
    | cons c t =>
      obtain rfl := hhead c rfl
      rw [strip_cons_of_none hnext] at hbehind
      cases finish with
      | nil => exact absurd rfl hne
      | cons d finish =>
        rw [← (List.cons.inj hbehind).1] at hnoEscape
        exact absurd (List.mem_append_right begun List.mem_cons_self) hnoEscape
  | some r =>
    obtain ⟨removed, hremoved, rfl⟩ := after?_eq_some_iff.1 hnext
    rw [strip_of_after? hnext] at hbehind
    exact ⟨begun, removed, r, finish, hreaches, hremoved, hne, ⟨behind, hbehind.symm⟩, hm⟩

theorem isPlain_strip_iff (s : List Char) : IsPlain (strip s) ↔ ¬ Spliced s := by
  constructor
  · exact fun h hspliced => hspliced.not_isPlain h
  · exact fun h => by_contra fun hnot => h (spliced_of_not_isPlain hnot)

end Escape

/-! ## Cleaned lines -/

theorem clean?_eq_some_iff {action : Action} {raw line : String} :
    clean? action raw = some line ↔ isChatter action line.toList = false ∧
      line.toList = Escape.strip (Text.stripWhile (· == '\r') raw.toList) := by
  unfold clean?
  dsimp only
  constructor
  · intro h
    split at h
    · contradiction
    · next hkept =>
      obtain rfl := Option.some.inj h
      rw [String.toList_ofList]
      exact ⟨Bool.eq_false_iff.2 hkept, rfl⟩
  · rintro ⟨hkept, hline⟩
    rw [← hline, hkept, String.ofList_toList]
    rfl

/-- A kept line is its own clean form if neither step of the cleaning changes it. -/
theorem clean?_self_iff {action : Action} {line : String}
    (hkept : isChatter action line.toList = false) : clean? action line = some line ↔
      Escape.IsPlain line.toList ∧ Text.stripWhile (· == '\r') line.toList = line.toList := by
  rw [clean?_eq_some_iff, ← Escape.strip_eq_self_iff]
  constructor
  · rintro ⟨-, hline⟩
    have hlength := (Escape.strip_sublist (Text.stripWhile (· == '\r') line.toList)).length_le
    rw [← hline] at hlength
    have hends := (stripWhile_sublist (· == '\r') line.toList).eq_of_length_le hlength
    rw [hends] at hline
    exact ⟨hline.symm, hends⟩
  · rintro ⟨hplain, hends⟩
    exact ⟨hkept, by rw [hends, hplain]⟩

namespace Escape

/-- One pass is enough exactly for the texts in which no sequence is spliced. A cleaned line is its
own clean form if, besides, it has no carriage return at its ends; a captured line never has one. -/
theorem settled_iff_not_spliced (s : List Char) :
    (IsPlain (strip s) ↔ ¬ Spliced s) ∧ (strip (strip s) = strip s ↔ ¬ Spliced s) ∧
    (∀ action raw line, clean? action raw = some line →
      (clean? action line = some line ↔ ¬ Spliced (Text.stripWhile (· == '\r') raw.toList) ∧
        line.toList.head? ≠ some '\r' ∧ line.toList.getLast? ≠ some '\r')) ∧
    ∀ action raw line, clean? action raw = some line → '\r' ∉ raw.toList →
      (clean? action line = some line ↔ ¬ Spliced raw.toList) := by
  have hlines : ∀ action raw line, clean? action raw = some line →
      (clean? action line = some line ↔ ¬ Spliced (Text.stripWhile (· == '\r') raw.toList) ∧
        line.toList.head? ≠ some '\r' ∧ line.toList.getLast? ≠ some '\r') := by
    intro action raw line h
    obtain ⟨hkept, hline⟩ := clean?_eq_some_iff.1 h
    rw [clean?_self_iff hkept, hline, isPlain_strip_iff, ← hline, stripWhile_eq_self_iff]
    have hend : ∀ o : Option Char, (∀ c ∈ o, (c == '\r') = false) ↔ o ≠ some '\r' := by
      intro o
      cases o <;> simp
    rw [hend, hend]
  refine ⟨isPlain_strip_iff s, ?_, hlines, fun action raw line h hraw => ?_⟩
  · rw [strip_eq_self_iff, isPlain_strip_iff]
  · obtain ⟨-, hline⟩ := clean?_eq_some_iff.1 h
    have hnone : '\r' ∉ line.toList := fun hmem => by
      rw [hline] at hmem
      exact hraw (((strip_sublist _).trans (stripWhile_sublist _ _)).subset hmem)
    have hends : Text.stripWhile (· == '\r') raw.toList = raw.toList := by
      rw [stripWhile_eq_self_iff]
      refine ⟨fun c hc => ?_, fun c hc => ?_⟩ <;> refine beq_eq_false_iff_ne.2 ?_ <;> rintro rfl
      · exact hraw (List.mem_of_head? hc)
      · exact hraw (List.mem_of_getLast? hc)
    rw [hlines action raw line h, hends, and_iff_left]
    exact ⟨fun hc => hnone (List.mem_of_head? hc), fun hc => hnone (List.mem_of_getLast? hc)⟩

/-- A reset of colors between ESC and the rest of another one: the inner one is removed, and the
outer one is whole then. Next, a carriage return that comes to the start of the line. -/
theorem not_settled_nested :
    ¬ IsPlain (strip "\x1b\x1b[m[m".toList) ∧
    strip (strip "\x1b\x1b[m[m".toList) ≠ strip "\x1b\x1b[m[m".toList ∧
    clean? .compile "\x1b\x1b[m[m" = some "\x1b[m" ∧ clean? .compile "\x1b[m" = some "" ∧
    clean? .compile "\x1b[m\rgo" = some "\rgo" ∧ clean? .compile "\rgo" = some "go" := by
  have houter : strip "\x1b\x1b[m[m".toList = "\x1b[m".toList := by cbv
  have hnothing : strip "\x1b[m".toList = [] := by cbv
  have hchanges : strip "\x1b[m".toList ≠ "\x1b[m".toList := by
    rw [hnothing]
    decide
  rw [houter]
  exact ⟨fun hplain => hchanges ((strip_eq_self_iff _).2 hplain), hchanges, by cbv, by cbv,
    by cbv, by cbv⟩

/-- A colored line has no spliced sequence, so it stays clean. -/
theorem settled_red : clean? .compile "\x1b[31mred" = some "red" ∧ '\r' ∉ "\x1b[31mred".toList ∧
    (clean? .compile "red" = some "red" ↔ ¬ Spliced "\x1b[31mred".toList) := by
  have h : clean? .compile "\x1b[31mred" = some "red" := by cbv
  exact ⟨h, by decide, (settled_iff_not_spliced []).2.2.2 .compile _ _ h (by decide)⟩

end Escape

end FirmwareJobs.Capture
