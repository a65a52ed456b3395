import FirmwareJobs.Proofs.Capture.Stripping

/-!
# The one way to cut a text at its escape sequences

A text is cut into kept pieces and the sequences between them, where no sequence of the text may
start inside a kept piece. There is exactly one such cut, because the sequence that starts at a
given place has only one end, and stripping the text joins the kept pieces of that cut.
-/

namespace FirmwareJobs.Capture.Escape

/-- A text in pieces: kept ones, and a removed one behind each of them but the last. -/
inductive Cut where
  | last (kept : List Char)
  | piece (kept removed : List Char) (rest : Cut)
  deriving DecidableEq

/-- No sequence starts inside `kept` when it is followed by `rest`. -/
def StartsNone (kept rest : List Char) : Prop :=
  ∀ before behind, kept = before ++ behind → behind ≠ [] →
    ∀ m, IsSequence m → ¬ m <+: behind ++ rest

namespace Cut

/-- The text that was cut. -/
def text : Cut → List Char
  | last kept => kept
  | piece kept removed rest => kept ++ (removed ++ rest.text)

/-- The kept pieces together. -/
def kept : Cut → List Char
  | last kept => kept
  | piece kept _ rest => kept ++ rest.kept

/-- The removed pieces are sequences, and no sequence of the text starts inside a kept piece. -/
def IsFaithful : Cut → Prop
  | last kept => StartsNone kept []
  | piece kept removed rest =>
    StartsNone kept (removed ++ rest.text) ∧ IsSequence removed ∧ rest.IsFaithful

/-- The cut with one more character at the start of its first piece. -/
def cons (c : Char) : Cut → Cut
  | last kept => last (c :: kept)
  | piece kept removed rest => piece (c :: kept) removed rest

@[simp] theorem text_cons (c : Char) (cut : Cut) : (cut.cons c).text = c :: cut.text := by
  cases cut <;> rfl

end Cut

/-! ## Kept pieces -/

theorem startsNone_nil (rest : List Char) : StartsNone [] rest := by
  intro before behind h hne
  exact absurd (List.append_eq_nil_iff.1 h.symm).2 hne

theorem startsNone_cons_iff {c : Char} {kept rest : List Char} : StartsNone (c :: kept) rest ↔
    after? (c :: (kept ++ rest)) = none ∧ StartsNone kept rest := by
  rw [after?_eq_none_iff]
  constructor
  · refine fun h => ⟨fun m hm => h [] (c :: kept) rfl (by simp) m hm, ?_⟩
    rintro before behind rfl
    exact h (c :: before) behind rfl
  · rintro ⟨hhead, htail⟩ before behind h hne
    cases before with
    | nil =>
      obtain rfl := h
      exact hhead
    | cons b before => exact htail before behind (List.cons.inj h).2 hne

theorem strip_of_startsNone {kept rest : List Char} (h : StartsNone kept rest) :
    strip (kept ++ rest) = kept ++ strip rest := by
  induction kept with
  | nil => rfl
  | cons c kept ih =>
    rw [startsNone_cons_iff] at h
    rw [List.cons_append, strip_cons_of_none h.1, ih h.2, List.cons_append]

namespace Cut

/-- Stripping joins the kept pieces. -/
theorem IsFaithful.strip_text {cut : Cut} (h : cut.IsFaithful) : strip cut.text = cut.kept := by
  induction cut with
  | last kept =>
    have hkept := strip_of_startsNone h
    rwa [strip_nil, List.append_nil] at hkept
  | piece kept removed rest ih =>
    obtain ⟨hkept, hremoved, hrest⟩ := h
    have hafter : after? (removed ++ rest.text) = some rest.text :=
      after?_eq_some_iff.2 ⟨removed, hremoved, rfl⟩
    rw [text, strip_of_startsNone hkept, strip_of_after? hafter, ih hrest, Cut.kept]

/-! ## The next step of a cut -/

theorem isFaithful_cons_iff {c : Char} {cut : Cut} :
    (cut.cons c).IsFaithful ↔ after? (c :: cut.text) = none ∧ cut.IsFaithful := by
  cases cut with
  | last kept =>
    change StartsNone (c :: kept) [] ↔ _ ∧ StartsNone kept []
    rw [startsNone_cons_iff, List.append_nil, text]
  | piece kept removed rest =>
    change StartsNone (c :: kept) _ ∧ _ ↔ _ ∧ StartsNone kept _ ∧ _
    rw [startsNone_cons_iff, text, and_assoc]

theorem eq_cons_of_after?_eq_none {c : Char} {s : List Char} {cut : Cut} (h : cut.IsFaithful)
    (htext : cut.text = c :: s) (hnone : after? (c :: s) = none) :
    ∃ rest : Cut, cut = rest.cons c ∧ rest.text = s ∧ rest.IsFaithful := by
  obtain ⟨rest, rfl⟩ : ∃ rest : Cut, cut = rest.cons c := by
    cases cut with
    | last kept =>
      obtain rfl : kept = c :: s := htext
      exact ⟨last s, rfl⟩
    | piece kept removed rest =>
      cases kept with
      | nil =>
        -- A removed piece in front is a sequence that starts here.
        have hafter := after?_eq_some_iff.2 ⟨removed, h.2.1, htext.symm⟩
        rw [hnone] at hafter
        contradiction
      | cons k kept =>
        obtain rfl : k = c := (List.cons.inj htext).1
        exact ⟨piece kept removed rest, rfl⟩
  rw [text_cons] at htext
  exact ⟨rest, rfl, (List.cons.inj htext).2, (isFaithful_cons_iff.1 h).2⟩

theorem eq_piece_of_isSequence {m r : List Char} {cut : Cut} (h : cut.IsFaithful)
    (hm : IsSequence m) (htext : cut.text = m ++ r) :
    ∃ rest : Cut, cut = piece [] m rest ∧ rest.text = r ∧ rest.IsFaithful := by
  have hafter : after? (m ++ r) = some r := after?_eq_some_iff.2 ⟨m, hm, rfl⟩
  have hstarts {c : Char} {kept rest : List Char} (hnone : StartsNone (c :: kept) rest)
      (heq : (c :: kept) ++ rest = m ++ r) : False := by
    have hc := (startsNone_cons_iff.1 hnone).1
    rw [← List.cons_append, heq, hafter] at hc
    contradiction
  cases cut with
  | last kept =>
    cases kept with
    | nil =>
      obtain ⟨body, rfl, -⟩ := hm.exists_body
      exact nomatch htext
    | cons c kept => exact (hstarts h ((List.append_nil _).trans htext)).elim
  | piece kept removed rest =>
    cases kept with
    | cons c kept => exact (hstarts h.1 htext).elim
    | nil =>
      have hremoved : after? (m ++ r) = some rest.text :=
        after?_eq_some_iff.2 ⟨removed, h.2.1, htext.symm⟩
      have hrest : rest.text = r := Option.some.inj (hremoved.symm.trans hafter)
      have hsame : removed ++ rest.text = m ++ r := htext
      rw [hrest, List.append_left_inj] at hsame
      exact ⟨rest, by rw [hsame], hrest, h.2.2⟩

/-! ## Exactly one cut -/

theorem exists_isFaithful (s : List Char) : ∃ cut : Cut, cut.text = s ∧ cut.IsFaithful := by
  induction s using strip.induct with
  | case1 => exact ⟨last [], rfl, startsNone_nil []⟩
  | case2 c s r h ih =>
    obtain ⟨m, hm, heq⟩ := after?_eq_some_iff.1 h
    obtain ⟨cut, rfl, hcut⟩ := ih
    exact ⟨piece [] m cut, heq.symm, startsNone_nil _, hm, hcut⟩
  | case3 c s h ih =>
    obtain ⟨cut, rfl, hcut⟩ := ih
    exact ⟨cut.cons c, text_cons c cut, isFaithful_cons_iff.2 ⟨h, hcut⟩⟩

theorem eq_of_text_eq {s : List Char} {cut other : Cut} (hcut : cut.text = s)
    (hother : other.text = s) (h : cut.IsFaithful) (h' : other.IsFaithful) : cut = other := by
  induction s using strip.induct generalizing cut other with
  | case1 =>
    -- Sequences are not empty, so an empty text has only one piece.
    have hempty {d : Cut} (hd : d.text = []) (hfaithful : d.IsFaithful) : d = last [] := by
      cases d with
      | last kept => exact congrArg last hd
      | piece kept removed rest =>
        obtain ⟨body, rfl, -⟩ := hfaithful.2.1.exists_body
        simp [text] at hd
    rw [hempty hcut h, hempty hother h']
  | case2 c s r hafter ih =>
    obtain ⟨m, hm, heq⟩ := after?_eq_some_iff.1 hafter
    rw [heq] at hcut hother
    obtain ⟨rest, rfl, hrest, hr⟩ := eq_piece_of_isSequence h hm hcut
    obtain ⟨rest', rfl, hrest', hr'⟩ := eq_piece_of_isSequence h' hm hother
    rw [ih hrest hrest' hr hr']
  | case3 c s hafter ih =>
    obtain ⟨rest, rfl, hrest, hr⟩ := eq_cons_of_after?_eq_none h hcut hafter
    obtain ⟨rest', rfl, hrest', hr'⟩ := eq_cons_of_after?_eq_none h' hother hafter
    rw [ih hrest hrest' hr hr']

end Cut

/-! ## Unfinished sequences -/

/-- A sequence that breaks off. -/
def IsUnfinished (s : List Char) : Prop := ∃ more, more ≠ [] ∧ IsSequence (s ++ more)

/-- No sequence reaches over an ESC, so a text can be stripped up to it and from it on. -/
theorem strip_append_esc (s t : List Char) :
    strip (s ++ esc :: t) = strip s ++ strip (esc :: t) := by
  induction s using strip.induct with
  | case1 => rw [strip_nil, List.nil_append, List.nil_append]
  | case2 c s r h ih =>
    obtain ⟨m, hm, heq⟩ := after?_eq_some_iff.1 h
    have hafter : after? (c :: s ++ esc :: t) = some (r ++ esc :: t) :=
      after?_eq_some_iff.2 ⟨m, hm, by rw [heq, List.append_assoc]⟩
    rw [strip_of_after? h, strip_of_after? hafter, ih]
  | case3 c s h ih =>
    have hafter : after? (c :: (s ++ esc :: t)) = none := by
      refine after?_eq_none_iff.2 fun m hm hprefix => ?_
      obtain ⟨body, rfl, hbody⟩ := hm.exists_body
      obtain ⟨rfl, hrest⟩ := List.cons_prefix_cons.1 hprefix
      have hshort : esc :: body <+: esc :: s :=
        List.cons_prefix_cons.2 ⟨rfl, prefix_of_noEscape hbody hrest⟩
      exact after?_eq_none_iff.1 h _ hm hshort
    rw [strip_cons_of_none h, List.cons_append, strip_cons_of_none hafter, ih, List.cons_append]

theorem strip_append_of_isUnfinished {u : List Char} (h : IsUnfinished u) (s : List Char) :
    strip (s ++ u) = strip s ++ u := by
  obtain ⟨more, hmore, hwhole⟩ := h
  cases u with
  | nil => rw [List.append_nil, List.append_nil]
  | cons c u =>
    obtain ⟨body, hbody, hnoEscape⟩ := hwhole.exists_body
    obtain rfl : c = esc := (List.cons.inj hbody).1
    have hu : esc ∉ u := fun hmem =>
      hnoEscape ((List.cons.inj hbody).2 ▸ List.mem_append_left more hmem)
    have hnone : after? (esc :: u) = none := by
      refine after?_eq_none_iff.2 fun m hm ⟨w, hw⟩ => hmore ?_
      rw [← hw, List.append_assoc] at hwhole
      exact (List.append_eq_nil_iff.1 (hm.eq_nil_of_append hwhole)).2
    have hkept : strip (u ++ []) = u ++ strip [] := strip_append_of_noEscape hu []
    rw [strip_nil, List.append_nil] at hkept
    rw [strip_append_esc, strip_cons_of_none hnone, hkept]

/-! ## What stripping removes -/

/-- Stripping removes the sequences of the one faithful cut of a text and nothing else. A text
without ESC stays as it is, and so does a sequence that breaks off at the end. -/
theorem strip_removes_cut (s : List Char) :
    (∃! cut : Cut, cut.text = s ∧ cut.IsFaithful) ∧
    (∀ cut : Cut, cut.text = s → cut.IsFaithful → strip s = cut.kept) ∧
    (esc ∉ s → strip s = s) ∧
    ∀ unfinished, IsUnfinished unfinished → strip (s ++ unfinished) = strip s ++ unfinished := by
  refine ⟨?_, ?_, fun h => ?_, fun u hu => strip_append_of_isUnfinished hu s⟩
  · obtain ⟨cut, hcut, hfaithful⟩ := Cut.exists_isFaithful s
    exact ⟨cut, ⟨hcut, hfaithful⟩, fun other hother =>
      Cut.eq_of_text_eq hother.1 hcut hother.2 hfaithful⟩
  · rintro cut rfl hfaithful
    exact hfaithful.strip_text
  · have hkept := strip_append_of_noEscape h []
    rwa [strip_nil, List.append_nil] at hkept

/-- An ESC that begins no sequence, a color, a word and the end of the color. -/
def redCut : Cut :=
  .piece [esc] "\x1b[31m".toList (.piece "red".toList "\x1b[m".toList (.last []))

theorem isFaithful_redCut : redCut.IsFaithful := by
  have hcolor : IsSequence "\x1b[31m".toList :=
    @IsSequence.control ['3', '1'] [] 'm' (List.all_eq_true.1 rfl) (List.forall_mem_nil _) rfl
  have hend : IsSequence "\x1b[m".toList :=
    @IsSequence.control [] [] 'm' (List.forall_mem_nil _) (List.forall_mem_nil _) rfl
  refine ⟨startsNone_cons_iff.2 ⟨by decide, startsNone_nil _⟩, hcolor, ?_, hend, startsNone_nil _⟩
  refine startsNone_cons_iff.2 ⟨by decide, startsNone_cons_iff.2 ⟨by decide, ?_⟩⟩
  exact startsNone_cons_iff.2 ⟨by decide, startsNone_nil _⟩

theorem strip_removes_redCut :
    redCut.text = "\x1b\x1b[31mred\x1b[m".toList ∧ redCut.IsFaithful ∧
    strip redCut.text = "\x1bred".toList ∧
    esc ∉ "red".toList ∧ strip "red".toList = "red".toList ∧
    IsUnfinished "\x1b[31".toList ∧
    strip (redCut.text ++ "\x1b[31".toList) = strip redCut.text ++ "\x1b[31".toList := by
  have hplain : esc ∉ "red".toList := by decide
  have hunfinished : IsUnfinished "\x1b[31".toList :=
    ⟨['m'], by decide,
      @IsSequence.control ['3', '1'] [] 'm' (List.all_eq_true.1 rfl) (List.forall_mem_nil _) rfl⟩
  obtain ⟨-, hcut, -, hend⟩ := strip_removes_cut redCut.text
  exact ⟨rfl, isFaithful_redCut, hcut redCut rfl isFaithful_redCut, hplain,
    (strip_removes_cut "red".toList).2.2.1 hplain, hunfinished, hend _ hunfinished⟩

end FirmwareJobs.Capture.Escape
