import FirmwareJobs.Proofs.Json.Members
import FirmwareJobs.Proofs.Json.Skipping
import Mathlib.Data.List.Duplicate
import Mathlib.Data.List.Perm.Subperm

/-!
# Objects with their members in any order

A reader of objects collects the members as they come. While it reads, each member that came has
its value in its slot and every other slot is empty; a member with an unknown name leaves the slots
as they are, and a known name that comes again ends the reading. What is missing at the end takes
its fallback. The values of a list come in the order of the declaration, and only the last of them
can be missing.
-/

namespace FirmwareJobs.Json

open Text

/-! ## Names -/

theorem escape_short : ∀ x ∈ shortEscapes, ∀ s,
    escape (Utf8.encode [x.1] ++ s) = .ok (String.utf8EncodeChar x.2, s) := by
  intro x hx s
  simp only [shortEscapes, List.mem_cons, List.not_mem_nil, or_false] at hx
  rcases hx with rfl | rfl | rfl | rfl | rfl | rfl | rfl | rfl <;> rfl

theorem escape_code {u : CodeUnit} (h : u.number < 0xD800 ∨ 0xE000 ≤ u.number) (s : Bytes) :
    escape (letterU :: (Utf8.encode u.text ++ s)) =
      .ok (String.utf8EncodeChar (Char.ofNat u.number), s) := by
  have hlow : isLowSurrogate u.number = false := by simp [isLowSurrogate]; omega
  have hhigh : isHighSurrogate u.number = false := by simp [isHighSurrogate]; omega
  have hletter : simpleEscape? letterU = none := by decide
  simp [escape, hletter, hexQuad_codeUnit, hlow, hhigh, bind, Except.bind]

theorem escape_pair {high low : CodeUnit} (hhigh : 0xD800 ≤ high.number ∧ high.number < 0xDC00)
    (hlow : 0xDC00 ≤ low.number ∧ low.number < 0xE000) (s : Bytes) :
    escape (letterU :: (Utf8.encode high.text ++ backslash :: letterU ::
      (Utf8.encode low.text ++ s))) =
      .ok (String.utf8EncodeChar (Char.ofNat
        (0x10000 + (high.number - 0xD800) * 0x400 + (low.number - 0xDC00))), s) := by
  have hfirst : isLowSurrogate high.number = false ∧ isHighSurrogate high.number = true := by
    simp [isLowSurrogate, isHighSurrogate]; omega
  have hsecond : isLowSurrogate low.number = true := by simp [isLowSurrogate]; omega
  have hletter : simpleEscape? letterU = none := by decide
  have hnumber : 0x10000 + (high.number % 1024) * 1024 + low.number % 1024 =
      0x10000 + (high.number - 0xD800) * 0x400 + (low.number - 0xDC00) := by omega
  simp [escape, hletter, hexQuad_codeUnit, hfirst, hsecond, expect, bind, Except.bind, ← hnumber]

theorem stringBody_spells {cs text : List Char} (h : Spells cs text) (t : Bytes) :
    stringBody (Utf8.encode text ++ quote :: t) = .ok (Utf8.encode cs, t) := by
  induction h with
  | nil => rw [Utf8.encode_nil, List.nil_append, stringBody, if_pos rfl]
  | @verbatim c cs text h _ ih =>
    have hbytes : Utf8.encode (c :: text) = String.utf8EncodeChar c ++ Utf8.encode text := rfl
    rw [hbytes, List.append_assoc, stringBody_append
      (isPlain_utf8EncodeChar h.1 h.2.1 (Nat.not_lt.2 h.2.2)), ih]
    rfl
  | @short e c cs text h _ ih =>
    have hbytes : Utf8.encode (e :: text) = Utf8.encode [e] ++ Utf8.encode text :=
      Utf8.encode_append [e] text
    rw [encode_backslash, hbytes, List.append_assoc, stringBody_escape (escape_short (e, c) h _),
      ih]
    rfl
  | code u h _ ih =>
    rw [List.cons_append, List.cons_append, encode_backslash, encode_letterU, Utf8.encode_append,
      List.append_assoc, stringBody_escape (escape_code h _), ih]
    rfl
  | pair high low hhigh hlow _ ih =>
    rw [List.append_assoc, List.cons_append, List.cons_append, encode_backslash, encode_letterU,
      Utf8.encode_append, List.append_assoc, List.cons_append, List.cons_append, encode_backslash,
      encode_letterU, Utf8.encode_append, List.append_assoc,
      stringBody_escape (escape_pair hhigh hlow _), ih]
    rfl

/-- A member with the name that it denotes. -/
structure Named extends Member where
  name : String
  spells : Spells name.toList spelling

namespace Named

/-- The name and the text of the value. -/
def entry (m : Named) : String × List Char := (m.name, m.item.value)

/-- What stands behind the name of a member, up to its value. -/
def rest (m : Named) (s : Bytes) : Bytes :=
  Utf8.encode m.between.1 ++ colon :: (Utf8.encode m.item.text ++ s)

theorem stringRest_spelling (m : Named) (s : Bytes) :
    stringRest (Utf8.encode m.spelling ++ quote :: s) = .ok (m.name, s) := by
  simp [stringRest, stringBody_spells m.spells, Utf8.decode?_encode, bind, Except.bind]

theorem expect_rest (m : Named) (s : Bytes) : expect colon (skipBlank (m.rest s)) =
    .ok (Utf8.encode m.item.text ++ s) := by
  rw [rest, skipBlank_append m.between.allBlank, skipBlank_cons (by decide), expect, if_pos rfl]

theorem skipBlank_text (m : Named) {blanks : Bytes} (h : AllBlank blanks) (s : Bytes) :
    skipBlank (blanks ++ (Utf8.encode m.text ++ s)) =
      quote :: (Utf8.encode m.spelling ++ quote :: m.rest s) := by
  rw [skipBlank_append h, encode_member, skipBlank_append m.before.allBlank,
    skipBlank_cons (by decide)]
  rfl

end Named

theorem Format.Faithful.eq_of_write_eq {α : Type} {f : Format α} {a b : α} (ha : f.Faithful a)
    (hb : f.Faithful b) {layout : Layout} (h : f.write layout a = f.write layout b) : a = b := by
  have hread := ha.read layout [] [] (List.forall_mem_nil _) (fun c hc => nomatch hc)
  rw [h, hb.read layout [] [] (List.forall_mem_nil _) (fun c hc => nomatch hc)] at hread
  exact (congrArg Prod.fst (Except.ok.inj hread)).symm

namespace Fields

variable {t : Type} {ts : List Type}

/-! ## The members that came -/

/-- The name and the compact text of each value, in the order of the declaration. -/
def entries : {ts : List Type} → Fields ts → Tuple ts → List (String × List Char)
  | _, .nil, _ => []
  | _, .cons name format _ rest, (a, as) => (name, format.write .compact a) :: rest.entries as

theorem writeMembers_compact (fields : Fields ts) (as : Tuple ts) :
    fields.writeMembers .compact as =
      (fields.entries as).map fun (name, value) => writeString name.toList ++ ':' :: value := by
  induction fields with
  | nil => rfl
  | cons name format fallback rest ih =>
    obtain ⟨a, as⟩ := as
    simp [writeMembers, entries, ih, Layout.afterName]

theorem map_fst_entries (fields : Fields ts) (as : Tuple ts) :
    (fields.entries as).map Prod.fst = fields.names := by
  induction fields with
  | nil => rfl
  | cons name format fallback rest ih => exact congrArg (name :: ·) (ih as.2)

theorem mem_names_of_mem_entries {fields : Fields ts} {as : Tuple ts} {m : Named}
    (h : m.entry ∈ fields.entries as) : m.name ∈ fields.names :=
  map_fst_entries fields as ▸ List.mem_map_of_mem (f := Prod.fst) h

/-- The member can be read: its name is unknown and its value is any, or it is the member of some
values. -/
def Admits (fields : Fields ts) (m : Named) : Prop :=
  m.name ∉ fields.names ∧ IsValue m.item.value ∨
    ∃ as, fields.Faithful as ∧ m.entry ∈ fields.entries as

/-- No known name stands twice. -/
def Distinct (fields : Fields ts) (ms : List Named) : Prop :=
  ms.Pairwise fun m n => m.name ∈ fields.names → m.name ≠ n.name

theorem distinct_of_subperm {fields : Fields ts} (hnodup : fields.names.Nodup) {as : Tuple ts}
    {ms : List Named} (h : ((ms.filter (·.name ∈ fields.names)).map Named.entry).Subperm
      (fields.entries as)) : fields.Distinct ms := by
  obtain ⟨told, hperm, hsub⟩ := h
  have htold : (told.map Prod.fst).Nodup := by
    have := hsub.map Prod.fst
    rw [map_fst_entries] at this
    exact hnodup.sublist this
  have hnames := (hperm.map Prod.fst).nodup_iff.1 htold
  rw [List.map_map, List.Nodup, List.pairwise_map, List.pairwise_filter] at hnames
  refine hnames.imp fun {m n} hmn hname heq => ?_
  exact hmn (decide_eq_true hname) (decide_eq_true (heq ▸ hname)) heq

theorem not_distinct_of_duplicate {fields : Fields ts} {ms : List Named} {name : String}
    (hname : name ∈ fields.names) (h : (ms.map Named.name).Duplicate name) :
    ¬ fields.Distinct ms := by
  obtain ⟨twice, hsub, htwice⟩ := List.sublist_map_iff.1 (List.duplicate_iff_sublist.1 h)
  obtain ⟨m, rest, rfl, hm, hrest⟩ := List.map_eq_cons_iff.1 htwice.symm
  obtain ⟨n, rest, rfl, hn, -⟩ := List.map_eq_cons_iff.1 hrest
  intro hdistinct
  have hne := List.rel_of_pairwise_cons (hdistinct.sublist hsub) List.mem_cons_self
  exact hne (hm ▸ hname) (hm.trans hn.symm)

/-- The slot holds the value of the member that came with the name, and is empty if none came. -/
def Holds (ms : List Named) (name : String) (format : Format t) : Option t → Prop
  | none => ∀ m ∈ ms, m.name ≠ name
  | some a => format.Faithful a ∧ ∃ m ∈ ms, m.entry = (name, format.write .compact a)

def Filled (ms : List Named) : {ts : List Type} → Fields ts → Slots ts → Prop
  | _, .nil, _ => True
  | _, .cons name format _ rest, (slot, slots) => Holds ms name format slot ∧ rest.Filled ms slots

theorem filled_blank (fields : Fields ts) : fields.Filled [] fields.blank := by
  induction fields with
  | nil => trivial
  | cons name format fallback rest ih => exact ⟨List.forall_mem_nil _, ih⟩

theorem Holds.append {ms : List Named} {name : String} {format : Format t} {slot : Option t}
    (h : Holds ms name format slot) {m : Named} (hm : m.name ≠ name) :
    Holds (ms ++ [m]) name format slot := by
  cases slot with
  | none => exact List.forall_mem_append.2 ⟨h, List.forall_mem_singleton.2 hm⟩
  | some a =>
    obtain ⟨hfaithful, n, hn, hentry⟩ := h
    exact ⟨hfaithful, n, List.mem_append_left _ hn, hentry⟩

theorem Filled.unknown {fields : Fields ts} {ms : List Named} {slots : Slots ts}
    (h : fields.Filled ms slots) {m : Named} (hm : m.name ∉ fields.names) :
    fields.Filled (ms ++ [m]) slots := by
  induction fields with
  | nil => trivial
  | cons name format fallback rest ih =>
    obtain ⟨slot, slots⟩ := slots
    rw [names, List.mem_cons, not_or] at hm
    exact ⟨h.1.append hm.1, ih h.2 hm.2⟩

/-! ## One more member -/

theorem fill_unknown {fields : Fields ts} {name : String} (h : name ∉ fields.names) (s : Bytes)
    (slots : Slots ts) : fields.fill name s slots = none := by
  induction fields with
  | nil => rfl
  | cons own format fallback rest ih =>
    obtain ⟨slot, slots⟩ := slots
    rw [names, List.mem_cons, not_or] at h
    rw [fill, if_neg h.1, ih h.2]
    rfl

theorem fill_taken {fields : Fields ts} {ms : List Named} {slots : Slots ts}
    (h : fields.Filled ms slots) {name : String} (hname : name ∈ fields.names)
    (htaken : ∃ m ∈ ms, m.name = name) (s : Bytes) :
    fields.fill name s slots = some (.error .mismatched) := by
  induction fields with
  | nil => exact nomatch hname
  | cons own format fallback rest ih =>
    obtain ⟨slot, slots⟩ := slots
    by_cases hown : name = own
    · subst hown
      cases slot with
      | none =>
        obtain ⟨m, hm, heq⟩ := htaken
        exact absurd heq (h.1 m hm)
      | some a => rw [fill, if_pos rfl, Option.isSome_some, if_pos rfl]
    · rw [fill, if_neg hown, ih h.2 (List.mem_of_ne_of_mem hown hname)]
      rfl

theorem fill_entry {fields : Fields ts} (hnodup : fields.names.Nodup) {as : Tuple ts}
    (h : fields.Faithful as) {m : Named} (hm : m.entry ∈ fields.entries as) {ms : List Named}
    (hnew : ∀ n ∈ ms, n.name ≠ m.name) {slots : Slots ts} (hslots : fields.Filled ms slots)
    {s : Bytes} (hs : IsBoundary s) : ∃ filled,
      fields.fill m.name (m.rest s) slots = some (.ok (filled, Utf8.encode m.item.after.1 ++ s)) ∧
        fields.Filled (ms ++ [m]) filled := by
  induction fields with
  | nil => exact nomatch hm
  | cons name format fallback rest ih =>
    obtain ⟨a, as⟩ := as
    obtain ⟨slot, slots⟩ := slots
    rw [names, List.nodup_cons] at hnodup
    rcases List.mem_cons.1 hm with hentry | hentry
    · have hname : m.name = name := congrArg Prod.fst hentry
      have hvalue : m.item.value = format.write .compact a := congrArg Prod.snd hentry
      obtain rfl : slot = none := by
        cases slot with
        | none => rfl
        | some b =>
          obtain ⟨-, n, hn, heq⟩ := hslots.1
          exact absurd ((congrArg Prod.fst heq).trans hname.symm) (hnew n hn)
      have hread := h.1.read .compact _ _ m.item.before.allBlank
        (isBoundary_append m.item.after.allBlank hs)
      rw [← hvalue, ← encode_item] at hread
      refine ⟨(some a, slots), ?_, ⟨h.1, m, by simp, hentry⟩,
        hslots.2.unknown (hname ▸ hnodup.1)⟩
      rw [fill, if_pos hname, m.expect_rest]
      simp [hread, bind, Except.bind]
    · have hne : m.name ≠ name := fun he => hnodup.1 (he ▸ mem_names_of_mem_entries hentry)
      obtain ⟨filled, hfill, hfilled⟩ := ih hnodup.2 h.2 hentry hslots.2
      exact ⟨(slot, filled), by rw [fill, if_neg hne, hfill]; rfl, hslots.1.append hne, hfilled⟩

/-! ## All members -/

/-- The reader filled in the members and stopped before `s`, or a known name stood twice. -/
def Outcome (fields : Fields ts) (ms : List Named) (s : Bytes)
    (result : Except Failure (Slots ts × Bytes)) : Prop :=
  (∃ slots, result = .ok (slots, s) ∧ fields.Filled ms slots ∧ fields.Distinct ms) ∨
    ∃ e, result = .error e ∧ ¬ fields.Distinct ms

theorem Outcome.bind {fields : Fields ts} {ms ns : List Named} {s r : Bytes}
    {result : Except Failure (Slots ts × Bytes)} (h : fields.Outcome ms r result)
    {next : Slots ts × Bytes → Except Failure (Slots ts × Bytes)}
    (hnext : ∀ slots, fields.Filled ms slots → fields.Distinct ms →
      fields.Outcome (ms ++ ns) s (next (slots, r))) :
    fields.Outcome (ms ++ ns) s (result >>= next) := by
  rcases h with ⟨slots, rfl, hfilled, hdistinct⟩ | ⟨e, rfl, hrepeat⟩
  · exact hnext slots hfilled hdistinct
  · exact .inr ⟨e, rfl, fun h => hrepeat (List.pairwise_append.1 h).1⟩

theorem readMember_outcome {fields : Fields ts} (hnodup : fields.names.Nodup) {ms : List Named}
    (hdistinct : fields.Distinct ms) {slots : Slots ts} (hslots : fields.Filled ms slots)
    {m : Named} (hm : fields.Admits m) {s : Bytes} (hs : IsBoundary s) :
    fields.Outcome (ms ++ [m]) (Utf8.encode m.item.after.1 ++ s)
      (fields.readMember slots (Utf8.encode m.spelling ++ quote :: m.rest s)) := by
  have hread : fields.readMember slots (Utf8.encode m.spelling ++ quote :: m.rest s) =
      (fields.fill m.name (m.rest s) slots).getD
        ((skipValue (Utf8.encode m.item.text ++ s)).map fun r => (slots, r)) := by
    rw [readMember, m.stringRest_spelling]
    simp only [bind, Except.bind, m.expect_rest]
    cases fields.fill m.name (m.rest s) slots with
    | none => cases skipValue (Utf8.encode m.item.text ++ s) <;> rfl
    | some result => rfl
  by_cases htaken : m.name ∈ fields.names ∧ ∃ n ∈ ms, n.name = m.name
  · obtain ⟨hname, n, hn, heq⟩ := htaken
    rw [hread, fill_taken hslots hname ⟨n, hn, heq⟩]
    refine .inr ⟨.mismatched, rfl, fun h => ?_⟩
    have hne := (List.pairwise_append.1 h).2.2 n hn m List.mem_cons_self
    exact hne (heq ▸ hname) heq
  · have hnew : fields.Distinct (ms ++ [m]) := by
      refine List.pairwise_append.2 ⟨hdistinct, List.pairwise_singleton _ _, fun n hn k hk => ?_⟩
      obtain rfl := List.mem_singleton.1 hk
      exact fun hname heq => htaken ⟨heq ▸ hname, n, hn, heq⟩
    rcases hm with ⟨hunknown, hvalue⟩ | ⟨as, hfaithful, hentry⟩
    · have hskip := skipValue_of_isValue hvalue m.item.before.allBlank
        (isBoundary_append m.item.after.allBlank hs)
      rw [← encode_item] at hskip
      rw [hread, fill_unknown hunknown, hskip]
      exact .inl ⟨slots, rfl, hslots.unknown hunknown, hnew⟩
    · have hname := mem_names_of_mem_entries hentry
      obtain ⟨filled, hfill, hfilled⟩ := fill_entry hnodup hfaithful hentry
        (fun n hn heq => htaken ⟨hname, n, hn, heq⟩) hslots hs
      rw [hread, hfill]
      exact .inl ⟨filled, rfl, hfilled, hnew⟩

theorem readMembers_outcome {fields : Fields ts} (hnodup : fields.names.Nodup) (s : Bytes)
    (ns : List Named) : ∀ (ms : List Named) (slots : Slots ts) (blanks : Bytes) (fuel : Nat),
      fields.Distinct ms → fields.Filled ms slots → (∀ n ∈ ns, fields.Admits n) →
      AllBlank blanks → ns.length < fuel →
      fields.Outcome (ms ++ ns) s (fields.readMembers fuel slots (blanks ++
        (Utf8.encode (behindCommas ((ns.map Named.toMember).map Member.text)) ++
          closeObject :: s))) := by
  induction ns with
  | nil =>
    intro ms slots blanks fuel hdistinct hslots _ hblanks hfuel
    obtain ⟨fuel, rfl⟩ := Nat.exists_eq_add_of_lt hfuel
    rw [List.append_nil]
    refine .inl ⟨slots, ?_, hslots, hdistinct⟩
    have hend : skipBlank (blanks ++ (Utf8.encode (behindCommas []) ++ closeObject :: s)) =
        closeObject :: s := (skipBlank_append hblanks _).trans (skipBlank_cons (by decide) s)
    simp only [List.map_nil, readMembers, hend, if_true]
  | cons m ns ih =>
    intro ms slots blanks fuel hdistinct hslots hadmits hblanks hfuel
    obtain ⟨fuel, rfl⟩ := Nat.exists_eq_add_of_lt hfuel
    rw [List.forall_mem_cons] at hadmits
    set further := Utf8.encode (behindCommas ((ns.map Named.toMember).map Member.text)) ++
      closeObject :: s with hfurther
    have hboundary : IsBoundary further :=
      isBoundary_furtherItems .compact _ (isBoundary_cons s (.inr (.inr (.inl rfl))))
    have hcomma : skipBlank (blanks ++ (Utf8.encode (behindCommas
        (((m :: ns).map Named.toMember).map Member.text)) ++ closeObject :: s)) =
          comma :: (Utf8.encode m.text ++ further) := by
      rw [skipBlank_append hblanks, List.map_cons, List.map_cons, encode_behindCommas_cons,
        skipBlank_cons (by decide)]
    have hquote : skipBlank (Utf8.encode m.text ++ further) =
        quote :: (Utf8.encode m.spelling ++ quote :: m.rest further) :=
      m.skipBlank_text (List.forall_mem_nil _) further
    simp only [readMembers, hcomma, hquote, if_neg (show comma ≠ closeObject by decide), if_true]
    rw [List.append_cons]
    refine (readMember_outcome hnodup hdistinct hslots hadmits.1 hboundary).bind
      fun filled hfilled hnew => ?_
    exact ih (ms ++ [m]) filled _ _ hnew hfilled hadmits.2 m.item.after.allBlank
      (by simp only [List.length_cons]; omega)

theorem distinct_nil (fields : Fields ts) : fields.Distinct [] := List.Pairwise.nil

/-- The members are read as they stand; then the missing ones are completed. -/
theorem readObject_outcome {fields : Fields ts} (hnodup : fields.names.Nodup) (inner : Blanks)
    {ms : List Named} (hadmits : ∀ m ∈ ms, fields.Admits m) (s : Bytes) :
    ∃ result, fields.Outcome ms s result ∧
      fields.readObject (Utf8.encode inner.1 ++
        (Utf8.encode (divided ((ms.map Named.toMember).map Member.text)) ++ closeObject :: s)) =
          result >>= fun (slots, r) => fields.complete slots >>= fun as => .ok (as, r) := by
  cases ms with
  | nil =>
    refine ⟨.ok (fields.blank, s),
      .inl ⟨fields.blank, rfl, fields.filled_blank, fields.distinct_nil⟩, ?_⟩
    have hend : skipBlank (Utf8.encode inner.1 ++ (Utf8.encode (divided []) ++ closeObject :: s)) =
        closeObject :: s := (skipBlank_append inner.allBlank _).trans (skipBlank_cons (by decide) s)
    simp only [List.map_nil, readObject, hend, if_true]
  | cons m ms =>
    rw [List.forall_mem_cons] at hadmits
    set further := Utf8.encode (behindCommas ((ms.map Named.toMember).map Member.text)) ++
      closeObject :: s with hfurther
    have hboundary : IsBoundary further :=
      isBoundary_furtherItems .compact _ (isBoundary_cons s (.inr (.inr (.inl rfl))))
    have hquote : skipBlank (Utf8.encode inner.1 ++ (Utf8.encode (divided
        (((m :: ms).map Named.toMember).map Member.text)) ++ closeObject :: s)) =
          quote :: (Utf8.encode m.spelling ++ quote :: m.rest further) := by
      rw [List.map_cons, List.map_cons, divided_cons, Utf8.encode_append, List.append_assoc,
        ← hfurther]
      exact m.skipBlank_text inner.allBlank further
    refine ⟨fields.readMember fields.blank (Utf8.encode m.spelling ++ quote :: m.rest further) >>=
      fun (slots, r) => fields.readMembers (r.length + 1) slots r, ?_, ?_⟩
    · have hfirst := readMember_outcome hnodup fields.distinct_nil fields.filled_blank hadmits.1
        hboundary
      refine hfirst.bind fun slots hslots hdistinct => ?_
      refine readMembers_outcome hnodup s ms [m] slots _ _ hdistinct hslots hadmits.2
        m.item.after.allBlank ?_
      have hlength : _ ≤ (Utf8.encode (behindCommas _)).length :=
        length_le_length_furtherItems .compact ((ms.map Named.toMember).map Member.text)
      rw [List.length_map, List.length_map] at hlength
      rw [hfurther, List.length_append, List.length_append]
      omega
    · simp only [readObject, hquote, if_neg (show quote ≠ closeObject by decide), if_true,
        bind_assoc]

/-! ## What is missing -/

/-- Each member that is not among the names has its fallback for a value. -/
def Omits (present : List String) : {ts : List Type} → Fields ts → Tuple ts → Prop
  | _, .nil, _ => True
  | _, .cons name _ fallback rest, (a, as) =>
    (name ∈ present ∨ fallback = some a) ∧ rest.Omits present as

/-- The members without a fallback. -/
def required : {ts : List Type} → Fields ts → List String
  | _, .nil => []
  | _, .cons name _ fallback rest =>
    if fallback.isSome then rest.required else name :: rest.required

theorem complete_told {fields : Fields ts} (hnodup : fields.names.Nodup) {as : Tuple ts}
    (h : fields.Faithful as) {ms : List Named}
    (hms : ∀ m ∈ ms, m.name ∈ fields.names → m.entry ∈ fields.entries as)
    (homits : fields.Omits (ms.map Named.name) as) {slots : Slots ts}
    (hslots : fields.Filled ms slots) : fields.complete slots = .ok as := by
  induction fields with
  | nil => rfl
  | cons name format fallback rest ih =>
    obtain ⟨a, as⟩ := as
    obtain ⟨slot, slots⟩ := slots
    rw [names, List.nodup_cons] at hnodup
    have hrest : rest.complete slots = .ok as := by
      refine ih hnodup.2 h.2 (fun m hm hname => ?_) homits.2 hslots.2
      rcases List.mem_cons.1 (hms m hm (List.mem_cons_of_mem name hname)) with hentry | hentry
      · have heq : m.name = name := congrArg Prod.fst hentry
        exact absurd (heq ▸ hname) hnodup.1
      · exact hentry
    have hslot : slot.or fallback = some a := by
      cases slot with
      | none =>
        rcases homits.1 with hname | hfallback
        · obtain ⟨m, hm, heq⟩ := List.mem_map.1 hname
          exact absurd heq (hslots.1 m hm)
        · rw [Option.none_or, hfallback]
      | some b =>
        obtain ⟨hfaithful, m, hm, hentry⟩ := hslots.1
        have hname : m.name = name := congrArg Prod.fst hentry
        rcases List.mem_cons.1 (hms m hm (hname ▸ List.mem_cons_self)) with hown | hother
        · have hwritten : format.write .compact b = format.write .compact a :=
            congrArg Prod.snd (hentry.symm.trans hown)
          rw [Option.some_or, hfaithful.eq_of_write_eq h.1 hwritten]
        · exact absurd (hname ▸ mem_names_of_mem_entries hother) hnodup.1
    simp only [complete, hslot, hrest, bind, Except.bind]

theorem complete_missing {fields : Fields ts} {ms : List Named} {slots : Slots ts}
    (hslots : fields.Filled ms slots) {name : String} (hname : name ∈ fields.required)
    (hmissing : ∀ m ∈ ms, m.name ≠ name) : ∃ e, fields.complete slots = .error e := by
  induction fields with
  | nil => exact nomatch hname
  | cons own format fallback rest ih =>
    obtain ⟨slot, slots⟩ := slots
    by_cases hrest : name ∈ rest.required
    · obtain ⟨e, he⟩ := ih hslots.2 hrest
      rw [complete, he]
      cases slot.or fallback with
      | none => exact ⟨.mismatched, rfl⟩
      | some a => exact ⟨e, rfl⟩
    · have hown : fallback = none ∧ name = own := by
        cases fallback with
        | none => exact ⟨rfl, (List.mem_cons.1 hname).resolve_right hrest⟩
        | some a => exact absurd hname hrest
      obtain ⟨rfl, rfl⟩ := hown
      cases slot with
      | none => exact ⟨.mismatched, rfl⟩
      | some a =>
        obtain ⟨-, m, hm, hentry⟩ := hslots.1
        exact absurd (congrArg Prod.fst hentry) (hmissing m hm)

/-! ## Objects -/

/-- The object tells the values: its known members are members of the values, none of them twice,
and what it does not tell are fallbacks. -/
structure Tells (fields : Fields ts) (as : Tuple ts) (ms : List Named) : Prop where
  known : ∀ m ∈ ms, m.name ∈ fields.names → m.entry ∈ fields.entries as
  unknown : ∀ m ∈ ms, m.name ∉ fields.names → IsValue m.item.value
  distinct : fields.Distinct ms
  omits : fields.Omits (ms.map Named.name) as

theorem read_told {fields : Fields ts} (hnodup : fields.names.Nodup) {as : Tuple ts}
    (h : fields.Faithful as) {ms : List Named} (htells : fields.Tells as ms) {blanks : Bytes}
    (hblanks : AllBlank blanks) (inner : Blanks) (s : Bytes) :
    fields.read (blanks ++ (Utf8.encode (objectText inner (ms.map Named.toMember)) ++ s)) =
      .ok (as, s) := by
  have hadmits : ∀ m ∈ ms, fields.Admits m := by
    intro m hm
    by_cases hname : m.name ∈ fields.names
    · exact .inr ⟨as, h, htells.known m hm hname⟩
    · exact .inl ⟨hname, htells.unknown m hm hname⟩
  obtain ⟨result, houtcome, hread⟩ := readObject_outcome hnodup inner hadmits s
  rw [encode_objectText, read, skipBlank_append hblanks, skipBlank_cons (by decide)]
  simp only [if_true, hread]
  rcases houtcome with ⟨slots, rfl, hfilled, -⟩ | ⟨e, -, hrepeat⟩
  · simp only [bind, Except.bind, complete_told hnodup h htells.known htells.omits hfilled]
  · exact absurd htells.distinct hrepeat

/-- An object that lacks a member without fallback, or has a known member twice, is not read. -/
theorem read_untold {fields : Fields ts} (hnodup : fields.names.Nodup) {ms : List Named}
    (hadmits : ∀ m ∈ ms, fields.Admits m)
    (huntold : (∃ name ∈ fields.required, name ∉ ms.map Named.name) ∨ ¬ fields.Distinct ms)
    {blanks : Bytes} (hblanks : AllBlank blanks) (inner : Blanks) (s : Bytes) :
    ∃ e, fields.read (blanks ++ (Utf8.encode (objectText inner (ms.map Named.toMember)) ++ s)) =
      .error e := by
  obtain ⟨result, houtcome, hread⟩ := readObject_outcome hnodup inner hadmits s
  rw [encode_objectText, read, skipBlank_append hblanks, skipBlank_cons (by decide)]
  simp only [if_true, hread]
  rcases houtcome with ⟨slots, rfl, hfilled, hdistinct⟩ | ⟨e, rfl, -⟩
  · obtain ⟨name, hname, hmissing⟩ := huntold.resolve_right (not_not_intro hdistinct)
    obtain ⟨e, he⟩ := complete_missing hfilled hname
      fun m hm heq => hmissing (heq ▸ List.mem_map_of_mem hm)
    exact ⟨e, by simp only [bind, Except.bind, he]⟩
  · exact ⟨e, rfl⟩

/-! ## Lists -/

/-- The values from the given place on are fallbacks. -/
def Trails : Nat → {ts : List Type} → Fields ts → Tuple ts → Prop
  | _, _, .nil, _ => True
  | 0, _, .cons _ _ fallback rest, (a, as) => fallback = some a ∧ rest.Trails 0 as
  | n + 1, _, .cons _ _ _ rest, (_, as) => rest.Trails n as

theorem readItems_end {fields : Fields ts} {as : Tuple ts} (h : fields.Trails 0 as)
    (isFirst : Bool) {blanks : Bytes} (hblanks : AllBlank blanks) (s : Bytes) :
    fields.readItems isFirst (blanks ++ closeList :: s) = .ok (as, s) := by
  have hend : skipBlank (blanks ++ closeList :: s) = closeList :: s :=
    (skipBlank_append hblanks _).trans (skipBlank_cons (by decide) s)
  induction fields generalizing blanks with
  | nil =>
    simp only [readItems, hend, if_true]
    rfl
  | cons name format fallback rest ih =>
    obtain ⟨a, as⟩ := as
    have hrest : rest.readItems isFirst (closeList :: s) = .ok (as, s) :=
      ih h.2 (List.forall_mem_nil _) (skipBlank_cons (by decide) s)
    simp only [readItems, hend, if_true, h.1, hrest, bind, Except.bind]

theorem readItems_item {format : Format t} {a : t} (h : format.Faithful a) {i : Item}
    (hi : i.value = format.write .compact a) (rest : Fields ts) {s : Bytes} (hs : IsBoundary s) :
    ∃ b r, skipBlank (Utf8.encode i.text ++ s) = b :: r ∧ b ≠ closeList ∧
      readItems.item format rest (b :: r) =
        (rest.readItems false (Utf8.encode i.after.1 ++ s)).map fun (as, r) => ((a, as), r) := by
  obtain ⟨b, r, hstart, hb, hne⟩ := h.start .compact
  have hread := h.read .compact [] _ (List.forall_mem_nil _) (isBoundary_append i.after.allBlank hs)
  rw [List.nil_append, hstart, List.cons_append] at hread
  refine ⟨b, r ++ (Utf8.encode i.after.1 ++ s), ?_, hne, ?_⟩
  · rw [encode_item, hi, hstart, skipBlank_append i.before.allBlank, List.cons_append, skipBlank_cons hb]
  · rw [readItems.item, hread]
    simp only [bind, Except.bind]
    cases rest.readItems false (Utf8.encode i.after.1 ++ s) <;> rfl

theorem readItems_told {fields : Fields ts} {as : Tuple ts} (h : fields.Faithful as) (s : Bytes) :
    ∀ (n : Nat) (items : List Item) (blanks : Bytes), fields.Trails n as →
      items.map Item.value = ((fields.entries as).map Prod.snd).take n → AllBlank blanks →
      fields.readItems false (blanks ++
        (Utf8.encode (behindCommas (items.map Item.text)) ++ closeList :: s)) = .ok (as, s) := by
  induction fields with
  | nil =>
    intro n items blanks htrails hitems hblanks
    obtain rfl : items = [] := by simpa [entries] using hitems
    exact readItems_end (show Fields.nil.Trails 0 as from trivial) false hblanks s
  | cons name format fallback rest ih =>
    intro n items blanks htrails hitems hblanks
    obtain ⟨a, as⟩ := as
    cases n with
    | zero =>
      obtain rfl : items = [] := by simpa using hitems
      exact readItems_end htrails false hblanks s
    | succ n =>
      obtain ⟨i, items, rfl, hi, hitems⟩ := List.map_eq_cons_iff.1 hitems
      have hboundary : IsBoundary (Utf8.encode (behindCommas (items.map Item.text)) ++
          closeList :: s) := isBoundary_furtherItems .compact _ (isBoundary_cons s (.inr (.inl rfl)))
      obtain ⟨b, r, hstart, hne, hitem⟩ := readItems_item h.1 hi rest hboundary
      have hcomma : skipBlank (blanks ++ (Utf8.encode (behindCommas ((i :: items).map Item.text)) ++
          closeList :: s)) = comma :: (Utf8.encode i.text ++
            (Utf8.encode (behindCommas (items.map Item.text)) ++ closeList :: s)) := by
        rw [skipBlank_append hblanks, List.map_cons, encode_behindCommas_cons,
          skipBlank_cons (by decide)]
      simp only [readItems, hcomma, if_neg (show comma ≠ closeList by decide),
        Bool.false_eq_true, if_false, if_true, hstart, if_neg hne, hitem,
        ih h.2 n items _ htrails hitems i.after.allBlank]
      rfl

/-- A list of the first values, if the other values are fallbacks. -/
theorem read_listed {fields : Fields ts} {as : Tuple ts} (h : fields.Faithful as) {n : Nat}
    (htrails : fields.Trails n as) {items : List Item}
    (hitems : items.map Item.value = ((fields.entries as).map Prod.snd).take n) {blanks : Bytes}
    (hblanks : AllBlank blanks) (inner : Blanks) (s : Bytes) :
    fields.read (blanks ++ (Utf8.encode (listText inner items) ++ s)) = .ok (as, s) := by
  rw [encode_listText, read, skipBlank_append hblanks, skipBlank_cons (by decide)]
  simp only [if_neg (show openList ≠ openObject by decide), if_true]
  cases fields with
  | nil =>
    obtain rfl : items = [] := by simpa [entries] using hitems
    exact readItems_end (show Fields.nil.Trails 0 as from trivial) true inner.allBlank s
  | cons name format fallback rest =>
    obtain ⟨a, as⟩ := as
    cases n with
    | zero =>
      obtain rfl : items = [] := by simpa using hitems
      exact readItems_end htrails true inner.allBlank s
    | succ n =>
      obtain ⟨i, items, rfl, hi, hitems⟩ := List.map_eq_cons_iff.1 hitems
      have hboundary : IsBoundary (Utf8.encode (behindCommas (items.map Item.text)) ++
          closeList :: s) := isBoundary_furtherItems .compact _ (isBoundary_cons s (.inr (.inl rfl)))
      obtain ⟨b, r, hstart, hne, hitem⟩ := readItems_item h.1 hi rest hboundary
      rw [List.map_cons, divided_cons, Utf8.encode_append, List.append_assoc]
      simp only [readItems, skipBlank_append inner.allBlank, hstart, if_neg hne, if_true, hitem,
        readItems_told h.2 s n items _ htrails hitems i.after.allBlank]
      rfl

end Fields

end FirmwareJobs.Json
