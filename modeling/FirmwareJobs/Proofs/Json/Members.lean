import FirmwareJobs.Json.Object
import FirmwareJobs.Proofs.Json.Faithful

/-!
# Objects that read what they write

Members are written in the order of the declaration, each with a name of its own. While they are
read back in that order, the members read so far are filled in and the others are still missing.
-/

namespace FirmwareJobs.Json

open Text Format

/-! ## Layout -/

theorem allBlank_lineBreak (layout : Layout) : AllBlank (Utf8.encode layout.lineBreak) := by
  have hspace : ∀ n, Utf8.encode (List.replicate n ' ') = List.replicate n 0x20 := by
    intro n
    induction n with
    | zero => rfl
    | succ n ih =>
      rw [List.replicate_succ, List.replicate_succ, ← ih]
      rfl
  cases layout with
  | compact => exact fun b hb => nomatch hb
  | indented d =>
    have hbytes : Utf8.encode (Layout.lineBreak (.indented d)) =
        0x0A :: Utf8.encode (List.replicate (2 * d) ' ') := rfl
    rw [hbytes, hspace]
    intro b hb
    rcases List.mem_cons.1 hb with rfl | hb
    · rfl
    · rw [List.eq_of_mem_replicate hb]
      rfl

theorem encode_afterName (layout : Layout) : ∃ blanks, AllBlank blanks ∧
    Utf8.encode layout.afterName = colon :: blanks := by
  cases layout with
  | compact => exact ⟨[], (fun b hb => nomatch hb), rfl⟩
  | indented d =>
    refine ⟨[0x20], fun b hb => ?_, rfl⟩
    obtain rfl := List.mem_singleton.1 hb
    rfl

/-- The items after the first, each behind a comma. -/
def furtherItems (layout : Layout) (items : List (List Char)) : List Char :=
  items.flatMap fun x => ',' :: (layout.lineBreak ++ x)

theorem writeItems_cons (layout : Layout) (x : List Char) (items : List (List Char)) :
    writeItems layout (x :: items) = layout.lineBreak ++ x ++ furtherItems layout items := by
  induction items generalizing x with
  | nil => simp [writeItems, furtherItems]
  | cons y items ih => simp [writeItems, ih, furtherItems]

namespace Fields

def names : {ts : List Type} → Fields ts → List String
  | _, .nil => []
  | _, .cons name _ _ rest => name :: rest.names

/-- All values are there. -/
def filled : {ts : List Type} → Tuple ts → Slots ts
  | [], _ => ()
  | _ :: _, (a, as) => (some a, filled as)

/-- The slots of a first member and of the others. -/
def slotsOf {t : Type} {ts : List Type} (slot : Option t) (slots : Slots ts) : Slots (t :: ts) :=
  (slot, slots)

/-- Each member has a format that is faithful to its value. -/
def Faithful : {ts : List Type} → Fields ts → Tuple ts → Prop
  | _, .nil, _ => True
  | _, .cons _ format _ rest, (a, as) => format.Faithful a ∧ rest.Faithful as

theorem complete_filled {ts : List Type} (fields : Fields ts) (as : Tuple ts) :
    fields.complete (filled as) = .ok as := by
  induction fields with
  | nil => rfl
  | cons name format fallback rest ih =>
    obtain ⟨a, as⟩ := as
    simp [complete, filled, ih, bind, Except.bind]

/-! ## The members that are still missing -/

variable {t : Type} {ts us : List Type}

/-- The members of `rest` are among those of `fields`: to fill one of them is to fill it in `rest`,
in the place that `context` gives to the slots of `rest`. -/
def Embeds (fields : Fields ts) (rest : Fields us) (context : Slots us → Slots ts) : Prop :=
  ∀ name ∈ rest.names, ∀ s slots, fields.fill name s (context slots) =
    (rest.fill name s slots).map (·.map fun (filled, r) => (context filled, r))

theorem embeds_self (fields : Fields ts) : fields.Embeds fields id := by
  intro name _ s slots
  have hid : (fun result : Except Failure (Slots ts × Bytes) =>
      result.map fun (filled, r) => (id filled, r)) = id := by
    funext result
    cases result <;> rfl
  rw [hid, Option.map_id]
  rfl

theorem Embeds.tail {fields : Fields ts} {name : String} {format : Format t} {fallback : Option t}
    {rest : Fields us} {context : Slots (t :: us) → Slots ts}
    (h : fields.Embeds (.cons name format fallback rest) context) (hnew : name ∉ rest.names)
    (slot : Option t) : fields.Embeds rest fun slots => context (slotsOf slot slots) := by
  intro other hother s slots
  have hne : other ≠ name := fun he => hnew (he ▸ hother)
  rw [h other (List.mem_cons_of_mem name hother) s (slotsOf slot slots), slotsOf, fill, if_neg hne,
    Option.map_map]
  refine congrArg (Option.map · (fill other s rest slots)) ?_
  funext result
  cases result <;> rfl

/-- A missing member is filled with the value that was written. -/
theorem fill_written {format : Format t} {a : t} (h : format.Faithful a) (layout : Layout)
    {s : Bytes} (hs : IsBoundary s) (name : String) (fallback : Option t) (rest : Fields us)
    (slots : Slots us) :
    fill name (Utf8.encode (layout.afterName ++ format.write layout a) ++ s)
      (.cons name format fallback rest) (slotsOf none slots) =
      some (.ok (slotsOf (some a) slots, s)) := by
  obtain ⟨blanks, hblanks, hcolon⟩ := encode_afterName layout
  have hread := h.read layout blanks s hblanks hs
  have hskip := skipBlank_cons (b := colon) (by decide)
    (blanks ++ (Utf8.encode (format.write layout a) ++ s))
  rw [Utf8.encode_append, hcolon, List.append_assoc, List.cons_append, slotsOf, fill, if_pos rfl]
  simp [hskip, expect, hread, bind, Except.bind, slotsOf]

theorem readMember_written {fields : Fields ts} {name : String} {format : Format t}
    {fallback : Option t} {rest : Fields us} {context : Slots (t :: us) → Slots ts}
    (hembeds : fields.Embeds (.cons name format fallback rest) context) {a : t}
    (h : format.Faithful a) (layout : Layout) {s : Bytes} (hs : IsBoundary s) (slots : Slots us) :
    ∃ r, Utf8.encode (writeString name.toList ++ layout.afterName ++ format.write layout a) ++ s =
      quote :: r ∧ fields.readMember (context (slotsOf none slots)) r =
        .ok (context (slotsOf (some a) slots), s) := by
  rw [List.append_assoc, Utf8.encode_append, List.append_assoc, encode_writeString]
  refine ⟨_, rfl, ?_⟩
  rw [readMember, stringRest_written]
  simp only [bind, Except.bind, String.ofList_toList]
  rw [hembeds name List.mem_cons_self, fill_written h layout hs]
  rfl

/-! ## All members -/

theorem readMembers_written {fields : Fields ts} (layout : Layout) {blanks : Bytes}
    (hblanks : AllBlank blanks) (s : Bytes) (rest : Fields us) (as : Tuple us) :
    ∀ (context : Slots us → Slots ts) (fuel : Nat), fields.Embeds rest context →
      rest.names.Nodup → rest.Faithful as → rest.names.length < fuel →
      fields.readMembers fuel (context rest.blank)
        (Utf8.encode (furtherItems layout (rest.writeMembers layout as)) ++
          (blanks ++ closeObject :: s)) = .ok (context (filled as), s) := by
  have hend : IsBoundary (blanks ++ closeObject :: s) :=
    isBoundary_append hblanks (isBoundary_cons s (.inr (.inr (.inl rfl))))
  induction rest with
  | nil =>
    intro context fuel _ _ _ hfuel
    cases fuel with
    | zero => exact absurd hfuel (Nat.not_lt_zero _)
    | succ fuel =>
      rw [writeMembers, furtherItems, List.flatMap_nil, Utf8.encode_nil, List.nil_append,
        readMembers, skipBlank_append hblanks, skipBlank_cons (by decide)]
      rfl
  | cons name format fallback rest ih =>
    intro context fuel hembeds hnodup hfaithful hfuel
    obtain ⟨a, as⟩ := as
    rw [names, List.nodup_cons] at hnodup
    cases fuel with
    | zero => exact absurd hfuel (Nat.not_lt_zero _)
    | succ fuel =>
      set further := Utf8.encode (furtherItems layout (rest.writeMembers layout as)) ++
        (blanks ++ closeObject :: s) with hfurther
      have hboundary : IsBoundary further := by
        rw [hfurther]
        cases rest.writeMembers layout as with
        | nil => exact hend
        | cons x items => exact isBoundary_cons _ (.inl rfl)
      obtain ⟨r, hbytes, hread⟩ :=
        readMember_written hembeds hfaithful.1 layout hboundary rest.blank
      have hitems : Utf8.encode (furtherItems layout
          (writeMembers layout (.cons name format fallback rest) (a, as))) ++
            (blanks ++ closeObject :: s) =
          comma :: (Utf8.encode layout.lineBreak ++ quote :: r) := by
        rw [← hbytes, hfurther, writeMembers, furtherItems, List.flatMap_cons, Utf8.encode_append,
          ← furtherItems, List.append_assoc, ← List.append_assoc (Utf8.encode layout.lineBreak),
          ← Utf8.encode_append]
        rfl
      have hrest := ih as (fun slots => context (slotsOf (some a) slots)) fuel
        (hembeds.tail hnodup.1 (some a)) hnodup.2 hfaithful.2 (Nat.lt_of_succ_lt_succ hfuel)
      rw [hitems, readMembers, skipBlank_cons (by decide)]
      simp only [if_neg (show comma ≠ closeObject by decide), if_true,
        skipBlank_append (allBlank_lineBreak layout), skipBlank_cons (b := quote) (by decide)]
      change (fields.readMember (context (slotsOf none rest.blank)) r >>= _) = _
      rw [hread]
      exact hrest

theorem length_writeMembers (layout : Layout) (fields : Fields ts) (as : Tuple ts) :
    (fields.writeMembers layout as).length = fields.names.length := by
  induction fields with
  | nil => rfl
  | cons name format fallback rest ih => exact congrArg Nat.succ (ih as.2)

theorem length_le_length_furtherItems (layout : Layout) (items : List (List Char)) :
    items.length ≤ (Utf8.encode (furtherItems layout items)).length := by
  induction items with
  | nil => exact Nat.zero_le _
  | cons x items ih =>
    have hbytes : Utf8.encode (furtherItems layout (x :: items)) =
        comma :: (Utf8.encode (layout.lineBreak ++ x) ++
          Utf8.encode (furtherItems layout items)) := by
      rw [furtherItems, List.flatMap_cons, Utf8.encode_append]
      rfl
    rw [hbytes, List.length_cons, List.length_cons, List.length_append]
    omega

theorem readObject_written {fields : Fields ts} (hnodup : fields.names.Nodup) {as : Tuple ts}
    (h : fields.Faithful as) (layout : Layout) (s : Bytes) :
    ∃ r, Utf8.encode ((Format.object fields).write layout as) ++ s = openObject :: r ∧
      fields.readObject r = .ok (as, s) := by
  cases fields with
  | nil => exact ⟨closeObject :: s, rfl, rfl⟩
  | cons name format fallback rest =>
    obtain ⟨a, as⟩ := as
    rw [names, List.nodup_cons] at hnodup
    set further := Utf8.encode (furtherItems layout.deeper (rest.writeMembers layout.deeper as)) ++
      (Utf8.encode layout.lineBreak ++ closeObject :: s) with hfurther
    have hboundary : IsBoundary further := by
      rw [hfurther]
      cases rest.writeMembers layout.deeper as with
      | nil =>
        rw [furtherItems, List.flatMap_nil, Utf8.encode_nil, List.nil_append]
        exact isBoundary_append (allBlank_lineBreak layout)
          (isBoundary_cons s (.inr (.inr (.inl rfl))))
      | cons x items => exact isBoundary_cons _ (.inl rfl)
    obtain ⟨r, hbytes, hread⟩ := readMember_written (embeds_self (.cons name format fallback rest))
      h.1 layout.deeper hboundary rest.blank
    have hfuel : rest.names.length < further.length + 1 := by
      have := length_le_length_furtherItems layout.deeper (rest.writeMembers layout.deeper as)
      rw [length_writeMembers] at this
      rw [hfurther, List.length_append]
      omega
    have hmembers := readMembers_written layout.deeper (allBlank_lineBreak layout) s rest as
      (slotsOf (some a)) (further.length + 1)
      ((embeds_self (.cons name format fallback rest)).tail hnodup.1 (some a)) hnodup.2 h.2 hfuel
    refine ⟨Utf8.encode layout.deeper.lineBreak ++ quote :: r, ?_, ?_⟩
    · have hopen : ∀ cs, Utf8.encode ('\x7b' :: cs) = openObject :: Utf8.encode cs := fun _ => rfl
      have hclose : Utf8.encode ['\x7d'] = [closeObject] := rfl
      have hwrite : (Format.object (.cons name format fallback rest)).write layout (a, as) =
          '\x7b' :: (layout.deeper.lineBreak ++
            (writeString name.toList ++ layout.deeper.afterName ++
              format.write layout.deeper a) ++
            furtherItems layout.deeper (rest.writeMembers layout.deeper as) ++
              layout.lineBreak ++ ['\x7d']) := by
        change writeBracketed layout '\x7b' '\x7d' (writeMembers layout.deeper
          (.cons name format fallback rest) (a, as)) = _
        rw [writeMembers, writeBracketed, List.isEmpty_cons, if_neg Bool.false_ne_true,
          writeItems_cons]
        rfl
      rw [← hbytes, hfurther, hwrite, hopen]
      simp only [Utf8.encode_append, hclose, List.append_assoc, List.cons_append, List.nil_append]
    · rw [readObject, skipBlank_append (allBlank_lineBreak _), skipBlank_cons (by decide)]
      simp only [if_neg (show quote ≠ closeObject by decide), if_true]
      rw [id, id] at hread
      have hcomplete := complete_filled (.cons name format fallback rest) (a, as)
      change (do
        let (slots, r) ← do
          let (slots, rest') ← readMember (.cons name format fallback rest)
            (slotsOf none rest.blank) r
          readMembers (.cons name format fallback rest) (rest'.length + 1) slots rest'
        .ok (← complete (.cons name format fallback rest) slots, r)) = _
      simp only [hread, bind, Except.bind]
      rw [hmembers]
      change (complete (.cons name format fallback rest) (filled (a, as))).bind _ = _
      rw [hcomplete]
      rfl

end Fields

theorem Format.faithful_object {ts : List Type} {fields : Fields ts} (hnodup : fields.names.Nodup)
    {as : Tuple ts} (h : fields.Faithful as) : (Format.object fields).Faithful as where
  read layout blanks s hblanks _ := by
    obtain ⟨r, hbytes, hread⟩ := Fields.readObject_written hnodup h layout s
    rw [hbytes]
    change fields.read _ = _
    rw [Fields.read, skipBlank_append hblanks, skipBlank_cons (by decide)]
    simpa using hread
  start layout := by
    obtain ⟨r, hbytes, -⟩ := Fields.readObject_written hnodup h layout []
    rw [List.append_nil] at hbytes
    exact ⟨openObject, r, hbytes, by decide, by decide⟩

end FirmwareJobs.Json
