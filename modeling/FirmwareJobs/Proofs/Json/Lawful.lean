import FirmwareJobs.Proofs.Json.Lists
import FirmwareJobs.Proofs.Json.Whole

/-!
# Formats that read back what they have read

Many texts denote the same value, and each is read leniently. A format is lawful if it is faithful
to every value that it has read from any text. Objects inherit this from their members, whether
these were read by name, taken from a list or filled in as fallbacks.
-/

namespace FirmwareJobs.Json

open Text

theorem bind_eq_ok {α β : Type} {x : Except Failure α} {f : α → Except Failure β} {b : β}
    (h : (x >>= f) = .ok b) : ∃ a, x = .ok a ∧ f a = .ok b := by
  cases x with
  | error e => cases h
  | ok a => exact ⟨a, rfl, h⟩

theorem map_eq_ok {α β : Type} {x : Except Failure α} {f : α → β} {b : β}
    (h : x.map f = .ok b) : ∃ a, x = .ok a ∧ f a = b := by
  cases x with
  | error e => cases h
  | ok a => exact ⟨a, rfl, Except.ok.inj h⟩

namespace Format

variable {α β : Type} {f : Format α}

/-- The format is faithful to whatever it reads. -/
def Lawful (f : Format α) : Prop := ∀ s a r, f.read s = .ok (a, r) → f.Faithful a

theorem lawful_of_faithful (h : ∀ a, f.Faithful a) : f.Lawful := fun _ a _ _ => h a

theorem le_of_readWhole {low high n : Int} {s r : Bytes} (h : readWhole low high s = .ok (n, r)) :
    low ≤ n ∧ n ≤ high := by
  have hchecked (m : Int) (rest : Bytes)
      (hm : (if low ≤ m ∧ m ≤ high then .ok (m, rest) else .error .mismatched :
        Except Failure (Int × Bytes)) = .ok (n, r)) : low ≤ n ∧ n ≤ high := by
    split at hm
    · next hrange =>
      cases hm
      exact hrange
    · cases hm
  unfold readWhole at h
  split at h
  · dsimp only at h
    split_ifs at h
    -- With a sign and without, the number is checked alike.
    all_goals
      obtain ⟨⟨number, rest⟩, -, h⟩ := bind_eq_ok h
      cases number with
      | natural m => exact hchecked _ _ h
      | negative m => exact hchecked _ _ h
      | fraction => cases h
  · cases h

theorem lawful_natural {bits : Nat} (hbits : bits ≤ 64) : (natural bits).Lawful := by
  intro s n r h
  obtain ⟨⟨m, rest⟩, hread, hm⟩ := map_eq_ok h
  obtain ⟨hlow, hhigh⟩ := le_of_readWhole hread
  cases hm
  refine faithful_natural hbits ?_
  have hpow : (0 : Int) ≤ m ∧ m ≤ (Nat.pow 2 bits : Nat) - 1 := ⟨hlow, hhigh⟩
  omega

theorem lawful_view {forth : α → β} {back : β → α} (h : f.Lawful)
    (hback : ∀ a, back (forth a) = a) : (f.view forth back).Lawful := by
  intro s b r hread
  obtain ⟨⟨a, rest⟩, hread, hb⟩ := map_eq_ok hread
  cases hb
  exact faithful_view (by rw [hback]; exact h s a r hread) (by rw [hback])

end Format

/-! ## Objects -/

namespace Fields

/-- Every member has a lawful format, which is faithful to its fallback. -/
def Lawful : {ts : List Type} → Fields ts → Prop
  | _, .nil => True
  | _, .cons _ format fallback rest =>
    format.Lawful ∧ (∀ a ∈ fallback, format.Faithful a) ∧ rest.Lawful

/-- The members read so far have formats that are faithful to their values. -/
def FaithfulSlots : {ts : List Type} → Fields ts → Slots ts → Prop
  | _, .nil, _ => True
  | _, .cons _ format _ rest, (slot, slots) =>
    (∀ a ∈ slot, format.Faithful a) ∧ rest.FaithfulSlots slots

variable {ts : List Type} {fields : Fields ts}

theorem faithfulSlots_blank (fields : Fields ts) : fields.FaithfulSlots fields.blank := by
  induction fields with
  | nil => trivial
  | cons name format fallback rest ih => exact ⟨by simp, ih⟩

theorem faithfulSlots_fill {slots filled : Slots ts} {name : String} {s r : Bytes}
    (h : fields.Lawful) (hslots : fields.FaithfulSlots slots)
    (hfill : fields.fill name s slots = some (.ok (filled, r))) : fields.FaithfulSlots filled := by
  induction fields with
  | nil => cases hfill
  | cons own format fallback rest ih =>
    obtain ⟨slot, slots⟩ := slots
    rw [fill] at hfill
    split at hfill
    · have hread := Option.some.inj hfill
      split at hread
      · cases hread
      · obtain ⟨t, -, hread⟩ := bind_eq_ok hread
        obtain ⟨⟨a, u⟩, hvalue, hread⟩ := bind_eq_ok hread
        cases hread
        refine ⟨fun b hb => ?_, hslots.2⟩
        obtain rfl : a = b := by simpa using hb
        exact h.1 t a r hvalue
    · obtain ⟨result, hrest, hmap⟩ := Option.map_eq_some_iff.mp hfill
      obtain ⟨⟨others, u⟩, rfl, hpair⟩ := map_eq_ok hmap
      cases hpair
      exact ⟨hslots.1, ih h.2.2 hslots.2 hrest⟩

theorem faithfulSlots_readMember {slots filled : Slots ts} {s r : Bytes} (h : fields.Lawful)
    (hslots : fields.FaithfulSlots slots) (hread : fields.readMember slots s = .ok (filled, r)) :
    fields.FaithfulSlots filled := by
  obtain ⟨⟨name, t⟩, -, hread⟩ := bind_eq_ok hread
  simp only at hread
  split at hread
  · next result hfill =>
    subst hread
    exact faithfulSlots_fill h hslots hfill
  · obtain ⟨t', -, hread⟩ := bind_eq_ok hread
    obtain ⟨t'', -, hread⟩ := bind_eq_ok hread
    cases hread
    exact hslots

theorem faithfulSlots_readMembers (h : fields.Lawful) : ∀ (fuel : Nat) {slots filled : Slots ts}
    {s r : Bytes}, fields.FaithfulSlots slots →
      fields.readMembers fuel slots s = .ok (filled, r) → fields.FaithfulSlots filled := by
  intro fuel
  induction fuel with
  | zero =>
    intro slots filled s r _ hread
    cases hread
  | succ fuel ih =>
    intro slots filled s r hslots hread
    rw [readMembers] at hread
    split at hread
    · cases hread
    · split at hread
      · cases hread
        exact hslots
      · split at hread
        · split at hread
          · cases hread
          · split at hread
            · obtain ⟨⟨next, rest⟩, hmember, hread⟩ := bind_eq_ok hread
              exact ih (faithfulSlots_readMember h hslots hmember) hread
            · cases hread
        · cases hread

theorem faithful_complete {slots : Slots ts} {as : Tuple ts} (h : fields.Lawful)
    (hslots : fields.FaithfulSlots slots) (hcomplete : fields.complete slots = .ok as) :
    fields.Faithful as := by
  induction fields with
  | nil => trivial
  | cons name format fallback rest ih =>
    obtain ⟨slot, slots⟩ := slots
    rw [complete] at hcomplete
    split at hcomplete
    · next a ha =>
      obtain ⟨others, hrest, hcomplete⟩ := bind_eq_ok hcomplete
      cases hcomplete
      refine ⟨?_, ih h.2.2 hslots.2 hrest⟩
      rcases Option.or_eq_some_iff.mp ha with hslot | ⟨-, hfallback⟩
      · exact hslots.1 a hslot
      · exact h.2.1 a hfallback
    · cases hcomplete

theorem faithful_readObject {as : Tuple ts} {s r : Bytes} (h : fields.Lawful)
    (hread : fields.readObject s = .ok (as, r)) : fields.Faithful as := by
  have hcompleted {slots : Slots ts} {t : Bytes} (hslots : fields.FaithfulSlots slots)
      (hend : (do .ok (← fields.complete slots, t)) = .ok (as, r)) : fields.Faithful as := by
    obtain ⟨values, hcomplete, hend⟩ := bind_eq_ok hend
    cases hend
    exact faithful_complete h hslots hcomplete
  rw [readObject] at hread
  split at hread
  · cases hread
  · split at hread
    · exact hcompleted (faithfulSlots_blank fields) hread
    · split at hread
      · obtain ⟨⟨first, rest⟩, hmember, hread⟩ := bind_eq_ok hread
        obtain ⟨⟨slots, t⟩, hmembers, hread⟩ := bind_eq_ok hread
        have hfirst := faithfulSlots_readMember h (faithfulSlots_blank fields) hmember
        exact hcompleted (faithfulSlots_readMembers h _ hfirst hmembers) hread
      · cases hread

theorem faithful_readItems {as : Tuple ts} {isFirst : Bool} {s r : Bytes} (h : fields.Lawful)
    (hread : fields.readItems isFirst s = .ok (as, r)) : fields.Faithful as := by
  induction fields generalizing isFirst s r with
  | nil => trivial
  | cons name format fallback rest ih =>
    have hitem {u : Bytes} (hitem : readItems.item format rest u = .ok (as, r)) :
        Faithful (.cons name format fallback rest) as := by
      rw [readItems.item] at hitem
      obtain ⟨⟨a, t⟩, hvalue, hitem⟩ := bind_eq_ok hitem
      obtain ⟨⟨others, t'⟩, hrest, hitem⟩ := bind_eq_ok hitem
      cases hitem
      exact ⟨h.1 u a t hvalue, ih h.2.2 hrest⟩
    rw [readItems] at hread
    split at hread
    · cases hread
    · split at hread
      · split at hread
        · next a =>
          obtain ⟨⟨others, t⟩, hrest, hread⟩ := bind_eq_ok hread
          cases hread
          exact ⟨h.2.1 a rfl, ih h.2.2 hrest⟩
        · cases hread
      · split at hread
        · exact hitem hread
        · split at hread
          · split at hread
            · cases hread
            · split at hread
              · cases hread
              · exact hitem hread
          · cases hread

end Fields

theorem Format.lawful_object {ts : List Type} {fields : Fields ts} (hnodup : fields.names.Nodup)
    (h : fields.Lawful) : (Format.object fields).Lawful := by
  intro s as r hread
  refine faithful_object hnodup ?_
  change fields.read s = _ at hread
  rw [Fields.read] at hread
  split at hread
  · split at hread
    · exact Fields.faithful_readObject h hread
    · split at hread
      · exact Fields.faithful_readItems h hread
      · cases hread
  · cases hread

/-! ## Whole texts -/

namespace Format

variable {α : Type} {f : Format α}

/-- The values with `IsValue` are read back from the text in which they are written. Any other text
that is read is the spelling of a value whose own text reads as the same value, and that text is
written again as it is. -/
structure RoundTrips (f : Format α) (IsValue : α → Prop) : Prop where
  decode_encode : ∀ a, IsValue a → f.decode (Utf8.ofString (f.encode a)) = .ok a
  decode_rewritten : ∀ s a, f.decode s = .ok a → f.decode (Utf8.ofString (f.encode a)) = .ok a
  encode_rewritten : ∀ s a, f.decode s = .ok a →
    (f.decode (Utf8.ofString (f.encode a))).map f.encode = .ok (f.encode a)

theorem Faithful.decode_encode {a : α} (h : f.Faithful a) :
    f.decode (Utf8.ofString (f.encode a)) = .ok a := by
  have hdecode := decode_written h .compact (List.forall_mem_nil _ : AllBlank [])
  rwa [Utf8.ofString, encode, String.toList_ofList, ← List.append_nil (Utf8.encode _)]

theorem Lawful.roundTrips {IsValue : α → Prop} (h : f.Lawful)
    (hfaithful : ∀ a, IsValue a → f.Faithful a) : f.RoundTrips IsValue := by
  have hrewritten (s : Bytes) (a : α) (hs : f.decode s = .ok a) :
      f.decode (Utf8.ofString (f.encode a)) = .ok a := by
    obtain ⟨⟨b, r⟩, hread, hend⟩ := bind_eq_ok hs
    simp only at hend
    split at hend
    · cases hend
      exact (h s a r hread).decode_encode
    · cases hend
  refine ⟨fun a ha => (hfaithful a ha).decode_encode, hrewritten, fun s a hs => ?_⟩
  rw [hrewritten s a hs]
  rfl

end Format

end FirmwareJobs.Json
