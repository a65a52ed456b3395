import FirmwareJobs.Proofs.Engine.RecordFile
import FirmwareJobs.Proofs.Json.Arrangement

/-!
# Records of other writers

An older writer leaves out members that did not exist yet, a newer one adds members, and any writer
may choose the order and the blanks. A record is loaded from all of their texts, and from the list
of its values; a text that lacks a member without fallback or has a known member twice is not
loaded at all.
-/

namespace FirmwareJobs

open Json Text

namespace Record

/-- The members of the record as they are written. -/
def entries (r : Record) : List (String × List Char) := fields.entries r.values

/-- The member has the value that stands for a missing one. -/
def IsUnset (r : Record) : String → Prop
  | "started_at" => r.startedAt = none
  | "ended_at" => r.endedAt = none
  | "exit_code" => r.exitCode = none
  | "error_summary" => r.errorSummary = ""
  | "device" => r.device = ""
  | "clean" => r.clean = false
  | _ => False

/-- The object tells the record: its known members are, in some order, members of the record; its
other members have any values; and the members that it leaves out are unset. -/
structure IsToldBy (r : Record) (ms : List Named) : Prop where
  known : ((ms.filter (·.name ∈ fields.names)).map Named.entry).Subperm r.entries
  unknown : ∀ m ∈ ms, m.name ∉ fields.names → IsValue m.item.value
  unset : ∀ name ∈ fields.names, name ∉ ms.map Named.name → r.IsUnset name

theorem IsToldBy.omits {r : Record} {ms : List Named} (h : r.IsToldBy ms) :
    fields.Omits (ms.map Named.name) r.values := by
  have hmember : ∀ name ∈ fields.names, name ∈ ms.map Named.name ∨ r.IsUnset name :=
    fun name hname => or_iff_not_imp_left.2 (h.unset name hname)
  refine ⟨?_, ?_, ?_, ?_, ?_, ?_, ?_, ?_, ?_, ?_, ?_, trivial⟩
  · exact (hmember "id" (by decide)).imp_right False.elim
  · exact (hmember "state" (by decide)).imp_right False.elim
  · exact (hmember "created_at" (by decide)).imp_right False.elim
  · exact (hmember "started_at" (by decide)).imp_right fun h => congrArg some (Eq.symm h)
  · exact (hmember "ended_at" (by decide)).imp_right fun h => congrArg some (Eq.symm h)
  · exact (hmember "exit_code" (by decide)).imp_right fun h => congrArg some (Eq.symm h)
  · exact (hmember "error_summary" (by decide)).imp_right fun h => congrArg some (Eq.symm h)
  · exact (hmember "yaml" (by decide)).imp_right False.elim
  · exact (hmember "action" (by decide)).imp_right False.elim
  · exact (hmember "device" (by decide)).imp_right fun h => congrArg some (Eq.symm h)
  · exact (hmember "clean" (by decide)).imp_right fun h => congrArg some (Eq.symm h)

theorem IsToldBy.tells {r : Record} {ms : List Named} (h : r.IsToldBy ms) :
    fields.Tells r.values ms where
  known _ hm hname := h.known.subset
    (List.mem_map_of_mem (List.mem_filter.2 ⟨hm, decide_eq_true hname⟩))
  unknown := h.unknown
  distinct := Fields.distinct_of_subperm nodup_names h.known
  omits := h.omits

theorem decode_of_read {r : Record} {s rest : Bytes} (h : fields.read s = .ok (r.values, rest))
    (hrest : AllBlank rest) : format.decode s = .ok r := by
  have hread : format.read s = .ok (r, rest) := by
    change (fields.read s).map _ = _
    rw [h]
    rfl
  simp [Format.decode, hread, skipBlank_of_allBlank hrest, bind, Except.bind]

theorem decode_of_error {s : Bytes} {e : Failure} (h : fields.read s = .error e) :
    format.decode s = .error e := by
  have hread : format.read s = .error e := by
    change (fields.read s).map _ = _
    rw [h]
    rfl
  simp [Format.decode, hread, bind, Except.bind]

theorem encode_surrounded (before : Blanks) (text : List Char) (after : Blanks) :
    Utf8.encode (before.1 ++ text ++ after.1) =
      Utf8.encode before.1 ++ (Utf8.encode text ++ Utf8.encode after.1) := by
  rw [Utf8.encode_append, Utf8.encode_append, List.append_assoc]

theorem trails {r : Record} {n : Nat} (hn : 9 ≤ n) (hdevice : n < 10 → r.device = "")
    (hclean : n < 11 → r.clean = false) : fields.Trails n r.values := by
  obtain rfl | rfl | ⟨k, rfl⟩ : n = 9 ∨ n = 10 ∨ ∃ k, n = k + 11 := by
    by_cases h : 11 ≤ n
    · exact .inr (.inr ⟨n - 11, by omega⟩)
    · omega
  · exact ⟨congrArg some (hdevice (by decide)).symm, congrArg some (hclean (by decide)).symm,
      trivial⟩
  · exact ⟨congrArg some (hclean (by decide)).symm, trivial⟩
  · trivial

/-- A record is loaded from every object that tells it and from every list of its values that ends
where the others are unset. An object of readable members that lacks a member without fallback, or
has a known one twice, is not loaded. -/
theorem decode_of_any_writer (r : Record) (before inner after : Blanks) :
    (∀ ms : List Named, r.IsToldBy ms →
      format.decode (Utf8.encode
        (before.1 ++ objectText inner (ms.map Named.toMember) ++ after.1)) = .ok r) ∧
    (∀ (items : List Item) (n : Nat), items.map Item.value = (r.entries.map Prod.snd).take n →
      9 ≤ n → (n < 10 → r.device = "") → (n < 11 → r.clean = false) →
      format.decode (Utf8.encode (before.1 ++ listText inner items ++ after.1)) = .ok r) ∧
    (∀ ms : List Named,
      (∀ m ∈ ms, (m.name ∉ fields.names ∧ IsValue m.item.value) ∨
        ∃ r' : Record, m.entry ∈ r'.entries) →
      ((∃ name ∈ ["id", "state", "created_at", "yaml", "action"], name ∉ ms.map Named.name) ∨
        ∃ name ∈ fields.names, (ms.map Named.name).Duplicate name) →
      ∃ e, format.decode (Utf8.encode
        (before.1 ++ objectText inner (ms.map Named.toMember) ++ after.1)) = .error e) := by
  refine ⟨fun ms htold => ?_, fun items n hitems hn hdevice hclean => ?_, fun ms hms huntold => ?_⟩
  · have hread := Fields.read_told nodup_names r.faithful_fields htold.tells before.allBlank inner
      (Utf8.encode after.1)
    rw [encode_surrounded]
    exact decode_of_read hread after.allBlank
  · have hread := Fields.read_listed r.faithful_fields (trails hn hdevice hclean) hitems
      before.allBlank inner (Utf8.encode after.1)
    rw [encode_surrounded]
    exact decode_of_read hread after.allBlank
  · have hadmits : ∀ m ∈ ms, fields.Admits m := fun m hm => by
      rcases hms m hm with hunknown | ⟨r', hentry⟩
      · exact .inl hunknown
      · exact .inr ⟨r'.values, r'.faithful_fields, hentry⟩
    have hread := huntold.imp_right fun ⟨_, hname, htwice⟩ =>
      Fields.not_distinct_of_duplicate hname htwice
    obtain ⟨e, he⟩ := Fields.read_untold nodup_names hadmits hread before.allBlank inner
      (Utf8.encode after.1)
    rw [encode_surrounded]
    exact ⟨e, decode_of_error he⟩

/-- A record with every member unset that can be. -/
def minimal : Record :=
  ⟨"abc", .failed, ⟨⟨2024, 5, 1⟩, 36000, 0, by decide⟩, none, none, none, "", "node.yaml",
    .compile, "", false⟩

/-- A member without blanks whose name needs no escapes. -/
def plainMember (name : String) (value : List Char)
    (h : name.toList.all (decide <| IsVerbatim ·) = true) : Named where
  before := Blanks.none
  spelling := name.toList
  between := Blanks.none
  item := ⟨Blanks.none, value, Blanks.none⟩
  name := name
  spells := .of_verbatim fun c hc => of_decide_eq_true (List.all_eq_true.1 h c hc)

/-- The other members in an order of their own, with one that is unknown among them. -/
def minimalMembers : List Named :=
  [plainMember "action" (actionFormat.write .compact .compile) (by decide),
    plainMember "revision" (listText Blanks.none [⟨Blanks.none, "null".toList, Blanks.none⟩])
      (by decide),
    plainMember "yaml" (Format.text.write .compact "node.yaml") (by decide),
    plainMember "created_at" (Format.moment.write .compact minimal.createdAt) (by decide),
    plainMember "id" (Format.text.write .compact "abc") (by decide),
    plainMember "state" (stateFormat.write .compact .failed) (by decide)]

def minimalItems : List Item :=
  ((minimal.entries.map Prod.snd).take 9).map fun value => ⟨Blanks.none, value, Blanks.none⟩

theorem minimal_isToldBy : minimal.IsToldBy minimalMembers where
  known := by
    refine List.subperm_of_subset (List.Nodup.of_map Prod.fst (by decide)) fun x hx => ?_
    obtain ⟨m, hm, rfl⟩ := List.mem_map.1 hx
    obtain ⟨hm, hname⟩ := List.mem_filter.1 hm
    simp only [minimalMembers, List.mem_cons, List.not_mem_nil, or_false] at hm
    rcases hm with rfl | rfl | rfl | rfl | rfl | rfl
    · exact List.mem_of_getElem? (i := 8) rfl
    · exact absurd hname (by decide)
    · exact List.mem_of_getElem? (i := 7) rfl
    · exact List.mem_of_getElem? (i := 2) rfl
    · exact List.mem_of_getElem? (i := 0) rfl
    · exact List.mem_of_getElem? (i := 1) rfl
  unknown := by
    intro m hm hname
    simp only [minimalMembers, List.mem_cons, List.not_mem_nil, or_false] at hm
    rcases hm with rfl | rfl | rfl | rfl | rfl | rfl
    · exact absurd (by decide) hname
    · exact .list _ _ (List.forall_mem_singleton.2 .null)
    · exact absurd (by decide) hname
    · exact absurd (by decide) hname
    · exact absurd (by decide) hname
    · exact absurd (by decide) hname
  unset := by
    intro name hname hmissing
    have hnames : minimalMembers.map Named.name =
        ["action", "revision", "yaml", "created_at", "id", "state"] := rfl
    rw [hnames] at hmissing
    simp only [fields, Fields.names, List.mem_cons, List.not_mem_nil, or_false] at hname
    rcases hname with rfl | rfl | rfl | rfl | rfl | rfl | rfl | rfl | rfl | rfl | rfl
    · exact absurd (by decide) hmissing
    · exact absurd (by decide) hmissing
    · exact absurd (by decide) hmissing
    · rfl
    · rfl
    · rfl
    · rfl
    · exact absurd (by decide) hmissing
    · exact absurd (by decide) hmissing
    · rfl
    · rfl

theorem decode_of_any_writer_minimal :
    (minimal.IsToldBy minimalMembers ∧
      format.decode (Utf8.encode (Blanks.none.1 ++
        objectText Blanks.none (minimalMembers.map Named.toMember) ++ Blanks.none.1)) =
          .ok minimal) ∧
    format.decode (Utf8.encode (Blanks.none.1 ++ listText Blanks.none minimalItems ++
      Blanks.none.1)) = .ok minimal ∧
    (∃ e, format.decode (Utf8.encode (Blanks.none.1 ++ objectText Blanks.none
      ((minimalMembers.drop 1).map Named.toMember) ++ Blanks.none.1)) = .error e) ∧
    ∃ e, format.decode (Utf8.encode (Blanks.none.1 ++ objectText Blanks.none
      ((minimalMembers ++ minimalMembers.take 1).map Named.toMember) ++ Blanks.none.1)) =
        .error e := by
  obtain ⟨hobject, hlist, hfail⟩ :=
    decode_of_any_writer minimal Blanks.none Blanks.none Blanks.none
  have hreadable : ∀ m ∈ minimalMembers,
      (m.name ∉ fields.names ∧ IsValue m.item.value) ∨ ∃ r' : Record, m.entry ∈ r'.entries := by
    intro m hm
    by_cases hname : m.name ∈ fields.names
    · exact .inr ⟨minimal, minimal_isToldBy.tells.known m hm hname⟩
    · exact .inl ⟨hname, minimal_isToldBy.unknown m hm hname⟩
  refine ⟨⟨minimal_isToldBy, hobject _ minimal_isToldBy⟩, ?_, ?_, ?_⟩
  · exact hlist minimalItems 9 rfl (by decide) (fun _ => rfl) fun _ => rfl
  · exact hfail _ (fun m hm => hreadable m (List.mem_of_mem_drop hm)) (.inl ⟨"action", by decide⟩)
  · refine hfail _ (fun m hm => ?_) (.inr ⟨"action", by decide, by decide⟩)
    rcases List.mem_append.1 hm with hm | hm
    · exact hreadable m hm
    · exact hreadable m (List.mem_of_mem_take hm)

end Record

end FirmwareJobs
