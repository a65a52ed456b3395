import FirmwareJobs.Proofs.Json.Members

/-!
# Lists that read what they write

The items of a list are written one after another, divided by commas. Each of them ends at a
boundary, so the reader takes them off one by one until it meets the closing bracket.
-/

namespace FirmwareJobs.Json

open Text Format

variable {α : Type} {f : Format α}

theorem isBoundary_furtherItems (layout : Layout) (items : List (List Char)) {rest : Bytes}
    (h : IsBoundary rest) : IsBoundary (Utf8.encode (furtherItems layout items) ++ rest) := by
  cases items with
  | nil => exact h
  | cons x items => exact isBoundary_cons _ (.inl rfl)

theorem encode_furtherItems_cons (layout : Layout) (x : List Char) (items : List (List Char))
    (rest : Bytes) :
    Utf8.encode (furtherItems layout (x :: items)) ++ rest =
      comma :: (Utf8.encode layout.lineBreak ++
        (Utf8.encode x ++ (Utf8.encode (furtherItems layout items) ++ rest))) := by
  have hcomma : ∀ cs, Utf8.encode (',' :: cs) = comma :: Utf8.encode cs := fun _ => rfl
  simp only [furtherItems, List.flatMap_cons, List.cons_append, hcomma, Utf8.encode_append,
    List.append_assoc]

theorem read_item {a : α} (h : f.Faithful a) (layout : Layout) {rest : Bytes}
    (hrest : IsBoundary rest) : ∃ b r, Utf8.encode (f.write layout a) ++ rest = b :: r ∧
      isBlank b = false ∧ b ≠ closeList ∧ f.read (b :: r) = .ok (a, rest) := by
  obtain ⟨b, r, hstart, hb, hne⟩ := h.start layout
  have hread := h.read layout [] rest (List.forall_mem_nil _) hrest
  rw [List.nil_append, hstart, List.cons_append] at hread
  exact ⟨b, r ++ rest, by rw [hstart, List.cons_append], hb, hne, hread⟩

theorem readItems_written (layout : Layout) {blanks : Bytes} (hblanks : AllBlank blanks)
    (s : Bytes) (as : List α) : ∀ fuel, (∀ a ∈ as, f.Faithful a) → as.length < fuel →
      readItems f.read fuel (Utf8.encode (furtherItems layout (as.map (f.write layout))) ++
        (blanks ++ closeList :: s)) = .ok (as, s) := by
  have hend : IsBoundary (blanks ++ closeList :: s) :=
    isBoundary_append hblanks (isBoundary_cons s (.inr (.inl rfl)))
  induction as with
  | nil =>
    intro fuel _ hfuel
    cases fuel with
    | zero => exact absurd hfuel (Nat.not_lt_zero _)
    | succ fuel =>
      rw [List.map_nil, furtherItems, List.flatMap_nil, Utf8.encode_nil, List.nil_append,
        readItems, skipBlank_append hblanks, skipBlank_cons (by decide)]
      rfl
  | cons a as ih =>
    intro fuel hfaithful hfuel
    cases fuel with
    | zero => exact absurd hfuel (Nat.not_lt_zero _)
    | succ fuel =>
      have hrest := ih fuel (fun b hb => hfaithful b (List.mem_cons_of_mem a hb))
        (Nat.lt_of_succ_lt_succ hfuel)
      obtain ⟨b, r, hbytes, hb, hne, hread⟩ := read_item (hfaithful a List.mem_cons_self) layout
        (isBoundary_furtherItems layout (as.map (f.write layout)) hend)
      rw [List.map_cons, encode_furtherItems_cons, hbytes, readItems, skipBlank_cons (by decide)]
      simp only [if_neg (show comma ≠ closeList by decide), if_true,
        skipBlank_append (allBlank_lineBreak layout), skipBlank_cons hb, if_neg hne, hread, hrest,
        bind, Except.bind]

namespace Format

theorem write_list_cons (layout : Layout) (a : α) (as : List α) (s : Bytes) :
    Utf8.encode ((list f).write layout (a :: as)) ++ s =
      openList :: (Utf8.encode layout.deeper.lineBreak ++
        (Utf8.encode (f.write layout.deeper a) ++
          (Utf8.encode (furtherItems layout.deeper (as.map (f.write layout.deeper))) ++
            (Utf8.encode layout.lineBreak ++ closeList :: s)))) := by
  have hopen : ∀ cs, Utf8.encode ('[' :: cs) = openList :: Utf8.encode cs := fun _ => rfl
  have hclose : Utf8.encode [']'] = [closeList] := rfl
  change Utf8.encode (writeBracketed layout '[' ']' ((a :: as).map _)) ++ s = _
  rw [List.map_cons, writeBracketed, List.isEmpty_cons, if_neg Bool.false_ne_true,
    writeItems_cons]
  simp only [List.cons_append, hopen, Utf8.encode_append, hclose, List.append_assoc,
    List.nil_append]

theorem faithful_nil : (list f).Faithful [] where
  read _ blanks s hblanks _ := by
    change readList f.read (blanks ++ (openList :: closeList :: s)) = _
    rw [readList, skipBlank_append hblanks]
    rfl
  start _ := ⟨openList, [closeList], rfl, by decide, by decide⟩

theorem faithful_list {as : List α} (h : ∀ a ∈ as, f.Faithful a) : (list f).Faithful as := by
  cases as with
  | nil => exact faithful_nil
  | cons a as =>
    refine ⟨fun layout blanks s hblanks _ => ?_, fun layout => ?_⟩
    · have hboundary := isBoundary_furtherItems layout.deeper (as.map (f.write layout.deeper))
        (isBoundary_append (allBlank_lineBreak layout) (isBoundary_cons s (.inr (.inl rfl))))
      have hitems := readItems_written (f := f) layout.deeper (allBlank_lineBreak layout) s as
      have hlength := Fields.length_le_length_furtherItems layout.deeper
        (as.map (f.write layout.deeper))
      rw [List.length_map] at hlength
      obtain ⟨b, r, hbytes, hb, hne, hread⟩ := read_item (h a List.mem_cons_self) layout.deeper
        hboundary
      rw [write_list_cons, hbytes]
      change readList f.read _ = _
      rw [readList, skipBlank_append hblanks, skipBlank_cons (by decide)]
      simp only [if_true, skipBlank_append (allBlank_lineBreak _), skipBlank_cons hb, if_neg hne,
        hread, bind, Except.bind]
      rw [hitems _ (fun b hb => h b (List.mem_cons_of_mem a hb))]
      rw [List.length_append]
      omega
    · have hbytes := write_list_cons (f := f) layout a as []
      rw [List.append_nil] at hbytes
      exact ⟨openList, _, hbytes, by decide, by decide⟩

end Format

end FirmwareJobs.Json
