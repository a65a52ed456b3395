import FirmwareJobs.Client.Arguments
import FirmwareJobs.Http.Serving
import FirmwareJobs.Proofs.Api.RoundTrip
import FirmwareJobs.Proofs.Observe.Tail
import FirmwareJobs.Proofs.Url.Plain

/-!
# What the server hears of a call

The path and the numbers of a call come back from its address as they were put in. A number is then
read as a signed one, so the numbers that have no such form are not heard, and the route goes on as
if the field had not been given.
-/

namespace FirmwareJobs

open Text Url

namespace Text

theorem signed?_digits (n : Nat) : signed? (digits n) = some (n : Int) := by
  have hread : (natural? (digits n)).map Int.ofNat = some (n : Int) := by
    rw [natural?_digits]
    rfl
  cases hdigits : digits n with
  | nil => exact absurd hdigits (digits_ne_nil n)
  | cons c r =>
    have hc : isDigit c = true :=
      List.all_eq_true.1 (all_isDigit_digits n) c (by rw [hdigits]; exact List.mem_cons_self)
    rw [hdigits] at hread
    have hminus : c ≠ '-' := by
      rintro rfl
      exact absurd hc (by decide)
    have hplus : c ≠ '+' := by
      rintro rfl
      exact absurd hc (by decide)
    simpa [signed?, unsigned?, hminus, hplus] using hread

/-- A number without a sign is read as a signed one if it is small enough. -/
theorem signedWithin?_digits (bits n : Nat) :
    signedWithin? bits (digits n) = if n < 2 ^ (bits - 1) then some (n : Int) else none := by
  have hbound : (((Nat.pow 2 (bits - 1) : Nat) : Int)) = ((2 ^ (bits - 1) : Nat) : Int) := rfl
  have hlow : -((2 ^ (bits - 1) : Nat) : Int) ≤ n := by omega
  simp only [signedWithin?, signed?_digits, hbound, Option.filter_some, hlow, decide_true,
    Bool.true_and, decide_eq_true_eq, Int.ofNat_lt]

end Text

namespace Http.Target

/-! ## Targets of plain texts -/

theorem decoded_of_isPlain {s : List Char} (h : IsPlain s) : decoded s = s := by
  have hpercent : '%' ∉ s := fun hmem => absurd (h _ hmem) (by decide)
  rw [decoded, percentDecode_of_noPercent hpercent, Utf8.decodeLossy_encode]

theorem decodedInQuery_of_isPlain {s : List Char} (h : IsPlain s) : decodedInQuery s = s := by
  have hmap : (s.map fun c => if c = '+' then ' ' else c) = s := by
    refine (List.map_congr_left fun c hc => if_neg ?_).trans (List.map_id' s)
    exact beq_eq_false_iff_ne.1 (h.undivided (by decide) c hc)
  rw [decodedInQuery, hmap, decoded_of_isPlain h]

theorem isPathChar_of_isPlain {c : Char} (h : isPlain c = true) : isPathChar c = true :=
  forall_isPlain (p := fun c => isPathChar c = true) (by decide) h

/-- The name of a field that is no part of another one. -/
structure IsKey (name : List Char) : Prop where
  plain : IsPlain name
  whole : '.' ∉ name

theorem firstKey_of_isKey {name : List Char} (h : IsKey name) : firstKey name = name := by
  have hundivided : ∀ c ∈ name, (c == '.' || c == '[') = false := by
    intro c hc
    rw [Bool.or_eq_false_iff]
    refine ⟨beq_eq_false_iff_ne.2 ?_, h.plain.undivided (by decide) c hc⟩
    rintro rfl
    exact h.whole hc
  unfold firstKey
  split
  · exact absurd (hundivided '[' List.mem_cons_self) (by decide)
  · exact absurd (hundivided '.' List.mem_cons_self) (by decide)
  · rw [splitAtFirst_of_forall hundivided]

/-- A field as the client writes it. -/
def numberField (name : String) (n : Nat) : List Char := name.toList ++ '=' :: digits n

theorem field_numberField {name : String} (h : IsKey name.toList) (n : Nat) :
    field (numberField name n) = (name, String.ofList (digits n)) := by
  have hundivided : ∀ c ∈ name.toList, (c == '=') = false := h.plain.undivided (by decide)
  rw [field, numberField, splitAtFirst_append hundivided rfl]
  simp only [List.drop_one, List.tail_cons, decodedInQuery_of_isPlain h.plain,
    decodedInQuery_of_isPlain (isPlain_digits n), firstKey_of_isKey h, String.ofList_toList]

theorem filter_splitOn_joined {p : Char → Bool} {divider : Char} (hp : p divider = true)
    {parts : List (List Char)} (h : ∀ part ∈ parts, part ≠ [] ∧ ∀ c ∈ part, p c = false) :
    (splitOn p (Address.joined divider parts)).filter (!·.isEmpty) = parts := by
  by_cases hnone : parts = []
  · subst hnone
    rfl
  · rw [splitOn_joined hp hnone fun part hpart => (h part hpart).2, List.filter_eq_self]
    intro part hpart
    simp [(h part hpart).1]

/-- The query of a target, with the mark that begins it. -/
def queryPart : List (List Char) → List Char
  | [] => []
  | parts => '?' :: Address.joined '&' parts

theorem drop_queryPart (parts : List (List Char)) :
    (queryPart parts).drop 1 = Address.joined '&' parts := by
  cases parts <;> rfl

theorem target_withQuery {url : Url} (hquery : url.query = none) (fields : List (String × Nat)) :
    (url.withQuery fields).target = String.ofList ('/' :: (Address.joined '/' url.path ++
      queryPart (fields.map fun (name, n) => numberField name n))) := by
  cases fields with
  | nil => simp [withQuery, target, hquery, queryPart]
  | cons f fields => simp [withQuery, target, hquery, queryPart, numberField]

section

variable {path : List (List Char)} {fields : List (String × Nat)}

theorem isPathChar_of_mem_joined (hpath : ∀ s ∈ path, IsSegment s) {c : Char}
    (hc : c ∈ Address.joined '/' path) : isPathChar c = true ∧ c ≠ '?' := by
  rcases mem_joined hc with rfl | ⟨s, hs, hc⟩
  · decide
  · have hplain := (hpath s hs).plain c hc
    exact ⟨isPathChar_of_isPlain hplain, (undivided_of_isPlain hplain).2.1⟩

theorem splitAtFirst_queryPart (hpath : ∀ s ∈ path, IsSegment s) (parts : List (List Char)) :
    splitAtFirst (· == '?') (Address.joined '/' path ++ queryPart parts) =
      (Address.joined '/' path, queryPart parts) := by
  have hundivided : ∀ c ∈ Address.joined '/' path, (c == '?') = false := fun c hc => by
    simp [(isPathChar_of_mem_joined hpath hc).2]
  cases parts with
  | nil => rw [queryPart, List.append_nil, splitAtFirst_of_forall hundivided]
  | cons part parts => exact splitAtFirst_append hundivided rfl _

theorem mem_numberField {name : String} (hname : IsKey name.toList) {n : Nat} {c : Char}
    (hc : c ∈ numberField name n) : c = '=' ∨ isPlain c = true := by
  rcases List.mem_append.1 hc with hc | hc
  · exact .inr (hname.plain c hc)
  · rcases List.mem_cons.1 hc with rfl | hc
    · exact .inl rfl
    · exact .inr (isPlain_digits n c hc)

theorem isQueryChar_of_mem_joined (hfields : ∀ f ∈ fields, IsKey f.1.toList) {c : Char}
    (hc : c ∈ Address.joined '&' (fields.map fun (name, n) => numberField name n)) :
    isQueryChar c = true := by
  rcases mem_joined hc with rfl | ⟨part, hpart, hc⟩
  · decide
  · obtain ⟨⟨name, n⟩, hf, rfl⟩ := List.mem_map.1 hpart
    rcases mem_numberField (hfields _ hf) hc with rfl | hplain
    · decide
    · rw [isQueryChar, isPathChar_of_isPlain hplain, Bool.true_or]

theorem undivided_numberField {name : String} (hname : IsKey name.toList) (n : Nat) :
    numberField name n ≠ [] ∧ ∀ c ∈ numberField name n, (c == '&') = false := by
  refine ⟨by simp [numberField], fun c hc => ?_⟩
  rw [beq_eq_false_iff_ne]
  rintro rfl
  rcases mem_numberField hname hc with h | h
  · cases h
  · exact absurd h (by decide)

end

theorem ofText?_target {url : Url} (hpath : ∀ s ∈ url.path, IsSegment s) (hquery : url.query = none)
    {fields : List (String × Nat)} (hfields : ∀ f ∈ fields, IsKey f.1.toList) :
    ofText? (url.withQuery fields).target =
      some ⟨url.path.map String.ofList,
        fields.map fun (name, n) => (name, String.ofList (digits n))⟩ := by
  have hpathChars : (Address.joined '/' url.path).all isPathChar = true :=
    List.all_eq_true.2 fun c hc => (isPathChar_of_mem_joined hpath hc).1
  have hqueryChars : (Address.joined '&' (fields.map fun (name, n) => numberField name n)).all
      isQueryChar = true :=
    List.all_eq_true.2 fun c hc => isQueryChar_of_mem_joined hfields hc
  have hsegments : (splitOn (· == '/') (Address.joined '/' url.path)).filter (!·.isEmpty) =
      url.path := filter_splitOn_joined rfl fun s hs =>
    ⟨(hpath s hs).nonempty, (hpath s hs).plain.undivided (by decide)⟩
  have hparts : (splitOn (· == '&') (Address.joined '&'
      (fields.map fun (name, n) => numberField name n))).filter (!·.isEmpty) =
        fields.map fun (name, n) => numberField name n :=
    filter_splitOn_joined rfl fun part hpart => by
      obtain ⟨⟨name, n⟩, hf, rfl⟩ := List.mem_map.1 hpart
      exact undivided_numberField (hfields _ hf) n
  have hdecoded : (url.path.map fun s => String.ofList (decoded s)) =
      url.path.map String.ofList :=
    List.map_congr_left fun s hs => by rw [decoded_of_isPlain (hpath s hs).plain]
  have hread : (fields.map fun (name, n) => numberField name n).map field =
      fields.map fun (name, n) => (name, String.ofList (digits n)) := by
    rw [List.map_map]
    exact List.map_congr_left fun f hf => field_numberField (hfields f hf) f.2
  rw [target_withQuery hquery]
  simp only [ofText?, String.toList_ofList, splitAtFirst_queryPart hpath, drop_queryPart,
    hpathChars, hqueryChars, Bool.and_true, if_true, hsegments, hparts, hdecoded, hread]

end Http.Target

namespace Client

/-! ## Calls of the client -/

/-- The path of a call shows the segments, and what else it has is plain. -/
structure Call.Shows (call : Call) (segments : List String) : Prop where
  path : call.path = String.ofList ('/' :: Address.joined '/' (segments.map String.toList))
  nonempty : segments ≠ []
  segments : ∀ s ∈ segments, IsSegment s.toList
  fields : ∀ f ∈ call.query, Http.Target.IsKey f.1.toList

section

variable {isSecure : Bool} {authority : List Char} {base : String} {site : Url}

/-- A call goes to the site of its base, and the server finds in its target what the client put
in. -/
theorem Call.Shows.exists_url {call : Call} {segments : List String} (h : call.Shows segments)
    (hbase : IsOrigin isSecure authority base) (hsite : Url.ofText? base = some site) :
    ∃ url, call.url? base = some url ∧ url.origin = site.origin ∧
      Http.Target.ofText? url.target = some ⟨segments,
        call.query.map fun (name, n) => (name, String.ofList (digits n))⟩ := by
  have hsegments : ∀ s ∈ segments.map String.toList, IsSegment s := by
    simpa using h.segments
  have hpath : IsPath call.path.toList := by
    rw [h.path, String.toList_ofList]
    exact isPath_joined hsegments
  have hnone : IsPath "".toList := ⟨.inl rfl, by simp, by simp⟩
  have hhere := ofText?_append hbase hnone
  rw [String.append_empty, hsite] at hhere
  obtain ⟨⟨host, port⟩, hfound, hhere⟩ := Option.map_eq_some_iff.1 hhere.symm
  let place : Url := ⟨isSecure, host, port, segments.map String.toList, none⟩
  have hurl : call.url? base = some (place.withQuery call.query) := by
    have hsegmented : pathSegments ('/' :: Address.joined '/' (segments.map String.toList)) =
        segments.map String.toList :=
      pathSegments_joined (by simpa using h.nonempty) hsegments
    rw [Call.url?, ofText?_append hbase hpath, hfound, h.path, String.toList_ofList,
      Option.map_some, hsegmented, Option.map_some]
  refine ⟨_, hurl, ?_, ?_⟩
  · rw [← hhere]
    cases call.query <;> simp [place, withQuery, origin]
  · rw [Http.Target.ofText?_target hsegments rfl h.fields]
    simp [place, Function.comp_def]

end

theorem shows_tail {id : String} (hid : IsSegment id.toList) (since limit : Nat) :
    (Operation.tail id since limit).call.Shows ["api", "jobs", id, "tail"] := by
  refine ⟨?_, by simp, ?_, ?_⟩
  · rw [← String.toList_inj]
    simp [Operation.call, jobPath, Address.joined]
  · have hfixed : ∀ s ∈ ["api", "jobs", "tail"], IsSegment s.toList := by
      intro s hs
      constructor <;> revert s <;> decide
    simpa [hid] using hfixed
  · have hkeys : ∀ name ∈ ["since", "limit"], Http.Target.IsKey name.toList := by
      intro name hname
      constructor <;> revert name <;> decide
    simpa [Operation.call] using hkeys

end Client

end FirmwareJobs
