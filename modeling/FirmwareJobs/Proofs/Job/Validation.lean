import FirmwareJobs.Job.Request
import FirmwareJobs.Proofs.Files.Locating
import FirmwareJobs.Proofs.Text.Ends
import FirmwareJobs.Settings.Engine

/-! # Accepted requests

A request is accepted exactly if its texts, without the blanks around them, are in the grammar of
documents, actions and devices. Otherwise its first wrong text is named. What was accepted is
accepted again as it is, and its document is a file directly in the working directory.
-/

namespace FirmwareJobs

open Text

namespace Text

/-- `t` is `s` without the blanks around it. -/
structure IsTrimmed (s t : List Char) : Prop where
  around : ∃ before after, s = before ++ t ++ after ∧ (∀ c ∈ before, isBlank c = true) ∧
    ∀ c ∈ after, isBlank c = true
  head : ∀ c ∈ t.head?, isBlank c = false
  last : ∀ c ∈ t.getLast?, isBlank c = false

theorem isTrimmed_iff {s t : List Char} : IsTrimmed s t ↔ trim s = t := by
  rw [trim, stripWhile_eq_iff]
  exact ⟨fun ⟨around, head, last⟩ => ⟨around, head, last⟩,
    fun ⟨around, head, last⟩ => ⟨around, head, last⟩⟩

theorem isTrimmed_self {s : List Char} (h : ∀ c ∈ s, isBlank c = false) : IsTrimmed s s where
  around := ⟨[], [], by simp, by simp, by simp⟩
  head c hc := h c (List.mem_of_head? hc)
  last c hc := h c (List.mem_of_getLast? hc)

/-! ## Letter case -/

theorem lowerChar_of_ascii {c : Char} (h : c.toNat < 128) : lowerChar c = [c.toLower] := by
  have hall : ∀ n < 128, lowerChar (Char.ofNat n) = [(Char.ofNat n).toLower] := by decide
  rw [← Char.ofNat_toNat c]
  exact hall c.toNat h

theorem toLower_of_not_ascii {c : Char} (h : ¬ c.toNat < 128) : c.toLower = c := by
  apply dif_neg
  rintro ⟨-, hle⟩
  have hz : c.toNat ≤ 90 := hle
  omega

theorem lowerChar_of_not_ascii {c : Char} (h : ¬ c.toNat < 128) :
    lowerChar c = ['k'] ∨ ∃ x ∈ lowerChar c, ¬ x.toNat < 128 := by
  unfold lowerChar
  split_ifs with hcapital hkelvin hdotted
  · have hz : c.toNat ≤ 90 := hcapital.2
    omega
  · exact .inl rfl
  · exact .inr ⟨'\u0307', by simp, by decide⟩
  · exact .inr ⟨c, by simp, h⟩

/-- For a word of ASCII letters other than `k`, full lower-casing and ASCII lower-casing agree. -/
theorem lower_eq_iff {word : List Char} (hword : ∀ c ∈ word, c.toNat < 128 ∧ c ≠ 'k')
    (s : List Char) : lower s = word ↔ lowerAscii s = word := by
  induction s generalizing word with
  | nil => rfl
  | cons c s ih =>
    have hlower : lower (c :: s) = lowerChar c ++ lower s := rfl
    have hascii : lowerAscii (c :: s) = c.toLower :: lowerAscii s := rfl
    rw [hlower, hascii]
    by_cases hc : c.toNat < 128
    · rw [lowerChar_of_ascii hc, List.singleton_append]
      cases word with
      | nil => simp
      | cons w word =>
        rw [List.cons.injEq, List.cons.injEq, ih fun x hx => hword x (List.mem_cons_of_mem w hx)]
    · refine iff_of_false ?_ ?_
      · rintro rfl
        rcases lowerChar_of_not_ascii hc with hk | ⟨x, hx, hwide⟩
        · exact (hword 'k' (by simp [hk])).2 rfl
        · exact hwide (hword x (List.mem_append_left _ hx)).1
      · rintro rfl
        rw [toLower_of_not_ascii hc] at hword
        exact hc (hword c List.mem_cons_self).1

end Text

/-! ## The grammar -/

/-- A letter or digit of ASCII, an underscore, a point or a hyphen. -/
def IsNameLetter (c : Char) : Prop :=
  ('A' ≤ c ∧ c ≤ 'Z') ∨ ('a' ≤ c ∧ c ≤ 'z') ∨ ('0' ≤ c ∧ c ≤ '9') ∨ c = '_' ∨ c = '.' ∨ c = '-'

/-- One or more name letters, followed by `.yaml`. -/
def IsDocumentName (name : List Char) : Prop :=
  ∃ stem, stem ≠ [] ∧ (∀ c ∈ stem, IsNameLetter c) ∧ name = stem ++ ".yaml".toList

/-- One or more name letters. -/
def IsDeviceName (name : List Char) : Prop := name ≠ [] ∧ ∀ c ∈ name, IsNameLetter c

/-- The word of an action in any ASCII letter case. -/
def IsActionName (name : List Char) (a : Action) : Prop := lowerAscii name = a.word.toList

namespace Request

def HasDocument (r : Request) : Prop := ∃ t, IsTrimmed r.document.toList t ∧ IsDocumentName t

def HasAction (r : Request) (a : Action) : Prop :=
  ∃ t, IsTrimmed r.action.toList t ∧ IsActionName t a

def HasDevice (r : Request) : Prop := ∃ t, IsTrimmed r.device.toList t ∧ IsDeviceName t

/-- What a request that is in the grammar asks for. -/
structure Grants (r : Request) (o : Order) : Prop where
  document : IsTrimmed r.document.toList o.document.toList ∧ IsDocumentName o.document.toList
  action : r.HasAction o.action
  device : if o.action.needsDevice then
    IsTrimmed r.device.toList o.device.toList ∧ IsDeviceName o.device.toList else o.device = ""
  clean : o.clean = r.clean

/-- The first text that is not in the grammar. -/
def FirstFault (r : Request) : Rejection → Prop
  | .document => ¬ r.HasDocument
  | .action => r.HasDocument ∧ ∀ a, ¬ r.HasAction a
  | .device => r.HasDocument ∧ ∃ a, r.HasAction a ∧ a.needsDevice = true ∧ ¬ r.HasDevice

end Request

/-! ## Reading the texts -/

theorem isNameChar_iff {c : Char} : isNameChar c = true ↔ IsNameLetter c := by
  have hclasses : c.isAlphanum = ((decide ('A' ≤ c ∧ c ≤ 'Z') ||
      (decide ('a' ≤ c) && decide (c ≤ 'z'))) || (decide ('0' ≤ c) && decide (c ≤ '9'))) := rfl
  simp [isNameChar, IsNameLetter, hclasses, or_assoc]

theorem all_isNameChar_iff {name : List Char} :
    name.all isNameChar = true ↔ ∀ c ∈ name, IsNameLetter c := by
  simp [List.all_eq_true, isNameChar_iff]

theorem IsNameLetter.bounds {c : Char} (h : IsNameLetter c) : 45 ≤ c.toNat ∧ c.toNat ≤ 122 := by
  have hle {a b : Char} (h : a ≤ b) : a.toNat ≤ b.toNat := h
  rcases h with ⟨h, h'⟩ | ⟨h, h'⟩ | ⟨h, h'⟩ | rfl | rfl | rfl
  · exact ⟨le_trans (by decide) (hle h), (hle h').trans (by decide)⟩
  · exact ⟨le_trans (by decide) (hle h), hle h'⟩
  · exact ⟨le_trans (by decide) (hle h), (hle h').trans (by decide)⟩
  all_goals decide

theorem IsNameLetter.not_blank {c : Char} (h : IsNameLetter c) : isBlank c = false := by
  have hbounds := h.bounds
  simp only [isBlank, Bool.or_eq_false_iff, Bool.and_eq_false_iff, decide_eq_false_iff_not,
    beq_eq_false_iff_ne]
  omega

theorem isDocumentName_iff (name : List Char) :
    (name.all isNameChar && ".yaml".toList.isSuffixOf name &&
      decide (".yaml".toList.length < name.length)) = true ↔ IsDocumentName name := by
  have hending : ∀ c ∈ ".yaml".toList, IsNameLetter c := all_isNameChar_iff.1 (by decide)
  rw [Bool.and_eq_true, Bool.and_eq_true, all_isNameChar_iff, List.isSuffixOf_iff_suffix,
    decide_eq_true_iff]
  constructor
  · rintro ⟨⟨hall, stem, rfl⟩, hlength⟩
    refine ⟨stem, ?_, fun c hc => hall c (List.mem_append_left _ hc), rfl⟩
    rintro rfl
    exact absurd hlength (lt_irrefl _)
  · rintro ⟨stem, hne, hall, rfl⟩
    refine ⟨⟨List.forall_mem_append.2 ⟨hall, hending⟩, List.suffix_append _ _⟩, ?_⟩
    have hpos := List.length_pos_iff.2 hne
    rw [List.length_append]
    omega

theorem isDeviceName_iff (name : List Char) :
    (name.all isNameChar && !name.isEmpty) = true ↔ IsDeviceName name := by
  rw [Bool.and_eq_true, all_isNameChar_iff, IsDeviceName, and_comm]
  simp

theorem trimmed_eq_some_iff {check : List Char → Bool} {Good : List Char → Prop}
    (hcheck : ∀ name, check name = true ↔ Good name) (value name : String) :
    (if check (trim value.toList) then some (String.ofList (trim value.toList)) else none) =
      some name ↔ IsTrimmed value.toList name.toList ∧ Good name.toList := by
  rw [isTrimmed_iff]
  constructor
  · intro h
    split_ifs at h with hgood
    rw [← Option.some.inj h, String.toList_ofList]
    exact ⟨rfl, (hcheck _).1 hgood⟩
  · rintro ⟨htrim, hgood⟩
    rw [htrim, if_pos ((hcheck _).2 hgood), String.ofList_toList]

theorem documentName?_eq_some_iff {value name : String} : documentName? value = some name ↔
    IsTrimmed value.toList name.toList ∧ IsDocumentName name.toList :=
  trimmed_eq_some_iff isDocumentName_iff value name

theorem deviceName?_eq_some_iff {value name : String} : deviceName? value = some name ↔
    IsTrimmed value.toList name.toList ∧ IsDeviceName name.toList :=
  trimmed_eq_some_iff isDeviceName_iff value name

theorem exists_trimmed_iff {read : String → Option String} {Good : List Char → Prop}
    {value : String}
    (hread : ∀ name, read value = some name ↔
      IsTrimmed value.toList name.toList ∧ Good name.toList) :
    (∃ t, IsTrimmed value.toList t ∧ Good t) ↔ ∃ name, read value = some name := by
  simp only [hread]
  exact ⟨fun ⟨t, ht⟩ => ⟨String.ofList t, by simpa using ht⟩, fun ⟨name, hname⟩ => ⟨_, hname⟩⟩

namespace Action

theorem ofWord?_eq_some_iff {w : String} {a : Action} : ofWord? w = some a ↔ w = a.word := by
  constructor
  · intro h
    unfold ofWord? at h
    split_ifs at h with hc ho hl <;> cases h <;> assumption
  · rintro rfl
    exact ofWord?_word a

theorem isPlain_word (a : Action) : ∀ c ∈ a.word.toList, c.toNat < 128 ∧ c ≠ 'k' := by
  cases a <;> simp [word]

theorem parse?_eq_some_iff {text : String} {a : Action} : parse? text = some a ↔
    ∃ t, IsTrimmed text.toList t ∧ IsActionName t a := by
  have hword : parse? text = some a ↔ lower (trim text.toList) = a.word.toList := by
    rw [parse?, ofWord?_eq_some_iff, ← String.toList_inj, String.toList_ofList]
  simp only [hword, isTrimmed_iff, exists_eq_left', IsActionName, lower_eq_iff a.isPlain_word]

theorem isActionName_word (a : Action) : IsActionName a.word.toList a := by
  unfold IsActionName
  cases a <;> decide

theorem isTrimmed_word (a : Action) : IsTrimmed a.word.toList a.word.toList :=
  isTrimmed_self (by cases a <;> simp [word, isBlank])

end Action

/-! ## The verdict -/

namespace Request

theorem hasDocument_iff {r : Request} :
    r.HasDocument ↔ ∃ name, documentName? r.document = some name :=
  exists_trimmed_iff fun _ => documentName?_eq_some_iff

theorem hasDevice_iff {r : Request} :
    r.HasDevice ↔ ∃ name, deviceName? r.device = some name :=
  exists_trimmed_iff fun _ => deviceName?_eq_some_iff

theorem hasAction_iff {r : Request} {a : Action} :
    r.HasAction a ↔ Action.parse? r.action = some a := Action.parse?_eq_some_iff.symm

/-- Each text is looked at only if those before it are in the grammar. -/
theorem validate_eq (r : Request) : r.validate =
    match documentName? r.document, Action.parse? r.action with
    | none, _ => .error .document
    | some _, none => .error .action
    | some document, some a =>
      if a.needsDevice then
        match deviceName? r.device with
        | none => .error .device
        | some device => .ok ⟨document, a, device, r.clean⟩
      else .ok ⟨document, a, "", r.clean⟩ := by
  unfold validate
  cases documentName? r.document with
  | none => rfl
  | some document =>
    cases Action.parse? r.action with
    | none => rfl
    | some a =>
      cases hneeds : a.needsDevice with
      | false => simp [hneeds, bind, Except.bind]
      | true => cases deviceName? r.device <;> simp [hneeds, bind, Except.bind]

theorem validate_of_grants {r : Request} {o : Order} (h : r.Grants o) : r.validate = .ok o := by
  obtain ⟨document, a, device, clean⟩ := o
  have hdevice := h.device
  rw [validate_eq, documentName?_eq_some_iff.2 h.document, hasAction_iff.1 h.action]
  dsimp only at hdevice ⊢
  split_ifs at hdevice ⊢
  · rw [deviceName?_eq_some_iff.2 hdevice, ← h.clean]
  · rw [hdevice, ← h.clean]

theorem validate_of_firstFault {r : Request} {e : Rejection} (h : r.FirstFault e) :
    r.validate = .error e := by
  cases e with
  | document =>
    have hnone : documentName? r.document = none := by
      simpa [FirstFault, hasDocument_iff, ← Option.eq_none_iff_forall_ne_some] using h
    rw [validate_eq, hnone]
  | action =>
    obtain ⟨hdocument, haction⟩ := h
    obtain ⟨document, hdocument⟩ := hasDocument_iff.1 hdocument
    have hnone : Action.parse? r.action = none := by
      simpa [hasAction_iff, ← Option.eq_none_iff_forall_ne_some] using haction
    rw [validate_eq, hdocument, hnone]
  | device =>
    obtain ⟨hdocument, a, haction, hneeds, hdevice⟩ := h
    obtain ⟨document, hdocument⟩ := hasDocument_iff.1 hdocument
    have hnone : deviceName? r.device = none := by
      simpa [hasDevice_iff, ← Option.eq_none_iff_forall_ne_some] using hdevice
    rw [validate_eq, hdocument, hasAction_iff.1 haction]
    simp [hneeds, hnone]

theorem fault_or_grant (r : Request) : (∃ e, r.FirstFault e) ∨ ∃ o, r.Grants o := by
  by_cases hdocument : r.HasDocument
  · by_cases haction : ∃ a, r.HasAction a
    · obtain ⟨a, ha⟩ := haction
      obtain ⟨document, hname⟩ := hasDocument_iff.1 hdocument
      have hnamed := documentName?_eq_some_iff.1 hname
      by_cases hneeds : a.needsDevice = true
      · by_cases hdevice : r.HasDevice
        · obtain ⟨device, hname⟩ := hasDevice_iff.1 hdevice
          refine .inr ⟨⟨document, a, device, r.clean⟩, hnamed, ha, ?_, rfl⟩
          simpa [hneeds] using deviceName?_eq_some_iff.1 hname
        · exact .inl ⟨.device, hdocument, a, ha, hneeds, hdevice⟩
      · exact .inr ⟨⟨document, a, "", r.clean⟩, hnamed, ha, by simp [hneeds], rfl⟩
    · exact .inl ⟨.action, hdocument, by simpa using haction⟩
  · exact .inl ⟨.document, hdocument⟩

theorem validate_eq_ok_iff {r : Request} {o : Order} : r.validate = .ok o ↔ r.Grants o := by
  refine ⟨fun h => ?_, validate_of_grants⟩
  rcases r.fault_or_grant with ⟨e, he⟩ | ⟨o', ho⟩
  · rw [validate_of_firstFault he] at h
    cases h
  · rw [validate_of_grants ho] at h
    cases h
    exact ho

theorem validate_eq_error_iff {r : Request} {e : Rejection} :
    r.validate = .error e ↔ r.FirstFault e := by
  refine ⟨fun h => ?_, validate_of_firstFault⟩
  rcases r.fault_or_grant with ⟨e', he⟩ | ⟨o, ho⟩
  · rw [validate_of_firstFault he] at h
    cases h
    exact he
  · rw [validate_of_grants ho] at h
    cases h

/-- A request is accepted if and only if its texts are in the grammar; the device is looked at only
if the action needs one. -/
theorem accepted_iff (r : Request) : (∃ o, r.validate = .ok o) ↔
    r.HasDocument ∧ ∃ a, r.HasAction a ∧ (a.needsDevice = true → r.HasDevice) := by
  simp only [validate_eq_ok_iff]
  constructor
  · rintro ⟨o, ho⟩
    have hdevice := ho.device
    refine ⟨⟨_, ho.document⟩, o.action, ho.action, fun hneeds => ?_⟩
    rw [if_pos hneeds] at hdevice
    exact ⟨_, hdevice⟩
  · rintro ⟨hdocument, a, ha, hdevice⟩
    rcases r.fault_or_grant with ⟨e, he⟩ | ho
    · cases e with
      | document => exact absurd hdocument he
      | action => exact absurd ha (he.2 a)
      | device =>
        obtain ⟨-, b, hb, hneeds, hnone⟩ := he
        rw [hasAction_iff] at ha hb
        cases ha.symm.trans hb
        exact absurd (hdevice hneeds) hnone
    · exact ho

end Request

/-! ## What was accepted -/

theorem IsDocumentName.letters {name : List Char} (h : IsDocumentName name) :
    ∀ c ∈ name, IsNameLetter c := by
  obtain ⟨stem, -, hstem, rfl⟩ := h
  exact List.forall_mem_append.2 ⟨hstem, all_isNameChar_iff.1 (by decide)⟩

theorem IsDocumentName.isName {name : String} (h : IsDocumentName name.toList) :
    Files.IsName name := by
  have hletters := h.letters
  have hlength : 5 < name.toList.length := by
    obtain ⟨stem, hne, -, hname⟩ := h
    have hpos := List.length_pos_iff.2 hne
    have hending : ".yaml".toList.length = 5 := rfl
    rw [hname, List.length_append]
    omega
  refine ⟨?_, fun hc => ?_, fun hc => ?_, ?_, ?_⟩
  · rintro rfl
    simp at hlength
  · have hno : ¬ IsNameLetter '/' := by simp [← isNameChar_iff]; decide
    exact hno (hletters _ hc)
  · have hno : ¬ IsNameLetter '\x00' := by simp [← isNameChar_iff]; decide
    exact hno (hletters _ hc)
  · rintro rfl
    simp at hlength
  · rintro rfl
    simp at hlength

theorem Request.Grants.again {r : Request} {o : Order} (h : r.Grants o) : o.request.Grants o where
  document := ⟨isTrimmed_self fun c hc => (h.document.2.letters c hc).not_blank, h.document.2⟩
  action := ⟨o.action.word.toList, o.action.isTrimmed_word, o.action.isActionName_word⟩
  device := by
    have hdevice := h.device
    split_ifs at hdevice ⊢
    · exact ⟨isTrimmed_self fun c hc => (hdevice.2.2 c hc).not_blank, hdevice.2⟩
    · exact hdevice
  clean := rfl

namespace Path

/-- The path leads to the one name in the directory, and to nowhere else. -/
structure IsChild (directory path name : String) : Prop where
  isName : Files.IsName name
  isAbsolute : isAbsolute path = isAbsolute directory
  names : Files.names path = Files.names directory ++ [name]
  place : ∀ (files : Files.Tree) here place child, files.locate here directory = .ok place →
    files.isDirectory place = true → files.locate here path = .ok child → child = place ++ [name]

theorem isChild_join (directory : String) {name : String} (h : Files.IsName name) :
    IsChild directory (join directory name) name := by
  by_cases hdir : directory = ""
  · subst hdir
    have hjoin : join "" name = name := by simp [join, isAbsolute_of_noSlash h.noSlash]
    rw [hjoin]
    refine ⟨h, isAbsolute_of_noSlash h.noSlash, Files.names_of_isName h, ?_⟩
    intro files here place child hplace
    exact absurd rfl (Files.Tree.of_locate_eq_ok hplace).1
  · refine ⟨h, Files.isAbsolute_join hdir h.noSlash, Files.names_join hdir h, ?_⟩
    intro files here place child hplace hdirectory hchild
    rw [Files.Tree.locate_join hplace hdirectory h] at hchild
    split_ifs at hchild
    exact (Except.ok.inj hchild).symm

end Path

/-- Validation accepts its grammar and nothing else, names the first fault, leaves alone what it has
accepted, and accepts no document outside the working directory. -/
theorem validate_iff_grammar (r : Request) :
    (∀ o, r.validate = .ok o ↔ r.Grants o) ∧
    ((∃ o, r.validate = .ok o) ↔
      r.HasDocument ∧ ∃ a, r.HasAction a ∧ (a.needsDevice = true → r.HasDevice)) ∧
    (∀ e, r.validate = .error e ↔ r.FirstFault e) ∧
    ∀ o, r.validate = .ok o → o.request.validate = .ok o ∧
      ∀ s : Settings, Path.IsChild s.workDir (s.documentPath o.document) o.document := by
  refine ⟨fun o => Request.validate_eq_ok_iff, r.accepted_iff,
    fun e => Request.validate_eq_error_iff, fun o ho => ?_⟩
  have hgrants := Request.validate_eq_ok_iff.1 ho
  exact ⟨Request.validate_eq_ok_iff.2 hgrants.again,
    fun s => Path.isChild_join s.workDir hgrants.document.2.isName⟩

/-- Blanks around the texts, ASCII and other ones, and an action in mixed letter case. -/
def kitchenRequest : Request := ⟨"\u00a0kitchen-1.yaml\n", " oTA ", "\u2003node.local ", true⟩

def kitchenOrder : Order := ⟨"kitchen-1.yaml", .ota, "node.local", true⟩

theorem validate_kitchenRequest : kitchenRequest.validate = .ok kitchenOrder ∧
    kitchenOrder.request.validate = .ok kitchenOrder ∧
    Path.IsChild "/config" "/config/kitchen-1.yaml" "kitchen-1.yaml" := by
  have haccepted : kitchenRequest.validate = .ok kitchenOrder := by decide
  obtain ⟨hagain, hchild⟩ := (validate_iff_grammar kitchenRequest).2.2.2 kitchenOrder haccepted
  exact ⟨haccepted, hagain, hchild { jobDir := "/jobs", workDir := "/config" }⟩

/-- LATIN SMALL LETTER LONG S has the capital S, but no action is spelled with it. -/
example : (Request.mk "a.yaml" "LOG\u017f" "b" false).validate = .error .action := by decide

end FirmwareJobs
