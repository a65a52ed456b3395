import FirmwareJobs.Json.Object

/-!
# The grammar of JSON

The texts that stand for a value, with blanks wherever blanks may stand. The grammar says nothing
about what a text is read as; only for the names of members it says which text a string denotes,
since a character of a name may be spelled by itself or by an escape.
-/

namespace FirmwareJobs.Json

/-! ## Blanks -/

/-- A text of blanks only. -/
def Blanks : Type := {cs : List Char // ∀ c ∈ cs, c ∈ [' ', '\n', '\t', '\r']}

def Blanks.none : Blanks := ⟨[], List.forall_mem_nil _⟩

/-! ## Strings -/

/-- A character that may stand for itself in a string. -/
def IsVerbatim (c : Char) : Prop := c ≠ '\x22' ∧ c ≠ '\\' ∧ 0x20 ≤ c.toNat

instance (c : Char) : Decidable (IsVerbatim c) := by unfold IsVerbatim; infer_instance

/-- The letters of the short escapes, each with the character that it denotes. -/
def shortEscapes : List (Char × Char) :=
  [('\x22', '\x22'), ('\\', '\\'), ('/', '/'), ('b', '\x08'), ('f', '\x0c'), ('n', '\n'),
    ('r', '\r'), ('t', '\t')]

/-- The hexadecimal digits with their values. -/
def hexDigits : List (Char × Nat) :=
  "0123456789abcdefABCDEF".toList.zip (List.range 16 ++ [10, 11, 12, 13, 14, 15])

/-- The four hexadecimal digits of a code unit. -/
structure CodeUnit where
  first : {x : Char × Nat // x ∈ hexDigits}
  second : {x : Char × Nat // x ∈ hexDigits}
  third : {x : Char × Nat // x ∈ hexDigits}
  fourth : {x : Char × Nat // x ∈ hexDigits}

namespace CodeUnit

def text (u : CodeUnit) : List Char := [u.first.1.1, u.second.1.1, u.third.1.1, u.fourth.1.1]

def number (u : CodeUnit) : Nat :=
  ((u.first.1.2 * 16 + u.second.1.2) * 16 + u.third.1.2) * 16 + u.fourth.1.2

end CodeUnit

/-- What a string is made of. Nothing is said about surrogates. -/
inductive IsPiece : List Char → Prop where
  | verbatim {c : Char} (h : IsVerbatim c) : IsPiece [c]
  | short {e c : Char} (h : (e, c) ∈ shortEscapes) : IsPiece ['\\', e]
  | code (u : CodeUnit) : IsPiece ('\\' :: 'u' :: u.text)

/-- What may stand between the quotes of a string. -/
def IsContent (text : List Char) : Prop :=
  ∃ pieces : List (List Char), (∀ p ∈ pieces, IsPiece p) ∧ text = pieces.flatten

def quoted (text : List Char) : List Char := '\x22' :: text ++ ['\x22']

/-- `Spells cs text`: between quotes, `text` denotes the characters `cs`. A character beyond the
basic plane is spelled by itself or by a pair of surrogates. -/
inductive Spells : List Char → List Char → Prop where
  | nil : Spells [] []
  | verbatim {c : Char} {cs text : List Char} (h : IsVerbatim c) (rest : Spells cs text) :
      Spells (c :: cs) (c :: text)
  | short {e c : Char} {cs text : List Char} (h : (e, c) ∈ shortEscapes) (rest : Spells cs text) :
      Spells (c :: cs) ('\\' :: e :: text)
  | code {cs text : List Char} (u : CodeUnit) (h : u.number < 0xD800 ∨ 0xE000 ≤ u.number)
      (rest : Spells cs text) :
      Spells (Char.ofNat u.number :: cs) ('\\' :: 'u' :: u.text ++ text)
  | pair {cs text : List Char} (high low : CodeUnit)
      (hhigh : 0xD800 ≤ high.number ∧ high.number < 0xDC00)
      (hlow : 0xDC00 ≤ low.number ∧ low.number < 0xE000) (rest : Spells cs text) :
      Spells (Char.ofNat (0x10000 + (high.number - 0xD800) * 0x400 + (low.number - 0xDC00)) :: cs)
        ('\\' :: 'u' :: high.text ++ '\\' :: 'u' :: low.text ++ text)

theorem Spells.of_verbatim {cs : List Char} (h : ∀ c ∈ cs, IsVerbatim c) : Spells cs cs := by
  induction cs with
  | nil => exact .nil
  | cons c cs ih =>
    rw [List.forall_mem_cons] at h
    exact .verbatim h.1 (ih h.2)

/-! ## Numbers -/

def IsDigits (cs : List Char) : Prop := cs ≠ [] ∧ ∀ c ∈ cs, Text.isDigit c = true

/-- The digits before the point. A zero in front stands alone. -/
def IsWhole (cs : List Char) : Prop := cs = ['0'] ∨ IsDigits cs ∧ cs.head? ≠ some '0'

def IsFraction (cs : List Char) : Prop := cs = [] ∨ ∃ ds, IsDigits ds ∧ cs = '.' :: ds

def IsExponent (cs : List Char) : Prop :=
  cs = [] ∨ ∃ mark ∈ ['e', 'E'], ∃ sign ∈ [[], ['+'], ['-']], ∃ ds, IsDigits ds ∧
    cs = mark :: (sign ++ ds)

def IsNumber (cs : List Char) : Prop :=
  ∃ sign ∈ [[], ['-']], ∃ whole fraction exponent, IsWhole whole ∧ IsFraction fraction ∧
    IsExponent exponent ∧ cs = sign ++ (whole ++ (fraction ++ exponent))

/-! ## Values -/

/-- A value between the blanks around it. -/
structure Item where
  before : Blanks
  value : List Char
  after : Blanks

def Item.text (i : Item) : List Char := i.before.1 ++ (i.value ++ i.after.1)

/-- A member of an object. Its name stands as it is spelled, without the quotes. -/
structure Member where
  before : Blanks
  spelling : List Char
  between : Blanks
  item : Item

def Member.text (m : Member) : List Char :=
  m.before.1 ++ (quoted m.spelling ++ (m.between.1 ++ ':' :: m.item.text))

/-- Texts divided by commas. -/
def divided (texts : List (List Char)) : List Char := [','].intercalate texts

def listText (inner : Blanks) (items : List Item) : List Char :=
  '[' :: (inner.1 ++ (divided (items.map Item.text) ++ [']']))

def objectText (inner : Blanks) (members : List Member) : List Char :=
  '\x7b' :: (inner.1 ++ (divided (members.map Member.text) ++ ['\x7d']))

/-- The text of a JSON value of any depth. -/
inductive IsValue : List Char → Prop where
  | null : IsValue "null".toList
  | true : IsValue "true".toList
  | false : IsValue "false".toList
  | number {text : List Char} (h : IsNumber text) : IsValue text
  | string {text : List Char} (h : IsContent text) : IsValue (quoted text)
  | list (inner : Blanks) (items : List Item) (h : ∀ i ∈ items, IsValue i.value) :
      IsValue (listText inner items)
  | object (inner : Blanks) (members : List Member)
      (hnames : ∀ m ∈ members, IsContent m.spelling)
      (h : ∀ m ∈ members, IsValue m.item.value) : IsValue (objectText inner members)

end FirmwareJobs.Json
