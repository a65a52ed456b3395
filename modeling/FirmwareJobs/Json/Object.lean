import FirmwareJobs.Json.Format

/-! # Formats of objects

The members of an object may come in any order. A member with an unknown name is passed over, a
repeated member is a failure where its name is read, and a missing one takes its fallback if it
has one. The values may also stand in a list, in the order of the declaration; at the end of that
list members with a fallback may be left out.
-/

namespace FirmwareJobs.Json

/-- One value of each type in turn. -/
def Tuple : List Type → Type
  | [] => Unit
  | t :: ts => t × Tuple ts

/-- For each type a value that may still be missing. -/
def Slots : List Type → Type
  | [] => Unit
  | t :: ts => Option t × Slots ts

/-- The members of an object with their names, formats and fallbacks. -/
inductive Fields : List Type → Type 1 where
  | nil : Fields []
  | cons {t : Type} {ts : List Type} (name : String) (format : Format t) (fallback : Option t)
      (rest : Fields ts) : Fields (t :: ts)

namespace Fields

def blank : {ts : List Type} → Fields ts → Slots ts
  | _, .nil => ()
  | _, .cons _ _ _ rest => (none, rest.blank)

/-- Read the value of the member called `name` into its slot; `none` if there is no such member. -/
def fill (name : String) (s : Bytes) :
    {ts : List Type} → Fields ts → Slots ts → Option (Except Failure (Slots ts × Bytes))
  | _, .nil, _ => none
  | _, .cons own format _ rest, (slot, slots) =>
    if name = own then
      some <|
        if slot.isSome then .error .mismatched
        else do
          let (a, r) ← format.read (← expect colon (skipBlank s))
          .ok ((some a, slots), r)
    else (fill name s rest slots).map (·.map fun (filled, r) => ((slot, filled), r))

/-- The values of all members, with fallbacks for the missing ones. -/
def complete : {ts : List Type} → Fields ts → Slots ts → Except Failure (Tuple ts)
  | _, .nil, _ => .ok ()
  | _, .cons _ _ fallback rest, (slot, slots) => do
    match slot.or fallback with
    | some a => .ok (a, ← rest.complete slots)
    | none => .error .mismatched

/-- One member from its name on. -/
def readMember {ts : List Type} (fields : Fields ts) (slots : Slots ts) (s : Bytes) :
    Except Failure (Slots ts × Bytes) := do
  let (name, r) ← stringRest s
  match fields.fill name r slots with
  | some result => result
  | none =>
    let r ← skipValue (← expect colon (skipBlank r))
    .ok (slots, r)

/-- The members after the first, up to the closing brace. -/
def readMembers {ts : List Type} (fields : Fields ts) :
    Nat → Slots ts → Bytes → Except Failure (Slots ts × Bytes)
  | 0, _, _ => .error .truncated
  | fuel + 1, slots, s =>
    match skipBlank s with
    | [] => .error .truncated
    | b :: r =>
      if b = closeObject then .ok (slots, r)
      else if b = comma then
        match skipBlank r with
        | [] => .error .truncated
        | c :: t =>
          if c = quote then do
            let (slots, rest) ← fields.readMember slots t
            readMembers fields fuel slots rest
          else .error .malformed
      else .error .malformed

/-- An object after its opening brace. -/
def readObject {ts : List Type} (fields : Fields ts) (s : Bytes) :
    Except Failure (Tuple ts × Bytes) := do
  let (slots, r) ← match skipBlank s with
    | [] => .error .truncated
    | b :: r =>
      if b = closeObject then .ok (fields.blank, r)
      else if b = quote then do
        let (slots, rest) ← fields.readMember fields.blank r
        fields.readMembers (rest.length + 1) slots rest
      else .error .malformed
  .ok (← fields.complete slots, r)

/-- The values from a list, whose first item has no comma before it. -/
def readItems : {ts : List Type} → Fields ts → Bool → Bytes → Except Failure (Tuple ts × Bytes)
  | _, .nil, _, s =>
    match skipBlank s with
    | b :: r => if b = closeList then .ok ((), r) else .error .malformed
    | [] => .error .truncated
  | _, .cons _ format fallback rest, isFirst, s =>
    match skipBlank s with
    | [] => .error .truncated
    | b :: r =>
      if b = closeList then
        match fallback with
        | some a => do
          let (as, r) ← rest.readItems isFirst (b :: r)
          .ok ((a, as), r)
        | none => .error .mismatched
      else if isFirst then item format rest (b :: r)
      else if b = comma then
        match skipBlank r with
        | [] => .error .truncated
        | c :: t => if c = closeList then .error .malformed else item format rest (c :: t)
      else .error .malformed
where
  item {t : Type} {ts : List Type} (format : Format t) (rest : Fields ts) (s : Bytes) :
      Except Failure (Tuple (t :: ts) × Bytes) := do
    let (a, r) ← format.read s
    let (as, r) ← rest.readItems false r
    .ok ((a, as), r)

def read {ts : List Type} (fields : Fields ts) : Reader (Tuple ts) := fun s =>
  match skipBlank s with
  | b :: r =>
    if b = openObject then fields.readObject r
    else if b = openList then fields.readItems true r
    else .error (unexpected (b :: r))
  | [] => .error .truncated

/-- Each member with its name, in the order of the declaration. -/
def writeMembers (layout : Layout) : {ts : List Type} → Fields ts → Tuple ts → List (List Char)
  | _, .nil, _ => []
  | _, .cons name format _ rest, (a, as) =>
    (writeString name.toList ++ layout.afterName ++ format.write layout a) ::
      writeMembers layout rest as

end Fields

def Format.object {ts : List Type} (fields : Fields ts) : Format (Tuple ts) where
  read := fields.read
  write layout as :=
    writeBracketed layout '\x7b' '\x7d' (fields.writeMembers layout.deeper as)

end FirmwareJobs.Json
