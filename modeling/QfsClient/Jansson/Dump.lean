import Mathlib.Data.List.Sort
import QfsClient.Jansson.Value

/-!
# Jansson's encoder

`jsonDumps` is `json_dumps` with the flags `SendJson` passes, `JSON_COMPACT | JSON_SORT_KEYS`:
no white space, and the members of every object in `strcmp` order of their keys. A string is
written between quotes with `\\`, `"` and the control characters escaped, as `dump_string`
writes a valid UTF-8 string without `JSON_ENSURE_ASCII`. The text is returned as a copy made
with `jsonp_strdup`, which stops at a NUL byte.

`dumpCompact` is `do_dump` with `JSON_COMPACT` alone, which writes the members of an object in
the order they were set; the replies of the daemon are taken to be written so.

`packGetAccessed` is the one `json_pack_ex` call of the source, with the format `{s:i,s:s}`.
-/

namespace QfsClient

/-- An upper-case hex digit. -/
def hexDigitUpper (n : ℕ) : UInt8 := if n < 10 then (48 + n).toUInt8 else (55 + n).toUInt8

/-- The cases of `dump_string`'s `switch` that write a one-letter escape: a byte, and the letter
written after its backslash. -/
def escapeLetters : List (UInt8 × UInt8) :=
  [(chr '\\', chr '\\'), (chr '"', chr '"'), (8, chr 'b'), (12, chr 'f'), (10, chr 'n'),
    (13, chr 'r'), (9, chr 't')]

/-- How `dump_string` writes one byte of a string: a one-letter escape, `\u` and four hex digits
for another control character, or the byte itself. -/
def escapeByte (c : UInt8) : Bytes :=
  match escapeLetters.lookup c with
  | some e => [chr '\\', e]
  | none =>
    if c < 0x20 then
      [chr '\\', chr 'u', chr '0', chr '0', hexDigitUpper (c.toNat / 16),
        hexDigitUpper (c.toNat % 16)]
    else [c]

/-- `dump_string`. -/
def dumpString (s : Bytes) : Bytes := chr '"' :: s.flatMap escapeByte ++ [chr '"']

/-- Members in `strcmp` order of their keys. -/
def sortKeys (members : List (Bytes × Bytes)) : List (Bytes × Bytes) :=
  members.insertionSort fun a b ↦ a.1 ≤ b.1

/-- `do_dump` with `JSON_COMPACT | JSON_SORT_KEYS`. A real is written as the text it was
read from. -/
def dump : Json → Bytes
  | .null => ascii "null"
  | .bool true => ascii "true"
  | .bool false => ascii "false"
  | .integer i => ascii (toString i)
  | .real text => text
  | .string s => dumpString s
  | .array elems => chr '[' :: [chr ','].intercalate (dumpElems elems) ++ [chr ']']
  | .object members =>
    chr '{' :: [chr ','].intercalate
      ((sortKeys (dumpMembers members)).map fun m ↦ dumpString m.1 ++ chr ':' :: m.2) ++ [chr '}']
where
  dumpElems : List Json → List Bytes
    | [] => []
    | v :: vs => dump v :: dumpElems vs
  dumpMembers : List (Bytes × Json) → List (Bytes × Bytes)
    | [] => []
    | (k, v) :: rest => (k, dump v) :: dumpMembers rest

theorem dumpElems_eq (vs : List Json) : dump.dumpElems vs = vs.map dump := by
  induction vs with
  | nil => rfl
  | cons v vs ih => simp [dump.dumpElems, ih]

theorem dumpMembers_eq (ms : List (Bytes × Json)) :
    dump.dumpMembers ms = ms.map fun m ↦ (m.1, dump m.2) := by
  induction ms with
  | nil => rfl
  | cons m ms ih => simp [dump.dumpMembers, ih]

theorem dump_array_append (elems : List Json) (t : Bytes) :
    dump (.array elems) ++ t = chr '[' :: ([chr ','].intercalate (elems.map dump) ++ chr ']' :: t) := by
  simp [dump, dumpElems_eq]

/-- The order `JSON_SORT_KEYS` writes the members of an object in. -/
theorem sortKeys_dumpMembers (members : List (Bytes × Json)) :
    sortKeys (dump.dumpMembers members) =
      (members.insertionSort fun a b ↦ a.1 ≤ b.1).map fun m ↦ (m.1, dump m.2) := by
  rw [dumpMembers_eq, sortKeys]
  exact (List.map_insertionSort (fun a b : Bytes × Json ↦ a.1 ≤ b.1)
    (fun a b : Bytes × Bytes ↦ a.1 ≤ b.1)
    _ _ fun _ _ _ _ ↦ Iff.rfl).symm

theorem dump_object_append (members : List (Bytes × Json)) (t : Bytes) :
    dump (.object members) ++ t = chr '{' :: ([chr ','].intercalate
      ((members.insertionSort fun a b ↦ a.1 ≤ b.1).map fun m ↦ dumpString m.1 ++ chr ':' :: dump m.2) ++
        chr '}' :: t) := by
  simp [dump, sortKeys_dumpMembers, Function.comp_def]

/-- `do_dump` with `JSON_COMPACT` alone: the members of every object in the order they were
set. This is how the replies of the daemon are written here, in any order of their members. -/
def dumpCompact : Json → Bytes
  | .null => ascii "null"
  | .bool true => ascii "true"
  | .bool false => ascii "false"
  | .integer i => ascii (toString i)
  | .real text => text
  | .string s => dumpString s
  | .array elems => chr '[' :: [chr ','].intercalate (dumpElems elems) ++ [chr ']']
  | .object members => chr '{' :: [chr ','].intercalate (dumpMembers members) ++ [chr '}']
where
  dumpElems : List Json → List Bytes
    | [] => []
    | v :: vs => dumpCompact v :: dumpElems vs
  dumpMembers : List (Bytes × Json) → List Bytes
    | [] => []
    | (k, v) :: rest => (dumpString k ++ chr ':' :: dumpCompact v) :: dumpMembers rest

theorem dumpCompact_array_append (elems : List Json) (t : Bytes) :
    dumpCompact (.array elems) ++ t =
      chr '[' :: ([chr ','].intercalate (elems.map dumpCompact) ++ chr ']' :: t) := by
  have helems : ∀ vs, dumpCompact.dumpElems vs = vs.map dumpCompact := by
    intro vs
    induction vs with
    | nil => rfl
    | cons v vs ih => simp [dumpCompact.dumpElems, ih]
  simp [dumpCompact, helems]

theorem dumpCompact_object_append (members : List (Bytes × Json)) (t : Bytes) :
    dumpCompact (.object members) ++ t = chr '{' :: ([chr ','].intercalate
      (members.map fun m ↦ dumpString m.1 ++ chr ':' :: dumpCompact m.2) ++ chr '}' :: t) := by
  have hmembers : ∀ ms, dumpCompact.dumpMembers ms =
      ms.map fun m ↦ dumpString m.1 ++ chr ':' :: dumpCompact m.2 := by
    intro ms
    induction ms with
    | nil => rfl
    | cons m ms ih => simp [dumpCompact.dumpMembers, ih]
  simp [dumpCompact, hmembers]

theorem zero_not_mem_cString (b : Bytes) : 0 ∉ cString b := fun h ↦ by
  simpa using List.mem_takeWhile_imp h

/-- `json_dumps(request, JSON_COMPACT | JSON_SORT_KEYS)` of an object. `json_dumps` returns
`NULL` only for a value that is neither an array nor an object, and `SendJson` is only given
objects. -/
def jsonDumps (members : List (Bytes × Json)) : CStr :=
  ⟨cString (dump (.object members)), zero_not_mem_cString _⟩

/-- `json_pack_ex(&error, 0, "{s:i,s:s}", key1, i, key2, s)`: the members of an object of two
members, or the text of the error when a key or the string is not valid UTF-8. -/
def packGetAccessed (key1 : CStr) (i : ℤ) (key2 : CStr) (s : CStr) :
    Except Bytes (List (Bytes × Json)) :=
  if !utf8CheckString key1.bytes || !utf8CheckString key2.bytes then
    .error (ascii "Invalid UTF-8 object key")
  else if !utf8CheckString s.bytes then .error (ascii "Invalid UTF-8 string")
  else .ok (assocSet (assocSet [] key1.bytes (.integer i)) key2.bytes (.string s.bytes))

end QfsClient
