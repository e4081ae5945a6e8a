import QfsClient.Basic

/-!
# Jansson values

The client builds its requests and reads its responses with jansson. `Json` is a `json_t` as
jansson builds it: a real keeps the text it was read from, and an object keeps its members in
insertion order, set with `assocSet` as `json_object_set_nocheck` sets them. Every value
jansson builds has objects whose keys are unique and hold no NUL byte; `WellFormed` says so.

The UTF-8 checks are those of jansson's `utf8.c`: `utf8_check_first`, `utf8_check_full`,
`utf8_check_string` and `utf8_encode`.
-/

namespace QfsClient

/-- The byte of an ASCII character. -/
def chr (c : Char) : UInt8 := c.toNat.toUInt8

inductive Json where
  | null
  | bool (b : Bool)
  | integer (i : ℤ)
  | real (text : Bytes)
  | string (s : Bytes)
  | array (elems : List Json)
  | object (members : List (Bytes × Json))

namespace Json

/-- `json_object_get`; `none` is `NULL`, for a missing key and for a value that is not an
object. -/
def objectGet : Json → Bytes → Option Json
  | .object members, key => members.lookup key
  | _, _ => none

/-- `json_is_integer`. -/
def isInteger : Json → Bool
  | .integer _ => true
  | _ => false

/-- `json_is_boolean`. -/
def isBoolean : Json → Bool
  | .bool _ => true
  | _ => false

/-- `json_is_true`. -/
def isTrue : Json → Bool
  | .bool b => b
  | _ => false

theorem eq_bool_of_isBoolean : ∀ {v : Json}, v.isBoolean = true → v = .bool v.isTrue
  | .bool _, _ => rfl

/-- `json_integer_value`, which is 0 for a value that is not an integer. -/
def integerValue : Json → ℤ
  | .integer i => i
  | _ => 0

/-- `json_string_value`; `none` is `NULL`. -/
def stringValue : Json → Option Bytes
  | .string s => some s
  | _ => none

/-- The pairs `json_object_foreach` visits: the members of an object, and none for another
value, on which `json_object_iter` returns `NULL`. -/
def objectItems : Json → List (Bytes × Json)
  | .object members => members
  | _ => []

theorem objectGet_eq_lookup (v : Json) (key : Bytes) : v.objectGet key = v.objectItems.lookup key := by
  cases v <;> rfl

/-- What jansson guarantees of a value it builds: every object has unique keys, none of
them holding a NUL byte. -/
inductive WellFormed : Json → Prop
  | null : WellFormed .null
  | bool (b : Bool) : WellFormed (.bool b)
  | integer (i : ℤ) : WellFormed (.integer i)
  | real (text : Bytes) : WellFormed (.real text)
  | string (s : Bytes) : WellFormed (.string s)
  | array {elems : List Json} : (∀ v ∈ elems, WellFormed v) → WellFormed (.array elems)
  | object {members : List (Bytes × Json)} : (members.map Prod.fst).Nodup →
      (∀ m ∈ members, 0 ∉ m.1) → (∀ m ∈ members, WellFormed m.2) → WellFormed (.object members)

theorem WellFormed.objectGet {v w : Json} {key : Bytes} (hv : v.WellFormed)
    (h : v.objectGet key = some w) : w.WellFormed := by
  cases hv with
  | @object members _ _ hall =>
    obtain ⟨l₁, l₂, rfl, -⟩ := List.lookup_eq_some_iff.mp h
    exact hall (key, w) (by simp)
  | _ => simp [Json.objectGet] at h

theorem WellFormed.objectItems {v : Json} (hv : v.WellFormed) :
    (v.objectItems.map Prod.fst).Nodup ∧ ∀ m ∈ v.objectItems, 0 ∉ m.1 := by
  cases hv with
  | object hnodup hkeys _ => exact ⟨hnodup, hkeys⟩
  | _ => simp [Json.objectItems]

end Json

/-! ## UTF-8 -/

/-- `utf8_check_first`: the length of the sequence a byte starts, 0 when it starts none. -/
def utf8CheckFirst (u : UInt8) : ℕ :=
  if u < 0x80 then 1
  else if u ≤ 0xC1 then 0
  else if u ≤ 0xDF then 2
  else if u ≤ 0xEF then 3
  else if u ≤ 0xF4 then 4
  else 0

/-- `utf8_check_full` of a lead byte and its continuation bytes: the code point, when the
sequence is one. -/
def utf8CheckFull (lead : UInt8) (cont : Bytes) : Option ℕ :=
  let size := cont.length + 1
  let value := cont.foldl (fun v u ↦ v * 64 + u.toNat % 64)
    (lead.toNat % (if size = 2 then 32 else if size = 3 then 16 else 8))
  if size < 2 ∨ 4 < size ∨ cont.any (fun u ↦ u < 0x80 ∨ 0xBF < u) then none
  else if 0x10FFFF < value ∨ (0xD800 ≤ value ∧ value ≤ 0xDFFF) then none
  else if (size = 2 ∧ value < 0x80) ∨ (size = 3 ∧ value < 0x800) ∨
      (size = 4 ∧ value < 0x10000) then none
  else some value

/-- Whether the bytes at a lead byte `c ≥ 0x80` form one whole UTF-8 sequence: the check
`utf8_check_string` makes, and jansson's input stream makes when it reads such a byte. -/
def utf8SequenceOk (c : UInt8) (rest : Bytes) : Bool :=
  match utf8CheckFirst c with
  | 0 => false
  | n + 1 => n ≤ rest.length && (utf8CheckFull c (rest.take n)).isSome

/-- The loop of `utf8_check_string`: a byte that is not ASCII must start a whole sequence, and
the loop skips its continuation bytes; `pending` counts those still to skip. -/
def utf8CheckLoop (pending : ℕ) : Bytes → Bool
  | [] => true
  | c :: rest =>
    if pending ≠ 0 then utf8CheckLoop (pending - 1) rest
    else if c < 0x80 then utf8CheckLoop 0 rest
    else utf8SequenceOk c rest && utf8CheckLoop (utf8CheckFirst c - 1) rest

/-- `utf8_check_string`. -/
def utf8CheckString (s : Bytes) : Bool := utf8CheckLoop 0 s

theorem utf8CheckLoop_eq_drop (k : ℕ) (l : Bytes) : utf8CheckLoop k l = utf8CheckString (l.drop k) := by
  induction l generalizing k with
  | nil => cases k <;> rfl
  | cons c l ih =>
    cases k with
    | zero => rfl
    | succ k => simp [utf8CheckLoop, ih]

/-- `utf8_check_string` over a string: an ASCII byte, or a whole sequence, then the rest. -/
theorem utf8CheckString_cons (c : UInt8) (rest : Bytes) :
    utf8CheckString (c :: rest) = if c < 0x80 then utf8CheckString rest
      else utf8SequenceOk c rest && utf8CheckString (rest.drop (utf8CheckFirst c - 1)) := by
  rw [utf8CheckString, utf8CheckLoop, utf8CheckLoop_eq_drop (utf8CheckFirst c - 1)]
  rfl

theorem utf8SequenceOk_eq_true {c : UInt8} {rest : Bytes} (h : utf8SequenceOk c rest = true) :
    ∃ n, utf8CheckFirst c = n + 1 ∧ n ≤ rest.length ∧ (utf8CheckFull c (rest.take n)).isSome := by
  unfold utf8SequenceOk at h
  split at h
  · cases h
  · rename_i n hn
    simp only [Bool.and_eq_true, decide_eq_true_eq] at h
    exact ⟨n, hn, h⟩

theorem utf8CheckFirst_ne_one {c : UInt8} (h : ¬c < 0x80) : utf8CheckFirst c ≠ 1 := by
  unfold utf8CheckFirst
  rw [if_neg h]
  split_ifs <;> decide

theorem le_of_utf8CheckFirst {c : UInt8} {n : ℕ} (h : utf8CheckFirst c = n + 2) : 0x80 ≤ c := by
  by_contra hlt
  simp [utf8CheckFirst, UInt8.not_le.mp hlt] at h

theorem le_of_utf8CheckFull {lead : UInt8} {cont : Bytes} (h : (utf8CheckFull lead cont).isSome) :
    ∀ u ∈ cont, 0x80 ≤ u := by
  intro u hu
  by_contra hlt
  have hany : cont.any (fun u ↦ u < 0x80 ∨ 0xBF < u) = true :=
    List.any_eq_true.mpr ⟨u, hu, by simp [UInt8.not_le.mp hlt]⟩
  simp only [utf8CheckFull, hany, or_true, if_true, Option.isSome_none, Bool.false_eq_true] at h

/-- `utf8_encode`, for a code point of at most `0x10FFFF`. -/
def utf8Encode (cp : ℕ) : Bytes :=
  if cp < 0x80 then [cp.toUInt8]
  else if cp < 0x800 then [(0xC0 + cp / 64).toUInt8, (0x80 + cp % 64).toUInt8]
  else if cp < 0x10000 then
    [(0xE0 + cp / 4096).toUInt8, (0x80 + cp / 64 % 64).toUInt8, (0x80 + cp % 64).toUInt8]
  else
    [(0xF0 + cp / 262144).toUInt8, (0x80 + cp / 4096 % 64).toUInt8,
      (0x80 + cp / 64 % 64).toUInt8, (0x80 + cp % 64).toUInt8]

end QfsClient
