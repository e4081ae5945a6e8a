import QfsClient.Jansson.Tokens
import QfsClient.Jansson.Fuel

/-!
# json_loads reads back what json_dumps writes

`SendJson` writes its request with `json_dumps(request, JSON_COMPACT | JSON_SORT_KEYS)`, and
the daemon's answer is read with `json_loads`. This module shows that the formats agree, for
every value jansson can encode (`Encodable`: integers in the range of `json_int_t`, strings and
keys valid UTF-8 with no NUL byte, unique keys, and at most `JSON_PARSER_MAX_DEPTH` nested
values) and under any flags.

The daemon writes its reply as compact JSON, whose strings and keys may hold any bytes
(`Writable`). `parseJson_dumpCompact`: `json_loads` reads that text back as the value itself,
the members of each object in the order they were written and its integers read as reals under
`JSON_DECODE_INT_AS_REAL` (`Json.decoded`), exactly when the value is `accepted`: every key valid
UTF-8 with no NUL byte, every string valid UTF-8, and with no NUL byte unless the flags set
`JSON_ALLOW_NUL`. It fails on every other reply. The text `json_dumps` writes with
`JSON_SORT_KEYS` is the compact text of the value with the members of each object sorted
(`dump_eq_dumpCompact`), so `json_loads` reads a request back with its members in `strcmp` order
(`Json.loaded`, `jsonLoads_jsonDumps`).

The proof follows the parser. `ReadsBack` says that `lex_scan` and `parse_value` read a text
back as a value, or fail on it, and stop at its end, whatever may follow a value there;
`dumpCompact_readsBack` proves it of every value, by induction on `Writable`, with the tokens of
`QfsClient.Jansson.Tokens` at the leaves and one lemma for each of the loops of `parse_array` and
`parse_object`. Those loops run on fuel, and the lemmas of `QfsClient.Jansson.Fuel` show that the
fuel `parse_object` gives them is enough.
-/

namespace QfsClient

/-! ## What json_loads returns -/

namespace Json

/-- What `json_loads` returns for the text `json_dumps` writes of a value: the members of every
object in `strcmp` order of their keys, and under `JSON_DECODE_INT_AS_REAL` every integer as a
real. -/
def loaded (intAsReal : Bool) : Json → Json
  | .integer i => if intAsReal then .real (ascii (toString i)) else .integer i
  | .array elems => .array (loadedElems intAsReal elems)
  | .object members =>
    .object ((loadedMembers intAsReal members).insertionSort fun a b ↦ a.1 ≤ b.1)
  | v => v
where
  loadedElems (intAsReal : Bool) : List Json → List Json
    | [] => []
    | v :: vs => v.loaded intAsReal :: loadedElems intAsReal vs
  loadedMembers (intAsReal : Bool) : List (Bytes × Json) → List (Bytes × Json)
    | [] => []
    | (k, v) :: rest => (k, v.loaded intAsReal) :: loadedMembers intAsReal rest

theorem loadedElems_eq (intAsReal : Bool) (vs : List Json) :
    loaded.loadedElems intAsReal vs = vs.map (loaded intAsReal) := by
  induction vs with
  | nil => rfl
  | cons v vs ih => simp [loaded.loadedElems, ih]

theorem loadedMembers_eq (intAsReal : Bool) (ms : List (Bytes × Json)) :
    loaded.loadedMembers intAsReal ms = ms.map fun m ↦ (m.1, m.2.loaded intAsReal) := by
  induction ms with
  | nil => rfl
  | cons m ms ih => simp [loaded.loadedMembers, ih]

/-- What `json_loads` returns for the text `dumpCompact` writes of a value: the value itself,
with every integer read as a real of its decimal text under `JSON_DECODE_INT_AS_REAL`. -/
def decoded (intAsReal : Bool) : Json → Json
  | .integer i => if intAsReal then .real (ascii (toString i)) else .integer i
  | .array elems => .array (decodedElems intAsReal elems)
  | .object members => .object (decodedMembers intAsReal members)
  | v => v
where
  decodedElems (intAsReal : Bool) : List Json → List Json
    | [] => []
    | v :: vs => v.decoded intAsReal :: decodedElems intAsReal vs
  decodedMembers (intAsReal : Bool) : List (Bytes × Json) → List (Bytes × Json)
    | [] => []
    | (k, v) :: rest => (k, v.decoded intAsReal) :: decodedMembers intAsReal rest

theorem decodedElems_eq (intAsReal : Bool) (vs : List Json) :
    decoded.decodedElems intAsReal vs = vs.map (decoded intAsReal) := by
  induction vs with
  | nil => rfl
  | cons v vs ih => simp [decoded.decodedElems, ih]

theorem decodedMembers_eq (intAsReal : Bool) (ms : List (Bytes × Json)) :
    decoded.decodedMembers intAsReal ms = ms.map fun m ↦ (m.1, m.2.decoded intAsReal) := by
  induction ms with
  | nil => rfl
  | cons m ms ih => simp [decoded.decodedMembers, ih]

@[simp]
theorem stringValue_decoded (intAsReal : Bool) (v : Json) :
    (v.decoded intAsReal).stringValue = v.stringValue := by
  cases v <;> cases intAsReal <;> rfl

@[simp]
theorem isBoolean_decoded (intAsReal : Bool) (v : Json) :
    (v.decoded intAsReal).isBoolean = v.isBoolean := by
  cases v <;> cases intAsReal <;> rfl

@[simp]
theorem isTrue_decoded (intAsReal : Bool) (v : Json) :
    (v.decoded intAsReal).isTrue = v.isTrue := by
  cases v <;> cases intAsReal <;> rfl

/-- The value with the members of every object in `strcmp` order of their keys, the order
`JSON_SORT_KEYS` writes them in. -/
def sortKeysDeep : Json → Json
  | .array elems => .array (sortElems elems)
  | .object members => .object ((sortMembers members).insertionSort fun a b ↦ a.1 ≤ b.1)
  | v => v
where
  sortElems : List Json → List Json
    | [] => []
    | v :: vs => v.sortKeysDeep :: sortElems vs
  sortMembers : List (Bytes × Json) → List (Bytes × Json)
    | [] => []
    | (k, v) :: rest => (k, v.sortKeysDeep) :: sortMembers rest

theorem sortElems_eq (vs : List Json) : sortKeysDeep.sortElems vs = vs.map sortKeysDeep := by
  induction vs with
  | nil => rfl
  | cons v vs ih => simp [sortKeysDeep.sortElems, ih]

theorem sortMembers_eq (ms : List (Bytes × Json)) :
    sortKeysDeep.sortMembers ms = ms.map fun m ↦ (m.1, m.2.sortKeysDeep) := by
  induction ms with
  | nil => rfl
  | cons m ms ih => simp [sortKeysDeep.sortMembers, ih]

end Json

theorem loaded_object (intAsReal : Bool) (members : List (Bytes × Json)) :
    (Json.object members).loaded intAsReal =
      .object ((members.insertionSort fun a b ↦ a.1 ≤ b.1).map
        fun m ↦ (m.1, m.2.loaded intAsReal)) := by
  rw [Json.loaded, Json.loadedMembers_eq,
    ← List.map_insertionSort (fun a b : Bytes × Json ↦ a.1 ≤ b.1) (fun a b : Bytes × Json ↦ a.1 ≤ b.1)
      (fun m ↦ (m.1, m.2.loaded intAsReal)) members fun _ _ _ _ ↦ Iff.rfl]

example : (Json.object [(ascii "b", .null), (ascii "a", .integer (-5))]).loaded true =
    .object [(ascii "a", .real (ascii "-5")), (ascii "b", .null)] := by
  rfl

theorem sortKeysDeep_object (members : List (Bytes × Json)) :
    (Json.object members).sortKeysDeep =
      .object ((members.insertionSort fun a b ↦ a.1 ≤ b.1).map fun m ↦ (m.1, m.2.sortKeysDeep)) := by
  rw [Json.sortKeysDeep, Json.sortMembers_eq,
    ← List.map_insertionSort (fun a b : Bytes × Json ↦ a.1 ≤ b.1) (fun a b : Bytes × Json ↦ a.1 ≤ b.1)
      (fun m ↦ (m.1, m.2.sortKeysDeep)) members fun _ _ _ _ ↦ Iff.rfl]

theorem decoded_object (intAsReal : Bool) (members : List (Bytes × Json)) :
    (Json.object members).decoded intAsReal =
      .object (members.map fun m ↦ (m.1, m.2.decoded intAsReal)) := by
  rw [Json.decoded, Json.decodedMembers_eq]

theorem lookup_map_snd {β γ : Type} (f : β → γ) (k : Bytes) :
    ∀ l : List (Bytes × β), (l.map fun m ↦ (m.1, f m.2)).lookup k = (l.lookup k).map f
  | [] => rfl
  | (k', b) :: l => by
    simp only [List.map_cons, List.lookup_cons]
    split <;> simp [lookup_map_snd f k l]

/-- A member of the object `json_loads` reads back from the text `dumpCompact` writes is the
member that was written, read back in the same way. -/
theorem objectGet_decoded (intAsReal : Bool) (members : List (Bytes × Json)) (k : Bytes) :
    ((Json.object members).decoded intAsReal).objectGet k =
      (members.lookup k).map (Json.decoded intAsReal) := by
  rw [decoded_object, Json.objectGet, lookup_map_snd]


/-! ## The values jansson encodes -/

/-- The values `json_dumps` writes and `json_loads` reads back, nesting at most `depth` values:
integers in the range of `json_int_t`, valid UTF-8 strings and keys with no NUL byte, objects
with unique keys, and no reals. -/
inductive Encodable : ℕ → Json → Prop
  | null {depth : ℕ} : Encodable (depth + 1) .null
  | bool {depth : ℕ} (b : Bool) : Encodable (depth + 1) (.bool b)
  | integer {depth : ℕ} {i : ℤ} (hlo : -(Nat.pow 2 63 : ℤ) ≤ i) (hhi : i < Nat.pow 2 63) :
      Encodable (depth + 1) (.integer i)
  | string {depth : ℕ} {s : Bytes} (hutf8 : utf8CheckString s = true) (hnul : 0 ∉ s) :
      Encodable (depth + 1) (.string s)
  | array {depth : ℕ} {elems : List Json} (h : ∀ v ∈ elems, Encodable depth v) :
      Encodable (depth + 1) (.array elems)
  | object {depth : ℕ} {members : List (Bytes × Json)} (hkeys : (members.map Prod.fst).Nodup)
      (hkey : ∀ m ∈ members, utf8CheckString m.1 = true ∧ 0 ∉ m.1)
      (h : ∀ m ∈ members, Encodable depth m.2) :
      Encodable (depth + 1) (.object members)

/-- Whether a value is `Encodable`, as a check that runs. -/
def encodable : Json → ℕ → Bool
  | _, 0 => false
  | .null, _ + 1 => true
  | .bool _, _ + 1 => true
  | .integer i, _ + 1 => decide (-(Nat.pow 2 63 : ℤ) ≤ i ∧ i < Nat.pow 2 63)
  | .real _, _ + 1 => false
  | .string s, _ + 1 => utf8CheckString s && decide (0 ∉ s)
  | .array elems, depth + 1 => encodableElems elems depth
  | .object members, depth + 1 =>
    decide (members.map Prod.fst).Nodup && encodableMembers members depth
where
  encodableElems : List Json → ℕ → Bool
    | [], _ => true
    | v :: vs, depth => encodable v depth && encodableElems vs depth
  encodableMembers : List (Bytes × Json) → ℕ → Bool
    | [], _ => true
    | (k, v) :: rest, depth =>
      utf8CheckString k && decide (0 ∉ k) && encodable v depth && encodableMembers rest depth

theorem encodableElems_iff (elems : List Json) (depth : ℕ) :
    encodable.encodableElems elems depth = true ↔ ∀ v ∈ elems, encodable v depth = true := by
  induction elems with
  | nil => simp [encodable.encodableElems]
  | cons v vs ih => simp [encodable.encodableElems, ih]

theorem encodableMembers_iff (members : List (Bytes × Json)) (depth : ℕ) :
    encodable.encodableMembers members depth = true ↔
      ∀ m ∈ members, (utf8CheckString m.1 = true ∧ 0 ∉ m.1) ∧ encodable m.2 depth = true := by
  induction members with
  | nil => simp [encodable.encodableMembers]
  | cons m ms ih =>
    obtain ⟨k, v⟩ := m
    simp [encodable.encodableMembers, ih, and_assoc]

theorem encodable_iff : ∀ (depth : ℕ) (v : Json), encodable v depth = true ↔ Encodable depth v
  | 0, v => ⟨fun h ↦ (by cases v <;> cases h), nofun⟩
  | depth + 1, v => by
    have ih := encodable_iff depth
    constructor
    · intro h
      cases v with
      | null => exact .null
      | bool b => exact .bool b
      | integer i => exact .integer (of_decide_eq_true h).1 (of_decide_eq_true h).2
      | real text => cases h
      | string s =>
        obtain ⟨hutf8, hnul⟩ := Bool.and_eq_true_iff.mp h
        exact .string hutf8 (of_decide_eq_true hnul)
      | array elems => exact .array fun w hw ↦ (ih w).mp ((encodableElems_iff elems depth).mp h w hw)
      | object members =>
        obtain ⟨hkeys, hmembers⟩ := Bool.and_eq_true_iff.mp h
        have hmembers := (encodableMembers_iff members depth).mp hmembers
        exact .object (of_decide_eq_true hkeys) (fun m hm ↦ (hmembers m hm).1)
          fun m hm ↦ (ih m.2).mp (hmembers m hm).2
    · intro h
      cases h with
      | null => rfl
      | bool => rfl
      | integer hlo hhi => exact decide_eq_true ⟨hlo, hhi⟩
      | string hutf8 hnul => exact Bool.and_eq_true_iff.mpr ⟨hutf8, decide_eq_true hnul⟩
      | array h => exact (encodableElems_iff _ depth).mpr fun w hw ↦ (ih w).mpr (h w hw)
      | object hkeys hkey h =>
        exact Bool.and_eq_true_iff.mpr ⟨decide_eq_true hkeys,
          (encodableMembers_iff _ depth).mpr fun m hm ↦ ⟨hkey m hm, (ih m.2).mpr (h m hm)⟩⟩

instance (depth : ℕ) : DecidablePred (Encodable depth) :=
  fun v ↦ decidable_of_iff _ (encodable_iff depth v)

/-- The members of an encodable object: unique keys, valid UTF-8 with no NUL byte, and values
that are encodable one level down. -/
theorem Encodable.object_members {depth : ℕ} {members : List (Bytes × Json)}
    (hv : Encodable depth (.object members)) :
    (members.map Prod.fst).Nodup ∧ (∀ m ∈ members, utf8CheckString m.1 = true ∧ 0 ∉ m.1) ∧
      ∀ m ∈ members, Encodable (depth - 1) m.2 := by
  cases hv with
  | object hkeys hkey h => exact ⟨hkeys, hkey, h⟩

/-! ## The values a reply holds -/

/-- The values a reply may hold as `dumpCompact` writes them, nesting at most `depth` values:
integers in the range of `json_int_t`, and objects with unique keys. Strings and keys may hold
any bytes. -/
inductive Writable : ℕ → Json → Prop
  | null {depth : ℕ} : Writable (depth + 1) .null
  | bool {depth : ℕ} (b : Bool) : Writable (depth + 1) (.bool b)
  | integer {depth : ℕ} {i : ℤ} (hlo : -(Nat.pow 2 63 : ℤ) ≤ i) (hhi : i < Nat.pow 2 63) :
      Writable (depth + 1) (.integer i)
  | string {depth : ℕ} (s : Bytes) : Writable (depth + 1) (.string s)
  | array {depth : ℕ} {elems : List Json} (h : ∀ v ∈ elems, Writable depth v) :
      Writable (depth + 1) (.array elems)
  | object {depth : ℕ} {members : List (Bytes × Json)} (hkeys : (members.map Prod.fst).Nodup)
      (h : ∀ m ∈ members, Writable depth m.2) : Writable (depth + 1) (.object members)

theorem Writable.object_members {depth : ℕ} {members : List (Bytes × Json)}
    (hv : Writable depth (.object members)) :
    (members.map Prod.fst).Nodup ∧ ∀ m ∈ members, Writable (depth - 1) m.2 := by
  cases hv with
  | object hkeys h => exact ⟨hkeys, h⟩

theorem Encodable.writable {depth : ℕ} {v : Json} (hv : Encodable depth v) : Writable depth v := by
  induction hv with
  | null => exact .null
  | bool b => exact .bool b
  | integer hlo hhi => exact .integer hlo hhi
  | string => exact .string _
  | array _ ih => exact .array ih
  | object hkeys _ _ ih => exact .object hkeys ih

namespace Json

/-- Whether `json_loads` reads back the text `dumpCompact` writes of a value: every key is valid
UTF-8 with no NUL byte, and every string is valid UTF-8, with no NUL byte unless `allowNul`
(`JSON_ALLOW_NUL`) is set. -/
def accepted (allowNul : Bool) : Json → Bool
  | .string s => utf8CheckString s && (allowNul || decide (0 ∉ s))
  | .array elems => acceptedElems allowNul elems
  | .object members => acceptedMembers allowNul members
  | _ => true
where
  acceptedElems (allowNul : Bool) : List Json → Bool
    | [] => true
    | v :: vs => v.accepted allowNul && acceptedElems allowNul vs
  acceptedMembers (allowNul : Bool) : List (Bytes × Json) → Bool
    | [] => true
    | (k, v) :: rest =>
      utf8CheckString k && decide (0 ∉ k) && v.accepted allowNul && acceptedMembers allowNul rest

/-- A member is read back when its key is valid UTF-8 with no NUL byte and its value is read
back. -/
def memberAccepted (allowNul : Bool) (m : Bytes × Json) : Bool :=
  utf8CheckString m.1 && decide (0 ∉ m.1) && m.2.accepted allowNul

@[simp]
theorem accepted_array (allowNul : Bool) (vs : List Json) :
    (Json.array vs).accepted allowNul = vs.all (accepted allowNul) := by
  rw [accepted]
  induction vs with
  | nil => rfl
  | cons v vs ih => simp [accepted.acceptedElems, ih]

@[simp]
theorem accepted_object (allowNul : Bool) (ms : List (Bytes × Json)) :
    (Json.object ms).accepted allowNul = ms.all (memberAccepted allowNul) := by
  rw [accepted]
  induction ms with
  | nil => rfl
  | cons m ms ih =>
    obtain ⟨k, v⟩ := m
    simp only [accepted.acceptedMembers, ih, List.all_cons, memberAccepted, Bool.and_assoc]

theorem memberAccepted_iff (allowNul : Bool) (m : Bytes × Json) :
    memberAccepted allowNul m = true ↔
      (utf8CheckString m.1 = true ∧ 0 ∉ m.1) ∧ m.2.accepted allowNul = true := by
  simp only [memberAccepted, Bool.and_eq_true, decide_eq_true_eq]

/-- What `json_loads` makes of the text `dumpCompact` writes of a value: the value as `decoded`
reads it when it is `accepted`, and an error, `none`, when not. -/
def readBack (flags : DecodeFlags) (v : Json) : Option Json :=
  if v.accepted flags.allowNul then some (v.decoded flags.decodeIntAsReal) else none

end Json

theorem Encodable.accepted {depth : ℕ} {v : Json} (hv : Encodable depth v) (allowNul : Bool) :
    v.accepted allowNul = true := by
  induction hv with
  | string hutf8 hnul => simp [Json.accepted, hutf8, hnul]
  | array _ ih => simpa using ih
  | object _ hkey _ ih =>
    simp only [Json.accepted_object, List.all_eq_true, Json.memberAccepted_iff]
    exact fun m hm ↦ ⟨hkey m hm, ih m hm⟩
  | _ => rfl

/-! ## The sorted text is the compact text of the sorted value -/

theorem Encodable.sortKeysDeep {depth : ℕ} {v : Json} (hv : Encodable depth v) :
    Encodable depth v.sortKeysDeep := by
  induction hv with
  | null => exact .null
  | bool b => exact .bool b
  | integer hlo hhi => exact .integer hlo hhi
  | string hutf8 hnul => exact .string hutf8 hnul
  | array h ih =>
    rw [Json.sortKeysDeep, Json.sortElems_eq]
    refine .array fun w hw ↦ ?_
    obtain ⟨u, hu, rfl⟩ := List.mem_map.mp hw
    exact ih u hu
  | @object depth members hkeys hkey h ih =>
    have hperm := List.perm_insertionSort (fun a b : Bytes × Json ↦ a.1 ≤ b.1) members
    rw [sortKeysDeep_object]
    refine .object ?_ (fun m hm ↦ ?_) fun m hm ↦ ?_
    · rw [List.map_map]
      exact (hperm.map Prod.fst).nodup_iff.mpr hkeys
    all_goals
      obtain ⟨m', hm', rfl⟩ := List.mem_map.mp hm
    · exact hkey m' (hperm.subset hm')
    · exact ih m' (hperm.subset hm')

/-- `json_dumps` with `JSON_SORT_KEYS` writes the compact text of the value with its members
sorted. -/
theorem dump_eq_dumpCompact {depth : ℕ} {v : Json} (hv : Encodable depth v) :
    dump v = dumpCompact v.sortKeysDeep := by
  induction hv with
  | null => rfl
  | bool b => cases b <;> rfl
  | integer => rfl
  | string => rfl
  | @array depth elems h ih =>
    rw [← List.append_nil (dump _), dump_array_append, Json.sortKeysDeep, Json.sortElems_eq,
      ← List.append_nil (dumpCompact _), dumpCompact_array_append, List.map_map]
    exact congrArg _ (congrArg (· ++ _) (congrArg _ (List.map_congr_left fun w hw ↦ ih w hw)))
  | @object depth members hkeys hkey h ih =>
    rw [← List.append_nil (dump _), dump_object_append, sortKeysDeep_object,
      ← List.append_nil (dumpCompact _), dumpCompact_object_append, List.map_map]
    refine congrArg _ (congrArg (· ++ _) (congrArg _ (List.map_congr_left fun m hm ↦ ?_)))
    simp [ih m ((List.perm_insertionSort _ members).subset hm)]

/-- What `json_loads` reads back from the sorted text is what it reads back from the compact
text of the sorted value. -/
theorem loaded_eq_decoded (intAsReal : Bool) {depth : ℕ} {v : Json} (hv : Encodable depth v) :
    v.loaded intAsReal = v.sortKeysDeep.decoded intAsReal := by
  induction hv with
  | null => rfl
  | bool => rfl
  | integer => rfl
  | string => rfl
  | @array depth elems h ih =>
    simp only [Json.loaded, Json.loadedElems_eq, Json.sortKeysDeep, Json.sortElems_eq,
      Json.decoded, Json.decodedElems_eq, List.map_map]
    exact congrArg _ (List.map_congr_left fun w hw ↦ ih w hw)
  | @object depth members hkeys hkey h ih =>
    rw [loaded_object, sortKeysDeep_object, decoded_object, List.map_map]
    refine congrArg _ (List.map_congr_left fun m hm ↦ ?_)
    simp [ih m ((List.perm_insertionSort _ members).subset hm)]

/-! ## Reading back one value -/

/-- The text after the first item of a container as `dump` writes it: each further item after a
`,`, then the closing bracket `close` and what follows the container. -/
def restItems (items : List Bytes) (close : UInt8) (t : Bytes) : Bytes :=
  items.foldr (fun y r ↦ chr ',' :: y ++ r) (close :: t)

@[simp]
theorem restItems_nil (close : UInt8) (t : Bytes) : restItems [] close t = close :: t := rfl

@[simp]
theorem restItems_cons (y : Bytes) (ys : List Bytes) (close : UInt8) (t : Bytes) :
    restItems (y :: ys) close t = chr ',' :: y ++ restItems ys close t := rfl

theorem intercalate_append_close (x : Bytes) (xs : List Bytes) (close : UInt8) (t : Bytes) :
    [chr ','].intercalate (x :: xs) ++ close :: t = x ++ restItems xs close t := by
  induction xs generalizing x with
  | nil => simp [restItems, List.intercalate]
  | cons y ys ih =>
    show x ++ ([chr ','] ++ [chr ','].intercalate (y :: ys)) ++ close :: t = _
    rw [List.append_assoc, List.append_assoc, ih]
    rfl

theorem delimited_restItems (items : List Bytes) {close : UInt8}
    (hclose : close = chr ']' ∨ close = chr '}')
    (t : Bytes) : Delimited (restItems items close t) := by
  cases items with
  | nil => intro c hc; cases hc; exact .inr hclose
  | cons y ys => intro c hc; cases hc; exact .inl rfl

theorem parseValue_ne_ok_of_close {flags : DecodeFlags} {depth : ℕ} {tok : Token} {input : Bytes}
    {r : Json × Bytes} (htok : tok = .eof ∨ tok = .rbracket ∨ tok = .rbrace) :
    parseValue flags depth tok input ≠ .ok r := by
  cases depth <;> rcases htok with rfl | rfl | rfl <;> simp [parseValue]

theorem Json.readBack_array (flags : DecodeFlags) (vs : List Json) :
    (Json.array vs).readBack flags =
      if vs.all (·.accepted flags.allowNul) then
        some (.array (vs.map (Json.decoded flags.decodeIntAsReal)))
      else none := by
  rw [Json.readBack, Json.accepted_array, Json.decoded, Json.decodedElems_eq]

theorem Json.readBack_object (flags : DecodeFlags) (ms : List (Bytes × Json)) :
    (Json.object ms).readBack flags =
      if ms.all (Json.memberAccepted flags.allowNul) then
        some (.object (ms.map fun m ↦ (m.1, m.2.decoded flags.decodeIntAsReal)))
      else none := by
  rw [Json.readBack, Json.accepted_object, decoded_object]

/-- `lex_scan`, then `parse_value` at the token it read: the value at the start of the input, and
what follows it. -/
def readValue (flags : DecodeFlags) (depth : ℕ) (input : Bytes) : Except DecodeError (Json × Bytes) :=
  lexScan flags.decodeIntAsReal input >>= fun r ↦ parseValue flags depth r.1 r.2

/-- `parse_value`, able to nest `depth` more values, reads `text` back as `v`, or fails on it when
`v` is `none`, and stops at its end, whatever may follow a value there. -/
def ReadsBack (flags : DecodeFlags) (depth : ℕ) (text : Bytes) (v : Option Json) : Prop :=
  ∀ t, Delimited t → (readValue flags depth (text ++ t)).toOption = v.map (·, t)

section ReadsBack

variable {flags : DecodeFlags} {depth : ℕ} {text : Bytes} {v : Json} {t : Bytes}
  (h : ReadsBack flags depth text (v.readBack flags)) (ht : Delimited t)
include h ht

/-- A value whose first token the lexer fails on is not `accepted`. -/
theorem ReadsBack.not_accepted {e : DecodeError}
    (hlex : lexScan flags.decodeIntAsReal (text ++ t) = .error e) :
    v.accepted flags.allowNul = false := by
  have h := h t ht
  rw [readValue, hlex] at h
  simpa [Json.readBack] using Option.map_eq_none'.mp h.symm

variable {tok : Token} {after : Bytes}
  (hlex : lexScan flags.decodeIntAsReal (text ++ t) = .ok (tok, after))
include hlex

theorem ReadsBack.parseValue_ok (hv : v.accepted flags.allowNul = true) :
    parseValue flags depth tok after = .ok (v.decoded flags.decodeIntAsReal, t) := by
  have h := h t ht
  rw [readValue, hlex, ok_bind, Json.readBack, if_pos hv] at h
  exact toOption_eq_some.mp h

theorem ReadsBack.parseValue_error (hv : v.accepted flags.allowNul = false) :
    ∃ e, parseValue flags depth tok after = .error e := by
  have h := h t ht
  rw [readValue, hlex, ok_bind, Json.readBack, if_neg (by simp [hv])] at h
  exact toOption_eq_none.mp h

end ReadsBack

/-- The first token of the text `dumpCompact` writes is never the `]` that closes an array. -/
theorem lexScan_dumpCompact_ne_rbracket {depth : ℕ} {w : Json} (hw : Writable depth w)
    (intAsReal : Bool) {t : Bytes} (ht : Delimited t) (after : Bytes) :
    lexScan intAsReal (dumpCompact w ++ t) ≠ .ok (.rbracket, after) := by
  cases hw with
  | null => rw [dumpCompact, (lexScan_keyword _ ht).1]; simp
  | bool b => cases b <;> simp [dumpCompact, lexScan_keyword _ ht]
  | integer hlo hhi => rw [dumpCompact, lexScan_integer _ hlo hhi ht]; split <;> simp
  | string s => rw [dumpCompact, lexScan_dumpString]; split <;> simp
  | array => rw [dumpCompact_array_append, lexScan_lbracket]; simp
  | object => rw [dumpCompact_object_append, lexScan_lbrace]; simp

/-! ## The loops of `parse_array` and `parse_object` -/

section Loops

variable {flags : DecodeFlags} {depth : ℕ} {t : Bytes} {fuel : ℕ}

/-- The loop of `parse_array` fails at an element that is not `accepted`. -/
theorem parseElements_refused {v : Json} {acc : List Json} {tok : Token} {after : Bytes}
    (h : ReadsBack flags depth (dumpCompact v) (v.readBack flags)) (ht : Delimited t)
    (hlex : lexScan flags.decodeIntAsReal (dumpCompact v ++ t) = .ok (tok, after))
    (hv : v.accepted flags.allowNul = false) :
    (parseElements flags (parseValue flags depth) (fuel + 1) acc tok after).toOption = none := by
  obtain ⟨e, he⟩ := h.parseValue_error ht hlex hv
  rw [parseElements]
  split
  · rfl
  · rw [he]
    rfl

/-- The loop of `parse_array` reads back the elements `dumpCompact` writes, from the first token
of the first on, and fails when one of them is not `accepted`. -/
theorem parseElements_readsBack (vs : List Json) :
    ∀ (v : Json) (acc : List Json) (fuel : ℕ) (t : Bytes) (tok : Token) (after : Bytes),
      (∀ w ∈ v :: vs, ReadsBack flags depth (dumpCompact w) (w.readBack flags)) →
      vs.length < fuel →
      lexScan flags.decodeIntAsReal (dumpCompact v ++ restItems (vs.map dumpCompact) (chr ']') t) =
        .ok (tok, after) →
      (parseElements flags (parseValue flags depth) fuel acc tok after).toOption =
        if (v :: vs).all (·.accepted flags.allowNul) then
          some (.array (acc ++ (v :: vs).map (Json.decoded flags.decodeIntAsReal)), t)
        else none := by
  induction vs with
  | nil =>
    intro v acc fuel t tok after hread hfuel hlex
    obtain ⟨fuel, rfl⟩ : ∃ f, fuel = f + 1 := ⟨fuel - 1, by simp at hfuel; omega⟩
    have ht := delimited_restItems ([] : List Bytes) (.inl rfl) t
    cases hv : v.accepted flags.allowNul
    · rw [parseElements_refused (hread v (.head _)) ht hlex hv, List.all_cons, hv]
      rfl
    have hval := (hread v (.head _)).parseValue_ok ht hlex hv
    have heof : (tok == .eof) = false := by
      simpa using fun h ↦ parseValue_ne_ok_of_close (.inl h) hval
    simp only [parseElements, heof, Bool.false_eq_true, if_false, hval, ok_bind, restItems_nil,
      lexScan_rbracket, show (Token.rbracket == .comma) = false from rfl, beq_self_eq_true,
      if_true, List.all_cons, hv, List.all_nil, List.map_cons, List.map_nil, Bool.and_true]
    rfl
  | cons w ws ih =>
    intro v acc fuel t tok after hread hfuel hlex
    obtain ⟨fuel, rfl⟩ : ∃ f, fuel = f + 1 := ⟨fuel - 1, by simp at hfuel; omega⟩
    have ht := delimited_restItems ((w :: ws).map dumpCompact) (.inl rfl) t
    cases hv : v.accepted flags.allowNul
    · rw [parseElements_refused (hread v (.head _)) ht hlex hv, List.all_cons, hv]
      rfl
    have hval := (hread v (.head _)).parseValue_ok ht hlex hv
    have heof : (tok == .eof) = false := by
      simpa using fun h ↦ parseValue_ne_ok_of_close (.inl h) hval
    simp only [parseElements, heof, Bool.false_eq_true, if_false, hval, ok_bind, List.map_cons,
      restItems_cons, List.cons_append, lexScan_comma, beq_self_eq_true, if_true, List.all_cons,
      hv, Bool.true_and]
    rcases hnext : lexScan flags.decodeIntAsReal
        (dumpCompact w ++ restItems (ws.map dumpCompact) (chr ']') t) with e | ⟨next, afterNext⟩
    · rw [(hread w (.tail _ (.head _))).not_accepted
        (delimited_restItems (ws.map dumpCompact) (.inl rfl) t) hnext, Bool.false_and]
      rfl
    · rw [ok_bind, ih w _ fuel t next afterNext (fun u hu ↦ hread u (.tail _ hu))
        (by simp at hfuel; omega) hnext, List.append_assoc, List.singleton_append]
      rfl

theorem lookup_eq_none_of_not_mem {acc : List (Bytes × Json)} {k : Bytes}
    (h : k ∉ acc.map Prod.fst) :
    acc.lookup k = none :=
  List.lookup_eq_none_iff.mpr fun p hp ↦ by
    simpa using fun he : k = p.1 ↦ h (he ▸ List.mem_map_of_mem Prod.fst hp)

/-- The loop of `parse_object` fails at a member that is not `accepted`: a key with a NUL byte,
or a value that is not `accepted`. -/
theorem parseMembers_refused {k : Bytes} {v : Json} {acc : List (Bytes × Json)}
    (h : ReadsBack flags depth (dumpCompact v) (v.readBack flags)) (ht : Delimited t)
    (hfresh : k ∉ acc.map Prod.fst) (hk : utf8CheckString k = true)
    (hm : Json.memberAccepted flags.allowNul (k, v) = false) :
    (parseMembers flags (parseValue flags depth) (fuel + 1) acc (.string k)
      (chr ':' :: dumpCompact v ++ t)).toOption = none := by
  by_cases hk0 : 0 ∈ k
  · simp only [parseMembers, hk0, if_true]
    rfl
  have hv : v.accepted flags.allowNul = false := by
    simpa [Json.memberAccepted, hk, hk0] using hm
  simp only [parseMembers, hk0, if_false, lookup_eq_none_of_not_mem hfresh, Option.isSome_none,
    Bool.and_false, Bool.false_eq_true, List.cons_append, lexScan_colon, ok_bind, bne_self_eq_false]
  rcases hlex : lexScan flags.decodeIntAsReal (dumpCompact v ++ t) with e | ⟨tok, after⟩
  · rfl
  · obtain ⟨e, he⟩ := h.parseValue_error ht hlex hv
    rw [ok_bind, he]
    rfl

/-- The loop of `parse_object` reads back the members `dumpCompact` writes, from the `:` after the
first key on, and fails when one of them is not `accepted`. -/
theorem parseMembers_readsBack (ms : List (Bytes × Json)) :
    ∀ (k : Bytes) (v : Json) (acc : List (Bytes × Json)) (fuel : ℕ) (t : Bytes),
      (∀ m ∈ (k, v) :: ms, ReadsBack flags depth (dumpCompact m.2) (m.2.readBack flags)) →
      (((k, v) :: ms).map Prod.fst).Nodup → (∀ m ∈ (k, v) :: ms, m.1 ∉ acc.map Prod.fst) →
      ms.length < fuel → utf8CheckString k = true →
      (parseMembers flags (parseValue flags depth) fuel acc (.string k)
          (chr ':' :: dumpCompact v ++ restItems (ms.map fun m ↦ dumpString m.1 ++ chr ':' :: dumpCompact m.2)
            (chr '}') t)).toOption =
        if ((k, v) :: ms).all (Json.memberAccepted flags.allowNul) then
          some (.object (acc ++ ((k, v) :: ms).map fun m ↦ (m.1, m.2.decoded flags.decodeIntAsReal)),
            t)
        else none := by
  induction ms with
  | nil =>
    intro k v acc fuel t hread hnodup hfresh hfuel hk
    obtain ⟨fuel, rfl⟩ : ∃ f, fuel = f + 1 := ⟨fuel - 1, by simp at hfuel; omega⟩
    have ht := delimited_restItems ([] : List Bytes) (.inr rfl) t
    have hkv : ReadsBack flags depth (dumpCompact v) (v.readBack flags) := hread _ (.head _)
    have hkfresh : k ∉ acc.map Prod.fst := hfresh _ (.head _)
    rw [List.map_nil]
    cases hm : Json.memberAccepted flags.allowNul (k, v)
    · rw [parseMembers_refused hkv ht hkfresh hk hm, List.all_cons, hm]
      rfl
    obtain ⟨⟨-, hk0⟩, hv⟩ : (utf8CheckString k = true ∧ 0 ∉ k) ∧ v.accepted flags.allowNul = true := by
      simpa [Json.memberAccepted] using hm
    rcases hlex : lexScan flags.decodeIntAsReal (dumpCompact v ++ restItems [] (chr '}') t) with
      e | ⟨tok, after⟩
    · exact absurd (hkv.not_accepted ht hlex) (by simp [hv])
    have hval := hkv.parseValue_ok ht hlex hv
    rw [restItems_nil] at hlex hval
    simp only [parseMembers, hk0, if_false, lookup_eq_none_of_not_mem (hfresh _ (.head _)),
      Option.isSome_none, Bool.and_false, Bool.false_eq_true, List.cons_append, lexScan_colon,
      ok_bind, bne_self_eq_false, List.map_nil, restItems_nil, hlex, hval, lexScan_rbrace,
      show (Token.rbrace == .comma) = false from rfl, beq_self_eq_true, if_true,
      assocSet_of_not_mem _ _ _ (hfresh _ (.head _)), List.all_cons, hm, List.all_nil]
    rfl
  | cons m ms ih =>
    intro k v acc fuel t hread hnodup hfresh hfuel hk
    obtain ⟨k', v'⟩ := m
    obtain ⟨fuel, rfl⟩ : ∃ f, fuel = f + 1 := ⟨fuel - 1, by simp at hfuel; omega⟩
    have ht := delimited_restItems
      (((k', v') :: ms).map fun m ↦ dumpString m.1 ++ chr ':' :: dumpCompact m.2) (.inr rfl) t
    have hkv : ReadsBack flags depth (dumpCompact v) (v.readBack flags) := hread _ (.head _)
    have hkfresh : k ∉ acc.map Prod.fst := hfresh _ (.head _)
    cases hm : Json.memberAccepted flags.allowNul (k, v)
    · rw [parseMembers_refused hkv ht hkfresh hk hm, List.all_cons, hm]
      rfl
    obtain ⟨⟨-, hk0⟩, hv⟩ : (utf8CheckString k = true ∧ 0 ∉ k) ∧ v.accepted flags.allowNul = true := by
      simpa [Json.memberAccepted] using hm
    rcases hlex : lexScan flags.decodeIntAsReal (dumpCompact v ++ restItems
        (((k', v') :: ms).map fun m ↦ dumpString m.1 ++ chr ':' :: dumpCompact m.2) (chr '}') t) with
      e | ⟨tok, after⟩
    · exact absurd (hkv.not_accepted ht hlex) (by simp [hv])
    have hval := hkv.parseValue_ok ht hlex hv
    simp only [List.map_cons, restItems_cons, List.cons_append, List.append_assoc] at hlex hval
    have hfresh' :
        ∀ m ∈ (k', v') :: ms, m.1 ∉ (acc ++ [(k, v.decoded flags.decodeIntAsReal)]).map Prod.fst := by
      intro m hm
      simp only [List.map_append, List.mem_append, List.map_cons, List.map_nil, List.mem_singleton,
        not_or]
      exact ⟨hfresh m (.tail _ hm), fun h ↦ (List.nodup_cons.mp hnodup).1
        (h ▸ List.mem_map.mpr ⟨m, hm, rfl⟩)⟩
    simp only [parseMembers, hk0, if_false, lookup_eq_none_of_not_mem (hfresh _ (.head _)),
      Option.isSome_none, Bool.and_false, Bool.false_eq_true, List.cons_append, lexScan_colon,
      ok_bind, bne_self_eq_false, hlex, hval, List.map_cons, restItems_cons, lexScan_comma,
      beq_self_eq_true, if_true, List.append_assoc, lexScan_dumpString,
      assocSet_of_not_mem _ _ _ (hfresh _ (.head _)), List.all_cons, hm, Bool.true_and]
    by_cases hk' : utf8CheckString k' = true
    · have hrec := ih k' v' _ fuel t (fun m hm ↦ hread m (.tail _ hm))
        (List.nodup_cons.mp hnodup).2 hfresh' (by simp at hfuel; omega) hk'
      rw [List.cons_append] at hrec
      simp only [if_pos hk', ok_bind, hrec, List.append_assoc, List.singleton_append, List.map_cons,
        List.all_cons]
    · simp only [if_neg hk', List.all_cons, Json.memberAccepted, Bool.not_eq_true _ |>.mp hk']
      rfl

end Loops

/-! ## Every value -/

section Values

variable {flags : DecodeFlags}

/-- `json_loads` reads back the text `dumpCompact` writes of a value a reply may hold exactly
when the value is `accepted`, keeping the order of its members. -/
theorem dumpCompact_readsBack {depth : ℕ} {v : Json} (hv : Writable depth v) :
    ReadsBack flags depth (dumpCompact v) (v.readBack flags) := by
  induction hv with
  | null =>
    intro t ht
    rw [readValue, dumpCompact, (lexScan_keyword _ ht).1, ok_bind]
    rfl
  | bool b =>
    intro t ht
    cases b
    · rw [readValue, dumpCompact, (lexScan_keyword _ ht).2.2, ok_bind]
      rfl
    · rw [readValue, dumpCompact, (lexScan_keyword _ ht).2.1, ok_bind]
      rfl
  | integer hlo hhi =>
    intro t ht
    rw [readValue, dumpCompact, lexScan_integer _ hlo hhi ht, ok_bind, Json.readBack,
      if_pos (show (Json.integer _).accepted flags.allowNul = true from rfl)]
    cases flags.decodeIntAsReal <;> rfl
  | string s =>
    intro t _
    rw [readValue, dumpCompact, lexScan_dumpString]
    by_cases hu : utf8CheckString s = true <;> by_cases h0 : 0 ∈ s <;>
      cases hnul : flags.allowNul <;>
      simp [hu, h0, hnul, parseValue, Json.readBack, Json.accepted, Json.decoded, Bind.bind,
        Except.bind, Except.toOption]
  | @array depth elems h ih =>
    intro t ht
    rw [readValue, dumpCompact_array_append, lexScan_lbracket, ok_bind]
    simp only [parseValue]
    cases elems with
    | nil =>
      simp only [List.map_nil, show [chr ','].intercalate [] = [] from rfl, List.nil_append, parseArray,
        lexScan_rbracket, ok_bind, beq_self_eq_true, if_true]
      rfl
    | cons e es =>
      rw [List.map_cons, intercalate_append_close, Json.readBack_array]
      have ht' := delimited_restItems (es.map dumpCompact) (.inl rfl) t
      rcases hlex : lexScan flags.decodeIntAsReal (dumpCompact e ++ restItems (es.map dumpCompact)
          (chr ']') t) with err | ⟨tok, after⟩
      · simp only [parseArray, hlex, List.all_cons, (ih e (.head _)).not_accepted ht' hlex,
          Bool.false_and]
        rfl
      have hclose : (tok == .rbracket) = false := by
        simpa using fun hr ↦ lexScan_dumpCompact_ne_rbracket (h e (.head _)) _ ht' after (hr ▸ hlex)
      simp only [parseArray, hlex, ok_bind, hclose, Bool.false_eq_true, if_false]
      rw [← parseElements_fuel_stable_of_suffix (parseValue_suffix flags depth) _ _ _ _
        (Nat.lt_succ_self after.length) es.length,
        parseElements_readsBack es e [] _ t tok after ih (by omega) hlex]
      split <;> rfl
  | @object depth members hkeys h ih =>
    intro t ht
    rw [readValue, dumpCompact_object_append, lexScan_lbrace, ok_bind, Json.readBack_object]
    simp only [parseValue]
    cases members with
    | nil =>
      simp only [List.map_nil, show [chr ','].intercalate [] = [] from rfl, List.nil_append,
        parseObject, lexScan_rbrace, ok_bind, beq_self_eq_true, if_true, List.all_nil]
      rfl
    | cons m ms =>
      obtain ⟨k, v⟩ := m
      rw [List.map_cons, intercalate_append_close, List.append_assoc]
      simp only [parseObject, lexScan_dumpString]
      by_cases hk : utf8CheckString k = true
      · simp only [hk, if_true, ok_bind, show (Token.string k == .rbrace) = false from rfl,
          Bool.false_eq_true, if_false]
        rw [← parseMembers_fuel_stable_of_suffix (parseValue_suffix flags depth) _ _ _ _
          (Nat.lt_succ_self _) ms.length,
          parseMembers_readsBack ms k v [] _ t (fun m hm ↦ ih m hm) hkeys (by simp) (by omega) hk]
        split <;> rfl
      · simp only [hk, Bool.false_eq_true, if_false, List.all_cons, Json.memberAccepted,
          Bool.false_and]
        rfl

end Values

/-! ## No NUL byte in the text -/

theorem zero_not_mem_escapeByte (c : UInt8) : 0 ∉ escapeByte c := by
  rcases escapeByte_cases c with ⟨e, he, hlist, -⟩ | ⟨-, he⟩ | ⟨he, -, -, hctrl⟩ <;> rw [he]
  · have : e ≠ 0 := by rintro rfl; exact absurd hlist (by decide)
    simp [this.symm, show (0 : UInt8) ≠ chr '\\' by decide]
  · have hhex : ∀ n < 16, hexDigitUpper n ≠ 0 := by decide
    have : c.toNat < 256 := c.toNat_lt_size
    simp [(hhex _ (by omega : c.toNat / 16 < 16)).symm, (hhex _ (Nat.mod_lt c.toNat (by decide))).symm,
      show (0 : UInt8) ≠ chr '\\' by decide, show (0 : UInt8) ≠ chr 'u' by decide,
      show (0 : UInt8) ≠ chr '0' by decide]
  · exact fun h ↦ hctrl (by rw [← List.mem_singleton.mp h]; decide)

theorem zero_not_mem_dumpString (s : Bytes) : 0 ∉ dumpString s := by
  simp only [dumpString, List.mem_cons, List.mem_append, List.mem_flatMap, List.mem_singleton,
    not_or, not_exists, not_and]
  exact ⟨⟨by decide, fun c _ ↦ zero_not_mem_escapeByte c⟩, by decide⟩

theorem zero_not_mem_toString (i : ℤ) : 0 ∉ ascii (toString i) := by
  rw [ascii_toString_int]
  have hdigits := (decimal_toString i.natAbs).all_digits
  intro h
  rcases List.mem_append.mp h with h | h
  · split_ifs at h <;> simp_all [show (0 : UInt8) ≠ chr '-' by decide]
  · exact absurd (hdigits 0 h) (by decide)

theorem zero_not_mem_intercalate {xs : List Bytes} (h : ∀ x ∈ xs, 0 ∉ x) :
    0 ∉ [chr ','].intercalate xs := by
  induction xs with
  | nil => exact List.not_mem_nil 0
  | cons x xs ih =>
    cases xs with
    | nil => simpa [List.intercalate] using h x (.head _)
    | cons y ys =>
      show 0 ∉ x ++ ([chr ','] ++ [chr ','].intercalate (y :: ys))
      simp only [List.mem_append, List.mem_singleton, not_or]
      exact ⟨h x (.head _), by decide, ih fun z hz ↦ h z (.tail _ hz)⟩

/-- The text `dumpCompact` writes for a value a reply may hold has no NUL byte: `dump_string`
escapes it. -/
theorem zero_not_mem_dumpCompact {depth : ℕ} {v : Json} (hv : Writable depth v) :
    0 ∉ dumpCompact v := by
  induction hv with
  | null => decide
  | bool b => cases b <;> decide
  | integer => exact zero_not_mem_toString _
  | string => exact zero_not_mem_dumpString _
  | @array depth elems h ih =>
    rw [← List.append_nil (dumpCompact _), dumpCompact_array_append]
    simp only [List.mem_cons, List.mem_append, List.mem_singleton, not_or]
    refine ⟨by decide, zero_not_mem_intercalate ?_, by decide, List.not_mem_nil 0⟩
    simpa using ih
  | @object depth members hkeys h ih =>
    rw [← List.append_nil (dumpCompact _), dumpCompact_object_append]
    simp only [List.mem_cons, List.mem_append, List.mem_singleton, not_or]
    refine ⟨by decide, zero_not_mem_intercalate ?_, by decide, List.not_mem_nil 0⟩
    simp only [List.mem_map, forall_exists_index, and_imp]
    rintro _ m hm rfl
    simp only [List.mem_append, List.mem_cons, not_or]
    exact ⟨zero_not_mem_dumpString m.1, by decide, ih m hm⟩

/-- The text `dump` writes for an encodable value has no NUL byte, so `jsonp_strdup` copies all
of it. -/
theorem zero_not_mem_dump {depth : ℕ} {v : Json} (hv : Encodable depth v) : 0 ∉ dump v := by
  rw [dump_eq_dumpCompact hv]
  exact zero_not_mem_dumpCompact hv.sortKeysDeep.writable

/-! ## The round trip -/

/-- `parse_json` reads back the text `dumpCompact` writes for an object a reply may hold when it is
`accepted`, and fails on it when not. -/
theorem parseJson_dumpCompact {flags : DecodeFlags} {members : List (Bytes × Json)}
    (hv : Writable maxDepth (.object members)) :
    (parseJson flags (dumpCompact (.object members))).toOption = (Json.object members).readBack flags := by
  have hlex : lexScan flags.decodeIntAsReal (dumpCompact (.object members)) = .ok (.lbrace,
      [chr ','].intercalate (members.map fun m ↦ dumpString m.1 ++ chr ':' :: dumpCompact m.2) ++
        [chr '}']) := by
    rw [← List.append_nil (dumpCompact _), dumpCompact_object_append]
    exact lexScan_lbrace _ _
  have h := (dumpCompact_readsBack hv : ReadsBack flags _ _ _) [] fun _ h ↦ by cases h
  rw [List.append_nil, readValue, hlex, ok_bind] at h
  simp only [parseJson, hlex, ok_bind, bne_self_eq_false, Bool.and_false, Bool.false_eq_true,
    if_false]
  rcases hval : parseValue flags maxDepth .lbrace _ with e | ⟨w, rest⟩
  · rw [hval] at h
    exact (Option.map_eq_none'.mp h.symm).symm
  · rw [hval] at h
    obtain ⟨w', hw', hrest⟩ := Option.map_eq_some'.mp h.symm
    obtain ⟨rfl, rfl⟩ := Prod.mk.inj hrest
    rw [hw', ok_bind]
    split <;> rfl

/-- `parse_json` reads back the text `dumpCompact` writes for an encodable object. -/
theorem parseJson_dumpCompact_object {flags : DecodeFlags} {members : List (Bytes × Json)}
    (hv : Encodable maxDepth (.object members)) :
    parseJson flags (dumpCompact (.object members)) =
      .ok ((Json.object members).decoded flags.decodeIntAsReal) := by
  have h := @parseJson_dumpCompact flags members hv.writable
  rw [Json.readBack, if_pos (hv.accepted _)] at h
  exact toOption_eq_some.mp h

/-- `parse_json` reads back the text `dump` writes for an encodable object. -/
theorem parseJson_dump_object {flags : DecodeFlags} {members : List (Bytes × Json)}
    (hv : Encodable maxDepth (.object members)) :
    parseJson flags (dump (.object members)) =
      .ok ((Json.object members).loaded flags.decodeIntAsReal) := by
  have hsorted := hv.sortKeysDeep
  rw [sortKeysDeep_object] at hsorted
  rw [dump_eq_dumpCompact hv, loaded_eq_decoded _ hv, sortKeysDeep_object]
  exact parseJson_dumpCompact_object hsorted

/-- `json_loads` reads back, under any flags, what `json_dumps` writes for an encodable object:
the members of each object in `strcmp` order, and its integers as reals under
`JSON_DECODE_INT_AS_REAL`. -/
theorem jsonLoads_jsonDumps {members : List (Bytes × Json)}
    (hv : Encodable maxDepth (.object members)) (flags : ℕ) :
    jsonLoads (jsonDumps members).bytes flags =
      .ok ((Json.object members).loaded (flags.testBit 3)) := by
  show parseJson _ (cString (dump (.object members))) = _
  rw [cString_of_not_mem (zero_not_mem_dump hv)]
  exact parseJson_dump_object hv

/-- A request with a nested array, a key that sorts first, and a negative integer. -/
def sampleRequest : List (Bytes × Json) :=
  [(ascii "b", .array [.bool true, .null]), (ascii "a", .integer (-5))]

theorem jsonLoads_jsonDumps_sampleRequest :
    Encodable maxDepth (.object sampleRequest) ∧
      jsonLoads (jsonDumps sampleRequest).bytes 8 =
        .ok (.object [(ascii "a", .real (ascii "-5")), (ascii "b", .array [.bool true, .null])]) :=
  have hv : Encodable maxDepth (.object sampleRequest) := by decide
  ⟨hv, jsonLoads_jsonDumps hv 8⟩

end QfsClient
