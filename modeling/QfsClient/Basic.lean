import Mathlib.Data.List.Basic

/-!
# Bytes, C strings and error codes

The client moves bytes: a `std::vector<byte>` in `CommandBuffer`, a `std::string` for a path,
a `const char *` for a workspace name or a serialized request. All of them are `Bytes` here.
A C string is a byte string with no `0` in it, since its terminator ends it; `CStr` carries
that as a field, so `strlen` is the length of its bytes.

`ErrorCode` lists the codes `qfs_client_implementation.cc` returns.
-/

namespace QfsClient

abbrev Bytes := List UInt8

/-- The bytes of an ASCII literal of the source. -/
def ascii (s : String) : Bytes := s.toList.map fun c ↦ c.toNat.toUInt8

/-- What a `const char *` reads from a buffer: the bytes before the first `0`, or all of
them when the buffer holds none. -/
def cString (b : Bytes) : Bytes := b.takeWhile (· != 0)

/-- A C string: its bytes, none of them the terminator. -/
structure CStr where
  bytes : Bytes
  no_nul : 0 ∉ bytes

theorem cString_of_not_mem {b : Bytes} (h : 0 ∉ b) : cString b = b :=
  List.takeWhile_eq_self_iff.mpr fun x hx ↦ by simpa using ne_of_mem_of_not_mem hx h

@[simp]
theorem cString_append_nul (s : CStr) (rest : Bytes) :
    cString (s.bytes ++ 0 :: rest) = s.bytes := by
  rw [cString, List.takeWhile_append_of_pos fun x hx ↦ by simpa using ne_of_mem_of_not_mem hx s.no_nul]
  simp

/-- What follows a `0` is not read. -/
theorem cString_append_of_mem {b : Bytes} (h : 0 ∈ b) (rest : Bytes) :
    cString (b ++ rest) = cString b := by
  induction b with
  | nil => cases h
  | cons c b ih =>
    by_cases hc : c = 0
    · simp [cString, hc]
    · have hp : (c != 0) = true := by simpa using hc
      simp only [cString, List.cons_append, List.takeWhile_cons, hp, if_true, List.cons.injEq,
        true_and]
      exact ih ((List.mem_cons.mp h).resolve_left fun h0 ↦ hc h0.symm)

/-! ## Maps with unique keys -/

/-- Set a key in a map kept as a list of pairs with unique keys: the value of a present key
is replaced where it stands, a new key goes at the end. -/
def assocSet {β : Type} : List (Bytes × β) → Bytes → β → List (Bytes × β)
  | [], key, value => [(key, value)]
  | (k, v) :: rest, key, value =>
    if k = key then (key, value) :: rest else (k, v) :: assocSet rest key value

section AssocSet

variable {β : Type} (ms : List (Bytes × β)) (key : Bytes) (value : β)

theorem mem_keys_assocSet {x : Bytes} :
    x ∈ (assocSet ms key value).map Prod.fst ↔ x = key ∨ x ∈ ms.map Prod.fst := by
  induction ms with
  | nil => simp [assocSet]
  | cons m ms ih =>
    obtain ⟨k, v⟩ := m
    by_cases h : k = key
    · subst h; simp [assocSet]
    · simp only [assocSet, h, if_false, List.map_cons, List.mem_cons, ih]
      tauto

theorem nodup_keys_assocSet (h : (ms.map Prod.fst).Nodup) :
    ((assocSet ms key value).map Prod.fst).Nodup := by
  induction ms with
  | nil => simp [assocSet]
  | cons m ms ih =>
    obtain ⟨k, v⟩ := m
    rw [List.map_cons, List.nodup_cons] at h
    by_cases hk : k = key
    · simpa [assocSet, hk] using h
    · simp only [assocSet, hk, if_false, List.map_cons, List.nodup_cons, mem_keys_assocSet]
      exact ⟨by tauto, ih h.2⟩

/-- A key not yet in the map goes at its end. -/
theorem assocSet_of_not_mem (h : key ∉ ms.map Prod.fst) : assocSet ms key value = ms ++ [(key, value)] := by
  induction ms with
  | nil => rfl
  | cons m ms ih =>
    obtain ⟨k, v⟩ := m
    simp only [List.map_cons, List.mem_cons, not_or] at h
    simp [assocSet, Ne.symm h.1, ih h.2]

@[simp]
theorem lookup_assocSet (x : Bytes) :
    (assocSet ms key value).lookup x = if x = key then some value else ms.lookup x := by
  induction ms with
  | nil =>
    by_cases h : x = key
    · simp [assocSet, h]
    · simp [assocSet, List.lookup_cons, show (x == key) = false by simpa using h, h]
  | cons m ms ih =>
    obtain ⟨k, v⟩ := m
    by_cases hxk : x = k
    · subst hxk
      by_cases h : x = key <;> simp [assocSet, h]
    · have hne : (x == k) = false := by simpa using hxk
      by_cases hk : k = key
      · subst hk; simp [assocSet, List.lookup_cons, hne, hxk]
      · simp [assocSet, List.lookup_cons, hne, hk, ih]

theorem lookup_eq_some_iff_mem (h : (ms.map Prod.fst).Nodup) {k : Bytes} {b : β} :
    ms.lookup k = some b ↔ (k, b) ∈ ms := by
  induction ms with
  | nil => simp
  | cons m ms ih =>
    obtain ⟨k', b'⟩ := m
    rw [List.map_cons, List.nodup_cons] at h
    by_cases hk : k = k'
    · subst hk
      simp only [List.lookup_cons_self, Option.some.injEq, List.mem_cons, Prod.mk.injEq, true_and]
      constructor
      · rintro rfl
        exact .inl rfl
      · rintro (rfl | hm)
        · rfl
        · exact absurd (List.mem_map_of_mem Prod.fst hm) h.1
    · have hne : (k == k') = false := by simpa using hk
      simp [List.lookup_cons, hne, hk, ih h.2]

theorem mem_assocSet (h : (ms.map Prod.fst).Nodup) {p : Bytes × β} :
    p ∈ assocSet ms key value ↔ p = (key, value) ∨ p ∈ ms ∧ p.1 ≠ key := by
  induction ms with
  | nil => simp [assocSet]
  | cons m ms ih =>
    obtain ⟨k, v⟩ := m
    rw [List.map_cons, List.nodup_cons] at h
    by_cases hk : k = key
    · subst hk
      simp only [assocSet, if_true, List.mem_cons]
      constructor
      · rintro (rfl | hp)
        · exact .inl rfl
        · exact .inr ⟨.inr hp, fun he ↦ h.1 (he ▸ List.mem_map_of_mem Prod.fst hp :)⟩
      · rintro (rfl | ⟨rfl | hp, hne⟩)
        · exact .inl rfl
        · exact absurd rfl hne
        · exact .inr hp
    · simp only [assocSet, hk, if_false, List.mem_cons, ih h.2]
      constructor
      · rintro (rfl | rfl | ⟨hp, hne⟩)
        · exact .inr ⟨.inl rfl, hk⟩
        · exact .inl rfl
        · exact .inr ⟨.inr hp, hne⟩
      · rintro (rfl | ⟨rfl | hp, hne⟩)
        · exact .inr (.inl rfl)
        · exact .inl rfl
        · exact .inr (.inr ⟨hp, hne⟩)

end AssocSet

/-- Peeling one step off a computation that may fail. -/
theorem bind_eq_ok {ε α β : Type} {x : Except ε α} {f : α → Except ε β} {b : β} :
    x >>= f = .ok b ↔ ∃ a, x = .ok a ∧ f a = .ok b := by
  cases x <;> simp [Bind.bind, Except.bind]

theorem ok_bind {ε α β : Type} (a : α) (f : α → Except ε β) : (Except.ok a : Except ε α) >>= f = f a :=
  rfl

theorem map_eq_ok {ε α β : Type} {x : Except ε α} {f : α → β} {b : β} :
    f <$> x = .ok b ↔ ∃ a, x = .ok a ∧ f a = b := by
  cases x <;> simp [Functor.map, Except.map]

/-- Two continuations that agree on every result of a step give the same computation. -/
theorem bind_congr_ok {ε α β : Type} {x : Except ε α} {f g : α → Except ε β}
    (h : ∀ a, x = .ok a → f a = g a) : x >>= f = x >>= g := by
  cases x <;> simp [Bind.bind, Except.bind, h]

theorem toOption_eq_some {ε α : Type} {x : Except ε α} {a : α} : x.toOption = some a ↔ x = .ok a := by
  cases x <;> simp [Except.toOption]

theorem toOption_eq_none {ε α : Type} {x : Except ε α} : x.toOption = none ↔ ∃ e, x = .error e := by
  cases x <;> simp [Except.toOption]

inductive ErrorCode
  | kSuccess
  | kDontKnowCwd
  | kCantFindApiFile
  | kCantOpenApiFile
  | kApiFileNotOpen
  | kApiFileSeekFail
  | kApiFileWriteFail
  | kApiFileFlushFail
  | kApiFileReadFail
  | kWorkspacePathInvalid
  | kBufferTooBig
  | kJsonEncodingError
  | kJsonDecodingError
  | kMissingJsonObject
  | kApiError
  deriving DecidableEq, Repr

end QfsClient
