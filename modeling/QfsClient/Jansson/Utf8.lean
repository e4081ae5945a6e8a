import QfsClient.Jansson.Tokens

/-!
# What `utf8_check_string` accepts

jansson checks every string it is given to encode, and every string it decodes, with
`utf8_check_string`. `utf8CheckString_iff` says what that check accepts: exactly the UTF-8
encodings of sequences of Unicode scalar values, each written in the one form `utf8_encode`
writes. So it refuses overlong forms, surrogates and code points above `0x10FFFF`, as RFC 3629
asks. The proof goes one sequence at a time: `utf8_check_full` decodes a sequence to the code
point `utf8_encode` writes back as the same bytes (`utf8Encode_of_utf8CheckFull`), and accepts
every sequence `utf8_encode` writes for a scalar value (`utf8CheckString_utf8Encode_append`).
-/

namespace QfsClient

/-- A Unicode scalar value: a code point of at most `0x10FFFF` that is not a surrogate. -/
def IsScalar (cp : ℕ) : Prop := cp ≤ 0x10FFFF ∧ ¬(0xD800 ≤ cp ∧ cp ≤ 0xDFFF)

instance : DecidablePred IsScalar := fun cp ↦
  inferInstanceAs (Decidable (cp ≤ 0x10FFFF ∧ ¬(0xD800 ≤ cp ∧ cp ≤ 0xDFFF)))

theorem utf8CheckFirst_eq (u : UInt8) : utf8CheckFirst u =
    if u.toNat < 0x80 then 1 else if u.toNat ≤ 0xC1 then 0 else if u.toNat ≤ 0xDF then 2
    else if u.toNat ≤ 0xEF then 3 else if u.toNat ≤ 0xF4 then 4 else 0 := rfl

theorem toNat_toUInt8 {n : ℕ} (h : n < 256) : n.toUInt8.toNat = n := UInt8.toNat_ofNat_of_lt h

/-! ## One sequence -/

section Sequence

variable {lead b₁ b₂ b₃ : UInt8}

/-- A continuation byte. -/
def IsCont (u : UInt8) : Prop := 0x80 ≤ u.toNat ∧ u.toNat ≤ 0xBF

theorem isCont_iff (u : UInt8) : IsCont u ↔ ¬(u < 0x80 ∨ 0xBF < u) := by
  have hlt : u < 0x80 ↔ u.toNat < 0x80 := Iff.rfl
  have hgt : 0xBF < u ↔ 0xBF < u.toNat := Iff.rfl
  rw [hlt, hgt, IsCont]
  omega

theorem utf8Encode_two (hlead : 0xC2 ≤ lead.toNat ∧ lead.toNat ≤ 0xDF) (h₁ : IsCont b₁) :
    utf8Encode (lead.toNat % 32 * 64 + b₁.toNat % 64) = [lead, b₁] := by
  unfold IsCont at h₁
  have hn : ¬lead.toNat % 32 * 64 + b₁.toNat % 64 < 0x80 := by omega
  have hs : lead.toNat % 32 * 64 + b₁.toNat % 64 < 0x800 := by omega
  have e₀ : 0xC0 + (lead.toNat % 32 * 64 + b₁.toNat % 64) / 64 = lead.toNat := by omega
  have e₁ : 0x80 + (lead.toNat % 32 * 64 + b₁.toNat % 64) % 64 = b₁.toNat := by omega
  simp only [utf8Encode, if_neg hn, if_pos hs, e₀, e₁, toUInt8_toNat]

theorem utf8Encode_three (hlead : 0xE0 ≤ lead.toNat ∧ lead.toNat ≤ 0xEF) (h₁ : IsCont b₁)
    (h₂ : IsCont b₂) (hlong : 0x800 ≤ (lead.toNat % 16 * 64 + b₁.toNat % 64) * 64 + b₂.toNat % 64) :
    utf8Encode ((lead.toNat % 16 * 64 + b₁.toNat % 64) * 64 + b₂.toNat % 64) = [lead, b₁, b₂] := by
  unfold IsCont at h₁ h₂
  have hn : ¬(lead.toNat % 16 * 64 + b₁.toNat % 64) * 64 + b₂.toNat % 64 < 0x80 := by omega
  have hm : ¬(lead.toNat % 16 * 64 + b₁.toNat % 64) * 64 + b₂.toNat % 64 < 0x800 := by omega
  have hs : (lead.toNat % 16 * 64 + b₁.toNat % 64) * 64 + b₂.toNat % 64 < 0x10000 := by omega
  have e₀ : 0xE0 + ((lead.toNat % 16 * 64 + b₁.toNat % 64) * 64 + b₂.toNat % 64) / 4096 =
      lead.toNat := by omega
  have e₁ : 0x80 + ((lead.toNat % 16 * 64 + b₁.toNat % 64) * 64 + b₂.toNat % 64) / 64 % 64 =
      b₁.toNat := by omega
  have e₂ : 0x80 + ((lead.toNat % 16 * 64 + b₁.toNat % 64) * 64 + b₂.toNat % 64) % 64 =
      b₂.toNat := by omega
  simp only [utf8Encode, if_neg hn, if_neg hm, if_pos hs, e₀, e₁, e₂, toUInt8_toNat]

theorem utf8Encode_four (hlead : 0xF0 ≤ lead.toNat ∧ lead.toNat ≤ 0xF4) (h₁ : IsCont b₁)
    (h₂ : IsCont b₂) (h₃ : IsCont b₃)
    (hlong : 0x10000 ≤ ((lead.toNat % 8 * 64 + b₁.toNat % 64) * 64 + b₂.toNat % 64) * 64 +
      b₃.toNat % 64) :
    utf8Encode (((lead.toNat % 8 * 64 + b₁.toNat % 64) * 64 + b₂.toNat % 64) * 64 +
      b₃.toNat % 64) = [lead, b₁, b₂, b₃] := by
  unfold IsCont at h₁ h₂ h₃
  generalize hv : ((lead.toNat % 8 * 64 + b₁.toNat % 64) * 64 + b₂.toNat % 64) * 64 +
    b₃.toNat % 64 = v at hlong
  have hn : ¬v < 0x80 := by omega
  have hm : ¬v < 0x800 := by omega
  have hs : ¬v < 0x10000 := by omega
  have e₀ : 0xF0 + v / 262144 = lead.toNat := by omega
  have e₁ : 0x80 + v / 4096 % 64 = b₁.toNat := by omega
  have e₂ : 0x80 + v / 64 % 64 = b₂.toNat := by omega
  have e₃ : 0x80 + v % 64 = b₃.toNat := by omega
  simp only [utf8Encode, if_neg hn, if_neg hm, if_neg hs, e₀, e₁, e₂, e₃, toUInt8_toNat]

theorem IsCont.not_lt {u : UInt8} (h : IsCont u) : ¬u < 0x80 := fun h' ↦ by
  have : u.toNat < 0x80 := h'
  unfold IsCont at h
  omega

theorem IsCont.not_gt {u : UInt8} (h : IsCont u) : ¬0xBF < u := fun h' ↦ by
  have : 0xBF < u.toNat := h'
  unfold IsCont at h
  omega

/-- The lead bytes of sequences of two, three and four bytes. -/
theorem lead_range {lead : UInt8} {n : ℕ} (h : utf8CheckFirst lead = n + 2) :
    n = 0 ∧ 0xC2 ≤ lead.toNat ∧ lead.toNat ≤ 0xDF ∨ n = 1 ∧ 0xE0 ≤ lead.toNat ∧ lead.toNat ≤ 0xEF ∨
      n = 2 ∧ 0xF0 ≤ lead.toNat ∧ lead.toNat ≤ 0xF4 := by
  rw [utf8CheckFirst_eq] at h
  split_ifs at h <;> omega

theorem isCont_of_utf8CheckFull {lead : UInt8} {cont : Bytes}
    (h : (utf8CheckFull lead cont).isSome) : ∀ u ∈ cont, IsCont u := by
  intro u hu
  rw [isCont_iff]
  intro hbad
  have hany : cont.any (fun u ↦ u < 0x80 ∨ 0xBF < u) = true :=
    List.any_eq_true.mpr ⟨u, hu, by simpa using hbad⟩
  simp only [utf8CheckFull, hany, or_true, if_true, Option.isSome_none, Bool.false_eq_true] at h

/-- `utf8_check_full` decodes a sequence to a scalar value that `utf8_encode` writes back as the
same bytes. -/
theorem utf8Encode_of_utf8CheckFull {lead : UInt8} {cont : Bytes} {v : ℕ}
    (hfirst : utf8CheckFirst lead = cont.length + 1) (hfull : utf8CheckFull lead cont = some v) :
    utf8Encode v = lead :: cont ∧ IsScalar v := by
  have hcont := isCont_of_utf8CheckFull (by rw [hfull]; rfl)
  rcases cont with _ | ⟨b₁, cont⟩
  · simp [utf8CheckFull] at hfull
  rcases lead_range (n := cont.length) (by simpa using hfirst) with
    ⟨hn, hlead⟩ | ⟨hn, hlead⟩ | ⟨hn, hlead⟩
  · rw [List.length_eq_zero] at hn
    subst hn
    simp only [utf8CheckFull, List.length_cons, List.length_nil, List.foldl_cons, List.foldl_nil,
      List.any_cons, List.any_nil, Bool.or_false, decide_eq_true_eq, Nat.reduceAdd,
      Nat.reduceEqDiff, ↓reduceIte, true_and, false_and, or_false, false_or, Nat.reduceLT] at hfull
    split_ifs at hfull with _ hscalar
    cases hfull
    exact ⟨utf8Encode_two hlead (hcont _ (.head _)), by unfold IsScalar; omega⟩
  · obtain ⟨b₂, rfl⟩ := List.length_eq_one.mp hn
    simp only [utf8CheckFull, List.length_cons, List.length_nil, List.foldl_cons, List.foldl_nil,
      List.any_cons, List.any_nil, Bool.or_false, decide_eq_true_eq, Nat.reduceAdd,
      Nat.reduceEqDiff, ↓reduceIte, true_and, false_and, or_false, false_or, Nat.reduceLT] at hfull
    split_ifs at hfull with _ hscalar hlong
    cases hfull
    exact ⟨utf8Encode_three hlead (hcont _ (.head _)) (hcont _ (.tail _ (.head _))) (by omega),
      by unfold IsScalar; omega⟩
  · obtain ⟨b₂, b₃, rfl⟩ := List.length_eq_two.mp hn
    simp only [utf8CheckFull, List.length_cons, List.length_nil, List.foldl_cons, List.foldl_nil,
      List.any_cons, List.any_nil, Bool.or_false, decide_eq_true_eq, Nat.reduceAdd,
      Nat.reduceEqDiff, ↓reduceIte, true_and, false_and, or_false, false_or, Nat.reduceLT] at hfull
    split_ifs at hfull with _ hscalar hlong
    cases hfull
    exact ⟨utf8Encode_four hlead (hcont _ (.head _)) (hcont _ (.tail _ (.head _)))
      (hcont _ (.tail _ (.tail _ (.head _)))) (by omega), by unfold IsScalar; omega⟩

/-- The sequence `utf8_encode` writes for a scalar value of at least `0x80`: a lead byte that
announces its length, and continuation bytes that `utf8_check_full` decodes back to the value. -/
theorem utf8Encode_sequence {cp : ℕ} (hcp : IsScalar cp) (hlarge : ¬cp < 0x80) :
    ∃ lead cont, utf8Encode cp = lead :: cont ∧ utf8CheckFirst lead = cont.length + 1 ∧
      utf8CheckFull lead cont = some cp := by
  unfold IsScalar at hcp
  have hc : ∀ k, IsCont (0x80 + cp / k % 64).toUInt8 := fun k ↦ by
    unfold IsCont
    rw [toNat_toUInt8 (by omega)]
    omega
  have hc₀ : IsCont (0x80 + cp % 64).toUInt8 := by simpa using hc 1
  have hb : ∀ k, (0x80 + cp / k % 64).toUInt8.toNat = 0x80 + cp / k % 64 :=
    fun k ↦ toNat_toUInt8 (by omega)
  have hb₀ : (0x80 + cp % 64).toUInt8.toNat = 0x80 + cp % 64 := toNat_toUInt8 (by omega)
  by_cases h₂ : cp < 0x800
  · have hlead : (0xC0 + cp / 64).toUInt8.toNat = 0xC0 + cp / 64 := toNat_toUInt8 (by omega)
    refine ⟨(0xC0 + cp / 64).toUInt8, [(0x80 + cp % 64).toUInt8],
      by simp only [utf8Encode, if_neg hlarge, if_pos h₂], ?_, ?_⟩
    · rw [utf8CheckFirst_eq, hlead, if_neg (by omega), if_neg (by omega), if_pos (by omega)]
      rfl
    · simp only [utf8CheckFull, List.length_cons, List.length_nil, List.foldl_cons,
        List.foldl_nil, List.any_cons, List.any_nil, Bool.or_false, decide_eq_true_eq,
        Nat.reduceAdd, Nat.reduceEqDiff, ↓reduceIte, true_and, false_and, or_false, false_or,
        Nat.reduceLT, hc₀.not_lt, hc₀.not_gt, decide_False, Bool.false_eq_true, hlead, hb₀,
        show (0xC0 + cp / 64) % 32 * 64 + (0x80 + cp % 64) % 64 = cp by omega]
      rw [if_neg (by omega), if_neg (by omega)]
  by_cases h₃ : cp < 0x10000
  · have hlead : (0xE0 + cp / 4096).toUInt8.toNat = 0xE0 + cp / 4096 := toNat_toUInt8 (by omega)
    refine ⟨(0xE0 + cp / 4096).toUInt8, [(0x80 + cp / 64 % 64).toUInt8, (0x80 + cp % 64).toUInt8],
      by simp only [utf8Encode, if_neg hlarge, if_neg h₂, if_pos h₃], ?_, ?_⟩
    · rw [utf8CheckFirst_eq, hlead, if_neg (by omega), if_neg (by omega), if_neg (by omega),
        if_pos (by omega)]
      rfl
    · simp only [utf8CheckFull, List.length_cons, List.length_nil, List.foldl_cons,
        List.foldl_nil, List.any_cons, List.any_nil, Bool.or_false, decide_eq_true_eq,
        Nat.reduceAdd, Nat.reduceEqDiff, ↓reduceIte, true_and, false_and, or_false, false_or,
        Nat.reduceLT, (hc 64).not_lt, (hc 64).not_gt, hc₀.not_lt, hc₀.not_gt, decide_False,
        Bool.false_eq_true, hlead, hb, hb₀, show ((0xE0 + cp / 4096) % 16 * 64 +
          (0x80 + cp / 64 % 64) % 64) * 64 + (0x80 + cp % 64) % 64 = cp by omega]
      rw [if_neg (by omega), if_neg (by omega)]
  · have hlead : (0xF0 + cp / 262144).toUInt8.toNat = 0xF0 + cp / 262144 :=
      toNat_toUInt8 (by omega)
    refine ⟨(0xF0 + cp / 262144).toUInt8, [(0x80 + cp / 4096 % 64).toUInt8,
      (0x80 + cp / 64 % 64).toUInt8, (0x80 + cp % 64).toUInt8],
      by simp only [utf8Encode, if_neg hlarge, if_neg h₂, if_neg h₃], ?_, ?_⟩
    · rw [utf8CheckFirst_eq, hlead, if_neg (by omega), if_neg (by omega), if_neg (by omega),
        if_neg (by omega), if_pos (by omega)]
      rfl
    · simp only [utf8CheckFull, List.length_cons, List.length_nil, List.foldl_cons,
        List.foldl_nil, List.any_cons, List.any_nil, Bool.or_false, decide_eq_true_eq,
        Nat.reduceAdd, Nat.reduceEqDiff, ↓reduceIte, true_and, false_and, or_false, false_or,
        Nat.reduceLT, (hc 4096).not_lt, (hc 4096).not_gt, (hc 64).not_lt, (hc 64).not_gt,
        hc₀.not_lt, hc₀.not_gt, decide_False, Bool.false_eq_true, hlead, hb, hb₀,
        show (((0xF0 + cp / 262144) % 8 * 64 + (0x80 + cp / 4096 % 64) % 64) * 64 +
          (0x80 + cp / 64 % 64) % 64) * 64 + (0x80 + cp % 64) % 64 = cp by omega]
      rw [if_neg (by omega), if_neg (by omega)]

end Sequence

/-! ## Whole strings -/

section Strings

theorem isScalar_of_lt {c : UInt8} (h : c < 0x80) : IsScalar c.toNat := by
  have : c.toNat < 0x80 := h
  unfold IsScalar
  omega

/-- `utf8_check_string` passes over the sequence `utf8_encode` writes for a scalar value. -/
theorem utf8CheckString_utf8Encode_append {cp : ℕ} (hcp : IsScalar cp) (s : Bytes) :
    utf8CheckString (utf8Encode cp ++ s) = utf8CheckString s := by
  by_cases hsmall : cp < 0x80
  · have hc : cp.toUInt8 < 0x80 := show cp.toUInt8.toNat < 0x80 by
      rw [toNat_toUInt8 (by omega)]
      exact hsmall
    rw [utf8Encode, if_pos hsmall, List.singleton_append, utf8CheckString_cons, if_pos hc]
  obtain ⟨lead, cont, hencode, hfirst, hfull⟩ := utf8Encode_sequence hcp hsmall
  obtain ⟨u, rest, rfl⟩ : ∃ u rest, cont = u :: rest := List.exists_cons_of_ne_nil <| by
    rintro rfl
    simp [utf8CheckFull] at hfull
  have hlead : ¬lead < 0x80 := UInt8.not_lt.mpr (le_of_utf8CheckFirst (n := rest.length) hfirst)
  have hseq : utf8SequenceOk lead (u :: rest ++ s) = true := by
    simp [utf8SequenceOk, hfirst, List.take_append_of_le_length (le_refl _), hfull]
  rw [hencode, List.cons_append, utf8CheckString_cons, if_neg hlead, hseq, hfirst,
    Nat.add_sub_cancel, List.drop_left, Bool.true_and]

/-- `utf8_check_string` accepts what `utf8_encode` writes for a sequence of scalar values. -/
theorem utf8CheckString_flatMap_utf8Encode (cps : List ℕ) (h : ∀ cp ∈ cps, IsScalar cp) :
    utf8CheckString (cps.flatMap utf8Encode) = true := by
  induction cps with
  | nil => rfl
  | cons cp cps ih =>
    rw [List.flatMap_cons, utf8CheckString_utf8Encode_append (h cp (.head _)),
      ih fun cp' hcp' ↦ h cp' (.tail _ hcp')]

/-- A string `utf8_check_string` accepts is what `utf8_encode` writes for a sequence of scalar
values: an ASCII byte is its own code point, and a sequence decodes to the value it encodes. -/
theorem exists_scalars_of_utf8CheckString : ∀ s : Bytes, utf8CheckString s = true →
    ∃ cps : List ℕ, (∀ cp ∈ cps, IsScalar cp) ∧ s = cps.flatMap utf8Encode
  | [], _ => ⟨[], by simp, rfl⟩
  | c :: rest, hs => by
    rw [utf8CheckString_cons] at hs
    split_ifs at hs with hc
    · obtain ⟨cps, hcps, hrest⟩ := exists_scalars_of_utf8CheckString rest hs
      refine ⟨c.toNat :: cps, List.forall_mem_cons.mpr ⟨isScalar_of_lt hc, hcps⟩, ?_⟩
      rw [List.flatMap_cons, utf8Encode_of_lt hc, hrest]
      rfl
    · -- a lead byte, its continuation bytes, and the rest of the string
      obtain ⟨hseq, hafter⟩ := Bool.and_eq_true _ _ ▸ hs
      obtain ⟨n, hfirst, hn, hfull⟩ := utf8SequenceOk_eq_true hseq
      obtain ⟨v, hv⟩ := Option.isSome_iff_exists.mp hfull
      have hlen : (rest.take n).length = n := List.length_take_of_le hn
      obtain ⟨hencode, hscalar⟩ := utf8Encode_of_utf8CheckFull (by rw [hfirst, hlen]) hv
      rw [hfirst, Nat.add_sub_cancel] at hafter
      obtain ⟨cps, hcps, hrest⟩ := exists_scalars_of_utf8CheckString (rest.drop n) hafter
      refine ⟨v :: cps, List.forall_mem_cons.mpr ⟨hscalar, hcps⟩, ?_⟩
      rw [List.flatMap_cons, hencode, ← hrest, List.cons_append, List.take_append_drop]
termination_by s => s.length

/-- **What `utf8_check_string` accepts**: exactly the bytes `utf8_encode` writes for a sequence
of Unicode scalar values. -/
theorem utf8CheckString_iff (s : Bytes) : utf8CheckString s = true ↔
    ∃ cps : List ℕ, (∀ cp ∈ cps, IsScalar cp) ∧ s = cps.flatMap utf8Encode :=
  ⟨exists_scalars_of_utf8CheckString s,
    fun ⟨cps, hcps, hs⟩ ↦ hs ▸ utf8CheckString_flatMap_utf8Encode cps hcps⟩

/-- `utf8_check_string` of a valid string and more is the check of what follows. -/
theorem utf8CheckString_append_of_utf8 {a : Bytes} (ha : utf8CheckString a = true) (b : Bytes) :
    utf8CheckString (a ++ b) = utf8CheckString b := by
  obtain ⟨cps, hcps, rfl⟩ := (utf8CheckString_iff a).mp ha
  clear ha
  induction cps with
  | nil => rfl
  | cons cp cps ih =>
    rw [List.flatMap_cons, List.append_assoc, utf8CheckString_utf8Encode_append (hcps cp (.head _)),
      ih fun cp' hcp' ↦ hcps cp' (.tail _ hcp')]

theorem utf8CheckString_append {a b : Bytes} (ha : utf8CheckString a = true)
    (hb : utf8CheckString b = true) : utf8CheckString (a ++ b) = true :=
  (utf8CheckString_append_of_utf8 ha b).trans hb

theorem utf8CheckString_flatten : ∀ ls : List Bytes, (∀ l ∈ ls, utf8CheckString l = true) →
    utf8CheckString ls.flatten = true
  | [], _ => rfl
  | l :: ls, h => by
    rw [List.flatten_cons]
    exact utf8CheckString_append (h l (.head _)) (utf8CheckString_flatten ls fun l' hl' ↦ h l' (.tail _ hl'))

theorem zero_not_mem_utf8Encode {cp : ℕ} (hcp : IsScalar cp) (h0 : cp ≠ 0) : 0 ∉ utf8Encode cp := by
  unfold IsScalar at hcp
  have hbyte : ∀ k, 0 < k → k < 256 → ¬0 = k.toUInt8 := fun k hk hk' h ↦ by
    have := congrArg UInt8.toNat h
    rw [toNat_toUInt8 hk', UInt8.toNat_zero] at this
    omega
  unfold utf8Encode
  split_ifs <;> simp only [List.mem_cons, List.mem_singleton, List.not_mem_nil, or_false, not_or] <;>
    repeat' constructor
  all_goals exact hbyte _ (by omega) (by omega)

/-- The C string of a valid string: the code points before the first NUL. -/
theorem cString_flatMap_utf8Encode : ∀ cps : List ℕ, (∀ cp ∈ cps, IsScalar cp) →
    cString (cps.flatMap utf8Encode) = (cps.takeWhile (· != 0)).flatMap utf8Encode
  | [], _ => rfl
  | cp :: cps, hcps => by
    by_cases h0 : cp = 0
    · subst h0
      rfl
    · have hnot := zero_not_mem_utf8Encode (hcps cp (.head _)) h0
      rw [List.flatMap_cons, cString, List.takeWhile_append_of_pos fun x hx ↦ by
          simpa using ne_of_mem_of_not_mem hx hnot, ← cString,
        cString_flatMap_utf8Encode cps fun cp' hcp' ↦ hcps cp' (.tail _ hcp'),
        List.takeWhile_cons_of_pos (by simpa using h0), List.flatMap_cons]

theorem utf8CheckString_cString {s : Bytes} (h : utf8CheckString s = true) :
    utf8CheckString (cString s) = true := by
  obtain ⟨cps, hcps, rfl⟩ := (utf8CheckString_iff s).mp h
  rw [cString_flatMap_utf8Encode cps hcps]
  exact utf8CheckString_flatMap_utf8Encode _ fun cp hcp ↦ hcps cp ((List.takeWhile_sublist _).subset hcp)

end Strings

end QfsClient
