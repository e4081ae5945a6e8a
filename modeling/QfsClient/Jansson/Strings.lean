import QfsClient.Jansson.Utf8

/-!
# Every string `json_loads` returns is valid UTF-8

`lex_scan_string` reads a string in two passes. The first (`scanString`) checks the raw text up
to the closing quote: an ASCII byte other than a control character, a whole UTF-8 sequence that
the input stream checks at its lead byte, a one-letter escape, or `\u` with four hex digits.
`RawText` is that grammar, and `rawText_of_scanString` says the first pass keeps to it. The
second pass (`decodeString`) turns the escapes into bytes, and joins a surrogate pair into one
code point. `decodeLoop_rawText`: on a text of the grammar it gives the UTF-8 encoding of a
sequence of Unicode scalar values, so every string token passes `utf8_check_string`.

`jsonLoads_validUtf8` lifts this to the values the parser builds: every string of a value
`json_loads` returns, and every key of its objects, passes `utf8_check_string`.
-/

namespace QfsClient

/-! ## The raw text of a string -/

/-- The raw text the first pass of `lex_scan_string` accepts, piece by piece: an ASCII byte
other than `\`, a whole UTF-8 sequence (a lead byte, then the `n` bytes it announces), a
one-letter escape, and `\u` with four hex digits. -/
inductive RawText : Bytes → Prop
  | nil : RawText []
  | plain {c : UInt8} {rest : Bytes} : c < 0x80 → c ≠ chr '\\' → RawText rest → RawText (c :: rest)
  | sequence {lead : UInt8} {rest : Bytes} (n : ℕ) : utf8CheckFirst lead = n + 1 → n ≤ rest.length →
      (utf8CheckFull lead (rest.take n)).isSome → RawText (rest.drop n) → RawText (lead :: rest)
  | escape {e : UInt8} {rest : Bytes} :
      [chr '"', chr '\\', chr '/', chr 'b', chr 'f', chr 'n', chr 'r', chr 't'].contains e →
      RawText rest → RawText (chr '\\' :: e :: rest)
  | unicode {h₁ h₂ h₃ h₄ : UInt8} {rest : Bytes} :
      (isHex h₁ && isHex h₂ && isHex h₃ && isHex h₄) = true → RawText rest →
      RawText (chr '\\' :: chr 'u' :: h₁ :: h₂ :: h₃ :: h₄ :: rest)

/-- The pending bytes of a sequence are handed out as they are. -/
theorem scanString_take {n : ℕ} {rest : Bytes} (hn : n ≤ rest.length) :
    scanString n rest = (fun r ↦ (rest.take n ++ r.1, r.2)) <$> scanString 0 (rest.drop n) := by
  have h := scanString_pendings (rest.take n) (rest.drop n)
  rwa [List.length_take_of_le hn, List.take_append_drop] at h

/-- The first pass of `lex_scan_string` keeps to `RawText`, on an input of at most `n` bytes. -/
theorem rawText_of_scanString_le (n : ℕ) : ∀ input : Bytes, input.length ≤ n →
    ∀ raw after : Bytes, scanString 0 input = .ok (raw, after) → RawText raw := by
  induction n with
  | zero =>
    intro input hlen raw after h
    rw [List.length_eq_zero.mp (Nat.le_zero.mp hlen)] at h
    cases h
  | succ n ih =>
    intro input hlen raw after h
    rcases input with _ | ⟨c, rest⟩
    · cases h
    rw [List.length_cons, Nat.add_le_add_iff_right] at hlen
    rw [scanString.eq_def] at h
    simp only [ne_eq, not_true_eq_false, if_false, beq_iff_eq] at h
    by_cases hquote : c = chr '"'
    · rw [if_pos hquote] at h
      cases h
      exact .nil
    by_cases hctrl : c < 0x20
    · rw [if_neg hquote, if_pos hctrl] at h
      cases h
    by_cases hslash : c = chr '\\'
    · rw [if_neg hquote, if_neg hctrl, if_pos hslash] at h
      subst hslash
      rcases rest with _ | ⟨e, more⟩
      · cases h
      dsimp only at h
      split_ifs at h with hu hlist
      · subst hu
        rcases more with _ | ⟨h₁, _ | ⟨h₂, _ | ⟨h₃, _ | ⟨h₄, more⟩⟩⟩⟩ <;> dsimp only at h <;>
          try cases h
        split_ifs at h with hhex
        obtain ⟨⟨raw', after'⟩, hscan, hr⟩ := map_eq_ok.mp h
        cases hr
        exact .unicode hhex (ih more (by simp at hlen; omega) raw' after' hscan)
      · obtain ⟨⟨raw', after'⟩, hscan, hr⟩ := map_eq_ok.mp h
        cases hr
        exact .escape hlist (ih more (by simp at hlen; omega) raw' after' hscan)
    rw [if_neg hquote, if_neg hctrl, if_neg hslash] at h
    by_cases hascii : c < 0x80
    · rw [if_pos hascii] at h
      obtain ⟨⟨raw', after'⟩, hscan, hr⟩ := map_eq_ok.mp h
      cases hr
      exact .plain hascii hslash (ih rest hlen raw' after' hscan)
    by_cases hseq : utf8SequenceOk c rest = true
    · rw [if_neg hascii, if_pos hseq] at h
      obtain ⟨k, hfirst, hk, hfull⟩ := utf8SequenceOk_eq_true hseq
      rw [hfirst, Nat.add_sub_cancel, scanString_take hk] at h
      obtain ⟨⟨raw', after'⟩, hscan, hr⟩ := map_eq_ok.mp h
      obtain ⟨⟨raw'', after''⟩, hscan', hr'⟩ := map_eq_ok.mp hscan
      cases hr
      cases hr'
      have hlen' : (rest.take k).length = k := List.length_take_of_le hk
      refine .sequence k hfirst (by simp [hlen']) ?_ ?_
      · rwa [List.take_left' hlen']
      · rw [List.drop_left' hlen']
        exact ih (rest.drop k) ((List.length_drop _ _).trans_le (by omega)) raw'' after'' hscan'
    · rw [if_neg hascii, if_neg hseq] at h
      cases h

/-- The first pass of `lex_scan_string` keeps to `RawText`. -/
theorem rawText_of_scanString {input raw after : Bytes}
    (h : scanString 0 input = .ok (raw, after)) : RawText raw :=
  rawText_of_scanString_le input.length input le_rfl raw after h

/-! ## The second pass -/

theorem hexDigit_lt {d : UInt8} (h : isHex d = true) :
    (if isDigit d then d.toNat - 48 else if d ≤ chr 'Z' then d.toNat - 55 else d.toNat - 87) < 16 := by
  have e0 : chr '0' ≤ d ↔ 48 ≤ d.toNat := Iff.rfl
  have e9 : d ≤ chr '9' ↔ d.toNat ≤ 57 := Iff.rfl
  have eA : chr 'A' ≤ d ↔ 65 ≤ d.toNat := Iff.rfl
  have eF : d ≤ chr 'F' ↔ d.toNat ≤ 70 := Iff.rfl
  have ea : chr 'a' ≤ d ↔ 97 ≤ d.toNat := Iff.rfl
  have ef : d ≤ chr 'f' ↔ d.toNat ≤ 102 := Iff.rfl
  have eZ : d ≤ chr 'Z' ↔ d.toNat ≤ 90 := Iff.rfl
  simp only [isHex, isDigit, Bool.or_eq_true, Bool.and_eq_true, decide_eq_true_eq, e0, e9, eA, eF,
    ea, ef, eZ] at h ⊢
  split_ifs <;> omega

/-- Four hex digits spell a value below `0x10000`. -/
theorem hexValue_lt {h₁ h₂ h₃ h₄ : UInt8} (h : (isHex h₁ && isHex h₂ && isHex h₃ && isHex h₄) = true) :
    hexValue [h₁, h₂, h₃, h₄] < 0x10000 := by
  simp only [Bool.and_eq_true] at h
  have d₁ := hexDigit_lt h.1.1.1
  have d₂ := hexDigit_lt h.1.1.2
  have d₃ := hexDigit_lt h.1.2
  have d₄ := hexDigit_lt h.2
  simp only [hexValue, List.foldl_cons, List.foldl_nil]
  omega

/-- A one-letter escape is not `u`, and stands for an ASCII byte. -/
theorem escape_facts {e : UInt8}
    (h : [chr '"', chr '\\', chr '/', chr 'b', chr 'f', chr 'n', chr 'r', chr 't'].contains e) :
    e ≠ chr 'u' ∧ unescape e < 0x80 := by
  have hmem := List.mem_of_elem_eq_true h
  simp only [List.mem_cons, List.mem_nil_iff, or_false] at hmem
  rcases hmem with rfl | rfl | rfl | rfl | rfl | rfl | rfl | rfl <;> decide

theorem decodeLoop_cons {c : UInt8} (hc : c ≠ chr '\\') (fuel : ℕ) (rest : Bytes) :
    decodeLoop (fuel + 1) (c :: rest) = (c :: ·) <$> decodeLoop fuel rest := by
  rw [decodeLoop, decodeStep.eq_def, if_neg (by simpa using hc)]
  rfl

/-- `decode_string` copies bytes other than `\` one at a time. -/
theorem decodeLoop_plain (fuel : ℕ) (rest : Bytes) :
    ∀ pre : Bytes, (∀ u ∈ pre, u ≠ chr '\\') →
      decodeLoop (fuel + pre.length) (pre ++ rest) = (pre ++ ·) <$> decodeLoop fuel rest
  | [], _ => by simp
  | u :: pre, hpre => by
    rw [List.length_cons, ← Nat.add_assoc, List.cons_append,
      decodeLoop_cons (hpre u (.head _)), decodeLoop_plain fuel rest pre fun v hv ↦ hpre v (.tail _ hv)]
    simp [Functor.map_map, Function.comp_def]

/-- The piece after a `\u` escape that starts a surrogate pair. -/
theorem RawText.of_unicode {g₁ g₂ g₃ g₄ : UInt8} {more : Bytes}
    (h : RawText (chr '\\' :: chr 'u' :: g₁ :: g₂ :: g₃ :: g₄ :: more)) : RawText more := by
  cases h with
  | plain _ hslash _ => exact absurd rfl hslash
  | sequence n hfirst _ hfull _ =>
    obtain rfl : n = 0 := by
      have : utf8CheckFirst (chr '\\') = 1 := by decide
      omega
    simp [utf8CheckFull] at hfull
  | escape he _ => exact absurd rfl (escape_facts he).1
  | unicode _ hmore => exact hmore

/-- Everything a round of the second pass does when the loop ends well: the step at the byte
gives a chunk and the text after it, and the loop goes on from there. -/
theorem decodeLoop_eq_ok {fuel : ℕ} {c : UInt8} {rest s : Bytes}
    (h : decodeLoop (fuel + 1) (c :: rest) = .ok s) :
    ∃ chunk after s', decodeStep c rest = .ok (chunk, after) ∧ decodeLoop fuel after = .ok s' ∧
      s = chunk ++ s' := by
  rw [decodeLoop] at h
  obtain ⟨⟨chunk, after⟩, hstep, h⟩ := bind_eq_ok.mp h
  obtain ⟨s', hs', rfl⟩ := map_eq_ok.mp h
  exact ⟨chunk, after, s', hstep, hs', rfl⟩

/-- On a raw text of the grammar, with a round for each of its bytes, the second pass of
`lex_scan_string` gives the UTF-8 encoding of a sequence of scalar values. -/
theorem decodeLoop_rawText (fuel : ℕ) : ∀ raw s : Bytes, RawText raw → raw.length ≤ fuel →
    decodeLoop fuel raw = .ok s →
      ∃ cps : List ℕ, (∀ cp ∈ cps, IsScalar cp) ∧ s = cps.flatMap utf8Encode := by
  induction fuel using Nat.strong_induction_on with
  | _ fuel ih =>
  intro raw s hraw hlen h
  cases hraw with
  | nil =>
    obtain rfl : s = [] := by cases fuel <;> simpa [decodeLoop] using h.symm
    exact ⟨[], by simp, rfl⟩
  | @plain c rest hc hslash hrest =>
    obtain ⟨f, rfl⟩ : ∃ f, fuel = f + 1 := ⟨fuel - 1, by simp at hlen; omega⟩
    rw [decodeLoop_cons hslash] at h
    obtain ⟨s', hs', rfl⟩ := map_eq_ok.mp h
    obtain ⟨cps, hcps, rfl⟩ := ih f (by omega) rest s' hrest (by simpa using hlen) hs'
    exact ⟨c.toNat :: cps, List.forall_mem_cons.mpr ⟨isScalar_of_lt hc, hcps⟩,
      by rw [List.flatMap_cons, utf8Encode_of_lt hc]; rfl⟩
  | @sequence lead rest k hfirst hk hfull hrest =>
    obtain ⟨v, hv⟩ := Option.isSome_iff_exists.mp hfull
    have hlen' : (rest.take k).length = k := List.length_take_of_le hk
    obtain ⟨hencode, hscalar⟩ := utf8Encode_of_utf8CheckFull (by rw [hfirst, hlen']) hv
    have hk0 : k ≠ 0 := by
      rintro rfl
      simp [utf8CheckFull] at hv
    have hlead : 0x80 ≤ lead := le_of_utf8CheckFirst (n := k - 1) (by omega)
    have hpre : ∀ u ∈ lead :: rest.take k, u ≠ chr '\\' := by
      intro u hu hslash
      subst hslash
      rcases List.mem_cons.mp hu with hu | hu
      · exact absurd (hu ▸ hlead) (by decide)
      · exact absurd (le_of_utf8CheckFull hfull _ hu) (by decide)
    have hsplit : lead :: rest = (lead :: rest.take k) ++ rest.drop k := by simp
    obtain ⟨f, rfl⟩ : ∃ f, fuel = f + (lead :: rest.take k).length :=
      ⟨fuel - (k + 1), by simp only [List.length_cons, hlen'] at hlen ⊢; omega⟩
    rw [hsplit, decodeLoop_plain f _ _ hpre] at h
    obtain ⟨s', hs', rfl⟩ := map_eq_ok.mp h
    obtain ⟨cps, hcps, rfl⟩ := ih f (by simp) _ s' hrest (by simp at hlen ⊢; omega) hs'
    exact ⟨v :: cps, List.forall_mem_cons.mpr ⟨hscalar, hcps⟩, by rw [List.flatMap_cons, hencode]⟩
  | @escape e rest he hrest =>
    obtain ⟨f, rfl⟩ : ∃ f, fuel = f + 1 := ⟨fuel - 1, by simp at hlen; omega⟩
    obtain ⟨chunk, after, s', hstep, hs', rfl⟩ := decodeLoop_eq_ok h
    obtain ⟨hu, hun⟩ := escape_facts he
    rw [decodeStep.eq_def] at hstep
    simp only [beq_self_eq_true, if_true, beq_iff_eq, hu, if_false, Except.ok.injEq,
      Prod.mk.injEq] at hstep
    obtain ⟨rfl, rfl⟩ := hstep
    obtain ⟨cps, hcps, rfl⟩ := ih f (by omega) _ s' hrest (by simp at hlen; omega) hs'
    exact ⟨(unescape e).toNat :: cps, List.forall_mem_cons.mpr ⟨isScalar_of_lt hun, hcps⟩,
      by rw [List.flatMap_cons, utf8Encode_of_lt hun]⟩
  | @unicode h₁ h₂ h₃ h₄ rest hhex hrest =>
    obtain ⟨f, rfl⟩ : ∃ f, fuel = f + 1 := ⟨fuel - 1, by simp at hlen; omega⟩
    obtain ⟨chunk, after, s', hstep, hs', rfl⟩ := decodeLoop_eq_ok h
    have hvalue := hexValue_lt hhex
    rw [decodeStep.eq_def] at hstep
    simp only [beq_self_eq_true, if_true] at hstep
    split_ifs at hstep with hhigh hlow
    · -- a surrogate pair
      rcases rest with _ | ⟨b, _ | ⟨u, _ | ⟨g₁, _ | ⟨g₂, _ | ⟨g₃, _ | ⟨g₄, more⟩⟩⟩⟩⟩⟩ <;>
        dsimp only at hstep <;> try cases hstep
      split_ifs at hstep with hpair
      simp only [Bool.and_eq_true, beq_iff_eq, decide_eq_true_eq] at hpair
      obtain ⟨⟨⟨rfl, rfl⟩, hlo⟩, hhi⟩ := hpair
      simp only [Except.ok.injEq, Prod.mk.injEq] at hstep
      obtain ⟨rfl, rfl⟩ := hstep
      obtain ⟨cps, hcps, rfl⟩ :=
        ih f (by omega) _ s' hrest.of_unicode (by simp at hlen; omega) hs'
      refine ⟨_ :: cps, List.forall_mem_cons.mpr ⟨?_, hcps⟩, rfl⟩
      unfold IsScalar
      omega
    · simp only [Except.ok.injEq, Prod.mk.injEq] at hstep
      obtain ⟨rfl, rfl⟩ := hstep
      obtain ⟨cps, hcps, rfl⟩ := ih f (by omega) _ s' hrest (by simp at hlen; omega) hs'
      refine ⟨_ :: cps, List.forall_mem_cons.mpr ⟨?_, hcps⟩, rfl⟩
      unfold IsScalar
      omega

/-! ## String tokens -/

theorem scanNumber_ne_string (intAsReal : Bool) (input s after : Bytes) :
    scanNumber intAsReal input ≠ .ok (.string s, after) := by
  intro h
  unfold scanNumber at h
  dsimp only at h
  repeat' split at h
  all_goals cases h

/-- Every string token `lex_scan` reads is the UTF-8 encoding of a sequence of Unicode scalar
values. -/
theorem lexScan_string {intAsReal : Bool} {input s after : Bytes}
    (h : lexScan intAsReal input = .ok (.string s, after)) :
    ∃ cps : List ℕ, (∀ cp ∈ cps, IsScalar cp) ∧ s = cps.flatMap utf8Encode := by
  unfold lexScan at h
  split at h
  · cases h
  rename_i c rest _
  split at h
  · rename_i tok htok
    cases h
    unfold punctuation at htok
    split_ifs at htok <;> cases htok
  split_ifs at h with hquote hnumber halpha
  · obtain ⟨⟨raw, after'⟩, hscan, h⟩ := bind_eq_ok.mp h
    obtain ⟨s', hdecode, h⟩ := bind_eq_ok.mp h
    cases h
    exact decodeLoop_rawText raw.length raw s (rawText_of_scanString hscan) le_rfl hdecode
  · exact absurd h (scanNumber_ne_string _ _ _ _)
  · have hk := congrArg Prod.fst (Except.ok.inj h)
    unfold keyword at hk
    split_ifs at hk
  · cases h

/-- A token that is a string passes `utf8_check_string`. -/
def Token.Utf8 (tok : Token) : Prop := ∀ s, tok = .string s → utf8CheckString s = true

/-- Every token `lex_scan` reads is one. -/
theorem lexScan_utf8 {intAsReal : Bool} {input after : Bytes} {tok : Token}
    (h : lexScan intAsReal input = .ok (tok, after)) : tok.Utf8 := by
  rintro s rfl
  obtain ⟨cps, hcps, rfl⟩ := lexScan_string h
  exact utf8CheckString_flatMap_utf8Encode cps hcps

/-! ## What the parser builds -/

/-- Every string of a value, and every key of its objects, passes `utf8_check_string`. -/
inductive Json.ValidUtf8 : Json → Prop
  | null : ValidUtf8 .null
  | bool (b : Bool) : ValidUtf8 (.bool b)
  | integer (i : ℤ) : ValidUtf8 (.integer i)
  | real (text : Bytes) : ValidUtf8 (.real text)
  | string {s : Bytes} : utf8CheckString s = true → ValidUtf8 (.string s)
  | array {elems : List Json} : (∀ v ∈ elems, ValidUtf8 v) → ValidUtf8 (.array elems)
  | object {members : List (Bytes × Json)} : (∀ m ∈ members, utf8CheckString m.1 = true) →
      (∀ m ∈ members, ValidUtf8 m.2) → ValidUtf8 (.object members)

theorem Json.ValidUtf8.objectGet {v w : Json} {key : Bytes} (hv : v.ValidUtf8)
    (h : v.objectGet key = some w) : w.ValidUtf8 := by
  cases hv with
  | object _ hvals =>
    obtain ⟨l₁, l₂, rfl, -⟩ := List.lookup_eq_some_iff.mp h
    exact hvals (key, w) (by simp)
  | _ => simp [Json.objectGet] at h

theorem Json.ValidUtf8.objectItems {v : Json} (hv : v.ValidUtf8) :
    ∀ m ∈ v.objectItems, utf8CheckString m.1 = true := by
  cases hv with
  | object hkeys _ => exact hkeys
  | _ => simp [Json.objectItems]

theorem mem_assocSet_of_mem {β : Type} {ms : List (Bytes × β)} {key : Bytes} {value : β}
    {p : Bytes × β} (h : p ∈ assocSet ms key value) : p = (key, value) ∨ p ∈ ms := by
  induction ms with
  | nil => simpa [assocSet] using h
  | cons m ms ih =>
    unfold assocSet at h
    split_ifs at h
    · rcases List.mem_cons.mp h with h | h
      exacts [.inl h, .inr (.tail _ h)]
    · rcases List.mem_cons.mp h with h | h
      · exact .inr (h ▸ .head _)
      · exact (ih h).imp_right (.tail _)

section ValidUtf8

variable {flags : DecodeFlags} {value : Token → Bytes → Except DecodeError (Json × Bytes)}
  (hvalue : ∀ tok input v rest, tok.Utf8 → value tok input = .ok (v, rest) → v.ValidUtf8)
include hvalue

theorem parseMembers_validUtf8 :
    ∀ fuel members tok input v rest, (∀ m ∈ members, utf8CheckString m.1 = true ∧ m.2.ValidUtf8) →
      tok.Utf8 → parseMembers flags value fuel members tok input = .ok (v, rest) → v.ValidUtf8 := by
  intro fuel
  induction fuel with
  | zero => intro _ _ _ _ _ _ _ h; simp [parseMembers] at h
  | succ fuel ih =>
    intro members tok input v rest hmembers htok h
    obtain ⟨_, key, ⟨⟩, rfl, -, _, _, _, w, _, _, _, -, htok', hw, -, hround⟩ :=
      parseMembers_eq_ok h
    have hmembers' : ∀ m ∈ assocSet members key w, utf8CheckString m.1 = true ∧ m.2.ValidUtf8 := by
      intro m hm
      rcases mem_assocSet_of_mem hm with rfl | hm
      exacts [⟨htok key rfl, hvalue _ _ _ _ (lexScan_utf8 htok') hw⟩, hmembers m hm]
    rcases hround with ⟨-, _, _, hnext, h⟩ | ⟨rfl, -⟩
    · exact ih _ _ _ _ _ hmembers' (lexScan_utf8 hnext) h
    · exact .object (fun m hm ↦ (hmembers' m hm).1) (fun m hm ↦ (hmembers' m hm).2)

theorem parseObject_validUtf8 {input : Bytes} {v : Json} {rest : Bytes}
    (h : parseObject flags value input = .ok (v, rest)) : v.ValidUtf8 := by
  obtain ⟨_, _, hscan, ⟨rfl, -⟩ | h⟩ := parseObject_eq_ok h
  · exact .object (by simp) (by simp)
  · exact parseMembers_validUtf8 hvalue _ _ _ _ _ _ (by simp) (lexScan_utf8 hscan) h

theorem parseElements_validUtf8 :
    ∀ fuel elems tok input v rest, (∀ e ∈ elems, Json.ValidUtf8 e) → tok.Utf8 →
      parseElements flags value fuel elems tok input = .ok (v, rest) → v.ValidUtf8 := by
  intro fuel
  induction fuel with
  | zero => intro _ _ _ _ _ _ _ h; simp [parseElements] at h
  | succ fuel ih =>
    intro elems tok input v rest helems htok h
    obtain ⟨_, ⟨⟩, w, _, _, _, hw, -, hround⟩ := parseElements_eq_ok h
    have helems' : ∀ e ∈ elems ++ [w], Json.ValidUtf8 e := by
      simpa [or_imp, forall_and] using ⟨helems, hvalue _ _ _ _ htok hw⟩
    rcases hround with ⟨-, _, _, hnext, h⟩ | ⟨rfl, -⟩
    · exact ih _ _ _ _ _ helems' (lexScan_utf8 hnext) h
    · exact .array helems'

theorem parseArray_validUtf8 {input : Bytes} {v : Json} {rest : Bytes}
    (h : parseArray flags value input = .ok (v, rest)) : v.ValidUtf8 := by
  obtain ⟨_, _, hscan, ⟨rfl, -⟩ | h⟩ := parseArray_eq_ok h
  · exact .array (by simp)
  · exact parseElements_validUtf8 hvalue _ _ _ _ _ _ (by simp) (lexScan_utf8 hscan) h

end ValidUtf8

/-- Every value `parse_value` builds from a token `lex_scan` read passes the check. -/
theorem parseValue_validUtf8 (flags : DecodeFlags) :
    ∀ depth tok input v rest, tok.Utf8 → parseValue flags depth tok input = .ok (v, rest) →
      v.ValidUtf8
  | 0, _, _, _, _, _, h => by simp [parseValue] at h
  | depth + 1, tok, input, v, rest, htok, h => by
    cases tok with
    | string s =>
      simp only [parseValue] at h
      split_ifs at h
      cases h
      exact .string (htok s rfl)
    | integer i => cases h; exact .integer i
    | real text => cases h; exact .real text
    | trueLit => cases h; exact .bool true
    | falseLit => cases h; exact .bool false
    | nullLit => cases h; exact .null
    | lbrace => exact parseObject_validUtf8 (parseValue_validUtf8 flags depth) h
    | lbracket => exact parseArray_validUtf8 (parseValue_validUtf8 flags depth) h
    | _ => simp [parseValue] at h

/-- Every value `parse_json` returns passes the check. -/
theorem parseJson_validUtf8 {flags : DecodeFlags} {text : Bytes} {v : Json}
    (h : parseJson flags text = .ok v) : v.ValidUtf8 := by
  simp only [parseJson, bind_eq_ok] at h
  obtain ⟨⟨tok, after⟩, hscan, h⟩ := h
  split_ifs at h <;> obtain ⟨⟨w, afterValue⟩, hw, h⟩ := bind_eq_ok.mp h
  · cases h
    exact parseValue_validUtf8 _ _ _ _ _ _ (lexScan_utf8 hscan) hw
  · obtain ⟨⟨tok', rest⟩, -, h⟩ := bind_eq_ok.mp h
    split_ifs at h
    cases h
    exact parseValue_validUtf8 _ _ _ _ _ _ (lexScan_utf8 hscan) hw

/-- Under every flags value, every string and every key of a value `json_loads` returns passes
`utf8_check_string`. -/
theorem jsonLoads_validUtf8 {text : Bytes} {flags : ℕ} {v : Json}
    (h : jsonLoads text flags = .ok v) : v.ValidUtf8 :=
  parseJson_validUtf8 h

/-- An object whose key is `é` written as an escape, and whose value is the code point
`0x1F600` written as a surrogate pair. -/
def surrogatePairText : Bytes := ascii "\x7b\"\\u00e9\":\"\\ud83d\\ude00\"\x7d"

theorem jsonLoads_validUtf8_surrogatePair :
    jsonLoads surrogatePairText 0 = .ok (.object [([0xC3, 0xA9], .string [0xF0, 0x9F, 0x98, 0x80])]) ∧
      Json.ValidUtf8 (.object [([0xC3, 0xA9], .string [0xF0, 0x9F, 0x98, 0x80])]) :=
  have h : jsonLoads surrogatePairText 0 =
      .ok (.object [([0xC3, 0xA9], .string [0xF0, 0x9F, 0x98, 0x80])]) := rfl
  ⟨h, jsonLoads_validUtf8 h⟩

end QfsClient
