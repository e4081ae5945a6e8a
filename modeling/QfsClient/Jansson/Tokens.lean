import Mathlib.Algebra.Group.Nat.Basic
import QfsClient.Jansson.Dump
import QfsClient.Jansson.Load

/-!
# The lexer reads back every token `json_dumps` writes

`lexScan` takes back each token `dump` writes and leaves what follows it as it was: a string
`dump_string` wrote (`lexScan_dumpString`), an integer in the range of `json_int_t`
(`lexScan_integer`), the three keywords, and the bytes that are tokens by themselves. A string
is read back exactly when it is valid UTF-8: the scan then takes each escape `dump_string`
writes and each whole UTF-8 sequence, and `decode_string` turns the escapes back into their
bytes. Otherwise the input stream stops at the first lead byte that does not start a whole
sequence of the string, since `dump_string` writes every byte from `0x80` up as it is and every
ASCII byte as itself or as an escape.

After a number or a keyword the lexer reads on while it sees digits or letters, so those lemmas
hold when what follows is `Delimited`: the end of the text, a `,` or a closing bracket, the only
bytes `dump` writes after a value.
-/

namespace QfsClient

/-! ## Strings -/

theorem toUInt8_toNat (c : UInt8) : c.toNat.toUInt8 = c :=
  UInt8.toNat.inj (UInt8.toNat_ofNat_of_lt c.toNat_lt_size)

theorem isHex_hexDigitUpper : ∀ n < 16, isHex (hexDigitUpper n) = true := by decide

theorem hexValue_escape : ∀ n < 32,
    hexValue [chr '0', chr '0', hexDigitUpper (n / 16), hexDigitUpper (n % 16)] = n := by
  decide

/-- Every one-letter escape is one `lex_scan_string` takes, and `decode_string` turns it back
into its byte. -/
theorem escapeLetters_lookup {c e : UInt8} (h : escapeLetters.lookup c = some e) :
    [chr '"', chr '\\', chr '/', chr 'b', chr 'f', chr 'n', chr 'r', chr 't'].contains e ∧
      e ≠ chr 'u' ∧ unescape e = c ∧ c < 0x80 := by
  obtain ⟨l₁, l₂, hl, -⟩ := List.lookup_eq_some_iff.mp h
  have hmem : (c, e) ∈ escapeLetters := hl ▸ List.mem_append_right _ (List.mem_cons_self _ _)
  revert hmem
  exact (by decide : ∀ p ∈ escapeLetters, [chr '"', chr '\\', chr '/', chr 'b', chr 'f', chr 'n',
    chr 'r', chr 't'].contains p.2 ∧ p.2 ≠ chr 'u' ∧ unescape p.2 = p.1 ∧ p.1 < 0x80) (c, e)

/-- What `dump_string` writes for a byte: a one-letter escape, `\u00` and two hex digits for
another control character, or the byte itself. -/
theorem escapeByte_cases (c : UInt8) :
    (∃ e, escapeByte c = [chr '\\', e] ∧
        [chr '"', chr '\\', chr '/', chr 'b', chr 'f', chr 'n', chr 'r', chr 't'].contains e ∧
        e ≠ chr 'u' ∧ unescape e = c) ∨
      (c < 0x20 ∧ escapeByte c = [chr '\\', chr 'u', chr '0', chr '0',
        hexDigitUpper (c.toNat / 16), hexDigitUpper (c.toNat % 16)]) ∨
      (escapeByte c = [c] ∧ c ≠ chr '"' ∧ c ≠ chr '\\' ∧ ¬c < 0x20) := by
  rcases hl : escapeLetters.lookup c with _ | e
  · by_cases hc : c < 0x20
    · exact .inr (.inl ⟨hc, by simp only [escapeByte, hl, if_pos hc]⟩)
    · refine .inr (.inr ⟨by simp only [escapeByte, hl, if_neg hc], ?_, ?_, hc⟩) <;>
        rintro rfl <;> exact absurd hl (by decide)
  · obtain ⟨hlist, hu, hun, -⟩ := escapeLetters_lookup hl
    exact .inl ⟨e, by simp only [escapeByte, hl], hlist, hu, hun⟩

/-- A byte that is not ASCII is written as it is. -/
theorem escapeByte_of_le {c : UInt8} (h : 0x80 ≤ c) : escapeByte c = [c] := by
  rcases hl : escapeLetters.lookup c with _ | e
  · have hctrl : ¬c < 0x20 := UInt8.not_lt.mpr (UInt8.le_trans (by decide) h)
    simp only [escapeByte, hl, if_neg hctrl]
  · exact absurd h (UInt8.not_le.mpr (escapeLetters_lookup hl).2.2.2)

section Steps

variable (t : Bytes)

theorem scanString_plain {c : UInt8} (hquote : c ≠ chr '"') (hctrl : ¬c < 0x20)
    (hesc : c ≠ chr '\\') (hascii : c < 0x80) :
    scanString 0 ([c] ++ t) = (fun r ↦ ([c] ++ r.1, r.2)) <$> scanString 0 t := by
  rw [List.singleton_append, scanString.eq_def]
  simp only [ne_eq, not_true_eq_false, if_false, beq_iff_eq, hquote, hctrl, hesc, hascii, if_true]
  rfl

theorem scanString_escape {e : UInt8}
    (he : [chr '"', chr '\\', chr '/', chr 'b', chr 'f', chr 'n', chr 'r', chr 't'].contains e)
    (hu : e ≠ chr 'u') :
    scanString 0 ([chr '\\', e] ++ t) = (fun r ↦ ([chr '\\', e] ++ r.1, r.2)) <$> scanString 0 t := by
  rw [List.cons_append, List.cons_append, List.nil_append, scanString.eq_def]
  simp (disch := decide) only [ne_eq, not_true_eq_false, if_false, if_pos, if_neg, beq_iff_eq, hu, he,
    if_true]

theorem scanString_unicode {h1 h2 h3 h4 : UInt8}
    (hhex : (isHex h1 && isHex h2 && isHex h3 && isHex h4) = true) :
    scanString 0 ([chr '\\', chr 'u', h1, h2, h3, h4] ++ t) =
      (fun r ↦ ([chr '\\', chr 'u', h1, h2, h3, h4] ++ r.1, r.2)) <$> scanString 0 t := by
  simp only [List.cons_append, List.nil_append]
  rw [scanString.eq_def]
  simp (disch := decide) only [ne_eq, not_true_eq_false, if_false, if_pos, if_neg, hhex, if_true]
  rfl

theorem scanString_lead {c : UInt8} (hlead : 0x80 ≤ c) (hseq : utf8SequenceOk c t = true) :
    scanString 0 (c :: t) = (fun r ↦ (c :: r.1, r.2)) <$> scanString (utf8CheckFirst c - 1) t := by
  have hne : ∀ k : UInt8, k < 0x80 → c ≠ k := fun k hk e ↦ absurd (e ▸ hlead) (UInt8.not_le.mpr hk)
  rw [scanString.eq_def]
  simp (disch := decide) only [ne_eq, not_true_eq_false, if_false, beq_iff_eq, hne,
    UInt8.not_lt.mpr (UInt8.le_trans (show (0x20 : UInt8) ≤ 0x80 by decide) hlead),
    UInt8.not_lt.mpr hlead, hseq, if_true]

theorem scanString_pending {k : ℕ} {c : UInt8} :
    scanString (k + 1) (c :: t) = (fun r ↦ (c :: r.1, r.2)) <$> scanString k t := by
  rw [scanString.eq_def]
  simp

end Steps

/-- `lex_scan_string` reads the text `dump_string` writes for an ASCII byte and goes on after it. -/
theorem scanString_escapeByte {c : UInt8} (hc : c < 0x80) (t : Bytes) :
    scanString 0 (escapeByte c ++ t) = (fun r ↦ (escapeByte c ++ r.1, r.2)) <$> scanString 0 t := by
  rcases escapeByte_cases c with ⟨e, he, hlist, hu, -⟩ | ⟨hctrl, he⟩ | ⟨he, hquote, hesc, hctrl⟩ <;>
    rw [he]
  · exact scanString_escape t hlist hu
  · have h16 : c.toNat / 16 < 16 := by have : c.toNat < 256 := c.toNat_lt_size; omega
    exact scanString_unicode t (by simp [isHex_hexDigitUpper _ h16,
      isHex_hexDigitUpper (c.toNat % 16) (Nat.mod_lt _ (by decide)), show isHex (chr '0') by decide])
  · exact scanString_plain t hquote hctrl hesc hc

theorem utf8Encode_of_lt {c : UInt8} (h : c < 0x80) : utf8Encode c.toNat = [c] := by
  have : c.toNat < 0x80 := h
  simp [utf8Encode, this, toUInt8_toNat]

/-- `decode_string` turns the text `dump_string` writes for a byte back into the byte. -/
theorem decodeLoop_escapeByte (c : UInt8) (fuel : ℕ) (t : Bytes) :
    decodeLoop (fuel + 1) (escapeByte c ++ t) = (c :: ·) <$> decodeLoop fuel t := by
  rcases escapeByte_cases c with ⟨e, he, -, hu, hun⟩ | ⟨hctrl, he⟩ | ⟨he, -, hesc, -⟩ <;>
    rw [he]
  · simp [decodeLoop, decodeStep, hu, hun]
    rfl
  · have hlt : c.toNat < 32 := hctrl
    have hv := hexValue_escape _ hlt
    have hhigh : ¬(0xD800 ≤ c.toNat ∧ c.toNat ≤ 0xDBFF) := by omega
    have hlow : ¬(0xDC00 ≤ c.toNat ∧ c.toNat ≤ 0xDFFF) := by omega
    simp [decodeLoop, decodeStep, hv, hhigh, hlow,
      utf8Encode_of_lt (UInt8.lt_trans hctrl (by decide))]
    rfl
  · simp [decodeLoop, decodeStep, hesc]
    rfl

theorem scanString_pendings (cont t : Bytes) :
    scanString cont.length (cont ++ t) = (fun r ↦ (cont ++ r.1, r.2)) <$> scanString 0 t := by
  induction cont with
  | nil => simp
  | cons u cont ih =>
    rw [List.length_cons, List.cons_append, scanString_pending, ih]
    simp [Functor.map_map, Function.comp_def]

/-- `lex_scan_string` takes a whole UTF-8 sequence, lead byte and continuation bytes. -/
theorem scanString_sequence {c : UInt8} {cont : Bytes} (hfirst : utf8CheckFirst c = cont.length + 1)
    (hcont : cont ≠ []) (hfull : (utf8CheckFull c cont).isSome) (t : Bytes) :
    scanString 0 ((c :: cont) ++ t) = (fun r ↦ ((c :: cont) ++ r.1, r.2)) <$> scanString 0 t := by
  obtain ⟨n, hn⟩ : ∃ n, cont.length = n + 1 := Nat.exists_eq_succ_of_ne_zero (by simpa using hcont)
  have hlead : 0x80 ≤ c := le_of_utf8CheckFirst (show utf8CheckFirst c = n + 2 by omega)
  have hseq : utf8SequenceOk c (cont ++ t) = true := by
    simp [utf8SequenceOk, hfirst, List.take_append_of_le_length (le_refl _), hfull]
  rw [List.cons_append, scanString_lead _ hlead hseq, hfirst, Nat.add_sub_cancel,
    scanString_pendings]
  simp [Functor.map_map, Function.comp_def]

theorem flatMap_escapeByte_of_le {l : Bytes} (h : ∀ u ∈ l, 0x80 ≤ u) :
    l.flatMap escapeByte = l := by
  induction l with
  | nil => rfl
  | cons u l ih =>
    rw [List.flatMap_cons, escapeByte_of_le (h u (.head _)), ih fun v hv ↦ h v (.tail _ hv)]
    rfl

theorem map_prepend_prepend (a b : Bytes) (x : Except DecodeError (Bytes × Bytes)) :
    (fun r ↦ (a ++ r.1, r.2)) <$> ((fun r ↦ (b ++ r.1, r.2)) <$> x) =
      (fun r ↦ (a ++ b ++ r.1, r.2)) <$> x := by
  simp [Functor.map_map, Function.comp_def]

theorem scanString_quote (t : Bytes) : scanString 0 (chr '"' :: t) = .ok ([], t) := by
  rw [scanString.eq_def]
  simp only [ne_eq, not_true_eq_false, if_false, beq_self_eq_true, if_true]

/-- The first byte `dump_string` writes for an ASCII byte is ASCII: the byte itself, or the `\`
of an escape. -/
theorem escapeByte_head {c : UInt8} (hc : c < 0x80) : ∃ d rest, escapeByte c = d :: rest ∧ d < 0x80 := by
  rcases escapeByte_cases c with ⟨e, he, -⟩ | ⟨-, he⟩ | ⟨he, -⟩ <;> rw [he]
  exacts [⟨_, _, rfl, by decide⟩, ⟨_, _, rfl, by decide⟩, ⟨_, _, rfl, hc⟩]

/-- A run of bytes from `0x80` up at the start of the text `dump_string` writes, and its closing
quote, is a run of the string itself: the first ASCII byte of the string stops it. -/
theorem take_flatMap_escapeByte (t : Bytes) : ∀ (s : Bytes) (n : ℕ),
    (∀ u ∈ (s.flatMap escapeByte ++ chr '"' :: t).take n, 0x80 ≤ u) →
      n ≤ s.length ∧ (s.flatMap escapeByte ++ chr '"' :: t).take n = s.take n
  | _, 0, _ => ⟨Nat.zero_le _, by simp⟩
  | [], n + 1, h => absurd (h (chr '"') (by simp)) (by decide)
  | c :: s, n + 1, h => by
    by_cases hc : c < 0x80
    · obtain ⟨d, rest, he, hd⟩ := escapeByte_head hc
      rw [List.flatMap_cons, he] at h
      exact absurd (h d (by simp)) (UInt8.not_le.mpr hd)
    · rw [List.flatMap_cons, escapeByte_of_le (UInt8.not_lt.mp hc), List.singleton_append,
        List.cons_append, List.take_succ_cons] at h ⊢
      obtain ⟨hn, htake⟩ := take_flatMap_escapeByte t s n fun u hu ↦ h u (.tail _ hu)
      exact ⟨by simpa using hn, by rw [htake, List.take_succ_cons]⟩

/-- The input stream accepts a lead byte in the text `dump_string` writes only when it starts a
whole sequence of the string. -/
theorem utf8SequenceOk_of_escaped {c : UInt8} {s t : Bytes}
    (h : utf8SequenceOk c (s.flatMap escapeByte ++ chr '"' :: t) = true) : utf8SequenceOk c s = true := by
  obtain ⟨n, hfirst, -, hfull⟩ := utf8SequenceOk_eq_true h
  obtain ⟨hn, htake⟩ := take_flatMap_escapeByte t s n (le_of_utf8CheckFull hfull)
  rw [htake] at hfull
  simp [utf8SequenceOk, hfirst, hn, hfull]

/-- The first pass of `lex_scan_string` over the text `dump_string` writes for a string, up to its
closing quote: it takes the text exactly when the string passes `utf8_check_string`, and fails
with the input stream's UTF-8 error otherwise. -/
theorem scanString_escaped (t : Bytes) : ∀ s : Bytes,
    scanString 0 (s.flatMap escapeByte ++ chr '"' :: t) =
      if utf8CheckString s then .ok (s.flatMap escapeByte, t) else .error .invalidUtf8
  | [] => by
    rw [List.flatMap_nil, List.nil_append, scanString_quote]
    rfl
  | c :: rest => by
    rw [utf8CheckString_cons]
    by_cases hc : c < 0x80
    · rw [if_pos hc, List.flatMap_cons, List.append_assoc, scanString_escapeByte hc,
        scanString_escaped t rest]
      split <;> rfl
    rw [if_neg hc]
    by_cases hseq : utf8SequenceOk c rest = true
    · -- a lead byte, its continuation bytes, and the rest of the string
      obtain ⟨n, hfirst, hn, hfull⟩ := utf8SequenceOk_eq_true hseq
      have hn0 : n ≠ 0 := fun h ↦ utf8CheckFirst_ne_one hc (by rw [hfirst, h])
      have hcont : (rest.take n).length = n := List.length_take_of_le hn
      have hsplit : (c :: rest).flatMap escapeByte = (c :: rest.take n) ++
          (rest.drop n).flatMap escapeByte := by
        conv_lhs => rw [← List.take_append_drop n rest]
        rw [List.flatMap_cons, List.flatMap_append, escapeByte_of_le (UInt8.not_lt.mp hc),
          flatMap_escapeByte_of_le (le_of_utf8CheckFull hfull)]
        rfl
      rw [hseq, Bool.true_and, hfirst, Nat.add_sub_cancel, hsplit, List.append_assoc,
        scanString_sequence (by rw [hfirst, hcont]) (List.ne_nil_of_length_pos (by omega)) hfull,
        scanString_escaped t (rest.drop n)]
      split <;> rfl
    · have hesc : utf8SequenceOk c (rest.flatMap escapeByte ++ chr '"' :: t) = false :=
        Bool.eq_false_iff.mpr fun h ↦ hseq (utf8SequenceOk_of_escaped h)
      have hne : ∀ k : UInt8, k < 0x80 → c ≠ k := fun k hk e ↦ hc (e ▸ hk)
      rw [Bool.not_eq_true] at hseq
      rw [hseq, Bool.false_and, List.flatMap_cons, escapeByte_of_le (UInt8.not_lt.mp hc),
        List.singleton_append, List.cons_append, scanString.eq_def]
      simp (disch := decide) only [ne_eq, not_true_eq_false, if_false, beq_iff_eq, hne, hc,
        UInt8.not_lt.mpr (UInt8.le_trans (show (0x20 : UInt8) ≤ 0x80 by decide) (UInt8.not_lt.mp hc)),
        hesc, Bool.false_eq_true]
termination_by s => s.length

theorem escapeByte_ne_nil (c : UInt8) : escapeByte c ≠ [] := by
  rcases escapeByte_cases c with ⟨e, he, -⟩ | ⟨-, he⟩ | ⟨he, -⟩ <;> simp [he]

theorem length_le_flatMap_escapeByte (s : Bytes) : s.length ≤ (s.flatMap escapeByte).length := by
  induction s with
  | nil => rfl
  | cons c s ih =>
    have := List.length_pos.mpr (escapeByte_ne_nil c)
    simp only [List.flatMap_cons, List.length_append, List.length_cons]
    omega

theorem decodeLoop_flatMap_escapeByte (s : Bytes) :
    ∀ fuel, s.length ≤ fuel → decodeLoop fuel (s.flatMap escapeByte) = .ok s := by
  induction s with
  | nil => intro fuel _; cases fuel <;> rfl
  | cons c s ih =>
    rintro (_ | fuel) h
    · simp at h
    · rw [List.flatMap_cons, decodeLoop_escapeByte, ih fuel (by simpa using h)]
      rfl

/-- `decode_string` reads back every string `dump_string` writes. -/
theorem decodeString_flatMap_escapeByte (s : Bytes) : decodeString (s.flatMap escapeByte) = .ok s :=
  decodeLoop_flatMap_escapeByte s _ (length_le_flatMap_escapeByte s)

/-- `lex_scan` reads a string that `dump_string` wrote as a string token, whatever follows it,
when the string passes `utf8_check_string`, and fails with the input stream's UTF-8 error
otherwise. -/
theorem lexScan_dumpString (intAsReal : Bool) (s t : Bytes) :
    lexScan intAsReal (dumpString s ++ t) =
      if utf8CheckString s then .ok (.string s, t) else .error .invalidUtf8 := by
  simp (disch := decide) only [lexScan, dumpString, List.cons_append, List.append_assoc,
    List.singleton_append, List.nil_append, List.dropWhile_cons, if_neg,
    show punctuation (chr '"') = none by decide, if_pos, scanString_escaped]
  split
  · simp only [ok_bind, decodeString_flatMap_escapeByte]
    rfl
  · rfl

/-! ## What may follow a value -/

/-- What may follow a value in the text `json_dumps` writes: the end of the text, the `,`
before the next element or member, or the bracket that closes the container. -/
def Delimited (rest : Bytes) : Prop := ∀ c ∈ rest.head?, c = chr ',' ∨ c = chr ']' ∨ c = chr '}'

theorem Delimited.takeWhile {t : Bytes} (h : Delimited t) {p : UInt8 → Bool}
    (hp : p (chr ',') = false ∧ p (chr ']') = false ∧ p (chr '}') = false) :
    t.takeWhile p = [] ∧ t.dropWhile p = t := by
  cases t with
  | nil => exact ⟨rfl, rfl⟩
  | cons c t =>
    have hc : p c = false := by rcases h c rfl with rfl | rfl | rfl <;> simp [hp]
    simp [List.takeWhile_cons, List.dropWhile_cons, hc]

/-! ## Numbers -/

/-- The decimal text of a natural number as `toString` writes it: digits with the number's
value, and no leading zero but in the text of `0`. -/
structure Decimal (digits : Bytes) (n : ℕ) : Prop where
  ne_nil : digits ≠ []
  all_digits : ∀ c ∈ digits, isDigit c = true
  value : digitsValue digits = n
  no_leading_zero : digits.head? = some (chr '0') → digits = [chr '0']
  pow_le : 10 ^ (digits.length - 1) ≤ max n 1

theorem digitChar_decimal : ∀ n < 10, isDigit (chr (Nat.digitChar n)) = true ∧
    (chr (Nat.digitChar n)).toNat - 48 = n := by
  decide

theorem toDigitsCore_decimal (fuel n : ℕ) (ds : List Char) (h : n < fuel) :
    ∃ digits, (Nat.toDigitsCore 10 fuel n ds).map chr = digits ++ ds.map chr ∧
      Decimal digits n := by
  induction fuel generalizing n ds with
  | zero => omega
  | succ fuel ih =>
    obtain ⟨hdigit, hvalue⟩ := digitChar_decimal (n % 10) (Nat.mod_lt _ (by decide))
    have hstep : Nat.toDigitsCore 10 (fuel + 1) n ds = if n / 10 = 0 then Nat.digitChar (n % 10) :: ds
        else Nat.toDigitsCore 10 fuel (n / 10) (Nat.digitChar (n % 10) :: ds) := rfl
    by_cases hq : n / 10 = 0
    · refine ⟨[chr (Nat.digitChar (n % 10))], by simp [hstep, hq], ?_⟩
      refine ⟨by simp, by simpa using hdigit, ?_, by simp, by simp⟩
      simp only [digitsValue, List.foldl_cons, List.foldl_nil, hvalue]
      omega
    · obtain ⟨digits, heq, hdec⟩ := ih (n / 10) (Nat.digitChar (n % 10) :: ds) (by omega)
      refine ⟨digits ++ [chr (Nat.digitChar (n % 10))], by simp [hstep, hq, heq], ?_⟩
      have hvalue' : digitsValue (digits ++ [chr (Nat.digitChar (n % 10))]) = n := by
        simp only [digitsValue, List.foldl_append, List.foldl_cons, List.foldl_nil, hvalue]
        rw [← digitsValue, hdec.value]
        omega
      refine ⟨by simp, ?_, hvalue', ?_, ?_⟩
      · simpa [or_imp, forall_and, hdigit] using hdec.all_digits
      · intro hhead
        rw [List.head?_append_of_ne_nil _ hdec.ne_nil] at hhead
        have := hdec.value
        rw [hdec.no_leading_zero hhead] at this
        exact absurd this.symm (by simpa using hq)
      · have hpos : 0 < digits.length := List.length_pos.mpr hdec.ne_nil
        have hpow := hdec.pow_le
        rw [Nat.max_eq_left (by omega)] at hpow
        calc 10 ^ ((digits ++ [chr (Nat.digitChar (n % 10))]).length - 1)
            = 10 * 10 ^ (digits.length - 1) := by
              rw [List.length_append, List.length_singleton, ← Nat.pow_succ']; congr 1; omega
          _ ≤ 10 * (n / 10) := Nat.mul_le_mul_left 10 hpow
          _ ≤ max n 1 := by omega

theorem decimal_toString (n : ℕ) : Decimal (ascii (toString n)) n := by
  obtain ⟨digits, heq, hdec⟩ := toDigitsCore_decimal (n + 1) n [] (Nat.lt_succ_self n)
  simp only [List.map_nil, List.append_nil] at heq
  rwa [show ascii (toString n) = (Nat.toDigitsCore 10 (n + 1) n []).map chr from rfl, heq]

/-- A digit starts a number token. -/
theorem digit_starts_number {c : UInt8} (h : isDigit c = true) :
    isSpace c = false ∧ punctuation c = none ∧ c ≠ chr '"' ∧ c ≠ chr '-' := by
  have key : ∀ k < 10, isSpace (48 + k).toUInt8 = false ∧ punctuation (48 + k).toUInt8 = none ∧
      (48 + k).toUInt8 ≠ chr '"' ∧ (48 + k).toUInt8 ≠ chr '-' := by
    decide
  have hlo : 48 ≤ c.toNat := of_decide_eq_true (Bool.and_eq_true _ _ ▸ h).1
  have hhi : c.toNat ≤ 57 := of_decide_eq_true (Bool.and_eq_true _ _ ▸ h).2
  simpa only [show 48 + (c.toNat - 48) = c.toNat by omega, toUInt8_toNat] using
    key (c.toNat - 48) (by omega)

theorem ascii_toString_int (i : ℤ) :
    ascii (toString i) = (if i < 0 then [chr '-'] else []) ++ ascii (toString i.natAbs) := by
  cases i with
  | ofNat m => rfl
  | negSucc m => rw [if_pos (Int.negSucc_lt_zero m)]; rfl

theorem lexScan_number {intAsReal : Bool} {c : UInt8} {rest : Bytes} (hspace : isSpace c = false)
    (hp : punctuation c = none) (hq : c ≠ chr '"') (hnum : (isDigit c || c == chr '-') = true) :
    lexScan intAsReal (c :: rest) = scanNumber intAsReal (c :: rest) := by
  simp only [lexScan, List.dropWhile_cons, hspace, Bool.false_eq_true, if_false, hp, beq_iff_eq, hq,
    hnum, if_true]

theorem Decimal.length_le {D : Bytes} {n : ℕ} (hD : Decimal D n) (h : n ≤ Nat.pow 2 63) :
    D.length ≤ 19 := by
  by_contra hlong
  have := calc 10 ^ 19
      ≤ 10 ^ (D.length - 1) := Nat.pow_le_pow_right (by decide) (by omega)
    _ ≤ max n 1 := hD.pow_le
    _ ≤ Nat.pow 2 63 := Nat.max_le.mpr ⟨h, by decide⟩
  exact absurd this (by decide)

/-- After a number `dump` writes comes no fraction and no exponent. -/
theorem Delimited.number_end {t : Bytes} (ht : Delimited t) :
    (t.head? == some (chr '.') || t.head? == some (chr 'e') || t.head? == some (chr 'E')) = false ∧
      scanFraction t = some ([], t) ∧ scanExponent t = some ([], t) := by
  cases t with
  | nil => exact ⟨rfl, rfl, rfl⟩
  | cons b t => rcases ht b rfl with rfl | rfl | rfl <;> exact ⟨rfl, rfl, rfl⟩

/-- The text of a number of at most 308 digits with no fraction and no exponent does not round
past the largest double. -/
theorem realOverflows_decimal {D : Bytes} (hlen : D.length ≤ 308) :
    realOverflows (D ++ ([] : Bytes).drop 1) (exponentValue [] - (([] : Bytes).drop 1).length) =
      false := by
  have hsig := (List.dropWhile_suffix (· == chr '0') (l := D)).length_le
  simp only [realOverflows, List.drop_nil, List.append_nil]
  rw [if_pos (.inr (by simp only [exponentValue, List.drop_nil, List.length_nil]; omega))]

/-- `lex_scan_number` reads back the decimal text of an integer in the range of `json_int_t`: as
an integer, or as a real with that text under `JSON_DECODE_INT_AS_REAL`. -/
theorem scanNumber_decimal {D : Bytes} {n : ℕ} (hD : Decimal D n) (intAsReal neg : Bool) {t : Bytes}
    (ht : Delimited t) (hlo : -(Nat.pow 2 63 : ℤ) ≤ if neg then -(n : ℤ) else n)
    (hhi : (if neg then -(n : ℤ) else n) < Nat.pow 2 63) :
    scanNumber intAsReal ((if neg then [chr '-'] else []) ++ D ++ t) =
      .ok (if intAsReal then .real ((if neg then [chr '-'] else []) ++ D)
        else .integer (if neg then -(n : ℤ) else n), t) := by
  obtain ⟨c, cs, hD'⟩ := List.exists_cons_of_ne_nil hD.ne_nil
  have hc := digit_starts_number (hD.all_digits c (hD' ▸ List.mem_cons_self _ _))
  obtain ⟨htake, hdrop⟩ := ht.takeWhile (p := isDigit) (by decide)
  have hint : (D ++ t).takeWhile isDigit = D := by
    rw [List.takeWhile_append_of_pos hD.all_digits, htake, List.append_nil]
  have hafter : (D ++ t).dropWhile isDigit = t := by
    rw [List.dropWhile_append_of_pos hD.all_digits, hdrop]
  have hlead : (D.isEmpty || (D.head? == some (chr '0') && decide (1 < D.length))) = false := by
    by_cases h0 : D.head? = some (chr '0')
    · simp [hD.no_leading_zero h0]
    · simp [hD.ne_nil, h0]
  have hhead : ((D ++ t).head? == some (chr '-')) = false := by
    simp [hD', hc.2.2.2]
  obtain ⟨hnext, hfrac, hexp⟩ := ht.number_end
  have hover := realOverflows_decimal
    (Nat.le_trans (hD.length_le (by split_ifs at hlo hhi <;> omega)) (by decide : 19 ≤ 308))
  cases neg <;> cases intAsReal <;>
    simp only [Bool.false_eq_true, if_false, if_true, List.nil_append, List.singleton_append,
      List.cons_append, scanNumber, hhead, List.head?_cons, beq_self_eq_true, List.drop_succ_cons,
      List.drop_zero, hint, hafter, hlead, hnext, hfrac, hexp, hover, Bool.not_false, Bool.not_true,
      Bool.true_and, Bool.false_and, hD.value, List.append_nil] at hlo hhi ⊢
  all_goals rw [if_neg (not_lt.mpr hlo), if_neg (not_le.mpr hhi)]

/-- `lex_scan` reads back an integer as `json_dumps` writes it, in the range of `json_int_t`: as
the integer, or as a real with its text under `JSON_DECODE_INT_AS_REAL`. -/
theorem lexScan_integer (intAsReal : Bool) {i : ℤ} (hlo : -(Nat.pow 2 63 : ℤ) ≤ i)
    (hhi : i < Nat.pow 2 63) {t : Bytes} (ht : Delimited t) :
    lexScan intAsReal (ascii (toString i) ++ t) =
      .ok (if intAsReal then .real (ascii (toString i)) else .integer i, t) := by
  have hD := decimal_toString i.natAbs
  rw [ascii_toString_int]
  by_cases hneg : i < 0
  · have hval : -(i.natAbs : ℤ) = i := by omega
    have hscan := scanNumber_decimal hD intAsReal true ht (by rw [if_pos rfl, hval]; exact hlo)
      (by rw [if_pos rfl, hval]; exact hhi)
    simp only [if_true, hval] at hscan
    rw [if_pos hneg, List.singleton_append, List.cons_append,
      lexScan_number (by decide) (by decide) (by decide) (by decide), ← List.cons_append,
      ← List.singleton_append, hscan]
  · have hval : (i.natAbs : ℤ) = i := by omega
    have hscan := scanNumber_decimal hD intAsReal false ht
      (by rw [if_neg Bool.false_ne_true, hval]; exact hlo) (by rw [if_neg Bool.false_ne_true, hval]; exact hhi)
    simp only [Bool.false_eq_true, if_false, hval, List.nil_append] at hscan
    obtain ⟨c, cs, hD'⟩ := List.exists_cons_of_ne_nil hD.ne_nil
    have hdigit := hD.all_digits c (hD' ▸ List.mem_cons_self _ _)
    have hc := digit_starts_number hdigit
    rw [if_neg hneg, List.nil_append, hD', List.cons_append,
      lexScan_number hc.1 hc.2.1 hc.2.2.1 (by simp [hdigit]), ← List.cons_append, ← hD', hscan]

/-! ## Keywords and punctuation -/

theorem lexScan_word {intAsReal : Bool} {c : UInt8} {cs : Bytes} (hspace : isSpace c = false)
    (hp : punctuation c = none) (hq : c ≠ chr '"') (hnum : (isDigit c || c == chr '-') = false)
    (halpha : ∀ x ∈ c :: cs, isAlpha x = true) {t : Bytes} (ht : Delimited t) :
    lexScan intAsReal ((c :: cs) ++ t) = .ok (keyword (c :: cs), t) := by
  obtain ⟨htake, hdrop⟩ := ht.takeWhile (p := isAlpha) (by decide)
  have hword : ((c :: cs) ++ t).takeWhile isAlpha = c :: cs := by
    rw [List.takeWhile_append_of_pos halpha, htake, List.append_nil]
  have hrest : ((c :: cs) ++ t).dropWhile isAlpha = t := by
    rw [List.dropWhile_append_of_pos halpha, hdrop]
  rw [List.cons_append] at hword hrest ⊢
  simp only [lexScan, List.dropWhile_cons, hspace, Bool.false_eq_true, if_false, hp, beq_iff_eq, hq,
    hnum, halpha c (List.mem_cons_self _ _), if_true, hword, hrest]

/-- `lex_scan` reads back `null`, `true` and `false`. -/
theorem lexScan_keyword (intAsReal : Bool) {t : Bytes} (ht : Delimited t) :
    lexScan intAsReal (ascii "null" ++ t) = .ok (.nullLit, t) ∧
      lexScan intAsReal (ascii "true" ++ t) = .ok (.trueLit, t) ∧
      lexScan intAsReal (ascii "false" ++ t) = .ok (.falseLit, t) :=
  ⟨lexScan_word (by decide) (by decide) (by decide) (by decide) (by decide) ht,
    lexScan_word (by decide) (by decide) (by decide) (by decide) (by decide) ht,
    lexScan_word (by decide) (by decide) (by decide) (by decide) (by decide) ht⟩

theorem lexScan_punctuation (intAsReal : Bool) {c : UInt8} {tok : Token}
    (hspace : isSpace c = false)
    (hp : punctuation c = some tok) (t : Bytes) : lexScan intAsReal (c :: t) = .ok (tok, t) := by
  simp only [lexScan, List.dropWhile_cons, hspace, Bool.false_eq_true, if_false, hp]

@[simp]
theorem lexScan_lbrace (intAsReal : Bool) (t : Bytes) :
    lexScan intAsReal (chr '{' :: t) = .ok (.lbrace, t) :=
  lexScan_punctuation _ (by decide) (by decide) t

@[simp]
theorem lexScan_rbrace (intAsReal : Bool) (t : Bytes) :
    lexScan intAsReal (chr '}' :: t) = .ok (.rbrace, t) :=
  lexScan_punctuation _ (by decide) (by decide) t

@[simp]
theorem lexScan_lbracket (intAsReal : Bool) (t : Bytes) :
    lexScan intAsReal (chr '[' :: t) = .ok (.lbracket, t) :=
  lexScan_punctuation _ (by decide) (by decide) t

@[simp]
theorem lexScan_rbracket (intAsReal : Bool) (t : Bytes) :
    lexScan intAsReal (chr ']' :: t) = .ok (.rbracket, t) :=
  lexScan_punctuation _ (by decide) (by decide) t

@[simp]
theorem lexScan_colon (intAsReal : Bool) (t : Bytes) :
    lexScan intAsReal (chr ':' :: t) = .ok (.colon, t) :=
  lexScan_punctuation _ (by decide) (by decide) t

@[simp]
theorem lexScan_comma (intAsReal : Bool) (t : Bytes) :
    lexScan intAsReal (chr ',' :: t) = .ok (.comma, t) :=
  lexScan_punctuation _ (by decide) (by decide) t

end QfsClient
