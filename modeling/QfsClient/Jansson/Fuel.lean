import QfsClient.Jansson.Load

/-!
# The decoder's loops never run out of fuel

jansson's lexer and parser read their input once, from the front, and never step back. The
model says so: each of `scanString`, `scanNumber` and `lexScan` returns a suffix of its input,
a token other than the end of input takes at least one byte, and so `parse_value` returns a
suffix of its input too. A round of the member or element loop ends at a `,`, so the input left
for the next round is shorter than the one before. The loops run on one more round of fuel than
their input has bytes, and `parseMembers_fuel_stable` and `parseElements_fuel_stable` show that
any more fuel gives the same result: the fuel is never what ends a loop, and the model's loops
are jansson's unbounded ones.
-/

namespace QfsClient

/-! ## The lexer reads from the front -/

theorem scanFraction_suffix {input frac after : Bytes}
    (h : scanFraction input = some (frac, after)) : after <:+ input := by
  unfold scanFraction at h
  split at h
  · cases h; exact List.nil_suffix
  · split_ifs at h
    · cases h; exact (List.dropWhile_suffix _).trans (List.suffix_cons _ _)
    · cases h; exact List.suffix_refl _

theorem scanExponent_suffix {input exp after : Bytes}
    (h : scanExponent input = some (exp, after)) : after <:+ input := by
  unfold scanExponent at h
  split at h
  · cases h; exact List.nil_suffix
  · dsimp only at h
    split_ifs at h
    · cases h
      exact (List.dropWhile_suffix _).trans ((List.drop_suffix _ _).trans (List.suffix_cons _ _))
    · cases h; exact List.suffix_refl _

theorem scanNumber_suffix {intAsReal : Bool} {c : UInt8} {cs rest : Bytes} {tok : Token}
    (hc : (isDigit c || c == chr '-') = true)
    (h : scanNumber intAsReal (c :: cs) = .ok (tok, rest)) : rest <:+ cs := by
  have hInt : ((if (c :: cs).head? == some (chr '-') then (c :: cs).drop 1 else c :: cs).dropWhile
      isDigit) <:+ cs := by
    by_cases hneg : c = chr '-'
    · simpa [hneg] using List.dropWhile_suffix isDigit
    · have hdigit : isDigit c = true := by simpa [hneg] using hc
      simpa [hneg, List.dropWhile_cons_of_pos hdigit] using List.dropWhile_suffix isDigit
  dsimp only [scanNumber] at h
  generalize List.dropWhile isDigit
    (if ((c :: cs).head? == some (chr '-')) = true then (c :: cs).drop 1 else c :: cs) = afterInt
    at h hInt
  split_ifs at h <;> try (cases h; exact hInt)
  -- a real: what follows the fraction, or the exponent
  all_goals
    split at h
    · cases h; exact hInt
    · rename_i frac afterFrac hfrac
      have hFrac := (scanFraction_suffix hfrac).trans hInt
      split at h
      · cases h; exact hFrac
      · rename_i exp afterExp hexp
        split_ifs at h
        cases h
        exact (scanExponent_suffix hexp).trans hFrac

/-- The raw text `lex_scan_string` returns is exactly what stands before the closing quote. -/
theorem scanString_eq_ok {pending : ℕ} {input : Bytes} :
    ∀ {raw rest : Bytes}, scanString pending input = .ok (raw, rest) →
      input = raw ++ chr '"' :: rest := by
  induction pending, input using scanString.induct <;> intro raw rest h <;>
    unfold scanString at h <;>
    simp only [ne_eq, *, if_true, if_false, not_false_eq_true, Bool.false_eq_true, map_eq_ok,
      reduceCtorEq, Except.ok.injEq, Prod.mk.injEq, not_true_eq_false] at h
  case case3 => obtain ⟨rfl, rfl⟩ := h; simp_all
  -- every other branch that succeeds puts the bytes it read in front of the rest's raw text
  all_goals
    obtain ⟨⟨raw', rest'⟩, hs, rfl, rfl⟩ := h
    rename_i ih
    rw [ih hs]
    rfl

/-- A token is read from what follows the white space, and takes at least its first byte. -/
theorem lexScan_suffix_tail {intAsReal : Bool} {input rest : Bytes} {tok : Token}
    (h : lexScan intAsReal input = .ok (tok, rest)) : rest <:+ (input.dropWhile isSpace).tail := by
  unfold lexScan at h
  split at h
  · cases h; exact List.nil_suffix
  rename_i c cs hd
  rw [hd, List.tail_cons]
  split at h
  · cases h; exact List.suffix_refl _
  split_ifs at h with _ hnum halpha
  · obtain ⟨⟨raw, after⟩, hscan, h⟩ := bind_eq_ok.mp h
    obtain ⟨s, -, ⟨⟩⟩ := bind_eq_ok.mp h
    rw [scanString_eq_ok hscan]
    exact (List.suffix_cons _ _).trans (List.suffix_append _ _)
  · exact scanNumber_suffix hnum h
  · cases h
    rw [List.dropWhile_cons_of_pos halpha]
    exact List.dropWhile_suffix _
  · cases h; exact List.suffix_refl _

theorem lexScan_suffix {intAsReal : Bool} {input rest : Bytes} {tok : Token}
    (h : lexScan intAsReal input = .ok (tok, rest)) : rest <:+ input :=
  (lexScan_suffix_tail h).trans ((List.tail_suffix _).trans (List.dropWhile_suffix _))

/-- Every token but the end of input takes at least one byte. -/
theorem lexScan_length_lt {intAsReal : Bool} {input rest : Bytes} {tok : Token}
    (h : lexScan intAsReal input = .ok (tok, rest)) (htok : tok ≠ .eof) :
    rest.length < input.length := by
  have hrest := (lexScan_suffix_tail h).length_le
  have hspace := (List.dropWhile_suffix isSpace (l := input)).length_le
  cases hd : input.dropWhile isSpace with
  | nil =>
    simp only [lexScan, hd, Except.ok.injEq, Prod.mk.injEq] at h
    exact absurd h.1.symm htok
  | cons c cs =>
    rw [hd] at hrest hspace
    simp only [List.tail_cons, List.length_cons] at hrest hspace
    omega

/-! ## The parser reads from the front -/

section Suffix

variable {flags : DecodeFlags} {value : Token → Bytes → Except DecodeError (Json × Bytes)}
  (hvalue : ∀ tok input v rest, value tok input = .ok (v, rest) → rest <:+ input)
include hvalue

theorem parseMembers_suffix :
    ∀ fuel members tok input v rest,
      parseMembers flags value fuel members tok input = .ok (v, rest) → rest <:+ input := by
  intro fuel
  induction fuel with
  | zero => intro _ _ _ _ _ h; simp [parseMembers] at h
  | succ fuel ih =>
    intro members tok input v rest h
    obtain ⟨_, _, ⟨⟩, -, -, _, _, _, _, _, _, _, hcolon, htok, hw, hsep, hround⟩ :=
      parseMembers_eq_ok h
    have hafterSep := (lexScan_suffix hsep).trans
      ((hvalue _ _ _ _ hw).trans ((lexScan_suffix htok).trans (lexScan_suffix hcolon)))
    rcases hround with ⟨-, _, _, hnext, h⟩ | ⟨-, rfl⟩
    · exact (ih _ _ _ _ _ h).trans ((lexScan_suffix hnext).trans hafterSep)
    · exact hafterSep

theorem parseObject_suffix {input : Bytes} {v : Json} {rest : Bytes}
    (h : parseObject flags value input = .ok (v, rest)) : rest <:+ input := by
  obtain ⟨_, _, hscan, ⟨-, rfl⟩ | h⟩ := parseObject_eq_ok h
  · exact lexScan_suffix hscan
  · exact (parseMembers_suffix hvalue _ _ _ _ _ _ h).trans (lexScan_suffix hscan)

theorem parseElements_suffix :
    ∀ fuel elems tok input v rest,
      parseElements flags value fuel elems tok input = .ok (v, rest) → rest <:+ input := by
  intro fuel
  induction fuel with
  | zero => intro _ _ _ _ _ h; simp [parseElements] at h
  | succ fuel ih =>
    intro elems tok input v rest h
    obtain ⟨_, ⟨⟩, _, _, _, _, hw, hsep, hround⟩ := parseElements_eq_ok h
    have hafterSep := (lexScan_suffix hsep).trans (hvalue _ _ _ _ hw)
    rcases hround with ⟨-, _, _, hnext, h⟩ | ⟨-, rfl⟩
    · exact (ih _ _ _ _ _ h).trans ((lexScan_suffix hnext).trans hafterSep)
    · exact hafterSep

theorem parseArray_suffix {input : Bytes} {v : Json} {rest : Bytes}
    (h : parseArray flags value input = .ok (v, rest)) : rest <:+ input := by
  obtain ⟨_, _, hscan, ⟨-, rfl⟩ | h⟩ := parseArray_eq_ok h
  · exact lexScan_suffix hscan
  · exact (parseElements_suffix hvalue _ _ _ _ _ _ h).trans (lexScan_suffix hscan)

end Suffix

/-- `parse_value` reads its value from the front of its input. -/
theorem parseValue_suffix (flags : DecodeFlags) :
    ∀ depth tok input v rest, parseValue flags depth tok input = .ok (v, rest) → rest <:+ input
  | 0, _, _, _, _, h => by simp [parseValue] at h
  | depth + 1, tok, input, v, rest, h => by
    cases tok with
    | string s =>
      simp only [parseValue] at h
      split_ifs at h
      cases h
      exact List.suffix_refl _
    | integer | real | trueLit | falseLit | nullLit => cases h; exact List.suffix_refl _
    | lbrace => exact parseObject_suffix (parseValue_suffix flags depth) h
    | lbracket => exact parseArray_suffix (parseValue_suffix flags depth) h
    | _ => simp [parseValue] at h

/-! ## Fuel -/

section FuelStable

variable {flags : DecodeFlags} {value : Token → Bytes → Except DecodeError (Json × Bytes)}
  (hvalue : ∀ tok input v rest, value tok input = .ok (v, rest) → rest <:+ input)
include hvalue

/-- A member loop whose value parser reads from the front gives the same result with any fuel
beyond the length of its input: each round ends at a `,`, which takes a byte. -/
theorem parseMembers_fuel_stable_of_suffix :
    ∀ fuel members tok input, input.length < fuel → ∀ extra,
      parseMembers flags value (fuel + extra) members tok input =
        parseMembers flags value fuel members tok input := by
  intro fuel
  induction fuel with
  | zero => intro _ _ _ h; omega
  | succ fuel ih =>
    intro members tok input hfuel extra
    rw [Nat.succ_add]
    cases tok with
    | string key =>
      simp only [parseMembers]
      by_cases hnul : 0 ∈ key
      · simp only [if_pos hnul]
      rw [if_neg hnul, if_neg hnul]
      by_cases hdup : (flags.rejectDuplicates && (members.lookup key).isSome) = true
      · simp only [if_pos hdup]
      rw [if_neg hdup, if_neg hdup]
      refine bind_congr_ok fun ⟨colonTok, afterColon⟩ hcolon ↦ ?_
      dsimp only
      split_ifs
      · rfl
      refine bind_congr_ok fun ⟨tok, afterTok⟩ htok ↦ ?_
      refine bind_congr_ok fun ⟨w, afterValue⟩ hw ↦ ?_
      refine bind_congr_ok fun ⟨sep, afterSep⟩ hsep ↦ ?_
      dsimp only
      split_ifs with hcomma
      rotate_left
      · rfl
      · rfl
      refine bind_congr_ok fun ⟨next, afterNext⟩ hnext ↦ ih _ _ _ ?_ _
      dsimp only at htok hw hsep hnext ⊢
      have h1 := (lexScan_suffix hcolon).length_le
      have h2 := (lexScan_suffix htok).length_le
      have h3 := (hvalue _ _ _ _ hw).length_le
      have h4 := lexScan_length_lt hsep (by rintro rfl; cases hcomma)
      have h5 := (lexScan_suffix hnext).length_le
      omega
    | _ => rfl

theorem parseElements_fuel_stable_of_suffix :
    ∀ fuel elems tok input, input.length < fuel → ∀ extra,
      parseElements flags value (fuel + extra) elems tok input =
        parseElements flags value fuel elems tok input := by
  intro fuel
  induction fuel with
  | zero => intro _ _ _ h; omega
  | succ fuel ih =>
    intro elems tok input hfuel extra
    rw [Nat.succ_add]
    simp only [parseElements]
    split_ifs
    · rfl
    refine bind_congr_ok fun ⟨w, afterValue⟩ hw ↦ ?_
    refine bind_congr_ok fun ⟨sep, afterSep⟩ hsep ↦ ?_
    dsimp only
    split_ifs with hcomma
    rotate_left
    · rfl
    · rfl
    refine bind_congr_ok fun ⟨next, afterNext⟩ hnext ↦ ih _ _ _ ?_ _
    dsimp only at hw hsep hnext ⊢
    have h1 := (hvalue _ _ _ _ hw).length_le
    have h2 := lexScan_length_lt hsep (by rintro rfl; cases hcomma)
    have h3 := (lexScan_suffix hnext).length_le
    omega

end FuelStable

/-- The member loop of `parse_object`, as `parse_value` runs it, gives the same result with any
fuel beyond the length of its input: the fuel never cuts the loop short. -/
theorem parseMembers_fuel_stable (flags : DecodeFlags) (depth fuel : ℕ)
    (members : List (Bytes × Json)) (tok : Token) (input : Bytes) (hfuel : input.length < fuel)
    (extra : ℕ) :
    parseMembers flags (parseValue flags depth) (fuel + extra) members tok input =
      parseMembers flags (parseValue flags depth) fuel members tok input :=
  parseMembers_fuel_stable_of_suffix (parseValue_suffix flags depth) _ _ _ _ hfuel _

theorem parseMembers_fuel_stable_example :
    (ascii ": 1\x7d").length < 5 ∧
      parseMembers (DecodeFlags.ofSize 0) (parseValue (DecodeFlags.ofSize 0) 2) (5 + 3) []
          (.string (ascii "a")) (ascii ": 1\x7d") =
        parseMembers (DecodeFlags.ofSize 0) (parseValue (DecodeFlags.ofSize 0) 2) 5 []
          (.string (ascii "a")) (ascii ": 1\x7d") :=
  ⟨by decide, parseMembers_fuel_stable _ _ _ _ _ _ (by decide) _⟩

/-- The element loop of `parse_array`, as `parse_value` runs it, gives the same result with any
fuel beyond the length of its input. -/
theorem parseElements_fuel_stable (flags : DecodeFlags) (depth fuel : ℕ) (elems : List Json)
    (tok : Token) (input : Bytes) (hfuel : input.length < fuel) (extra : ℕ) :
    parseElements flags (parseValue flags depth) (fuel + extra) elems tok input =
      parseElements flags (parseValue flags depth) fuel elems tok input :=
  parseElements_fuel_stable_of_suffix (parseValue_suffix flags depth) _ _ _ _ hfuel _

theorem parseElements_fuel_stable_example :
    (ascii ", 2]").length < 5 ∧
      parseElements (DecodeFlags.ofSize 0) (parseValue (DecodeFlags.ofSize 0) 2) (5 + 3) []
          (.integer 1) (ascii ", 2]") =
        parseElements (DecodeFlags.ofSize 0) (parseValue (DecodeFlags.ofSize 0) 2) 5 []
          (.integer 1) (ascii ", 2]") :=
  ⟨by decide, parseElements_fuel_stable _ _ _ _ _ _ (by decide) _⟩

end QfsClient
