import QfsClient.Jansson.Value

/-!
# Jansson's decoder

`jsonLoads` is `json_loads` of jansson's `load.c`: a lexer that reads the C string one token
at a time, and a recursive parser over the tokens. The `size_t` flags argument is read through
five of its bits (`DecodeFlags.ofSize`). The parser nests at most `JSON_PARSER_MAX_DEPTH`
values, and that bound is the recursion of `parseValue`. The loop over the members of one
object, or the elements of one array, takes at least one byte of input a round and runs on
the length of its input as fuel.

jansson keeps the first error it meets; a `DecodeError` names each of its messages. The input
stream checks a UTF-8 sequence when it reads its first byte, wherever that byte stands, so the
lexer checks it at each place it reads one.

`jsonLoads_wellFormed` shows that every value the decoder returns is well formed, whatever the
flags: a key seen twice replaces the member that has it, and a key with a NUL byte is refused.
-/

namespace QfsClient

structure DecodeFlags where
  rejectDuplicates : Bool
  disableEofCheck : Bool
  decodeAny : Bool
  decodeIntAsReal : Bool
  allowNul : Bool

/-- The flags a `size_t` sets: `JSON_REJECT_DUPLICATES` is `0x1`, `JSON_DISABLE_EOF_CHECK`
`0x2`, `JSON_DECODE_ANY` `0x4`, `JSON_DECODE_INT_AS_REAL` `0x8` and `JSON_ALLOW_NUL` `0x10`;
jansson reads no other bit. -/
def DecodeFlags.ofSize (flags : ℕ) : DecodeFlags :=
  ⟨flags.testBit 0, flags.testBit 1, flags.testBit 2, flags.testBit 3, flags.testBit 4⟩

inductive DecodeError
  | invalidUtf8
  | prematureEnd
  | unexpectedNewline
  | controlCharacter (c : UInt8)
  | invalidEscape
  | invalidUnicode
  | tooBigInteger
  | tooBigNegativeInteger
  | realOverflow
  | nulNotAllowed
  | nulByteInKey
  | duplicateKey
  | stringOrBraceExpected
  | colonExpected
  | braceExpected
  | bracketExpected
  | containerExpected
  | endOfFileExpected
  | invalidToken
  | unexpectedToken
  | maxDepthReached
  deriving DecidableEq, Repr

inductive Token
  | eof
  | invalid
  | lbrace
  | rbrace
  | lbracket
  | rbracket
  | colon
  | comma
  | string (s : Bytes)
  | integer (i : ℤ)
  | real (text : Bytes)
  | trueLit
  | falseLit
  | nullLit
  deriving DecidableEq

/-! ## The lexer -/

def isSpace (c : UInt8) : Bool :=
  c == chr ' ' || c == chr '\t' || c == chr '\n' || c == chr '\r'

def isDigit (c : UInt8) : Bool := chr '0' ≤ c && c ≤ chr '9'

def isAlpha (c : UInt8) : Bool := (chr 'A' ≤ c && c ≤ chr 'Z') || (chr 'a' ≤ c && c ≤ chr 'z')

def isHex (c : UInt8) : Bool :=
  isDigit c || (chr 'A' ≤ c && c ≤ chr 'F') || (chr 'a' ≤ c && c ≤ chr 'f')

/-- The error for a byte the lexer cannot take: the input stream's UTF-8 error when the byte
starts a bad sequence, `e` otherwise. -/
def streamError (c : UInt8) (rest : Bytes) (e : DecodeError) : DecodeError :=
  if 0x80 ≤ c && !utf8SequenceOk c rest then .invalidUtf8 else e

/-- The error for `\u` followed by fewer than four hex digits. -/
def hexError : Bytes → DecodeError
  | [] => .invalidEscape
  | c :: rest => if isHex c then hexError rest else streamError c rest .invalidEscape

/-- The first half of `lex_scan_string`, from after the opening quote: the raw text up to the
closing quote, checked, and the input after it. `pending` counts the bytes of a checked UTF-8
sequence still to hand out. -/
def scanString (pending : ℕ) : Bytes → Except DecodeError (Bytes × Bytes)
  | [] => .error .prematureEnd
  | c :: rest =>
    if pending ≠ 0 then (fun r ↦ (c :: r.1, r.2)) <$> scanString (pending - 1) rest
    else if c == chr '"' then .ok ([], rest)
    else if c < 0x20 then .error (if c == chr '\n' then .unexpectedNewline else .controlCharacter c)
    else if c == chr '\\' then
      match rest with
      | [] => .error .invalidEscape
      | e :: more =>
        if e == chr 'u' then
          match more with
          | h1 :: h2 :: h3 :: h4 :: more' =>
            if isHex h1 && isHex h2 && isHex h3 && isHex h4 then
              (fun r ↦ ([c, e, h1, h2, h3, h4] ++ r.1, r.2)) <$> scanString 0 more'
            else .error (hexError more)
          | _ => .error (hexError more)
        else if [chr '"', chr '\\', chr '/', chr 'b', chr 'f', chr 'n', chr 'r', chr 't'].contains e
        then (fun r ↦ ([c, e] ++ r.1, r.2)) <$> scanString 0 more
        else .error (streamError e more .invalidEscape)
    else if c < 0x80 then (fun r ↦ (c :: r.1, r.2)) <$> scanString 0 rest
    else if utf8SequenceOk c rest then
      (fun r ↦ (c :: r.1, r.2)) <$> scanString (utf8CheckFirst c - 1) rest
    else .error .invalidUtf8

/-- `decode_unicode_escape` of four hex digits. -/
def hexValue (digits : Bytes) : ℕ :=
  digits.foldl (fun v d ↦ v * 16 +
    (if isDigit d then d.toNat - 48 else if d ≤ chr 'Z' then d.toNat - 55 else d.toNat - 87)) 0

/-- The byte a one-letter escape stands for. -/
def unescape (e : UInt8) : UInt8 :=
  if e == chr 'b' then 8 else if e == chr 'f' then 12 else if e == chr 'n' then 10
  else if e == chr 'r' then 13 else if e == chr 't' then 9 else e

/-- One round of the second half of `lex_scan_string`, at the byte `c` of a checked raw text:
the bytes its character stands for, with escapes decoded and surrogate pairs joined, and the raw
text after it. -/
def decodeStep (c : UInt8) (rest : Bytes) : Except DecodeError (Bytes × Bytes) :=
  if c == chr '\\' then
    match rest with
    | [] => .ok ([], [])
    | e :: more =>
      if e == chr 'u' then
        match more with
        | h1 :: h2 :: h3 :: h4 :: more' =>
          let value := hexValue [h1, h2, h3, h4]
          if 0xD800 ≤ value ∧ value ≤ 0xDBFF then
            match more' with
            | b :: u :: g1 :: g2 :: g3 :: g4 :: more'' =>
              let low := hexValue [g1, g2, g3, g4]
              if b == chr '\\' && u == chr 'u' && 0xDC00 ≤ low && low ≤ 0xDFFF then
                .ok (utf8Encode ((value - 0xD800) * 1024 + (low - 0xDC00) + 0x10000), more'')
              else .error .invalidUnicode
            | _ => .error .invalidUnicode
          else if 0xDC00 ≤ value ∧ value ≤ 0xDFFF then .error .invalidUnicode
          else .ok (utf8Encode value, more')
        | _ => .ok ([], [])
      else .ok ([unescape e], more)
  else .ok ([c], rest)

/-- The loop of the second half of `lex_scan_string`, for at most `fuel` rounds. -/
def decodeLoop : ℕ → Bytes → Except DecodeError Bytes
  | 0, _ => .ok []
  | _, [] => .ok []
  | fuel + 1, c :: rest => do
    let (chunk, after) ← decodeStep c rest
    (chunk ++ ·) <$> decodeLoop fuel after

/-- The second half of `lex_scan_string`: the escapes of a checked raw text decoded. Each round
takes at least one byte, so the loop runs for at most as many rounds as the text has bytes. -/
def decodeString (raw : Bytes) : Except DecodeError Bytes := decodeLoop raw.length raw

/-- The value of a run of decimal digits. -/
def digitsValue (digits : Bytes) : ℕ := digits.foldl (fun v d ↦ v * 10 + (d.toNat - 48)) 0

/-- `jsonp_strtod` fails when the value rounds past the largest double, that is when
`mantissa * 10 ^ exp` is at least `2 ^ 1024 - 2 ^ 970`. -/
def realOverflows (mantissa : Bytes) (exp : ℤ) : Bool :=
  let significant := mantissa.dropWhile (· == chr '0')
  let d : ℤ := significant.length
  let bound := Nat.pow 2 1024 - Nat.pow 2 970
  if significant = [] ∨ d + exp ≤ 308 then false
  else if 309 ≤ d - 1 + exp then true
  else if 0 ≤ exp then bound ≤ digitsValue significant * Nat.pow 10 exp.toNat
  else bound * Nat.pow 10 (-exp).toNat ≤ digitsValue significant

/-- The fraction of a number, with its `.`: `none` when no digit follows the `.`. -/
def scanFraction : Bytes → Option (Bytes × Bytes)
  | [] => some ([], [])
  | c :: rest =>
    if c == chr '.' then
      if (rest.takeWhile isDigit).isEmpty then none
      else some (c :: rest.takeWhile isDigit, rest.dropWhile isDigit)
    else some ([], c :: rest)

/-- The exponent of a number, with its `e` and sign: `none` when no digit follows them. -/
def scanExponent : Bytes → Option (Bytes × Bytes)
  | [] => some ([], [])
  | c :: rest =>
    if c == chr 'e' || c == chr 'E' then
      let sign := (rest.head?.filter fun s ↦ s == chr '+' || s == chr '-').toList
      let digits := (rest.drop sign.length).takeWhile isDigit
      if digits.isEmpty then none
      else some (c :: sign ++ digits, (rest.drop sign.length).dropWhile isDigit)
    else some ([], c :: rest)

/-- The value of an exponent's text. -/
def exponentValue : Bytes → ℤ
  | _ :: s :: digits =>
    if s == chr '-' then -digitsValue digits
    else if s == chr '+' then digitsValue digits else digitsValue (s :: digits)
  | _ => 0

/-- `lex_scan_number`, from the `-` or digit that starts the number. -/
def scanNumber (intAsReal : Bool) (input : Bytes) : Except DecodeError (Token × Bytes) :=
  let negative := input.head? == some (chr '-')
  let afterSign := if negative then input.drop 1 else input
  let intDigits := afterSign.takeWhile isDigit
  let afterInt := afterSign.dropWhile isDigit
  let sign : Bytes := if negative then [chr '-'] else []
  if intDigits.isEmpty || (intDigits.head? == some (chr '0') && 1 < intDigits.length) then
    .ok (.invalid, afterInt)
  else if !intAsReal && !(afterInt.head? == some (chr '.') || afterInt.head? == some (chr 'e') ||
      afterInt.head? == some (chr 'E')) then
    let value : ℤ := if negative then -digitsValue intDigits else digitsValue intDigits
    if value < -(Nat.pow 2 63 : ℤ) then .error .tooBigNegativeInteger
    else if (Nat.pow 2 63 : ℤ) ≤ value then .error .tooBigInteger
    else .ok (.integer value, afterInt)
  else
    match scanFraction afterInt with
    | none => .ok (.invalid, afterInt)
    | some (frac, afterFrac) =>
      match scanExponent afterFrac with
      | none => .ok (.invalid, afterFrac)
      | some (exp, afterExp) =>
        if realOverflows (intDigits ++ frac.drop 1) (exponentValue exp - (frac.drop 1).length)
        then .error .realOverflow
        else .ok (.real (sign ++ intDigits ++ frac ++ exp), afterExp)

/-- The token of a byte that is a token by itself. -/
def punctuation (c : UInt8) : Option Token :=
  if c == chr '{' then some .lbrace
  else if c == chr '}' then some .rbrace
  else if c == chr '[' then some .lbracket
  else if c == chr ']' then some .rbracket
  else if c == chr ':' then some .colon
  else if c == chr ',' then some .comma
  else none

/-- The token of a run of letters. -/
def keyword (word : Bytes) : Token :=
  if word = ascii "true" then .trueLit else if word = ascii "false" then .falseLit
  else if word = ascii "null" then .nullLit else .invalid

/-- `lex_scan`: skip white space and read one token. -/
def lexScan (intAsReal : Bool) (input : Bytes) : Except DecodeError (Token × Bytes) :=
  match input.dropWhile isSpace with
  | [] => .ok (.eof, [])
  | c :: rest =>
    match punctuation c with
    | some tok => .ok (tok, rest)
    | none =>
      if c == chr '"' then do
        let (raw, after) ← scanString 0 rest
        let s ← decodeString raw
        pure (.string s, after)
      else if isDigit c || c == chr '-' then scanNumber intAsReal (c :: rest)
      else if isAlpha c then
        .ok (keyword ((c :: rest).takeWhile isAlpha), (c :: rest).dropWhile isAlpha)
      else if c < 0x80 || utf8SequenceOk c rest then .ok (.invalid, rest)
      else .error .invalidUtf8

/-! ## The parser -/

/-- `JSON_PARSER_MAX_DEPTH`. -/
def maxDepth : ℕ := 2048

variable (flags : DecodeFlags) (value : Token → Bytes → Except DecodeError (Json × Bytes))

/-- The loop of `parse_object`, at the token that should be a key; `value` parses a member's
value. -/
def parseMembers : ℕ → List (Bytes × Json) → Token → Bytes → Except DecodeError (Json × Bytes)
  | 0, _, _, _ => .error .braceExpected
  | fuel + 1, members, .string key, input =>
    if 0 ∈ key then .error .nulByteInKey
    else if flags.rejectDuplicates && (members.lookup key).isSome then .error .duplicateKey
    else do
      let (colonTok, afterColon) ← lexScan flags.decodeIntAsReal input
      if colonTok != .colon then throw .colonExpected
      else do
        let (tok, afterTok) ← lexScan flags.decodeIntAsReal afterColon
        let (v, afterValue) ← value tok afterTok
        let (sep, afterSep) ← lexScan flags.decodeIntAsReal afterValue
        if sep == .comma then
          let (next, afterNext) ← lexScan flags.decodeIntAsReal afterSep
          parseMembers fuel (assocSet members key v) next afterNext
        else if sep == .rbrace then pure (.object (assocSet members key v), afterSep)
        else throw .braceExpected
  | _ + 1, _, _, _ => .error .stringOrBraceExpected

/-- `parse_object`, after its `{`. -/
def parseObject (input : Bytes) : Except DecodeError (Json × Bytes) := do
  let (tok, after) ← lexScan flags.decodeIntAsReal input
  if tok == .rbrace then pure (.object [], after)
  else parseMembers flags value (after.length + 1) [] tok after

/-- The loop of `parse_array`, at the token that should start an element. -/
def parseElements : ℕ → List Json → Token → Bytes → Except DecodeError (Json × Bytes)
  | 0, _, _, _ => .error .bracketExpected
  | fuel + 1, elems, tok, input =>
    if tok == .eof then .error .bracketExpected
    else do
      let (v, afterValue) ← value tok input
      let (sep, afterSep) ← lexScan flags.decodeIntAsReal afterValue
      if sep == .comma then
        let (next, afterNext) ← lexScan flags.decodeIntAsReal afterSep
        parseElements fuel (elems ++ [v]) next afterNext
      else if sep == .rbracket then pure (.array (elems ++ [v]), afterSep)
      else throw .bracketExpected

/-- `parse_array`, after its `[`. -/
def parseArray (input : Bytes) : Except DecodeError (Json × Bytes) := do
  let (tok, after) ← lexScan flags.decodeIntAsReal input
  if tok == .rbracket then pure (.array [], after)
  else parseElements flags value (after.length + 1) [] tok after

/-- `parse_value` at a scanned token, able to nest `depth` more values. -/
def parseValue : ℕ → Token → Bytes → Except DecodeError (Json × Bytes)
  | 0, _, _ => .error .maxDepthReached
  | depth + 1, tok, input =>
    match tok with
    | .string s => if !flags.allowNul && 0 ∈ s then .error .nulNotAllowed else .ok (.string s, input)
    | .integer i => .ok (.integer i, input)
    | .real text => .ok (.real text, input)
    | .trueLit => .ok (.bool true, input)
    | .falseLit => .ok (.bool false, input)
    | .nullLit => .ok (.null, input)
    | .lbrace => parseObject flags (parseValue depth) input
    | .lbracket => parseArray flags (parseValue depth) input
    | .invalid => .error .invalidToken
    | _ => .error .unexpectedToken

/-- `parse_json`. -/
def parseJson (input : Bytes) : Except DecodeError Json := do
  let (tok, after) ← lexScan flags.decodeIntAsReal input
  if !flags.decodeAny && tok != .lbracket && tok != .lbrace then throw .containerExpected
  else do
    let (v, afterValue) ← parseValue flags maxDepth tok after
    if flags.disableEofCheck then pure v
    else do
      let (tok', _) ← lexScan flags.decodeIntAsReal afterValue
      if tok' != .eof then throw .endOfFileExpected else pure v

/-- `json_loads(text, flags, &error)`, for the bytes `text` of the C string it is given. -/
def jsonLoads (text : Bytes) (flags : ℕ) : Except DecodeError Json :=
  parseJson (DecodeFlags.ofSize flags) text

/-! ## One round of each loop -/

section Rounds

variable {flags : DecodeFlags} {value : Token → Bytes → Except DecodeError (Json × Bytes)}

/-- A round of the member loop that ends well: a key with no NUL byte, `:`, a value and a
separator, then another round after `,` or the object at `}`. -/
theorem parseMembers_eq_ok {fuel : ℕ} {members : List (Bytes × Json)} {tok : Token}
    {input : Bytes} {v : Json} {rest : Bytes}
    (h : parseMembers flags value fuel members tok input = .ok (v, rest)) :
    ∃ fuel' key, fuel = fuel' + 1 ∧ tok = .string key ∧ 0 ∉ key ∧
      ∃ afterColon tok' afterTok w afterValue sep afterSep,
        lexScan flags.decodeIntAsReal input = .ok (.colon, afterColon) ∧
        lexScan flags.decodeIntAsReal afterColon = .ok (tok', afterTok) ∧
        value tok' afterTok = .ok (w, afterValue) ∧
        lexScan flags.decodeIntAsReal afterValue = .ok (sep, afterSep) ∧
        ((sep = .comma ∧ ∃ next afterNext,
            lexScan flags.decodeIntAsReal afterSep = .ok (next, afterNext) ∧
            parseMembers flags value fuel' (assocSet members key w) next afterNext = .ok (v, rest)) ∨
          (v = .object (assocSet members key w) ∧ rest = afterSep)) := by
  cases fuel with
  | zero => simp [parseMembers] at h
  | succ fuel =>
    cases tok with
    | string key =>
      simp only [parseMembers] at h
      split_ifs at h with hnul
      obtain ⟨⟨colonTok, afterColon⟩, hcolon, h⟩ := bind_eq_ok.mp h
      split_ifs at h with hc
      obtain rfl : colonTok = .colon := by simpa using hc
      simp only [bind_eq_ok] at h
      obtain ⟨⟨tok', afterTok⟩, htok, ⟨w, afterValue⟩, hw, ⟨sep, afterSep⟩, hsep, h⟩ := h
      refine ⟨fuel, key, rfl, rfl, hnul, afterColon, tok', afterTok, w, afterValue, sep, afterSep,
        hcolon, htok, hw, hsep, ?_⟩
      split_ifs at h with hcomma
      · obtain ⟨⟨next, afterNext⟩, hnext, h⟩ := bind_eq_ok.mp h
        exact .inl ⟨by simpa using hcomma, next, afterNext, hnext, h⟩
      · cases h
        exact .inr ⟨rfl, rfl⟩
    | _ => simp [parseMembers] at h

/-- Everything a round of the element loop does when the loop ends well: it reads a value and
a separator, and goes round again after a `,` or builds the array at a `]`. -/
theorem parseElements_eq_ok {fuel : ℕ} {elems : List Json} {tok : Token} {input : Bytes}
    {v : Json} {rest : Bytes}
    (h : parseElements flags value fuel elems tok input = .ok (v, rest)) :
    ∃ fuel', fuel = fuel' + 1 ∧ ∃ w afterValue sep afterSep,
      value tok input = .ok (w, afterValue) ∧
      lexScan flags.decodeIntAsReal afterValue = .ok (sep, afterSep) ∧
      ((sep = .comma ∧ ∃ next afterNext,
          lexScan flags.decodeIntAsReal afterSep = .ok (next, afterNext) ∧
          parseElements flags value fuel' (elems ++ [w]) next afterNext = .ok (v, rest)) ∨
        (v = .array (elems ++ [w]) ∧ rest = afterSep)) := by
  cases fuel with
  | zero => simp [parseElements] at h
  | succ fuel =>
    simp only [parseElements] at h
    split_ifs at h
    simp only [bind_eq_ok] at h
    obtain ⟨⟨w, afterValue⟩, hw, ⟨sep, afterSep⟩, hsep, h⟩ := h
    refine ⟨fuel, rfl, w, afterValue, sep, afterSep, hw, hsep, ?_⟩
    split_ifs at h with hcomma
    · obtain ⟨⟨next, afterNext⟩, hnext, h⟩ := bind_eq_ok.mp h
      exact .inl ⟨by simpa using hcomma, next, afterNext, hnext, h⟩
    · cases h
      exact .inr ⟨rfl, rfl⟩

/-- `parse_object` ends at once at a `}`, or runs the member loop from the first token. -/
theorem parseObject_eq_ok {input : Bytes} {v : Json} {rest : Bytes}
    (h : parseObject flags value input = .ok (v, rest)) :
    ∃ tok after, lexScan flags.decodeIntAsReal input = .ok (tok, after) ∧
      ((v = .object [] ∧ rest = after) ∨
        parseMembers flags value (after.length + 1) [] tok after = .ok (v, rest)) := by
  simp only [parseObject, bind_eq_ok] at h
  obtain ⟨⟨tok, after⟩, hscan, h⟩ := h
  refine ⟨tok, after, hscan, ?_⟩
  split_ifs at h
  · cases h
    exact .inl ⟨rfl, rfl⟩
  · exact .inr h

/-- `parse_array` ends at once at a `]`, or runs the element loop from the first token. -/
theorem parseArray_eq_ok {input : Bytes} {v : Json} {rest : Bytes}
    (h : parseArray flags value input = .ok (v, rest)) :
    ∃ tok after, lexScan flags.decodeIntAsReal input = .ok (tok, after) ∧
      ((v = .array [] ∧ rest = after) ∨
        parseElements flags value (after.length + 1) [] tok after = .ok (v, rest)) := by
  simp only [parseArray, bind_eq_ok] at h
  obtain ⟨⟨tok, after⟩, hscan, h⟩ := h
  refine ⟨tok, after, hscan, ?_⟩
  split_ifs at h
  · cases h
    exact .inl ⟨rfl, rfl⟩
  · exact .inr h

end Rounds

/-! ## What the parser builds -/

/-- The members of an object being built: unique keys, none of them holding a NUL byte, and
well-formed values. -/
def MembersOk (members : List (Bytes × Json)) : Prop :=
  (members.map Prod.fst).Nodup ∧ (∀ m ∈ members, 0 ∉ m.1) ∧ ∀ m ∈ members, m.2.WellFormed

theorem membersOk_nil : MembersOk [] := by simp [MembersOk]

theorem membersOk_assocSet {members : List (Bytes × Json)} (h : MembersOk members) {key : Bytes}
    {v : Json} (hkey : 0 ∉ key) (hv : v.WellFormed) : MembersOk (assocSet members key v) := by
  obtain ⟨hnodup, hkeys, hvals⟩ := h
  refine ⟨nodup_keys_assocSet _ _ _ hnodup, fun m hm ↦ ?_, fun m hm ↦ ?_⟩
  · rcases (mem_assocSet _ _ _ hnodup).mp hm with rfl | ⟨hm, -⟩
    exacts [hkey, hkeys m hm]
  · rcases (mem_assocSet _ _ _ hnodup).mp hm with rfl | ⟨hm, -⟩
    exacts [hv, hvals m hm]

section WellFormed

variable {flags : DecodeFlags} {value : Token → Bytes → Except DecodeError (Json × Bytes)}
  (hvalue : ∀ tok input v rest, value tok input = .ok (v, rest) → v.WellFormed)
include hvalue

theorem parseMembers_wellFormed :
    ∀ fuel members tok input v rest, MembersOk members →
      parseMembers flags value fuel members tok input = .ok (v, rest) → v.WellFormed := by
  intro fuel
  induction fuel with
  | zero => intro _ _ _ _ _ _ h; simp [parseMembers] at h
  | succ fuel ih =>
    intro members tok input v rest hmembers h
    obtain ⟨_, key, ⟨⟩, -, hnul, _, _, _, w, _, _, _, -, -, hw, -, hround⟩ := parseMembers_eq_ok h
    have hmembers' := membersOk_assocSet hmembers hnul (hvalue _ _ _ _ hw)
    rcases hround with ⟨-, _, _, -, h⟩ | ⟨rfl, -⟩
    · exact ih _ _ _ _ _ hmembers' h
    · exact .object hmembers'.1 hmembers'.2.1 hmembers'.2.2

theorem parseObject_wellFormed {input : Bytes} {v : Json} {rest : Bytes}
    (h : parseObject flags value input = .ok (v, rest)) : v.WellFormed := by
  obtain ⟨_, _, -, ⟨rfl, -⟩ | h⟩ := parseObject_eq_ok h
  · exact .object (by simp) (by simp) (by simp)
  · exact parseMembers_wellFormed hvalue _ _ _ _ _ _ membersOk_nil h

theorem parseElements_wellFormed :
    ∀ fuel elems tok input v rest, (∀ e ∈ elems, Json.WellFormed e) →
      parseElements flags value fuel elems tok input = .ok (v, rest) → v.WellFormed := by
  intro fuel
  induction fuel with
  | zero => intro _ _ _ _ _ _ h; simp [parseElements] at h
  | succ fuel ih =>
    intro elems tok input v rest helems h
    obtain ⟨_, ⟨⟩, w, _, _, _, hw, -, hround⟩ := parseElements_eq_ok h
    have helems' : ∀ e ∈ elems ++ [w], Json.WellFormed e := by
      simpa [or_imp, forall_and] using ⟨helems, hvalue _ _ _ _ hw⟩
    rcases hround with ⟨-, _, _, -, h⟩ | ⟨rfl, -⟩
    · exact ih _ _ _ _ _ helems' h
    · exact .array helems'

theorem parseArray_wellFormed {input : Bytes} {v : Json} {rest : Bytes}
    (h : parseArray flags value input = .ok (v, rest)) : v.WellFormed := by
  obtain ⟨_, _, -, ⟨rfl, -⟩ | h⟩ := parseArray_eq_ok h
  · exact .array (by simp)
  · exact parseElements_wellFormed hvalue _ _ _ _ _ _ (by simp) h

end WellFormed

/-- Every value `parse_value` builds is well formed: an object's keys are unique, since a key
seen again replaces the member that has it, and none holds a NUL byte. -/
theorem parseValue_wellFormed (flags : DecodeFlags) :
    ∀ depth tok input v rest, parseValue flags depth tok input = .ok (v, rest) → v.WellFormed
  | 0, _, _, _, _, h => by simp [parseValue] at h
  | depth + 1, tok, input, v, rest, h => by
    cases tok with
    | string s =>
      simp only [parseValue] at h
      split_ifs at h
      cases h
      exact .string s
    | integer i => cases h; exact .integer i
    | real text => cases h; exact .real text
    | trueLit => cases h; exact .bool true
    | falseLit => cases h; exact .bool false
    | nullLit => cases h; exact .null
    | lbrace => exact parseObject_wellFormed (parseValue_wellFormed flags depth) h
    | lbracket => exact parseArray_wellFormed (parseValue_wellFormed flags depth) h
    | _ => simp [parseValue] at h

/-- Every value `json_loads` returns is well formed. -/
theorem jsonLoads_wellFormed {text : Bytes} {flags : ℕ} {v : Json} (h : jsonLoads text flags = .ok v) :
    v.WellFormed := by
  simp only [jsonLoads, parseJson, bind_eq_ok] at h
  obtain ⟨⟨tok, after⟩, -, h⟩ := h
  split_ifs at h <;> obtain ⟨⟨w, afterValue⟩, hw, h⟩ := bind_eq_ok.mp h
  · cases h
    exact parseValue_wellFormed _ _ _ _ _ _ hw
  · obtain ⟨⟨tok', rest⟩, -, h⟩ := bind_eq_ok.mp h
    split_ifs at h
    cases h
    exact parseValue_wellFormed _ _ _ _ _ _ hw

end QfsClient
