import QfsClient.Transport.ControlChannel
import QfsClient.Jansson.Dump

/-!
# Requests and responses in JSON

`CheckWorkspacePathValid`, `CheckCommonApiResponse` and `SendJson` of
`qfs_client_implementation.cc` (lines 271-391). A request is an object that `json_dumps` writes
compactly with sorted keys and `CopyString` copies, with its terminator, into a command buffer.
A response is parsed with `json_loads` and has to be an object with an integer `ErrorCode` and
a `Message`.

`json_loads` and the error details read `response.Data()` as a C string: up to the first 0 byte,
and on into whatever memory holds after the buffer (`Host.pastEnd`) when the buffer holds none.

Three things the code does are shown here. `json_loads` is handed `response.Size()` as its flags
argument, so how a response is decoded depends on the bits of its length, and no function of
its text gives the result (`checkCommonApiResponse_not_text_determined`). The `ErrorCode` is
cast to the 32-bit `CommandError` before it is compared with `kCmdOk`, so a code whose low 32
bits are zero is taken as success (`checkCommonApiResponse_errorCode`). `SendJson` does not
look at what `CopyString` returns, so a request too long for the buffer goes out as an empty
command (`sendJson_sends_empty_command`).
-/

namespace QfsClient

/-- `kErrorCode`, modelled from the spec: the member of a response that holds its code. -/
def kErrorCode : Bytes := ascii "ErrorCode"

/-- `kMessage`, modelled from the spec: the member of a response that holds its message. -/
def kMessage : Bytes := ascii "Message"

/-- `std::string::find(c, pos)`: the first index from `pos` on that holds `c`; `none` is
`npos`. -/
def find (s : Bytes) (c : UInt8) (pos : ℕ) : Option ℕ :=
  ((s.drop pos).findIdx? (· == c)).map (· + pos)

theorem find_eq_none_iff {s : Bytes} {c : UInt8} {pos : ℕ} :
    find s c pos = none ↔ (s.drop pos).count c = 0 := by
  simp only [find, Option.map_eq_none', List.findIdx?_eq_none_iff, beq_eq_false_iff_ne,
    List.count_eq_zero]
  exact ⟨fun h hc ↦ h c hc rfl, fun h x hx hxc ↦ h (hxc ▸ hx)⟩

/-- The first `c` of a list is one of its `c`s; the others come after it. -/
theorem count_of_findIdx? {c : UInt8} :
    ∀ {l : Bytes} {i : ℕ}, l.findIdx? (· == c) = some i → l.count c = (l.drop (i + 1)).count c + 1
  | [], _, h => by simp at h
  | a :: l, i, h => by
    rw [List.findIdx?_cons] at h
    by_cases ha : a = c
    · simp only [ha, beq_self_eq_true, if_true, Option.some.injEq] at h
      simp [← h, ha]
    · rw [if_neg (by simpa using ha), List.findIdx?_succ] at h
      obtain ⟨j, hj, rfl⟩ := Option.map_eq_some'.mp h
      simp [List.count_cons, ha, count_of_findIdx? hj]

theorem count_drop_of_find {s : Bytes} {c : UInt8} {pos i : ℕ} (h : find s c pos = some i) :
    (s.drop pos).count c = (s.drop (i + 1)).count c + 1 := by
  obtain ⟨j, hj, rfl⟩ := Option.map_eq_some'.mp h
  rw [count_of_findIdx? hj, List.drop_drop, Nat.add_right_comm, Nat.add_comm pos]

namespace ApiImpl

variable {M : ℕ}

/-! ## Workspace names -/

/-- `ApiImpl::CheckWorkspacePathValid`. -/
def checkWorkspacePathValid (workspaceRoot : CStr) : Error :=
  let str := workspaceRoot.bytes
  match find str (chr '/') 0 with
  | none => getError .kWorkspacePathInvalid (.text str)
  | some first =>
    match find str (chr '/') (first + 1) with
    | none => getError .kWorkspacePathInvalid (.text str)
    | some second =>
      match find str (chr '/') (second + 1) with
      | some _ => getError .kWorkspacePathInvalid (.text str)
      | none => getError .kSuccess .none

/-- The three chained searches count the slashes: a name is accepted exactly when it holds two,
wherever they stand, and a refused name is the detail of the error. -/
theorem checkWorkspacePathValid_eq_count (workspaceRoot : CStr) :
    checkWorkspacePathValid workspaceRoot =
      if workspaceRoot.bytes.count (chr '/') = 2 then getError .kSuccess .none
      else getError .kWorkspacePathInvalid (.text workspaceRoot.bytes) := by
  have h₀ : workspaceRoot.bytes.count (chr '/') = (workspaceRoot.bytes.drop 0).count (chr '/') :=
    rfl
  rcases h₁ : find workspaceRoot.bytes (chr '/') 0 with _ | first
  · simp only [checkWorkspacePathValid, h₁]
    rw [if_neg (by rw [h₀, find_eq_none_iff.mp h₁]; omega)]
  have c₁ := count_drop_of_find h₁
  rcases h₂ : find workspaceRoot.bytes (chr '/') (first + 1) with _ | second
  · simp only [checkWorkspacePathValid, h₁, h₂]
    rw [if_neg (by rw [h₀, c₁, find_eq_none_iff.mp h₂]; omega)]
  have c₂ := count_drop_of_find h₂
  rcases h₃ : find workspaceRoot.bytes (chr '/') (second + 1) with _ | third
  · simp only [checkWorkspacePathValid, h₁, h₂, h₃]
    rw [if_pos (by rw [h₀, c₁, c₂, find_eq_none_iff.mp h₃])]
  · simp only [checkWorkspacePathValid, h₁, h₂, h₃]
    rw [if_neg (by rw [h₀, c₁, c₂, count_drop_of_find h₃]; omega)]

/-! ## Responses -/

/-- `ApiImpl::CheckCommonApiResponse`: the error, and what `SetJsonObject` leaves in the
context. `pastEnd` is what memory holds after the buffer. The failure branch of `json_unpack_ex`
with the format `o` is never taken. -/
def checkCommonApiResponse (response : CommandBuffer M) (pastEnd : Bytes) : Error × Option Json :=
  let text := cString (response.data ++ pastEnd)
  match jsonLoads text response.size with
  | .error e => (getError .kJsonDecodingError (.json (.decode e) text), none)
  | .ok responseJson =>
    (match responseJson.objectGet kErrorCode, responseJson.objectGet kMessage with
      | none, _ => getError .kMissingJsonObject (.json (.text kErrorCode) text)
      | some _, none => getError .kMissingJsonObject (.json (.text kMessage) text)
      | some errorJson, some messageJson =>
        if !errorJson.isInteger then
          getError .kJsonDecodingError
            (.json (.text (ascii "error code in response JSON is not valid")) text)
        else
          let apiError : CommandError := BitVec.ofInt 32 errorJson.integerValue
          if apiError != kCmdOk then
            getError .kApiError (.json (.api apiError messageJson.stringValue) text)
          else getError .kSuccess .none,
      some responseJson)

/-- A response that passes the check was parsed, and the context holds what was parsed. -/
theorem checkCommonApiResponse_success {response : CommandBuffer M} {pastEnd : Bytes}
    (h : (checkCommonApiResponse response pastEnd).1.code = .kSuccess) :
    ∃ json, jsonLoads (cString (response.data ++ pastEnd)) response.size = .ok json ∧
      (checkCommonApiResponse response pastEnd).2 = some json := by
  rcases hload : jsonLoads (cString (response.data ++ pastEnd)) response.size with e | json
  · simp [checkCommonApiResponse, hload] at h
  · exact ⟨json, rfl, by simp [checkCommonApiResponse, hload]⟩

/-- Memory after a buffer that holds a 0 byte is never read. -/
theorem checkCommonApiResponse_of_mem {response : CommandBuffer M} (h : 0 ∈ response.data)
    (pastEnd : Bytes) : checkCommonApiResponse response pastEnd = checkCommonApiResponse response [] := by
  simp only [checkCommonApiResponse, cString_append_of_mem h, List.append_nil]

/-- The canonical success response and its terminator: 29 bytes, so `json_loads` is given the
flags `0b11101`, among them `JSON_DECODE_INT_AS_REAL`. -/
def okResponse : CommandBuffer 32 :=
  ⟨ascii "\x7b\"ErrorCode\":0,\"Message\":\"\"\x7d" ++ [0], by decide⟩

/-- The same text followed by four 0 bytes: 32 bytes, and no flag set. -/
def paddedOkResponse : CommandBuffer 32 :=
  ⟨ascii "\x7b\"ErrorCode\":0,\"Message\":\"\"\x7d" ++ [0, 0, 0, 0], by decide⟩

theorem checkCommonApiResponse_okResponse :
    cString okResponse.data = cString paddedOkResponse.data ∧
      (checkCommonApiResponse okResponse []).1.code = .kJsonDecodingError ∧
      (checkCommonApiResponse paddedOkResponse []).1.code = .kSuccess := by
  decide

/-- No function of the text before the first 0 byte gives the code `CheckCommonApiResponse`
returns, whatever memory holds after the buffer: the length of the buffer is read as the
decoding flags. -/
theorem checkCommonApiResponse_not_text_determined (pastEnd : Bytes) :
    ¬∃ classify : Bytes → ErrorCode, ∀ (M : ℕ) (response : CommandBuffer M),
      (checkCommonApiResponse response pastEnd).1.code = classify (cString response.data) := by
  rintro ⟨classify, h⟩
  obtain ⟨htext, hbad, hok⟩ := checkCommonApiResponse_okResponse
  have h₁ := h 32 okResponse
  rw [checkCommonApiResponse_of_mem (by decide), hbad, htext, ← h 32 paddedOkResponse,
    checkCommonApiResponse_of_mem (by decide), hok] at h₁
  exact absurd h₁ (by decide)

theorem ofInt_eq_kCmdOk_iff (e : ℤ) : BitVec.ofInt 32 e = kCmdOk ↔ e % 4294967296 = 0 := by
  rw [kCmdOk, BitVec.toNat_eq, BitVec.toNat_ofInt]
  simp only [Nat.reducePow, Int.Nat.cast_ofNat_Int, BitVec.ofNat_eq_ofNat, BitVec.toNat_ofNat,
    Nat.zero_mod]
  omega

/-- A response holding `2 ^ 32` as its code, and its terminator: 38 bytes, so no flag that
changes how it parses. -/
def wrappedResponse : CommandBuffer 38 :=
  ⟨ascii "\x7b\"ErrorCode\":4294967296,\"Message\":\"\"\x7d" ++ [0], by decide⟩

theorem checkCommonApiResponse_accepts_wrapped_code (pastEnd : Bytes) :
    jsonLoads (cString (wrappedResponse.data ++ pastEnd)) wrappedResponse.size =
        .ok (.object [(kErrorCode, .integer 4294967296), (kMessage, .string [])]) ∧
      (checkCommonApiResponse wrappedResponse pastEnd).1 = getError .kSuccess .none := by
  rw [cString_append_of_mem (by decide), checkCommonApiResponse_of_mem (by decide)]
  exact ⟨rfl, by decide⟩

/-- `ApiImpl::SendJson` with buffers of at most `M` bytes: the error, the handle, and the
context after, `none` when `SendCommand` fails. What `CopyString` returns is not looked at. -/
def sendJson (M : ℕ) (host : Host) (api : ApiImpl) (request : List (Bytes × Json)) :
    Error × ApiImpl × Option Json :=
  let command := ((CommandBuffer.empty M).copyString (jsonDumps request)).2
  let (err, api, response) := api.sendCommand host command (CommandBuffer.empty M)
  if err.code != .kSuccess then (err, api, none)
  else
    let (err, context) := checkCommonApiResponse response host.pastEnd
    if err.code != .kSuccess then (err, api, context) else (getError .kSuccess .none, api, context)

/-- `SendJson` leaves the handle as `SendCommand` of its command leaves it. -/
theorem sendJson_snd (host : Host) (api : ApiImpl) (request : List (Bytes × Json)) :
    (sendJson M host api request).2.1 = (api.sendCommand host
      ((CommandBuffer.empty M).copyString (jsonDumps request)).2 (CommandBuffer.empty M)).2.1 := by
  dsimp only [sendJson]
  split_ifs <;> rfl

/-- A `SendJson` that succeeds got the daemon's answer to its command, which passes the check, and
leaves in the context what the check parsed. -/
theorem sendJson_success {host : Host} {api : ApiImpl} {request : List (Bytes × Json)}
    (h : (sendJson M host api request).1.code = .kSuccess) :
    ∃ response : CommandBuffer M,
      response.data = host.respond ((CommandBuffer.empty M).copyString (jsonDumps request)).2.data ∧
      (checkCommonApiResponse response host.pastEnd).1.code = .kSuccess ∧
      (sendJson M host api request).2.2 = (checkCommonApiResponse response host.pastEnd).2 := by
  revert h
  dsimp only [sendJson]
  split_ifs with h₁ h₂
  · exact fun h ↦ absurd h (by simpa using h₁)
  · exact fun h ↦ absurd h (by simpa using h₂)
  · exact fun _ ↦ ⟨_, sendCommand_success (by simpa using h₁), by simpa using h₂, rfl⟩

/-- On any host, `SendJson` writes at most one command to the api file: the request's text and
its terminator when they fit the buffer, and the empty command when they do not. -/
theorem sendJson_received (host : Host) (api : ApiImpl) (request : List (Bytes × Json)) :
    (sendJson M host api request).2.1.file.file.received = api.file.file.received ∨
      (sendJson M host api request).2.1.file.file.received =
        (if (jsonDumps request).bytes.length + 1 ≤ M then (jsonDumps request).bytes ++ [0] else []) ::
          api.file.file.received := by
  rw [sendJson_snd, ← CommandBuffer.copyString_data (CommandBuffer.empty M)]
  exact sendCommand_received host api _ _

/-- A host on which every operation succeeds and the daemon answers every command with
`reply`. -/
def replyingHost (reply : Bytes) : Host :=
  ⟨some [chr '/'], fun _ ↦ none, fun _ ↦ true, true, true, true, fun _ ↦ true, fun _ ↦ reply, [],
    .added⟩

/-- A success response of 32 bytes with its terminator. -/
def okReply : Bytes := ascii "\x7b\"ErrorCode\":0,\"Message\":\"abc\"\x7d" ++ [0]

/-- A `GetAccessed` request whose text, 39 bytes and a terminator, does not fit 32 bytes. -/
def longRequest : List (Bytes × Json) :=
  [(ascii "CommandId", .integer 3), (ascii "WorkspaceRoot", .string (ascii "a/b/c"))]

theorem sendJson_sends_empty_command :
    (jsonDumps longRequest).bytes.length = 39 ∧
      (sendJson 32 (replyingHost okReply) openHandle longRequest).1.code = .kSuccess ∧
      (sendJson 32 (replyingHost okReply) openHandle longRequest).2.1.file.file.received = [[]] := by
  decide

end ApiImpl

end QfsClient
