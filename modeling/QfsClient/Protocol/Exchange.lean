import QfsClient.Protocol.GetAccessed
import QfsClient.Jansson.Strings

/-!
# The daemon's answer, read back by the client

The daemon answers a command by writing its reply into the api file, and the client reads the
file back with `ReadResponse` and parses it with `json_loads`. Here the daemon writes its reply
as compact JSON, with the members of each object in any order and strings and keys of any bytes
(`Writable`, `dumpCompact`), followed by a terminator and any bytes, and the reply is followed
through the client.

`checkCommonApiResponse_reply`: the check reads such a reply back exactly when it is `accepted`
under bit 4 of the buffer's length (`JSON_ALLOW_NUL`), and fails with `kJsonDecodingError` when
not. A reply read back with an integer `ErrorCode` `e` fails to decode when bit 3
(`JSON_DECODE_INT_AS_REAL`) is set, and otherwise succeeds exactly when `2 ^ 32` divides `e`.
`checkCommonApiResponse_rejects_invalid_utf8`: a reply that holds a string or a key that is not
valid UTF-8, a raw file name say, is refused under every flag.

`getAccessed_of_reply`: `GetAccessed`, from a handle in the state the spec expects and on a host
without faults whose daemon answers its request so, returns what the reply and those two bits
say, and on success prints the boolean members of the reply's `AccessList` in the host's
iteration order.

`getAccessed_packs_scalars`: for a workspace name with two slashes, `json_pack_ex` refuses the
name exactly when it is not the UTF-8 encoding of a sequence of Unicode scalar values
(`utf8CheckString_iff`). `GetAccessed` then fails with `kJsonEncodingError`, prints nothing and
leaves the handle as it was; any other name is sent.

`getAccessed_prints_utf8`: whatever the daemon replies, on any host and from any handle, the
text `GetAccessed` prints passes `utf8_check_string`, since every key `json_loads` reads does.
-/

namespace QfsClient

/-- A value `json_loads` reads back from its compact text holds only valid UTF-8. -/
theorem Writable.validUtf8 {depth : ℕ} {v : Json} (hw : Writable depth v) {allowNul : Bool}
    (h : v.accepted allowNul = true) : v.ValidUtf8 := by
  induction hw with
  | null => exact .null
  | bool b => exact .bool b
  | integer => exact .integer _
  | string s =>
    simp only [Json.accepted, Bool.and_eq_true] at h
    exact .string h.1
  | array _ ih =>
    simp only [Json.accepted_array, List.all_eq_true] at h
    exact .array fun v hv ↦ ih v hv (h v hv)
  | object _ _ ih =>
    simp only [Json.accepted_object, List.all_eq_true, Json.memberAccepted_iff] at h
    exact .object (fun m hm ↦ (h m hm).1.1) fun m hm ↦ ih m hm (h m hm).2

namespace ApiImpl

variable {M : ℕ}

/-! ## The reply, read back -/

theorem cString_dumpCompact {members : List (Bytes × Json)}
    (hv : Writable maxDepth (.object members)) (pad : Bytes) :
    cString (dumpCompact (.object members) ++ 0 :: pad) = dumpCompact (.object members) :=
  cString_append_nul ⟨_, zero_not_mem_dumpCompact hv⟩ pad

/-- `json_loads`, given the buffer as a C string, reads the reply back whatever follows its
terminator when it is accepted under the flags, and fails on it when not. -/
theorem jsonLoads_reply {members : List (Bytes × Json)} (hv : Writable maxDepth (.object members))
    (pad : Bytes) (flags : ℕ) :
    (jsonLoads (cString (dumpCompact (.object members) ++ 0 :: pad)) flags).toOption =
      if (Json.object members).accepted (flags.testBit 4) then
        some ((Json.object members).decoded (flags.testBit 3))
      else none := by
  rw [cString_dumpCompact hv]
  exact parseJson_dumpCompact hv

/-- `CheckCommonApiResponse` reports success only with the plain `kSuccess`. -/
theorem checkCommonApiResponse_of_success {response : CommandBuffer M} {pastEnd : Bytes}
    (h : (checkCommonApiResponse response pastEnd).1.code = .kSuccess) :
    (checkCommonApiResponse response pastEnd).1 = getError .kSuccess .none := by
  revert h
  dsimp only [checkCommonApiResponse]
  split
  · simp
  · split
    · simp
    · simp
    · split_ifs <;> simp

section Reply

variable {response : CommandBuffer M} {reply : List (Bytes × Json)} {pad : Bytes}

/-- The check of a reply that is accepted: it decodes the `ErrorCode` as a real when bit 3 of the
length is set, and otherwise compares its low 32 bits with `kCmdOk`. -/
theorem checkCommonApiResponse_of_accepted (hv : Writable maxDepth (.object reply))
    (hdata : response.data = dumpCompact (.object reply) ++ 0 :: pad)
    (hacc : (Json.object reply).accepted (response.size.testBit 4) = true) {e : ℤ} {message : Json}
    (herr : reply.lookup kErrorCode = some (.integer e))
    (hmsg : reply.lookup kMessage = some message) (pastEnd : Bytes) :
    checkCommonApiResponse response pastEnd =
      (if response.size.testBit 3 then
          getError .kJsonDecodingError
            (.json (.text (ascii "error code in response JSON is not valid"))
              (dumpCompact (.object reply)))
        else if e % 4294967296 = 0 then getError .kSuccess .none
        else getError .kApiError
          (.json (.api (BitVec.ofInt 32 e) message.stringValue) (dumpCompact (.object reply))),
        some ((Json.object reply).decoded (response.size.testBit 3))) := by
  have hload := jsonLoads_reply hv pad response.size
  rw [if_pos hacc, toOption_eq_some, cString_dumpCompact hv] at hload
  have hget : ∀ k (v : Json), reply.lookup k = some v →
      ((Json.object reply).decoded (response.size.testBit 3)).objectGet k =
        some (v.decoded (response.size.testBit 3)) := by
    intro k v h
    rw [objectGet_decoded, h, Option.map_some']
  rw [checkCommonApiResponse_of_mem (by simp [hdata]) pastEnd]
  simp only [checkCommonApiResponse, List.append_nil, hdata, cString_dumpCompact hv, hload,
    hget _ _ herr, hget _ _ hmsg]
  cases response.size.testBit 3
  · simp only [Json.decoded, Json.isInteger, Json.integerValue, Json.stringValue_decoded,
      Bool.not_true, Bool.false_eq_true, if_false, bne_iff_ne, ne_eq, ← ofInt_eq_kCmdOk_iff]
    split_ifs <;> rfl
  · rfl

/-- The check of a reply that is not accepted fails to decode it and keeps nothing. -/
theorem checkCommonApiResponse_of_not_accepted (hv : Writable maxDepth (.object reply))
    (hdata : response.data = dumpCompact (.object reply) ++ 0 :: pad)
    (hacc : (Json.object reply).accepted (response.size.testBit 4) = false) (pastEnd : Bytes) :
    ∃ err, checkCommonApiResponse response pastEnd =
      (getError .kJsonDecodingError (.json (.decode err) (dumpCompact (.object reply))), none) := by
  have hload := jsonLoads_reply hv pad response.size
  rw [if_neg (Bool.eq_false_iff.mp hacc), toOption_eq_none, cString_dumpCompact hv] at hload
  obtain ⟨err, hload⟩ := hload
  refine ⟨err, ?_⟩
  rw [checkCommonApiResponse_of_mem (by simp [hdata]) pastEnd]
  simp only [checkCommonApiResponse, List.append_nil, hdata, cString_dumpCompact hv, hload]

end Reply

/-- A reply that holds a string or a key that is not valid UTF-8, a raw file name say, makes the
check fail with `kJsonDecodingError` and keep nothing, whatever the flags. -/
theorem checkCommonApiResponse_rejects_invalid_utf8 (response : CommandBuffer M)
    (reply : List (Bytes × Json)) (pad pastEnd : Bytes) (hv : Writable maxDepth (.object reply))
    (hdata : response.data = dumpCompact (.object reply) ++ 0 :: pad)
    (hbad : ¬(Json.object reply).ValidUtf8) :
    ∃ err, checkCommonApiResponse response pastEnd =
      (getError .kJsonDecodingError (.json (.decode err) (dumpCompact (.object reply))), none) :=
  checkCommonApiResponse_of_not_accepted hv hdata
    (Bool.eq_false_iff.mpr fun h ↦ hbad (hv.validUtf8 h)) pastEnd

/-- A successful reply that lists one file under the overlong form of a slash, written raw. -/
def overlongNameReply : List (Bytes × Json) :=
  [(kErrorCode, .integer 0), (kMessage, .string []),
    (kAccessList, .object [([0xC0, 0xAF], .bool true)])]

def overlongNameResponse : CommandBuffer 64 :=
  ⟨dumpCompact (.object overlongNameReply) ++ [0], by decide⟩

theorem checkCommonApiResponse_rejects_invalid_utf8_overlongName :
    Writable maxDepth (.object overlongNameReply) ∧
      overlongNameResponse.data = dumpCompact (.object overlongNameReply) ++ 0 :: [] ∧
      ¬(Json.object overlongNameReply).ValidUtf8 ∧
      ∃ err, checkCommonApiResponse overlongNameResponse [] =
        (getError .kJsonDecodingError
          (.json (.decode err) (dumpCompact (.object overlongNameReply))), none) :=
  have hv : Writable maxDepth (.object overlongNameReply) := by
    refine .object (by decide) fun m hm ↦ ?_
    simp only [overlongNameReply, List.mem_cons, List.mem_singleton, List.not_mem_nil,
      or_false] at hm
    rcases hm with rfl | rfl | rfl
    · exact .integer (by decide) (by decide)
    · exact .string _
    · exact .object (by decide) fun m hm ↦ by rw [List.mem_singleton.mp hm]; exact .bool _
  have hbad : ¬(Json.object overlongNameReply).ValidUtf8 := fun h ↦ by
    have hlist := h.objectGet (show (Json.object overlongNameReply).objectGet kAccessList =
      some (.object [([0xC0, 0xAF], .bool true)]) from rfl)
    cases hlist with
    | object hkeys _ => exact absurd (hkeys _ (.head _)) (by decide)
  ⟨hv, rfl, hbad,
    checkCommonApiResponse_rejects_invalid_utf8 overlongNameResponse overlongNameReply [] [] hv rfl
      hbad⟩

/-! ## The reply to a request -/

/-- `SendJson` from the state the spec expects, on a host without faults whose reply fits the
buffer: it writes its command, keeps the state clear, and returns what the check of the reply
returns. -/
theorem sendJson_of_faultFree (host : Host) (api : ApiImpl) (request : List (Bytes × Json))
    (hpath : api.path ≠ []) (hff : FaultFree host api.path) (hclear : StateClear api)
    (hhook : api.sendTestHook = none)
    (hfit : (host.respond ((CommandBuffer.empty M).copyString (jsonDumps request)).2.data).length ≤ M) :
    ∃ (file : FStream) (response : CommandBuffer M),
      sendJson M host api request = ((checkCommonApiResponse response host.pastEnd).1,
        { api with file := file }, (checkCommonApiResponse response host.pastEnd).2) ∧
      response.data = host.respond ((CommandBuffer.empty M).copyString (jsonDumps request)).2.data ∧
      StateClear { api with file := file } ∧
      file.file.received =
        ((CommandBuffer.empty M).copyString (jsonDumps request)).2.data :: api.file.file.received := by
  obtain ⟨file, response, hsend, hdata, -, hgood, hfile⟩ :=
    sendCommand_of_faultFree host api _ (CommandBuffer.empty M) hpath hff hclear hhook hfit
  refine ⟨file, response, ?_, hdata, fun _ ↦ hgood, by rw [hfile]⟩
  have hsuccess := @checkCommonApiResponse_of_success M response host.pastEnd
  rcases hcheck : checkCommonApiResponse response host.pastEnd with ⟨err, context⟩
  rw [hcheck] at hsuccess
  dsimp only at hsuccess
  unfold sendJson
  dsimp only
  rw [hsend]
  dsimp only
  rw [if_neg (by simp), hcheck]
  dsimp only
  split_ifs with h
  · rfl
  · rw [hsuccess (by simpa using h)]

/-- The `AccessList` of a reply that is accepted has unique keys with no NUL byte. -/
theorem accessList_members {reply accessList : List (Bytes × Json)}
    (hv : Writable maxDepth (.object reply)) {allowNul : Bool}
    (hacc : (Json.object reply).accepted allowNul = true)
    (hlist : reply.lookup kAccessList = some (.object accessList)) :
    (accessList.map Prod.fst).Nodup ∧ ∀ m ∈ accessList, 0 ∉ m.1 := by
  obtain ⟨hkeys, hvalues⟩ := hv.object_members
  have hmem := (lookup_eq_some_iff_mem _ hkeys).mp hlist
  rw [Json.accepted_object, List.all_eq_true] at hacc
  have hinner : (Json.object accessList).accepted allowNul = true :=
    ((Json.memberAccepted_iff _ _).mp (hacc _ hmem)).2
  rw [Json.accepted_object, List.all_eq_true] at hinner
  exact ⟨(hvalues _ hmem).object_members.1,
    fun m hm ↦ ((Json.memberAccepted_iff _ _).mp (hinner m hm)).1.2⟩

/-- The map `PrepareAccessedListResponse` builds from a reply read back without
`JSON_DECODE_INT_AS_REAL`: the boolean members of its `AccessList`, in the order they were
written. -/
theorem prepareAccessedListResponse_reply {reply accessList : List (Bytes × Json)}
    (hv : Writable maxDepth (.object reply)) {allowNul : Bool}
    (hacc : (Json.object reply).accepted allowNul = true)
    (hlist : reply.lookup kAccessList = some (.object accessList)) :
    prepareAccessedListResponse (some ((Json.object reply).decoded false)) [] =
      (getError .kSuccess .none, (accessList.filter (·.2.isBoolean)).map fun m ↦ (m.1, m.2.isTrue)) := by
  obtain ⟨hkeys', hkey'⟩ := accessList_members hv hacc hlist
  have hfold := foldl_addAccessed (accessList.map fun m ↦ (m.1, m.2.decoded false))
    (by rw [List.map_map]; exact hkeys')
    (by
      intro m hm
      obtain ⟨m', hm', rfl⟩ := List.mem_map.mp hm
      exact hkey' m' hm')
    [] (by simp)
  simp only [prepareAccessedListResponse, Option.some_bind]
  rw [objectGet_decoded, hlist, Option.map_some', decoded_object]
  simp only [Json.objectItems, hfold, List.nil_append, List.filter_map, List.map_map,
    Function.comp_def, Json.isBoolean_decoded, Json.isTrue_decoded]

/-- For a workspace name that passes `CheckWorkspacePathValid`: a name that is not the UTF-8
encoding of Unicode scalar values makes `GetAccessed` fail with `kJsonEncodingError`, print
nothing and keep the handle; any other name is sent. -/
theorem getAccessed_packs_scalars (kCmdGetAccessed : ℤ) (host : Host) (api : ApiImpl)
    (workspaceRoot : CStr) (hvalid : (checkWorkspacePathValid workspaceRoot).code = .kSuccess) :
    ((¬∃ cps : List ℕ, (∀ cp ∈ cps, IsScalar cp) ∧ workspaceRoot.bytes = cps.flatMap utf8Encode) →
      getAccessed M kCmdGetAccessed host api workspaceRoot =
        (getError .kJsonEncodingError (.text (ascii "Invalid UTF-8 string")), api, [])) ∧
    ((∃ cps : List ℕ, (∀ cp ∈ cps, IsScalar cp) ∧ workspaceRoot.bytes = cps.flatMap utf8Encode) →
      (getAccessed M kCmdGetAccessed host api workspaceRoot).2.1 =
        (api.sendJson M host (getAccessedRequest kCmdGetAccessed workspaceRoot)).2.1) := by
  constructor
  · intro hnot
    have hutf8 : utf8CheckString workspaceRoot.bytes = false :=
      Bool.eq_false_iff.mpr fun h ↦ hnot ((utf8CheckString_iff _).mp h)
    unfold getAccessed
    dsimp only
    rw [if_neg (by simp [hvalid]), packGetAccessed_of_not_utf8 _ hutf8]
  · intro hscalars
    rw [getAccessed_snd_eq, if_pos ⟨hvalid, (utf8CheckString_iff _).mpr hscalars⟩]

/-- A workspace name with two slashes that ends in the overlong form of a slash. -/
def overlongSlashRoot : CStr := ⟨ascii "a/b/" ++ [0xC0, 0xAF], by decide⟩

theorem getAccessed_packs_scalars_overlongSlash :
    (checkWorkspacePathValid overlongSlashRoot).code = .kSuccess ∧
      getAccessed 4 3 quietHost openHandle overlongSlashRoot =
        (getError .kJsonEncodingError (.text (ascii "Invalid UTF-8 string")), openHandle, []) :=
  ⟨by decide, (getAccessed_packs_scalars (M := 4) 3 quietHost openHandle overlongSlashRoot
    (by decide)).1 fun h ↦ absurd ((utf8CheckString_iff _).mpr h) (by decide)⟩

/-! ## What `GetAccessed` prints -/

theorem checkCommonApiResponse_validUtf8 {response : CommandBuffer M} {pastEnd : Bytes}
    {json : Json} (h : (checkCommonApiResponse response pastEnd).2 = some json) : json.ValidUtf8 := by
  rcases hload : jsonLoads (cString (response.data ++ pastEnd)) response.size with e | j
  · simp [checkCommonApiResponse, hload] at h
  · obtain rfl : j = json := by simpa [checkCommonApiResponse, hload] using h
    exact parseJson_validUtf8 hload

theorem sendJson_validUtf8 {host : Host} {api : ApiImpl} {request : List (Bytes × Json)}
    {json : Json} (h : (api.sendJson M host request).2.2 = some json) : json.ValidUtf8 := by
  unfold sendJson at h
  dsimp only at h
  split_ifs at h <;> exact checkCommonApiResponse_validUtf8 h

/-- The map keeps the keys it is given, made C strings. -/
theorem foldl_addAccessed_keys (P : Bytes → Prop) :
    ∀ (items : List (Bytes × Json)) (accessed : List (Bytes × Bool)),
      (∀ kv ∈ accessed, P kv.1) → (∀ m ∈ items, P (cString m.1)) →
        ∀ kv ∈ items.foldl addAccessed accessed, P kv.1
  | [], _, hacc, _ => hacc
  | m :: items, accessed, hacc, hitems => by
    refine foldl_addAccessed_keys P items _ ?_ fun m' hm' ↦ hitems m' (.tail _ hm')
    intro kv hkv
    unfold addAccessed at hkv
    split_ifs at hkv
    · rcases mem_assocSet_of_mem hkv with rfl | hkv
      exacts [hitems m (.head _), hacc kv hkv]
    · exact hacc kv hkv

theorem prepareAccessedListResponse_keys {context : Option Json}
    (hcontext : ∀ json, context = some json → json.ValidUtf8) :
    ∀ kv ∈ (prepareAccessedListResponse context []).2, utf8CheckString kv.1 = true := by
  unfold prepareAccessedListResponse
  split
  · simp
  · rename_i accessList haccess
    obtain ⟨json, hjson, hget⟩ := Option.bind_eq_some.mp haccess
    have hvalid := (hcontext json hjson).objectGet hget
    exact foldl_addAccessed_keys (utf8CheckString · = true) _ _ (by simp)
      fun m hm ↦ utf8CheckString_cString (hvalid.objectItems m hm)

theorem utf8CheckString_formatAccessedList (order : IterationOrder) {accessed : List (Bytes × Bool)}
    (h : ∀ kv ∈ accessed, utf8CheckString kv.1 = true) :
    utf8CheckString (formatAccessedList order accessed) = true := by
  have hlines : ∀ p : Bytes × Bool → Bool,
      utf8CheckString ((((order.visit accessed).filter p).map (·.1)).map
        (· ++ ascii "\n")).flatten = true := by
    intro p
    refine utf8CheckString_flatten _ fun line hline ↦ ?_
    obtain ⟨k, hk, rfl⟩ := List.mem_map.mp hline
    obtain ⟨kv, hkv, rfl⟩ := List.mem_map.mp hk
    exact utf8CheckString_append
      (h kv ((order.perm accessed).subset (List.mem_filter.mp hkv).1)) (by decide)
  rw [formatAccessedList_eq]
  exact utf8CheckString_append (utf8CheckString_append (utf8CheckString_append (by decide)
    (hlines _)) (by decide)) (hlines _)

/-- Whatever the daemon writes, on any host and from any handle, the text `GetAccessed` prints
passes `utf8_check_string`: its file names are keys `json_loads` read, cut at their first NUL
byte, and the rest is ASCII. -/
theorem getAccessed_prints_utf8 (kCmdGetAccessed : ℤ) (host : Host) (api : ApiImpl)
    (workspaceRoot : CStr) :
    utf8CheckString (getAccessed M kCmdGetAccessed host api workspaceRoot).2.2 = true := by
  unfold getAccessed
  dsimp only
  split_ifs
  · rfl
  split
  · rfl
  rename_i request _
  have hcontext : ∀ json, (api.sendJson M host request).2.2 = some json → json.ValidUtf8 :=
    fun _ ↦ sendJson_validUtf8
  generalize api.sendJson M host request = r at hcontext ⊢
  obtain ⟨err, api', context⟩ := r
  have hkeys := prepareAccessedListResponse_keys hcontext
  generalize prepareAccessedListResponse context [] = p at hkeys ⊢
  obtain ⟨err', accessed⟩ := p
  dsimp only
  split_ifs
  · rfl
  · rfl
  · exact utf8CheckString_cString (utf8CheckString_formatAccessedList _ hkeys)

/-- `GetAccessed` on a host without faults whose compact reply fits the buffer: it succeeds
exactly when the reply is accepted, bit 3 of its length is clear and `2 ^ 32` divides its code,
and then prints the `AccessList`. -/
theorem getAccessed_of_reply (kCmdGetAccessed : ℤ) (host : Host) (api : ApiImpl)
    (workspaceRoot : CStr) (hvalid : (checkWorkspacePathValid workspaceRoot).code = .kSuccess)
    (hutf8 : utf8CheckString workspaceRoot.bytes = true) (hpath : api.path ≠ [])
    (hff : FaultFree host api.path) (hclear : StateClear api) (hhook : api.sendTestHook = none)
    (hrequest : (jsonDumps (getAccessedRequest kCmdGetAccessed workspaceRoot)).bytes.length + 1 ≤ M)
    (reply : List (Bytes × Json)) (pad : Bytes) (hv : Writable maxDepth (.object reply))
    (hrespond : host.respond ((jsonDumps (getAccessedRequest kCmdGetAccessed workspaceRoot)).bytes ++
      [0]) = dumpCompact (.object reply) ++ 0 :: pad)
    (hfit : (dumpCompact (.object reply) ++ 0 :: pad).length ≤ M) {e : ℤ} {message : Json}
    {accessList : List (Bytes × Json)} (herr : reply.lookup kErrorCode = some (.integer e))
    (hmsg : reply.lookup kMessage = some message)
    (hlist : reply.lookup kAccessList = some (.object accessList)) :
    ((getAccessed M kCmdGetAccessed host api workspaceRoot).1.code,
        (getAccessed M kCmdGetAccessed host api workspaceRoot).2.2) =
      if (Json.object reply).accepted ((dumpCompact (.object reply) ++ 0 :: pad).length.testBit 4) &&
          !(dumpCompact (.object reply) ++ 0 :: pad).length.testBit 3 then
        if e % 4294967296 = 0 then
          (.kSuccess, formatAccessedList host.mapOrder
            ((accessList.filter (·.2.isBoolean)).map fun m ↦ (m.1, m.2.isTrue)))
        else (.kApiError, [])
      else (.kJsonDecodingError, []) := by
  have hcommand : ((CommandBuffer.empty M).copyString
      (jsonDumps (getAccessedRequest kCmdGetAccessed workspaceRoot))).2.data =
        (jsonDumps (getAccessedRequest kCmdGetAccessed workspaceRoot)).bytes ++ [0] := by
    rw [CommandBuffer.copyString_data, if_pos hrequest]
  obtain ⟨file, response, hsend, hdata, -, -⟩ := sendJson_of_faultFree host api
    (getAccessedRequest kCmdGetAccessed workspaceRoot) hpath hff hclear hhook
    (by rw [hcommand, hrespond]; exact hfit)
  rw [hcommand, hrespond] at hdata
  have hsize : response.size = (dumpCompact (.object reply) ++ 0 :: pad).length :=
    congrArg List.length hdata
  unfold getAccessed
  dsimp only
  rw [hvalid, bne_self_eq_false, if_neg Bool.false_ne_true, packGetAccessed_of_utf8 _ hutf8]
  dsimp only
  rw [hsend]
  cases hacc : (Json.object reply).accepted ((dumpCompact (.object reply) ++ 0 :: pad).length.testBit 4)
  · obtain ⟨err, hcheck⟩ :=
      checkCommonApiResponse_of_not_accepted hv hdata (hsize ▸ hacc) host.pastEnd
    rw [hcheck]
    simp
  have hcheck := checkCommonApiResponse_of_accepted hv hdata (hsize ▸ hacc) herr hmsg host.pastEnd
  rw [hsize] at hcheck
  rw [hcheck]
  dsimp only
  have hnul : ∀ kv ∈ (accessList.filter (·.2.isBoolean)).map (fun m ↦ (m.1, m.2.isTrue)),
      0 ∉ kv.1 := by
    intro kv hkv
    obtain ⟨m, hm, rfl⟩ := List.mem_map.mp hkv
    exact (accessList_members hv hacc hlist).2 m (List.mem_filter.mp hm).1
  cases (dumpCompact (.object reply) ++ 0 :: pad).length.testBit 3
  · by_cases he : e % 4294967296 = 0
    · simp only [he, Bool.false_eq_true, Bool.not_false, Bool.and_self, if_true, if_false,
        getError_code, bne_self_eq_false, prepareAccessedListResponse_reply hv hacc hlist,
        cString_of_not_mem (zero_not_mem_formatAccessedList _ hnul)]
    · simp [he]
  · simp

/-- A successful reply whose `AccessList` is out of `strcmp` order and holds a non-boolean. Its
text is 76 bytes, so three bytes after the terminator keep bit 3 of the length clear. -/
def accessListReply : List (Bytes × Json) :=
  [(kErrorCode, .integer 0), (kMessage, .string []), (kAccessList, .object
    [(ascii "b.txt", .bool false), (ascii "c", .integer 1), (ascii "a.txt", .bool true)])]

/-- A workspace name with two slashes. -/
def workspaceABC : CStr := ⟨ascii "a/b/c", by decide⟩

theorem getAccessed_of_reply_accessListReply :
    ((checkWorkspacePathValid workspaceABC).code = .kSuccess ∧
      utf8CheckString workspaceABC.bytes = true ∧ openHandle.path ≠ [] ∧
      FaultFree (replyingHost (dumpCompact (.object accessListReply) ++ [0, 0, 0, 0]))
        openHandle.path ∧
      StateClear openHandle ∧ openHandle.sendTestHook = none ∧
      (jsonDumps (getAccessedRequest 3 workspaceABC)).bytes.length + 1 ≤ 128 ∧
      Writable maxDepth (.object accessListReply) ∧
      (dumpCompact (.object accessListReply) ++ [0, 0, 0, 0]).length ≤ 128 ∧
      accessListReply.lookup kErrorCode = some (.integer 0) ∧
      accessListReply.lookup kMessage = some (.string []) ∧
      accessListReply.lookup kAccessList = some (.object
        [(ascii "b.txt", .bool false), (ascii "c", .integer 1), (ascii "a.txt", .bool true)])) ∧
    ((getAccessed 128 3 (replyingHost (dumpCompact (.object accessListReply) ++ [0, 0, 0, 0]))
        openHandle workspaceABC).1.code,
      (getAccessed 128 3 (replyingHost (dumpCompact (.object accessListReply) ++ [0, 0, 0, 0]))
        openHandle workspaceABC).2.2) =
      (.kSuccess, ascii "------ Created Files ------\na.txt\n------ Accessed Files ------\nb.txt\n") :=
  have hv : Writable maxDepth (.object accessListReply) :=
    (show Encodable maxDepth (.object accessListReply) by decide).writable
  have hff : FaultFree (replyingHost (dumpCompact (.object accessListReply) ++ [0, 0, 0, 0]))
      openHandle.path := ⟨rfl, rfl, rfl, rfl, fun _ ↦ rfl⟩
  ⟨⟨by decide, by decide, by decide, hff, by decide, rfl, by decide, hv, by decide, rfl, rfl, rfl⟩,
    (getAccessed_of_reply 3 _ openHandle workspaceABC (by decide) (by decide) (by decide) hff
      (by decide) rfl (by decide) accessListReply [0, 0, 0] hv rfl (by decide) rfl rfl rfl).trans
      (by decide)⟩

end ApiImpl

end QfsClient
