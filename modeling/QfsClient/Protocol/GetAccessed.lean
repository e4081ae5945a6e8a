import QfsClient.Protocol.JsonApi
import QfsClient.Jansson.RoundTrip

/-!
# The GetAccessed command

`GetAccessed`, `PrepareAccessedListResponse` and `FormatAccessedList` of
`qfs_client_implementation.cc` (lines 393-485). `GetAccessed` checks the workspace name, sends
`{"CommandId": kCmdGetAccessed, "WorkspaceRoot": name}`, reads the `AccessList` object of the
response into a map from a file name to whether the file was created, and prints the created
files, then the files only accessed.

The value of `kCmdGetAccessed` is in a header that is not among the sources, so it is a
parameter. The `std::unordered_map<std::string, bool>` is a list of pairs with unique keys, in
the order they were added. C++ leaves the order of its iteration to the implementation, so
`FormatAccessedList` is given it (`IterationOrder`, a permutation of the map), and
`AccessedListing`, what the listing should be, does not depend on it.

`prepareAccessedListResponse_lists` is the main result: for every response that passes
`CheckCommonApiResponse` and has an `AccessList`, the map holds each boolean member once, and
in every iteration order the text lists exactly the created files, then exactly the accessed
ones. It rests on `jsonLoads_wellFormed`: a parsed object has unique keys without NUL bytes.
`getAccessed_prints_listing` follows `GetAccessed` on any host: when it succeeds, it prints the
listing of the daemon's reply to the request it wrote.
-/

namespace QfsClient

/-- `kAccessList`, modelled from the spec. -/
def kAccessList : Bytes := ascii "AccessList"

/-- `kCommandId`, modelled from the spec. -/
def kCommandId : CStr := ⟨ascii "CommandId", by decide⟩

/-- `kWorkspaceRoot`, modelled from the spec. -/
def kWorkspaceRoot : CStr := ⟨ascii "WorkspaceRoot", by decide⟩

/-- What the listing of an `AccessList` object should be: the map holds each boolean member once
and nothing else, and the text lists each created file once, then each file only accessed
once. -/
structure AccessedListing (accessList : Json) (accessed : List (Bytes × Bool)) (text : Bytes) :
    Prop where
  nodup : (accessed.map Prod.fst).Nodup
  mem_iff : ∀ k b, (k, b) ∈ accessed ↔ accessList.objectGet k = some (.bool b)
  format : ∃ created accessedOnly : List Bytes, created.Nodup ∧ accessedOnly.Nodup ∧
    (∀ k, k ∈ created ↔ accessList.objectGet k = some (.bool true)) ∧
    (∀ k, k ∈ accessedOnly ↔ accessList.objectGet k = some (.bool false)) ∧
    text = ascii "------ Created Files ------\n" ++ (created.map (· ++ ascii "\n")).flatten ++
      ascii "------ Accessed Files ------\n" ++ (accessedOnly.map (· ++ ascii "\n")).flatten

namespace ApiImpl

variable {M : ℕ}

/-- The body of the `json_object_foreach` loop: a boolean member is stored under its key, made
a `std::string` from the key's C string; any other member is skipped. -/
def addAccessed (accessed : List (Bytes × Bool)) (member : Bytes × Json) : List (Bytes × Bool) :=
  if member.2.isBoolean then assocSet accessed (cString member.1) member.2.isTrue else accessed

/-- `ApiImpl::PrepareAccessedListResponse`, from the value the context holds and the map it is
given. -/
def prepareAccessedListResponse (context : Option Json) (accessedList : List (Bytes × Bool)) :
    Error × List (Bytes × Bool) :=
  match context.bind (·.objectGet kAccessList) with
  | none => (getError .kMissingJsonObject (.text (ascii "AccessList")), accessedList)
  | some accessedListJson =>
    (getError .kSuccess .none, accessedListJson.objectItems.foldl addAccessed accessedList)

/-- `ApiImpl::FormatAccessedList`: both loops iterate over the map in the order `order` gives. -/
def formatAccessedList (order : IterationOrder) (accessed : List (Bytes × Bool)) : Bytes :=
  let result := ascii "------ Created Files ------\n"
  let result := (order.visit accessed).foldl
    (fun result kv ↦ if kv.2 then result ++ kv.1 ++ ascii "\n" else result) result
  let result := result ++ ascii "------ Accessed Files ------\n"
  (order.visit accessed).foldl
    (fun result kv ↦ if !kv.2 then result ++ kv.1 ++ ascii "\n" else result) result

/-- `ApiImpl::GetAccessed`: the error, the handle, and what it prints. -/
def getAccessed (M : ℕ) (kCmdGetAccessed : ℤ) (host : Host) (api : ApiImpl) (workspaceRoot : CStr) :
    Error × ApiImpl × Bytes :=
  let err := checkWorkspacePathValid workspaceRoot
  if err.code != .kSuccess then (err, api, [])
  else
    match packGetAccessed kCommandId kCmdGetAccessed kWorkspaceRoot workspaceRoot with
    | .error text => (getError .kJsonEncodingError (.text text), api, [])
    | .ok request =>
      let (err, api, context) := api.sendJson M host request
      if err.code != .kSuccess then (err, api, [])
      else
        let (err, accessed) := prepareAccessedListResponse context []
        if err.code != .kSuccess then (err, api, [])
        else (getError .kSuccess .none, api, cString (formatAccessedList host.mapOrder accessed))

/-- `GetAccessed` leaves the handle as it was, or as `SendJson` of its request leaves it. -/
theorem getAccessed_snd (kCmdGetAccessed : ℤ) (host : Host) (api : ApiImpl) (workspaceRoot : CStr) :
    (getAccessed M kCmdGetAccessed host api workspaceRoot).2.1 = api ∨
      ∃ request, (getAccessed M kCmdGetAccessed host api workspaceRoot).2.1 =
        (api.sendJson M host request).2.1 := by
  dsimp only [getAccessed]
  split_ifs
  · exact .inl rfl
  · split
    · exact .inl rfl
    · rename_i request _
      rcases hsend : api.sendJson M host request with ⟨err, api', context⟩
      rcases hprep : prepareAccessedListResponse context [] with ⟨err', accessed⟩
      simp only [hprep]
      refine .inr ⟨request, ?_⟩
      split_ifs <;> simp [hsend]

/-! ## The map and the text -/

/-- Over members with unique keys that are not yet in the map, the loop appends the boolean
members in order. -/
theorem foldl_addAccessed (items : List (Bytes × Json)) (hnodup : (items.map Prod.fst).Nodup)
    (hkeys : ∀ m ∈ items, 0 ∉ m.1) :
    ∀ accessed : List (Bytes × Bool), (∀ m ∈ items, m.1 ∉ accessed.map Prod.fst) →
      items.foldl addAccessed accessed =
        accessed ++ (items.filter (·.2.isBoolean)).map fun m ↦ (m.1, m.2.isTrue) := by
  induction items with
  | nil => simp
  | cons m items ih =>
    intro accessed hfresh
    rw [List.map_cons, List.nodup_cons] at hnodup
    have hfresh' : ∀ m' ∈ items, m'.1 ∉ (addAccessed accessed m).map Prod.fst := by
      intro m' hm' hmem
      unfold addAccessed at hmem
      split_ifs at hmem
      · rw [mem_keys_assocSet, cString_of_not_mem (hkeys m (.head _))] at hmem
        rcases hmem with heq | hmem
        · exact hnodup.1 (heq ▸ List.mem_map_of_mem Prod.fst hm')
        · exact hfresh m' (.tail _ hm') hmem
      · exact hfresh m' (.tail _ hm') hmem
    rw [List.foldl_cons, ih hnodup.2 (fun m' hm' ↦ hkeys m' (.tail _ hm')) _ hfresh', addAccessed]
    split_ifs with hb
    · rw [cString_of_not_mem (hkeys m (.head _)), assocSet_of_not_mem _ _ _ (hfresh m (.head _))]
      simp [hb]
    · simp [hb]

/-- A loop that appends the pieces of the entries that pass a test. -/
theorem foldl_append_if {α : Type} (p : α → Bool) (f : α → Bytes) :
    ∀ (l : List α) (init : Bytes),
      l.foldl (fun result a ↦ if p a then result ++ f a else result) init =
        init ++ ((l.filter p).map f).flatten
  | [], init => by simp
  | a :: l, init => by
    by_cases h : p a <;> simp [h, foldl_append_if p f l]

theorem formatAccessedList_eq (order : IterationOrder) (accessed : List (Bytes × Bool)) :
    formatAccessedList order accessed =
      ascii "------ Created Files ------\n" ++
        ((((order.visit accessed).filter (·.2)).map (·.1)).map (· ++ ascii "\n")).flatten ++
        ascii "------ Accessed Files ------\n" ++
        ((((order.visit accessed).filter (!·.2)).map (·.1)).map (· ++ ascii "\n")).flatten := by
  simp only [formatAccessedList, List.append_assoc]
  rw [foldl_append_if (fun kv : Bytes × Bool ↦ !kv.2) (fun kv ↦ kv.1 ++ ascii "\n"),
    foldl_append_if (fun kv : Bytes × Bool ↦ kv.2) (fun kv ↦ kv.1 ++ ascii "\n")]
  simp [List.map_map, Function.comp_def]

/-- For a well-formed response with an `AccessList` member, the map and the text are the
listing of the `AccessList`, in every iteration order. -/
theorem prepareAccessedListResponse_listing (json accessList : Json) (hwf : json.WellFormed)
    (hget : json.objectGet kAccessList = some accessList) (order : IterationOrder) :
    (prepareAccessedListResponse (some json) []).1.code = .kSuccess ∧
      AccessedListing accessList (prepareAccessedListResponse (some json) []).2
        (formatAccessedList order (prepareAccessedListResponse (some json) []).2) := by
  obtain ⟨hnodup, hkeys⟩ := (hwf.objectGet hget).objectItems
  have hmap := foldl_addAccessed accessList.objectItems hnodup hkeys [] (by simp)
  simp only [prepareAccessedListResponse, Option.some_bind, hget, List.nil_append] at hmap ⊢
  rw [hmap]
  have hmem : ∀ k b, (k, b) ∈ (accessList.objectItems.filter (·.2.isBoolean)).map
      (fun m ↦ (m.1, m.2.isTrue)) ↔ accessList.objectGet k = some (.bool b) := by
    intro k b
    rw [Json.objectGet_eq_lookup, lookup_eq_some_iff_mem _ hnodup]
    constructor
    · intro h
      obtain ⟨⟨k', v⟩, hv, he⟩ := List.mem_map.mp h
      obtain ⟨hv, hbool⟩ := List.mem_filter.mp hv
      obtain ⟨rfl, rfl⟩ := Prod.mk.inj he
      exact Json.eq_bool_of_isBoolean hbool ▸ hv
    · intro hv
      exact List.mem_map.mpr ⟨(k, .bool b), List.mem_filter.mpr ⟨hv, rfl⟩, rfl⟩
  have hkeysNodup : (((accessList.objectItems.filter (·.2.isBoolean)).map
      (fun m ↦ (m.1, m.2.isTrue))).map Prod.fst).Nodup := by
    rw [List.map_map]
    exact hnodup.sublist ((List.filter_sublist _).map _)
  -- the loops visit a permutation of the map
  have hperm := order.perm ((accessList.objectItems.filter (·.2.isBoolean)).map
    fun m ↦ (m.1, m.2.isTrue))
  have hvisit := (hperm.map Prod.fst).nodup_iff.mpr hkeysNodup
  refine ⟨rfl, hkeysNodup, hmem, _, _, ?_, ?_, fun k ↦ ?_, fun k ↦ ?_, formatAccessedList_eq _ _⟩
  · exact hvisit.sublist ((List.filter_sublist _).map _)
  · exact hvisit.sublist ((List.filter_sublist _).map _)
  · rw [← hmem k true, ← hperm.mem_iff]
    simp
  · rw [← hmem k false, ← hperm.mem_iff]
    simp

/-- For every response that passes `CheckCommonApiResponse` and has an `AccessList` member,
`PrepareAccessedListResponse` from an empty map succeeds, and the map, and the text
`FormatAccessedList` makes of it in any iteration order, are the listing of the `AccessList`. -/
theorem prepareAccessedListResponse_lists (response : CommandBuffer M) (pastEnd : Bytes)
    (order : IterationOrder) (accessList : Json)
    (hok : (checkCommonApiResponse response pastEnd).1.code = .kSuccess)
    (hlist : (checkCommonApiResponse response pastEnd).2.bind (·.objectGet kAccessList) =
      some accessList) :
    (prepareAccessedListResponse (checkCommonApiResponse response pastEnd).2 []).1.code = .kSuccess ∧
      AccessedListing accessList (prepareAccessedListResponse (checkCommonApiResponse response pastEnd).2 []).2
        (formatAccessedList order
          (prepareAccessedListResponse (checkCommonApiResponse response pastEnd).2 []).2) := by
  obtain ⟨json, hload, hcontext⟩ := checkCommonApiResponse_success hok
  rw [hcontext] at hlist ⊢
  exact prepareAccessedListResponse_listing json accessList (jsonLoads_wellFormed hload)
    (by simpa using hlist) order

/-- The response of the spec's example, with its terminator. -/
def accessListResponse : CommandBuffer 71 :=
  ⟨ascii ("\x7b\"ErrorCode\":0,\"Message\":\"\",\"AccessList\":" ++
    "\x7b\"a.txt\":true,\"b.txt\":false\x7d\x7d") ++ [0], by decide⟩

theorem prepareAccessedListResponse_lists_example :
    ((checkCommonApiResponse accessListResponse []).1.code = .kSuccess ∧
      (checkCommonApiResponse accessListResponse []).2.bind (·.objectGet kAccessList) =
        some (.object [(ascii "a.txt", .bool true), (ascii "b.txt", .bool false)])) ∧
    ((prepareAccessedListResponse (checkCommonApiResponse accessListResponse []).2 []).1.code =
        .kSuccess ∧
      AccessedListing (.object [(ascii "a.txt", .bool true), (ascii "b.txt", .bool false)])
        (prepareAccessedListResponse (checkCommonApiResponse accessListResponse []).2 []).2
        (formatAccessedList .added
          (prepareAccessedListResponse (checkCommonApiResponse accessListResponse []).2 []).2)) :=
  ⟨⟨by decide, rfl⟩, prepareAccessedListResponse_lists accessListResponse [] .added _ (by decide) rfl⟩

example : formatAccessedList .added
    (prepareAccessedListResponse (checkCommonApiResponse accessListResponse []).2 []).2 =
      ascii "------ Created Files ------\na.txt\n------ Accessed Files ------\nb.txt\n" := by
  decide

theorem zero_not_mem_lines {keys : List Bytes} (h : ∀ k ∈ keys, 0 ∉ k) :
    0 ∉ (keys.map (· ++ ascii "\n")).flatten := by
  intro hmem
  obtain ⟨line, hline, h0⟩ := List.mem_flatten.mp hmem
  obtain ⟨k, hk, rfl⟩ := List.mem_map.mp hline
  rcases List.mem_append.mp h0 with h' | h'
  · exact h k hk h'
  · exact absurd h' (by decide)

theorem zero_not_mem_formatAccessedList (order : IterationOrder) {accessed : List (Bytes × Bool)}
    (h : ∀ kv ∈ accessed, 0 ∉ kv.1) : 0 ∉ formatAccessedList order accessed := by
  have hk : ∀ p : Bytes × Bool → Bool, ∀ k ∈ ((order.visit accessed).filter p).map (·.1), 0 ∉ k := by
    intro p k hk
    obtain ⟨kv, hkv, rfl⟩ := List.mem_map.mp hk
    exact h kv ((order.perm accessed).subset (List.mem_filter.mp hkv).1)
  rw [formatAccessedList_eq]
  simp only [List.mem_append, not_or]
  exact ⟨⟨⟨by decide, zero_not_mem_lines (hk _)⟩, by decide⟩, zero_not_mem_lines (hk _)⟩

/-! ## The request -/

/-- The request `GetAccessed` packs: its command id, then the workspace name. -/
def getAccessedRequest (kCmdGetAccessed : ℤ) (workspaceRoot : CStr) : List (Bytes × Json) :=
  [(kCommandId.bytes, .integer kCmdGetAccessed), (kWorkspaceRoot.bytes, .string workspaceRoot.bytes)]

/-- `json_pack_ex` packs the request only when the workspace name is valid UTF-8. -/
theorem packGetAccessed_eq_ok {kCmdGetAccessed : ℤ} {workspaceRoot : CStr}
    {request : List (Bytes × Json)}
    (h : packGetAccessed kCommandId kCmdGetAccessed kWorkspaceRoot workspaceRoot = .ok request) :
    utf8CheckString workspaceRoot.bytes = true ∧
      request = getAccessedRequest kCmdGetAccessed workspaceRoot := by
  unfold packGetAccessed at h
  split_ifs at h with hkeys hroot
  cases h
  refine ⟨by simpa using hroot, ?_⟩
  simp [assocSet, getAccessedRequest, show kCommandId.bytes ≠ kWorkspaceRoot.bytes by decide]

theorem packGetAccessed_of_utf8 (kCmdGetAccessed : ℤ) {workspaceRoot : CStr}
    (hutf8 : utf8CheckString workspaceRoot.bytes = true) :
    packGetAccessed kCommandId kCmdGetAccessed kWorkspaceRoot workspaceRoot =
      .ok (getAccessedRequest kCmdGetAccessed workspaceRoot) := by
  have hkeys : utf8CheckString kCommandId.bytes = true ∧ utf8CheckString kWorkspaceRoot.bytes = true :=
    by decide
  simp [packGetAccessed, hkeys, hutf8, getAccessedRequest, assocSet,
    show kCommandId.bytes ≠ kWorkspaceRoot.bytes by decide]

theorem packGetAccessed_of_not_utf8 (kCmdGetAccessed : ℤ) {workspaceRoot : CStr}
    (hutf8 : utf8CheckString workspaceRoot.bytes = false) :
    packGetAccessed kCommandId kCmdGetAccessed kWorkspaceRoot workspaceRoot =
      .error (ascii "Invalid UTF-8 string") := by
  have hkeys : utf8CheckString kCommandId.bytes = true ∧ utf8CheckString kWorkspaceRoot.bytes = true :=
    by decide
  simp [packGetAccessed, hkeys, hutf8]

/-! ## What `GetAccessed` prints -/

/-- When `GetAccessed` succeeds, it prints the listing of the `AccessList` in the daemon's answer to
the request it wrote, an answer that passed `CheckCommonApiResponse`. -/
theorem getAccessed_prints_listing (kCmdGetAccessed : ℤ) (host : Host) (api : ApiImpl)
    (workspaceRoot : CStr)
    (hok : (getAccessed M kCmdGetAccessed host api workspaceRoot).1.code = .kSuccess) :
    ∃ (response : CommandBuffer M) (accessList : Json) (accessed : List (Bytes × Bool)),
      response.data = host.respond ((CommandBuffer.empty M).copyString
        (jsonDumps (getAccessedRequest kCmdGetAccessed workspaceRoot))).2.data ∧
      (checkCommonApiResponse response host.pastEnd).1.code = .kSuccess ∧
      (checkCommonApiResponse response host.pastEnd).2.bind (·.objectGet kAccessList) =
        some accessList ∧
      AccessedListing accessList accessed (getAccessed M kCmdGetAccessed host api workspaceRoot).2.2 := by
  revert hok
  dsimp only [getAccessed]
  split_ifs with hvalid
  · exact fun h ↦ absurd h (by simpa using hvalid)
  split
  · simp
  rename_i request hpack
  obtain ⟨-, rfl⟩ := packGetAccessed_eq_ok hpack
  rcases hsend : api.sendJson M host (getAccessedRequest kCmdGetAccessed workspaceRoot) with
    ⟨err, api', context⟩
  rcases hprep : prepareAccessedListResponse context [] with ⟨err', accessed⟩
  simp only
  split_ifs with h₁ h₂
  · exact fun h ↦ absurd h (by simpa using h₁)
  · exact fun h ↦ absurd h (by simpa using h₂)
  intro _
  obtain ⟨response, hdata, hcheck, hcontext⟩ := sendJson_success (by rw [hsend]; simpa using h₁)
  obtain ⟨json, hload, hjson⟩ := checkCommonApiResponse_success hcheck
  obtain rfl : context = some json := by simpa [hsend, hjson] using hcontext
  rcases hget : json.objectGet kAccessList with _ | accessList
  · simp [prepareAccessedListResponse, hget] at hprep
    simp [← hprep.1] at h₂
  have hwf := jsonLoads_wellFormed hload
  obtain ⟨-, hlisting⟩ := prepareAccessedListResponse_listing json accessList hwf hget host.mapOrder
  rw [hprep] at hlisting
  have hkeys : ∀ kv ∈ accessed, 0 ∉ kv.1 := by
    intro kv hkv
    obtain ⟨hnodup, hnul⟩ := (hwf.objectGet hget).objectItems
    have hmem := (hlisting.mem_iff kv.1 kv.2).mp hkv
    rw [Json.objectGet_eq_lookup, lookup_eq_some_iff_mem _ hnodup] at hmem
    exact hnul _ hmem
  refine ⟨response, accessList, accessed, hdata, hcheck, by rw [hjson]; simpa using hget, ?_⟩
  rwa [cString_of_not_mem (zero_not_mem_formatAccessedList _ hkeys)]

theorem getAccessed_prints_listing_example :
    (getAccessed 71 3 (replyingHost accessListResponse.data) openHandle
        ⟨ascii "a/b/c", by decide⟩).1.code = .kSuccess ∧
    ∃ (response : CommandBuffer 71) (accessList : Json) (accessed : List (Bytes × Bool)),
      response.data = (replyingHost accessListResponse.data).respond
        ((CommandBuffer.empty 71).copyString
          (jsonDumps (getAccessedRequest 3 ⟨ascii "a/b/c", by decide⟩))).2.data ∧
      (checkCommonApiResponse response (replyingHost accessListResponse.data).pastEnd).1.code =
        .kSuccess ∧
      (checkCommonApiResponse response (replyingHost accessListResponse.data).pastEnd).2.bind
        (·.objectGet kAccessList) = some accessList ∧
      AccessedListing accessList accessed
        (getAccessed 71 3 (replyingHost accessListResponse.data) openHandle
          ⟨ascii "a/b/c", by decide⟩).2.2 :=
  ⟨by decide, getAccessed_prints_listing 3 _ _ _ (by decide)⟩

/-! ## The request on the wire -/

/-- The request of `GetAccessed`, with a command id in the range of `json_int_t`, is an object
jansson encodes, with its keys already in `strcmp` order. -/
theorem encodable_getAccessedRequest {kCmdGetAccessed : ℤ}
    (hlo : -(Nat.pow 2 63 : ℤ) ≤ kCmdGetAccessed)
    (hhi : kCmdGetAccessed < Nat.pow 2 63) {workspaceRoot : CStr}
    (hutf8 : utf8CheckString workspaceRoot.bytes = true) :
    Encodable maxDepth (.object (getAccessedRequest kCmdGetAccessed workspaceRoot)) ∧
      (Json.object (getAccessedRequest kCmdGetAccessed workspaceRoot)).loaded false =
        .object (getAccessedRequest kCmdGetAccessed workspaceRoot) := by
  unfold getAccessedRequest
  have hkeys :
      ∀ key ∈ [kCommandId.bytes, kWorkspaceRoot.bytes], utf8CheckString key = true ∧ 0 ∉ key := by
    decide
  refine ⟨.object (show [kCommandId.bytes, kWorkspaceRoot.bytes].Nodup by decide)
    (fun m hm ↦ hkeys m.1 (List.mem_map_of_mem Prod.fst hm)) fun m hm ↦ ?_, ?_⟩
  · rcases List.mem_cons.mp hm with rfl | hm
    · exact .integer hlo hhi
    · rw [List.mem_singleton.mp hm]
      exact .string hutf8 workspaceRoot.no_nul
  · rw [loaded_object]
    simp [List.insertionSort, show kCommandId.bytes ≤ kWorkspaceRoot.bytes by decide, Json.loaded]

/-- `GetAccessed` leaves the handle as `SendJson` of its request leaves it when the workspace
name passes its checks, and as it was when not. -/
theorem getAccessed_snd_eq (kCmdGetAccessed : ℤ) (host : Host) (api : ApiImpl)
    (workspaceRoot : CStr) :
    (getAccessed M kCmdGetAccessed host api workspaceRoot).2.1 =
      if (checkWorkspacePathValid workspaceRoot).code = .kSuccess ∧
          utf8CheckString workspaceRoot.bytes = true then
        (api.sendJson M host (getAccessedRequest kCmdGetAccessed workspaceRoot)).2.1
      else api := by
  by_cases hutf8 : utf8CheckString workspaceRoot.bytes = true
  · dsimp only [getAccessed]
    split_ifs with h₁ h₂ h₂
    · exact absurd h₂.1 (by simpa using h₁)
    · rfl
    · rw [packGetAccessed_of_utf8 _ hutf8]
      dsimp only
      generalize api.sendJson M host (getAccessedRequest kCmdGetAccessed workspaceRoot) = r
      split_ifs <;> rfl
    · exact absurd ⟨by simpa using h₁, hutf8⟩ h₂
  · rw [if_neg fun h ↦ hutf8 h.2]
    dsimp only [getAccessed]
    split_ifs
    · rfl
    · rw [packGetAccessed_of_not_utf8 _ (Bool.eq_false_iff.mpr hutf8)]

/-- Every command `GetAccessed` writes, on any host and from any handle, is the request's text
when it fits the buffer, which `json_loads` reads back as the request, and empty when not; it
writes at most one. -/
theorem getAccessed_writes_request (kCmdGetAccessed : ℤ)
    (hlo : -(Nat.pow 2 63 : ℤ) ≤ kCmdGetAccessed)
    (hhi : kCmdGetAccessed < Nat.pow 2 63) (host : Host) (api : ApiImpl) (workspaceRoot : CStr) :
    (getAccessed M kCmdGetAccessed host api workspaceRoot).2.1.file.file.received =
        api.file.file.received ∨
      ∃ command, (getAccessed M kCmdGetAccessed host api workspaceRoot).2.1.file.file.received =
          command :: api.file.file.received ∧
        ((jsonDumps (getAccessedRequest kCmdGetAccessed workspaceRoot)).bytes.length + 1 ≤ M ∧
            jsonLoads (cString command) 0 =
              .ok (.object (getAccessedRequest kCmdGetAccessed workspaceRoot)) ∨
          M < (jsonDumps (getAccessedRequest kCmdGetAccessed workspaceRoot)).bytes.length + 1 ∧
            command = []) := by
  rw [getAccessed_snd_eq]
  split_ifs with hok
  · obtain ⟨hv, hloaded⟩ := encodable_getAccessedRequest hlo hhi hok.2
    have hloads : jsonLoads (jsonDumps (getAccessedRequest kCmdGetAccessed workspaceRoot)).bytes 0 =
        .ok (.object (getAccessedRequest kCmdGetAccessed workspaceRoot)) := by
      show parseJson _ (cString (dump _)) = _
      rw [cString_of_not_mem (zero_not_mem_dump hv), parseJson_dump_object hv]
      exact congrArg Except.ok hloaded
    refine (sendJson_received host api _).imp_right fun h ↦ ⟨_, h, ?_⟩
    split_ifs with hfit
    · exact .inl ⟨hfit, by rw [cString_append_nul]; exact hloads⟩
    · exact .inr ⟨by omega, rfl⟩
  · exact .inl rfl

theorem getAccessed_writes_request_example :
    -(Nat.pow 2 63 : ℤ) ≤ 3 ∧ (3 : ℤ) < Nat.pow 2 63 ∧
      ((getAccessed 71 3 (replyingHost accessListResponse.data) openHandle
          ⟨ascii "a/b/c", by decide⟩).2.1.file.file.received = openHandle.file.file.received ∨
        ∃ command, (getAccessed 71 3 (replyingHost accessListResponse.data) openHandle
            ⟨ascii "a/b/c", by decide⟩).2.1.file.file.received =
              command :: openHandle.file.file.received ∧
          ((jsonDumps (getAccessedRequest 3 ⟨ascii "a/b/c", by decide⟩)).bytes.length + 1 ≤ 71 ∧
              jsonLoads (cString command) 0 =
                .ok (.object (getAccessedRequest 3 ⟨ascii "a/b/c", by decide⟩)) ∨
            71 < (jsonDumps (getAccessedRequest 3 ⟨ascii "a/b/c", by decide⟩)).bytes.length + 1 ∧
              command = [])) :=
  ⟨by decide, by decide, getAccessed_writes_request 3 (by decide) (by decide) _ _ _⟩

end ApiImpl

end QfsClient
