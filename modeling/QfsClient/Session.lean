import QfsClient.Protocol.Exchange

/-!
# Runs of calls on one handle

A client holds one `ApiImpl` and makes calls on it: `Open`, `Close`, `SendCommand`, `SendJson`
and `GetAccessed`. `perform` is one call, against the host of that call; `run` is a run of
calls, each against its own host, which covers a file system and a daemon that change between
calls. What holds over every run is derived from what one call does.

`run_path_settles`: the member `path` is written only by `DeterminePath`, which `Open` calls on
a handle without a path. A path once set is never changed again, `DeterminePath` records only
paths that start with `/`, and when it fails it leaves the handle as it was.

The state flags of the stream are cleared only when `ReadResponse` succeeds. On hosts without
faults and with replies that fit the buffer, every call keeps them clear and every
`SendCommand` gets the reply to its own command (`run_exchanges`). A reply too long for the
buffer leaves `eofbit` and `failbit` set on the open stream, and every later `SendCommand` of
the handle fails at its seek (`run_stuck_after_overflow`), until `Close` and `Open`, which
clear them (`close_openApi_clears`). In general, from a handle whose open stream has failed,
every run of calls without `Close` leaves the handle as it is and writes nothing
(`run_of_failed`).

`run_delivers` extends `run_exchanges` to calls of every kind: on hosts without faults whose
replies fit the buffer, the state stays clear over every run, and the daemon receives exactly
the commands of the calls, in order, none lost and none written twice.
-/

namespace QfsClient

/-- A call on the handle, with its arguments. -/
inductive Call (M : ℕ)
  | «open»
  | close
  | sendCommand (command response : CommandBuffer M)
  | sendJson (request : List (Bytes × Json))
  | getAccessed (workspaceRoot : CStr)

/-- `Open`, `Close` and `SendCommand`: the calls that only exchange bytes with the api file. -/
def Call.isExchange {M : ℕ} : Call M → Bool
  | .open | .close | .sendCommand _ _ => true
  | _ => false

/-- The commands a call writes when every operation succeeds: `SendCommand` its command,
`SendJson` what `CopyString` makes of its request, and `GetAccessed` that of its request when
the name passes its checks. -/
def Call.sent {M : ℕ} (kCmdGetAccessed : ℤ) : Call M → List Bytes
  | .open | .close => []
  | .sendCommand command _ => [command.data]
  | .sendJson request => [((CommandBuffer.empty M).copyString (jsonDumps request)).2.data]
  | .getAccessed workspaceRoot =>
    if (ApiImpl.checkWorkspacePathValid workspaceRoot).code = .kSuccess ∧
        utf8CheckString workspaceRoot.bytes = true then
      [((CommandBuffer.empty M).copyString
        (jsonDumps (ApiImpl.getAccessedRequest kCmdGetAccessed workspaceRoot))).2.data]
    else []

namespace ApiImpl

variable {M : ℕ} (kCmdGetAccessed : ℤ)

/-- One call against the host of that call: the error it returns (`Close` returns none), the
handle after it, and the bytes it gives back: the response of `SendCommand`, and the text
`GetAccessed` prints. -/
def perform (host : Host) (api : ApiImpl) : Call M → Option Error × ApiImpl × Bytes
  | .open =>
    let r := api.openApi host
    (some r.1, r.2, [])
  | .close => (none, api.close, [])
  | .sendCommand command response =>
    let r := api.sendCommand host command response
    (some r.1, r.2.1, r.2.2.data)
  | .sendJson request =>
    let r := api.sendJson M host request
    (some r.1, r.2.1, [])
  | .getAccessed workspaceRoot =>
    let r := api.getAccessed M kCmdGetAccessed host workspaceRoot
    (some r.1, r.2.1, r.2.2)

/-- A run of calls, each against its own host: the handle at the end, and what each call
returned, in order. -/
def run (api : ApiImpl) : List (Host × Call M) → ApiImpl × List (Option Error × Bytes)
  | [] => (api, [])
  | (host, call) :: calls =>
    let r := perform kCmdGetAccessed host api call
    let rest := run r.2.1 calls
    (rest.1, (r.1, r.2.2) :: rest.2)

theorem run_append (api : ApiImpl) (calls₁ calls₂ : List (Host × Call M)) :
    (run kCmdGetAccessed api (calls₁ ++ calls₂)).1 =
      (run kCmdGetAccessed (run kCmdGetAccessed api calls₁).1 calls₂).1 := by
  induction calls₁ generalizing api with
  | nil => rfl
  | cons hc calls₁ ih => exact ih _

/-! ## The path -/

/-- `Open` on a handle that has a path leaves the path. -/
theorem openApi_path_of_ne (host : Host) (api : ApiImpl) (h : api.path ≠ []) :
    (api.openApi host).2.path = api.path := by
  obtain ⟨file, hfile⟩ := openApi_snd host api
  rw [hfile]
  simp [h]

/-- No call changes a path that is set. -/
theorem perform_path (host : Host) (api : ApiImpl) (call : Call M) (h : api.path ≠ []) :
    (perform kCmdGetAccessed host api call).2.1.path = api.path := by
  have hsend : ∀ command response : CommandBuffer M,
      (api.sendCommand host command response).2.1.path = api.path := by
    intro command response
    obtain ⟨file, hfile⟩ := sendCommand_snd host api command response
    rw [hfile]
    exact openApi_path_of_ne host api h
  cases call with
  | «open» => exact openApi_path_of_ne host api h
  | close => by_cases hopen : api.file.isOpen <;> simp [perform, close, hopen]
  | sendCommand command response => exact hsend command response
  | sendJson request => exact (congrArg ApiImpl.path (sendJson_snd host api request)).trans (hsend _ _)
  | getAccessed workspaceRoot =>
    rcases getAccessed_snd kCmdGetAccessed host api workspaceRoot with h' | ⟨request, h'⟩
    · exact congrArg ApiImpl.path h'
    · exact (congrArg ApiImpl.path h').trans
        ((congrArg ApiImpl.path (sendJson_snd host api request)).trans (hsend _ _))

theorem run_path (api : ApiImpl) (calls : List (Host × Call M)) (h : api.path ≠ []) :
    (run kCmdGetAccessed api calls).1.path = api.path := by
  induction calls generalizing api with
  | nil => rfl
  | cons hc calls ih =>
    have hstep := perform_path kCmdGetAccessed hc.1 api hc.2 h
    exact (ih _ (hstep ▸ h)).trans hstep

/-- Over every run of calls on any hosts, a path once set never changes and is never empty, a
failed `DeterminePath` changes nothing, and `Open` calls `DeterminePath` exactly when there is
no path. -/
theorem run_path_settles (api : ApiImpl) (calls₁ calls₂ : List (Host × Call M)) (host : Host) :
    ((run kCmdGetAccessed api calls₁).1.path ≠ [] →
      (run kCmdGetAccessed api (calls₁ ++ calls₂)).1.path = (run kCmdGetAccessed api calls₁).1.path) ∧
    ((api.determinePath host).1.code = .kSuccess → (api.determinePath host).2.path ≠ []) ∧
    ((api.determinePath host).1.code ≠ .kSuccess → (api.determinePath host).2 = api) ∧
    (api.openApi host).2.path =
      if api.path.isEmpty then (api.determinePath host).2.path else api.path := by
  refine ⟨fun h ↦ by rw [run_append]; exact run_path kCmdGetAccessed _ calls₂ h, fun hs ↦ ?_,
    fun hf ↦ ?_, ?_⟩
  · rcases determinePath_cases host api with ⟨-, path, hpath⟩ | ⟨hf, -⟩
    · simp [hpath]
    · exact absurd hs hf
  · rcases determinePath_cases host api with ⟨hs, -⟩ | ⟨-, h⟩
    · exact absurd hs hf
    · exact h
  · obtain ⟨file, hfile⟩ := openApi_snd host api
    rw [hfile]
    split_ifs <;> rfl

/-! ## The state of the stream -/

/-- What an exchange returns on a host without faults: `Open` succeeds, `Close` returns nothing,
and `SendCommand` succeeds with the reply to its own command. The other calls are not
exchanges. -/
def exchangeResult (host : Host) : Call M → Option Error × Bytes
  | .open => (some (getError .kSuccess .none), [])
  | .sendCommand command _ => (some (getError .kSuccess .none), host.respond command.data)
  | _ => (none, [])

/-- One exchange from a clear state on a host without faults whose replies fit the buffer:
it changes only the stream, keeps the state clear, and returns what `exchangeResult` says. -/
theorem perform_exchange (host : Host) (api : ApiImpl) (call : Call M) (hpath : api.path ≠ [])
    (hhook : api.sendTestHook = none) (hclear : StateClear api) (hex : call.isExchange = true)
    (hff : FaultFree host api.path) (hfit : ∀ c, (host.respond c).length ≤ M) :
    ∃ file, (perform kCmdGetAccessed host api call).2.1 = { api with file := file } ∧
      StateClear { api with file := file } ∧
      ((perform kCmdGetAccessed host api call).1, (perform kCmdGetAccessed host api call).2.2) =
        exchangeResult host call := by
  cases call with
  | «open» =>
    obtain ⟨file, hopen, hisOpen, hgood, -⟩ := openApi_of_faultFree host api hpath hff hclear
    exact ⟨file, by simp [perform, hopen], fun _ ↦ hgood, by simp [perform, hopen, exchangeResult]⟩
  | close =>
    by_cases hopen : api.file.isOpen = true
    · refine ⟨{ api.file with isOpen := false }, by simp [perform, close, hopen, FStream.close],
        fun h ↦ absurd h (by simp), rfl⟩
    · exact ⟨api.file, by simp [perform, close, hopen], hclear, rfl⟩
  | sendCommand command response =>
    obtain ⟨file, response', hsend, hdata, -, hgood, -⟩ :=
      sendCommand_of_faultFree host api command response hpath hff hclear hhook (hfit _)
    exact ⟨file, by simp [perform, hsend], fun _ ↦ hgood,
      by simp [perform, hsend, hdata, exchangeResult]⟩
  | sendJson _ => cases hex
  | getAccessed _ => cases hex

/-- On hosts without faults whose replies fit the buffer, over every run of `Open`, `Close` and
`SendCommand` from a clear state, the state stays clear, and every `SendCommand` returns
`kSuccess` with the reply to its own command. -/
theorem run_exchanges (api : ApiImpl) (calls : List (Host × Call M)) (hpath : api.path ≠ [])
    (hhook : api.sendTestHook = none) (hclear : StateClear api)
    (hcalls : ∀ hc ∈ calls, hc.2.isExchange = true ∧ FaultFree hc.1 api.path ∧
      ∀ c, (hc.1.respond c).length ≤ M) :
    StateClear (run kCmdGetAccessed api calls).1 ∧
      (run kCmdGetAccessed api calls).2 = calls.map fun hc ↦ exchangeResult hc.1 hc.2 := by
  induction calls generalizing api with
  | nil => exact ⟨hclear, rfl⟩
  | cons hc calls ih =>
    obtain ⟨hex, hff, hfit⟩ := hcalls hc (.head _)
    obtain ⟨file, hstep, hclear', hout⟩ :=
      perform_exchange kCmdGetAccessed hc.1 api hc.2 hpath hhook hclear hex hff hfit
    obtain ⟨ihclear, ihout⟩ := ih { api with file := file } hpath hhook hclear'
      fun hc' hc'mem ↦ hcalls hc' (.tail _ hc'mem)
    simp only [run, hstep]
    exact ⟨ihclear, by rw [ihout, hout, List.map_cons]⟩

/-- Four exchanges on a host that answers `ok` to everything. -/
def quietRun : List (Host × Call 4) :=
  [(quietHost, .open), (quietHost, .sendCommand ⟨[2], by decide⟩ (CommandBuffer.empty 4)),
    (quietHost, .close), (quietHost, .sendCommand ⟨[3], by decide⟩ (CommandBuffer.empty 4))]

/-- A handle on `/api`, not yet open, on an api file with nothing written to it. -/
def apiHandle : ApiImpl := ofPath ⟨ascii "/api", by decide⟩ ⟨[], []⟩

/-- A daemon without faults that answers the command `1` with five bytes, and any other command
with two. -/
def sizedReplyHost : Host :=
  ⟨some [chr '/'], fun _ ↦ none, fun _ ↦ true, true, true, true, fun _ ↦ true,
    fun c ↦ if c = [1] then [7, 7, 7, 7, 7] else [7, 7], [], .added⟩

/-- Two `SendCommand`s with buffers of 4 bytes. The first reply does not fit, and the call
returns `kBufferTooBig` but leaves the open stream with its state flags set; the second reply
fits, yet the call fails at the seek. -/
theorem run_stuck_after_overflow :
    (run 0 apiHandle [(sizedReplyHost, .sendCommand ⟨[1], by decide⟩ (CommandBuffer.empty 4)),
        (sizedReplyHost, .sendCommand ⟨[2], by decide⟩ (CommandBuffer.empty 4))]).2.map
        (·.1.map Error.code) = [some .kBufferTooBig, some .kApiFileSeekFail] ∧
      ¬StateClear (run 0 apiHandle
        [(sizedReplyHost, .sendCommand ⟨[1], by decide⟩ (CommandBuffer.empty 4))]).1 := by
  decide

theorem run_exchanges_quietRun :
    (apiHandle.path ≠ [] ∧ apiHandle.sendTestHook = none ∧ StateClear apiHandle ∧
      ∀ hc ∈ quietRun, hc.2.isExchange = true ∧ FaultFree hc.1 apiHandle.path ∧
        ∀ c, (hc.1.respond c).length ≤ 4) ∧
    (StateClear (run 0 apiHandle quietRun).1 ∧
      (run 0 apiHandle quietRun).2 = quietRun.map fun hc ↦ exchangeResult hc.1 hc.2) := by
  have hcalls : ∀ hc ∈ quietRun, hc.2.isExchange = true ∧ FaultFree hc.1 apiHandle.path ∧
      ∀ c, (hc.1.respond c).length ≤ 4 := by
    intro hc hmem
    simp only [quietRun, List.mem_cons, List.mem_singleton, List.not_mem_nil, or_false] at hmem
    rcases hmem with rfl | rfl | rfl | rfl <;>
      exact ⟨rfl, ⟨rfl, rfl, rfl, rfl, fun _ ↦ rfl⟩, fun _ ↦ (by decide : (ascii "ok").length ≤ 4)⟩
  exact ⟨⟨by decide, rfl, by decide, hcalls⟩,
    run_exchanges 0 apiHandle quietRun (by decide) rfl (by decide) hcalls⟩

/-! ## What the daemon receives -/

/-- One call of any kind from a clear state, on a host without faults whose replies fit the
buffer: it changes only the stream, keeps the state clear, and writes its commands. -/
theorem perform_delivers (host : Host) (api : ApiImpl) (call : Call M) (hpath : api.path ≠ [])
    (hhook : api.sendTestHook = none) (hclear : StateClear api) (hff : FaultFree host api.path)
    (hfit : ∀ c, (host.respond c).length ≤ M) :
    ∃ file, (perform kCmdGetAccessed host api call).2.1 = { api with file := file } ∧
      StateClear { api with file := file } ∧
      file.file.received = (call.sent kCmdGetAccessed).reverse ++ api.file.file.received := by
  cases call with
  | «open» =>
    obtain ⟨file, hopen, -, hgood, hfile⟩ := openApi_of_faultFree host api hpath hff hclear
    exact ⟨file, by simp [perform, hopen], fun _ ↦ hgood, by simp [Call.sent, hfile]⟩
  | close =>
    by_cases hopen : api.file.isOpen = true
    · exact ⟨{ api.file with isOpen := false }, by simp [perform, close, hopen, FStream.close],
        fun h ↦ absurd h (by simp), rfl⟩
    · exact ⟨api.file, by simp [perform, close, hopen], hclear, rfl⟩
  | sendCommand command response =>
    obtain ⟨file, response', hsend, -, -, hgood, hfile⟩ :=
      sendCommand_of_faultFree host api command response hpath hff hclear hhook (hfit _)
    exact ⟨file, by simp [perform, hsend], fun _ ↦ hgood, by simp [Call.sent, hfile]⟩
  | sendJson request =>
    obtain ⟨file, response, hsend, -, hclear', hfile⟩ :=
      sendJson_of_faultFree host api request hpath hff hclear hhook (hfit _)
    exact ⟨file, by simp [perform, hsend], hclear', by simp [Call.sent, hfile]⟩
  | getAccessed workspaceRoot =>
    have hstep : (perform kCmdGetAccessed host api (.getAccessed workspaceRoot)).2.1 =
        (getAccessed M kCmdGetAccessed host api workspaceRoot).2.1 := rfl
    rw [hstep, getAccessed_snd_eq]
    split_ifs with hvalid
    · obtain ⟨file, response, hsend, -, hclear', hfile⟩ :=
        sendJson_of_faultFree host api _ hpath hff hclear hhook (hfit _)
      exact ⟨file, by rw [hsend], hclear', by simp [Call.sent, hvalid, hfile]⟩
    · exact ⟨api.file, rfl, hclear, by simp [Call.sent, hvalid]⟩

/-- On hosts without faults whose replies fit, every run of calls from the state the spec
expects keeps the state clear, and the api file receives exactly the calls' commands, in order. -/
theorem run_delivers (api : ApiImpl) (calls : List (Host × Call M)) (hpath : api.path ≠ [])
    (hhook : api.sendTestHook = none) (hclear : StateClear api)
    (hcalls : ∀ hc ∈ calls, FaultFree hc.1 api.path ∧ ∀ c, (hc.1.respond c).length ≤ M) :
    StateClear (run kCmdGetAccessed api calls).1 ∧
      (run kCmdGetAccessed api calls).1.file.file.received =
        (calls.flatMap fun hc ↦ hc.2.sent kCmdGetAccessed).reverse ++ api.file.file.received := by
  induction calls generalizing api with
  | nil => exact ⟨hclear, rfl⟩
  | cons hc calls ih =>
    obtain ⟨hff, hfit⟩ := hcalls hc (.head _)
    obtain ⟨file, hstep, hclear', hfile⟩ :=
      perform_delivers kCmdGetAccessed hc.1 api hc.2 hpath hhook hclear hff hfit
    obtain ⟨ihclear, ihfile⟩ := ih { api with file := file } hpath hhook hclear'
      fun hc' hc'mem ↦ hcalls hc' (.tail _ hc'mem)
    simp only [run, hstep]
    refine ⟨ihclear, ?_⟩
    rw [ihfile, hfile, List.flatMap_cons, List.reverse_append, List.append_assoc]

/-- A run of every kind of call, against a daemon that answers every command with `okReply`. -/
def mixedRun : List (Host × Call 40) :=
  [(replyingHost okReply, .open), (replyingHost okReply, .getAccessed workspaceABC),
    (replyingHost okReply, .close), (replyingHost okReply, .sendJson longRequest),
    (replyingHost okReply, .sendCommand ⟨[5], by decide⟩ (CommandBuffer.empty 40))]

theorem run_delivers_mixedRun :
    (apiHandle.path ≠ [] ∧ apiHandle.sendTestHook = none ∧ StateClear apiHandle ∧
      ∀ hc ∈ mixedRun, FaultFree hc.1 apiHandle.path ∧ ∀ c, (hc.1.respond c).length ≤ 40) ∧
    (StateClear (run 3 apiHandle mixedRun).1 ∧
      (run 3 apiHandle mixedRun).1.file.file.received =
        (mixedRun.flatMap fun hc ↦ hc.2.sent 3).reverse ++ apiHandle.file.file.received) := by
  have hcalls : ∀ hc ∈ mixedRun, FaultFree hc.1 apiHandle.path ∧
      ∀ c, (hc.1.respond c).length ≤ 40 := by
    intro hc hmem
    simp only [mixedRun, List.mem_cons, List.mem_singleton, List.not_mem_nil, or_false] at hmem
    rcases hmem with rfl | rfl | rfl | rfl | rfl <;>
      exact ⟨⟨rfl, rfl, rfl, rfl, fun _ ↦ rfl⟩, fun _ ↦ (by decide : okReply.length ≤ 40)⟩
  exact ⟨⟨by decide, rfl, by decide, hcalls⟩,
    run_delivers 3 apiHandle mixedRun (by decide) rfl (by decide) hcalls⟩

/-! ## A handle that has failed -/

/-- One call other than `Close` on a handle whose open stream has failed, on any host: it leaves
the handle as it is, and a call that would write a command returns `kApiFileSeekFail`. -/
theorem perform_of_failed (host : Host) (api : ApiImpl) (call : Call M) (hpath : api.path ≠ [])
    (hopen : api.file.isOpen = true) (hfail : api.file.fail = true) (hclose : call ≠ .close) :
    (perform kCmdGetAccessed host api call).2.1 = api ∧
      (call.sent kCmdGetAccessed ≠ [] →
        (perform kCmdGetAccessed host api call).1 = some (getError .kApiFileSeekFail (.text api.path))) := by
  have hsend : ∀ request, api.sendJson M host request =
      (getError .kApiFileSeekFail (.text api.path), api, none) := fun request ↦ by
    simp [sendJson, sendCommand_of_failed host api _ _ hpath hopen hfail]
  cases call with
  | «open» => exact ⟨by simp [perform, openApi_of_open host api hpath hopen], fun h ↦ absurd rfl h⟩
  | close => exact absurd rfl hclose
  | sendCommand command response =>
    simp [perform, sendCommand_of_failed host api command response hpath hopen hfail]
  | sendJson request => simp [perform, hsend]
  | getAccessed workspaceRoot =>
    refine ⟨?_, fun hsent ↦ ?_⟩
    · show (getAccessed M kCmdGetAccessed host api workspaceRoot).2.1 = api
      rw [getAccessed_snd_eq]
      split_ifs
      · rw [hsend]
      · rfl
    · have hvalid : (checkWorkspacePathValid workspaceRoot).code = .kSuccess ∧
          utf8CheckString workspaceRoot.bytes = true := by
        by_contra h
        simp [Call.sent, h] at hsent
      simp [perform, getAccessed, hvalid.1, packGetAccessed_of_utf8 _ hvalid.2, hsend]

/-- From a handle whose open stream has failed, every run of calls without `Close` leaves the
handle as it is: nothing is written, and every call that would write fails with
`kApiFileSeekFail`. -/
theorem run_of_failed (api : ApiImpl) (calls : List (Host × Call M)) (hpath : api.path ≠ [])
    (hopen : api.file.isOpen = true) (hfail : api.file.fail = true)
    (hclose : ∀ hc ∈ calls, hc.2 ≠ .close) :
    (run kCmdGetAccessed api calls).1 = api ∧
      List.Forall₂ (fun hc r ↦ hc.2.sent kCmdGetAccessed ≠ [] →
          r.1 = some (getError .kApiFileSeekFail (.text api.path)))
        calls (run kCmdGetAccessed api calls).2 := by
  induction calls with
  | nil => exact ⟨rfl, .nil⟩
  | cons hc calls ih =>
    obtain ⟨hstep, herr⟩ :=
      perform_of_failed kCmdGetAccessed hc.1 api hc.2 hpath hopen hfail (hclose hc (.head _))
    obtain ⟨ihrun, ihout⟩ := ih fun hc' hc'mem ↦ hclose hc' (.tail _ hc'mem)
    simp only [run, hstep]
    exact ⟨ihrun, .cons herr ihout⟩

/-- The handle a reply of five bytes leaves, through a buffer of four, with its state flags
set. -/
def stuckHandle : ApiImpl :=
  (run 0 apiHandle [(sizedReplyHost, .sendCommand ⟨[1], by decide⟩ (CommandBuffer.empty 4))]).1

/-- Calls of every kind but `Close`, against a host without faults. -/
def stuckRun : List (Host × Call 4) :=
  [(quietHost, .open), (quietHost, .sendCommand ⟨[2], by decide⟩ (CommandBuffer.empty 4)),
    (quietHost, .getAccessed workspaceABC), (quietHost, .sendJson longRequest)]

theorem run_of_failed_stuckRun :
    (stuckHandle.path ≠ [] ∧ stuckHandle.file.isOpen = true ∧ stuckHandle.file.fail = true ∧
      ∀ hc ∈ stuckRun, hc.2 ≠ .close) ∧
    ((run 0 stuckHandle stuckRun).1 = stuckHandle ∧
      List.Forall₂ (fun hc r ↦ hc.2.sent 0 ≠ [] →
          r.1 = some (getError .kApiFileSeekFail (.text stuckHandle.path)))
        stuckRun (run 0 stuckHandle stuckRun).2) := by
  have hclose : ∀ hc ∈ stuckRun, hc.2 ≠ .close := by
    intro hc hmem
    simp only [stuckRun, List.mem_cons, List.mem_singleton, List.not_mem_nil, or_false] at hmem
    rcases hmem with rfl | rfl | rfl | rfl <;> nofun
  exact ⟨⟨by decide, by decide, by decide, hclose⟩,
    run_of_failed 0 stuckHandle stuckRun (by decide) (by decide) (by decide) hclose⟩

/-- `Close` and then `Open` bring any handle with a path back to an open stream with clear
state flags, when the api file opens: the way out of the state `run_stuck_after_overflow`
reaches. -/
theorem close_openApi_clears (host : Host) (api : ApiImpl) (hpath : api.path ≠ [])
    (hopens : host.opens api.path = true) :
    (api.close.openApi host).1.code = .kSuccess ∧ (api.close.openApi host).2.file.isOpen = true ∧
      StateClear (api.close.openApi host).2 := by
  have hclosed : api.close.file.isOpen = false := by
    unfold close FStream.close
    split_ifs <;> simp_all
  have hpath' : api.close.path = api.path := by
    unfold close
    split_ifs <;> rfl
  have hopen : api.close.openApi host = (getError .kSuccess .none,
      { api.close with file := { api.close.file with isOpen := true, state := IoState.good, pos := 0 } }) := by
    simp [openApi, hpath', hpath, hclosed, FStream.open, hopens, FStream.fail]
  rw [hopen]
  exact ⟨rfl, rfl, fun _ ↦ rfl⟩

theorem close_openApi_clears_stuck :
    let stuck := (run 0 apiHandle
      [(sizedReplyHost, .sendCommand ⟨[1], by decide⟩ (CommandBuffer.empty 4))]).1
    (stuck.path ≠ [] ∧ sizedReplyHost.opens stuck.path = true) ∧
      ((stuck.close.openApi sizedReplyHost).1.code = .kSuccess ∧
        (stuck.close.openApi sizedReplyHost).2.file.isOpen = true ∧
        StateClear (stuck.close.openApi sizedReplyHost).2) :=
  ⟨⟨by decide, rfl⟩, close_openApi_clears sizedReplyHost _ (by decide) rfl⟩

end ApiImpl

end QfsClient
