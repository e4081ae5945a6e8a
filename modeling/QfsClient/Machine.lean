import QfsClient.Session
import QfsClient.Transport.Faults

/-!
# The handle as a two-state machine

On hosts without faults, the stream of a handle has two states as far as the calls can tell. It
is ready: closed, or open with its state flags clear. Or it is stuck: open with `failbit` set, as
a reply too long for the buffer leaves it when the chunk that overflows is the reply's shorter
last one. `Machine.step` says what a call does on that abstraction, in terms of the daemon's
replies alone. A ready stream takes the reply to the command: the whole reply when it fits, and
otherwise `kBufferTooBig` with the whole chunks that fit (`Machine.receive`). A stuck stream fails
every command at the seek of `WriteCommand`. `Close` makes the stream ready. `SendJson` and
`GetAccessed` do over this `SendCommand` what the source does with what its `SendCommand` returns.

`run_refines` connects the abstraction to the model of the source: over every run of calls of
every kind, on hosts without faults whose replies may have any length, `ApiImpl.run` returns what
`Machine.run` returns, call by call, and leaves the handle in the state the machine ends in.
Stream positions, the file behind the stream and the chunked reads of `ReadResponse` are all
below the abstraction. Handles with a test hook are outside it.

On hosts with faults, where opening the api file, a seek, the write, the flush or a read may
fail, the two states still cover every handle a run reaches (`run_fault_sticks`). A call that
fails at a seek, the write, the flush or a read always leaves the stream stuck.
-/

namespace QfsClient

namespace Machine

variable {M : ℕ}

/-- The state of the stream of a handle: `false` ready, with its state flags clear when it is
open; `true` stuck, open with `failbit` or `badbit` set. -/
def Tracks (api : ApiImpl) : Bool → Prop
  | false => ApiImpl.StateClear api
  | true => api.file.isOpen = true ∧ api.file.fail = true

instance (api : ApiImpl) : (stuck : Bool) → Decidable (Tracks api stuck)
  | false => inferInstanceAs (Decidable (ApiImpl.StateClear api))
  | true => inferInstanceAs (Decidable (api.file.isOpen = true ∧ api.file.fail = true))

/-- What `ReadResponse` makes of a reply with a buffer of `M` bytes: the reply when it fits;
otherwise `kBufferTooBig`, the whole chunks that fit, and a stuck stream when the overflowing
chunk is the last, short one. -/
def receive (M : ℕ) (reply : Bytes) : Error × Bool × CommandBuffer M :=
  if h : reply.length ≤ M then (getError .kSuccess .none, false, ⟨reply, h⟩)
  else
    (getError .kBufferTooBig .none,
      decide (reply.length < ApiImpl.chunkSize * (M / ApiImpl.chunkSize + 1)),
      ⟨reply.take (ApiImpl.chunkSize * (M / ApiImpl.chunkSize)),
        (List.length_take_le _ _).trans (Nat.mul_div_le M ApiImpl.chunkSize)⟩)

theorem receive_of_le {reply : Bytes} (h : reply.length ≤ M) :
    receive M reply = (getError .kSuccess .none, false, ⟨reply, h⟩) := dif_pos h

theorem receive_of_lt {reply : Bytes} (h : M < reply.length) :
    receive M reply = (getError .kBufferTooBig .none,
      decide (reply.length < ApiImpl.chunkSize * (M / ApiImpl.chunkSize + 1)),
      ⟨reply.take (ApiImpl.chunkSize * (M / ApiImpl.chunkSize)),
        (List.length_take_le _ _).trans (Nat.mul_div_le M ApiImpl.chunkSize)⟩) :=
  dif_neg (by omega)

/-- `SendCommand` on the abstraction: a stuck stream fails at the seek and leaves the response
buffer as it was; a ready one receives the daemon's reply to the command. -/
def sendCommand (M : ℕ) (host : Host) (path : Bytes) (stuck : Bool)
    (command response : CommandBuffer M) : Error × Bool × CommandBuffer M :=
  if stuck then (getError .kApiFileSeekFail (.text path), true, response)
  else receive M (host.respond command.data)

/-- `SendJson` on the abstraction, over `Machine.sendCommand`. -/
def sendJson (M : ℕ) (host : Host) (path : Bytes) (stuck : Bool)
    (request : List (Bytes × Json)) : Error × Bool × Option Json :=
  let command := ((CommandBuffer.empty M).copyString (jsonDumps request)).2
  let (err, stuck, response) := sendCommand M host path stuck command (CommandBuffer.empty M)
  if err.code != .kSuccess then (err, stuck, none)
  else
    let (err, context) := ApiImpl.checkCommonApiResponse response host.pastEnd
    if err.code != .kSuccess then (err, stuck, context)
    else (getError .kSuccess .none, stuck, context)

/-- `GetAccessed` on the abstraction, over `Machine.sendJson`. -/
def getAccessed (M : ℕ) (kCmdGetAccessed : ℤ) (host : Host) (path : Bytes) (stuck : Bool)
    (workspaceRoot : CStr) : Error × Bool × Bytes :=
  let err := ApiImpl.checkWorkspacePathValid workspaceRoot
  if err.code != .kSuccess then (err, stuck, [])
  else
    match packGetAccessed kCommandId kCmdGetAccessed kWorkspaceRoot workspaceRoot with
    | .error text => (getError .kJsonEncodingError (.text text), stuck, [])
    | .ok request =>
      let (err, stuck, context) := sendJson M host path stuck request
      if err.code != .kSuccess then (err, stuck, [])
      else
        let (err, accessed) := ApiImpl.prepareAccessedListResponse context []
        if err.code != .kSuccess then (err, stuck, [])
        else
          (getError .kSuccess .none, stuck, cString (ApiImpl.formatAccessedList host.mapOrder accessed))

/-- One call on the abstraction, against the host of that call: what the call returns, as
`ApiImpl.perform` gives it, and the state of the stream after it. -/
def step (kCmdGetAccessed : ℤ) (host : Host) (path : Bytes) (stuck : Bool) :
    Call M → (Option Error × Bytes) × Bool
  | .open => ((some (getError .kSuccess .none), []), stuck)
  | .close => ((none, []), false)
  | .sendCommand command response =>
    let r := sendCommand M host path stuck command response
    ((some r.1, r.2.2.data), r.2.1)
  | .sendJson request =>
    let r := sendJson M host path stuck request
    ((some r.1, []), r.2.1)
  | .getAccessed workspaceRoot =>
    let r := getAccessed M kCmdGetAccessed host path stuck workspaceRoot
    ((some r.1, r.2.2), r.2.1)

/-- A run of calls on the abstraction, each against its own host: what each call returns, and
the state of the stream at the end. -/
def run (kCmdGetAccessed : ℤ) (path : Bytes) (stuck : Bool) :
    List (Host × Call M) → List (Option Error × Bytes) × Bool
  | [] => ([], stuck)
  | (host, call) :: calls =>
    let r := step kCmdGetAccessed host path stuck call
    let rest := run kCmdGetAccessed path r.2 calls
    (r.1 :: rest.1, rest.2)

end Machine

namespace ApiImpl

variable {M : ℕ} (kCmdGetAccessed : ℤ)

/-! ## One call refines one step -/

section Refinement

variable (host : Host) (api : ApiImpl) (stuck : Bool) (hpath : api.path ≠ [])
  (hhook : api.sendTestHook = none) (hff : FaultFree host api.path)
  (htracks : Machine.Tracks api stuck)
include hpath hhook hff htracks

theorem sendCommand_refines (command response : CommandBuffer M) :
    ∃ file, api.sendCommand host command response =
        ((Machine.sendCommand M host api.path stuck command response).1, { api with file := file },
          (Machine.sendCommand M host api.path stuck command response).2.2) ∧
      Machine.Tracks { api with file := file }
        (Machine.sendCommand M host api.path stuck command response).2.1 := by
  cases stuck with
  | true =>
    exact ⟨api.file, sendCommand_of_failed host api command response hpath htracks.1 htracks.2,
      htracks⟩
  | false =>
    by_cases hfit : (host.respond command.data).length ≤ M
    · obtain ⟨file, response', hsend, hdata, -, hgood, -⟩ :=
        sendCommand_of_faultFree host api command response hpath hff htracks hhook hfit
      have hresponse : response' = ⟨_, hfit⟩ := CommandBuffer.ext hdata
      rw [Machine.sendCommand, if_neg Bool.false_ne_true, Machine.receive_of_le hfit]
      exact ⟨file, by rw [hsend, hresponse], fun _ ↦ hgood⟩
    · obtain ⟨file, response', hsend, hdata, hopen, hstate, -⟩ :=
        sendCommand_of_overflow host api command response hpath hff htracks hhook (not_le.mp hfit)
      have hresponse : response' = ⟨_, (List.length_take_le _ _).trans (Nat.mul_div_le M chunkSize)⟩ :=
        CommandBuffer.ext hdata
      rw [Machine.sendCommand, if_neg Bool.false_ne_true, Machine.receive_of_lt (not_le.mp hfit)]
      refine ⟨file, by rw [hsend, hresponse], ?_⟩
      by_cases hshort : (host.respond command.data).length < chunkSize * (M / chunkSize + 1)
      · rw [decide_eq_true hshort]
        exact ⟨hopen, by simp [FStream.fail, hstate, not_le.mpr hshort]⟩
      · rw [decide_eq_false hshort]
        exact fun _ ↦ by rw [hstate, if_pos (not_lt.mp hshort)]

theorem sendJson_refines (request : List (Bytes × Json)) :
    ∃ file, api.sendJson M host request =
        ((Machine.sendJson M host api.path stuck request).1, { api with file := file },
          (Machine.sendJson M host api.path stuck request).2.2) ∧
      Machine.Tracks { api with file := file } (Machine.sendJson M host api.path stuck request).2.1 := by
  obtain ⟨file, hsend, htracks'⟩ :=
    sendCommand_refines host api stuck hpath hhook hff htracks _ (CommandBuffer.empty M)
  unfold sendJson Machine.sendJson
  dsimp only
  rw [hsend]
  generalize Machine.sendCommand M host api.path stuck _ _ = r at htracks' ⊢
  obtain ⟨err, stuck', response⟩ := r
  generalize checkCommonApiResponse response host.pastEnd = checked
  obtain ⟨err', context⟩ := checked
  dsimp only at htracks' ⊢
  refine ⟨file, ?_, ?_⟩ <;> split_ifs <;> first | rfl | exact htracks'

theorem getAccessed_refines (workspaceRoot : CStr) :
    ∃ file, getAccessed M kCmdGetAccessed host api workspaceRoot =
        ((Machine.getAccessed M kCmdGetAccessed host api.path stuck workspaceRoot).1,
          { api with file := file },
          (Machine.getAccessed M kCmdGetAccessed host api.path stuck workspaceRoot).2.2) ∧
      Machine.Tracks { api with file := file }
        (Machine.getAccessed M kCmdGetAccessed host api.path stuck workspaceRoot).2.1 := by
  unfold getAccessed Machine.getAccessed
  dsimp only
  split_ifs
  · exact ⟨api.file, rfl, htracks⟩
  cases packGetAccessed kCommandId kCmdGetAccessed kWorkspaceRoot workspaceRoot with
  | error text => exact ⟨api.file, rfl, htracks⟩
  | ok request =>
    obtain ⟨file, hsend, htracks'⟩ :=
      sendJson_refines host api stuck hpath hhook hff htracks request
    dsimp only
    rw [hsend]
    generalize Machine.sendJson M host api.path stuck request = r at htracks' ⊢
    obtain ⟨err, stuck', context⟩ := r
    generalize prepareAccessedListResponse context [] = prepared
    obtain ⟨err', accessed⟩ := prepared
    dsimp only at htracks' ⊢
    refine ⟨file, ?_, ?_⟩ <;> split_ifs <;> first | rfl | exact htracks'

theorem perform_refines (call : Call M) :
    ∃ file, (perform kCmdGetAccessed host api call).2.1 = { api with file := file } ∧
      ((perform kCmdGetAccessed host api call).1, (perform kCmdGetAccessed host api call).2.2) =
        (Machine.step kCmdGetAccessed host api.path stuck call).1 ∧
      Machine.Tracks { api with file := file } (Machine.step kCmdGetAccessed host api.path stuck call).2 := by
  cases call with
  | «open» =>
    cases stuck with
    | false =>
      obtain ⟨file, hopen, -, hgood, -⟩ := openApi_of_faultFree host api hpath hff htracks
      exact ⟨file, by simp [perform, hopen], by simp [perform, hopen, Machine.step],
        fun _ ↦ hgood⟩
    | true =>
      have hopen := openApi_of_open host api hpath htracks.1
      exact ⟨api.file, by simp [perform, hopen], by simp [perform, hopen, Machine.step], htracks⟩
  | close =>
    by_cases hopen : api.file.isOpen = true
    · exact ⟨{ api.file with isOpen := false }, by simp [perform, close, hopen, FStream.close],
        rfl, fun h ↦ absurd h (by simp)⟩
    · exact ⟨api.file, by simp [perform, close, hopen], rfl, fun h ↦ absurd h hopen⟩
  | sendCommand command response =>
    obtain ⟨file, hsend, htracks'⟩ :=
      sendCommand_refines host api stuck hpath hhook hff htracks command response
    exact ⟨file, by simp [perform, hsend], by simp [perform, hsend, Machine.step], htracks'⟩
  | sendJson request =>
    obtain ⟨file, hsend, htracks'⟩ := sendJson_refines host api stuck hpath hhook hff htracks request
    exact ⟨file, by simp [perform, hsend], by simp [perform, hsend, Machine.step], htracks'⟩
  | getAccessed workspaceRoot =>
    obtain ⟨file, hsend, htracks'⟩ :=
      getAccessed_refines kCmdGetAccessed host api stuck hpath hhook hff htracks workspaceRoot
    exact ⟨file, by simp [perform, hsend], by simp [perform, hsend, Machine.step], htracks'⟩

end Refinement

/-! ## Every run refines a run of the machine -/

/-- On hosts without faults, every run of calls from a handle with a path and no test hook,
ready or stuck, returns what the two-state machine returns, call by call, and ends in its state. -/
theorem run_refines (api : ApiImpl) (stuck : Bool) (calls : List (Host × Call M))
    (hpath : api.path ≠ []) (hhook : api.sendTestHook = none) (htracks : Machine.Tracks api stuck)
    (hff : ∀ hc ∈ calls, FaultFree hc.1 api.path) :
    (run kCmdGetAccessed api calls).2 = (Machine.run kCmdGetAccessed api.path stuck calls).1 ∧
      Machine.Tracks (run kCmdGetAccessed api calls).1
        (Machine.run kCmdGetAccessed api.path stuck calls).2 := by
  induction calls generalizing api stuck with
  | nil => exact ⟨rfl, htracks⟩
  | cons hc calls ih =>
    obtain ⟨file, hstep, hout, htracks'⟩ := perform_refines kCmdGetAccessed hc.1 api stuck hpath
      hhook (hff hc (.head _)) htracks hc.2
    obtain ⟨ihout, ihtracks⟩ := ih { api with file := file } _ hpath hhook htracks'
      fun hc' hc'mem ↦ hff hc' (.tail _ hc'mem)
    simp only [run, Machine.run, hstep]
    exact ⟨by rw [← hout, ihout], ihtracks⟩

/-- A reply too long for a buffer of 4 bytes, which sticks the stream; a command that then fails
at the seek; `Close`; and the same command, which now gets its reply. -/
def stickyRun : List (Host × Call 4) :=
  [(sizedReplyHost, .sendCommand ⟨[1], by decide⟩ (CommandBuffer.empty 4)),
    (sizedReplyHost, .sendCommand ⟨[2], by decide⟩ (CommandBuffer.empty 4)),
    (sizedReplyHost, .close),
    (sizedReplyHost, .sendCommand ⟨[2], by decide⟩ (CommandBuffer.empty 4))]

example : (Machine.run 0 apiHandle.path false stickyRun).1.map (·.1.map Error.code) =
    [some .kBufferTooBig, some .kApiFileSeekFail, none, some .kSuccess] := by
  decide

theorem run_refines_stickyRun :
    (apiHandle.path ≠ [] ∧ apiHandle.sendTestHook = none ∧ Machine.Tracks apiHandle false ∧
      ∀ hc ∈ stickyRun, FaultFree hc.1 apiHandle.path) ∧
    ((run 0 apiHandle stickyRun).2 = (Machine.run 0 apiHandle.path false stickyRun).1 ∧
      Machine.Tracks (run 0 apiHandle stickyRun).1 (Machine.run 0 apiHandle.path false stickyRun).2) := by
  have hff : ∀ hc ∈ stickyRun, FaultFree hc.1 apiHandle.path := by
    intro hc hmem
    simp only [stickyRun, List.mem_cons, List.mem_singleton, List.not_mem_nil, or_false] at hmem
    rcases hmem with rfl | rfl | rfl | rfl <;> exact ⟨rfl, rfl, rfl, rfl, fun _ ↦ rfl⟩
  exact ⟨⟨by decide, rfl, by decide, hff⟩,
    run_refines 0 apiHandle false stickyRun (by decide) rfl (by decide) hff⟩

/-! ## Hosts with faults -/

theorem checkCommonApiResponse_not_ioFault (response : CommandBuffer M) (pastEnd : Bytes) :
    (checkCommonApiResponse response pastEnd).1.code.isIoFault = false := by
  unfold checkCommonApiResponse
  dsimp only
  split
  · rfl
  · split <;> (try split_ifs) <;> rfl

theorem prepareAccessedListResponse_not_ioFault (context : Option Json)
    (accessedList : List (Bytes × Bool)) :
    (prepareAccessedListResponse context accessedList).1.code.isIoFault = false := by
  unfold prepareAccessedListResponse
  split <;> rfl

/-- A `SendJson` that fails at a seek, the write, the flush or a read got that failure from its
`SendCommand`. -/
theorem sendJson_ioFault {host : Host} {api : ApiImpl} {request : List (Bytes × Json)}
    (h : (api.sendJson M host request).1.code.isIoFault = true) :
    (api.sendCommand host ((CommandBuffer.empty M).copyString (jsonDumps request)).2
      (CommandBuffer.empty M)).1.code.isIoFault = true := by
  revert h
  unfold sendJson
  dsimp only
  generalize api.sendCommand host _ _ = r
  obtain ⟨err, api', response⟩ := r
  have hcheck := checkCommonApiResponse_not_ioFault response host.pastEnd
  generalize checkCommonApiResponse response host.pastEnd = checked at hcheck
  obtain ⟨err', context⟩ := checked
  dsimp only at hcheck ⊢
  split_ifs with h₁ h₂
  · exact id
  · simp [hcheck]
  · simp [ErrorCode.isIoFault]

/-- A `GetAccessed` that fails at a seek, the write, the flush or a read got that failure from
`SendJson` of its request, and leaves the handle as that `SendJson` leaves it. -/
theorem getAccessed_ioFault {host : Host} {api : ApiImpl} {workspaceRoot : CStr}
    (h : (getAccessed M kCmdGetAccessed host api workspaceRoot).1.code.isIoFault = true) :
    ∃ request, (api.sendJson M host request).1.code.isIoFault = true ∧
      (getAccessed M kCmdGetAccessed host api workspaceRoot).2.1 = (api.sendJson M host request).2.1 := by
  revert h
  unfold getAccessed
  dsimp only
  split_ifs with hvalid
  · rw [checkWorkspacePathValid_eq_count]
    split_ifs <;> simp [ErrorCode.isIoFault]
  cases packGetAccessed kCommandId kCmdGetAccessed kWorkspaceRoot workspaceRoot with
  | error text => simp [ErrorCode.isIoFault]
  | ok request =>
    dsimp only
    generalize hsend : api.sendJson M host request = r
    obtain ⟨err, api', context⟩ := r
    have hprepared := prepareAccessedListResponse_not_ioFault context []
    generalize prepareAccessedListResponse context [] = prepared at hprepared
    obtain ⟨err', accessed⟩ := prepared
    dsimp only at hprepared ⊢
    split_ifs
    · exact fun h ↦ ⟨request, by rw [hsend]; exact h, by rw [hsend]⟩
    · simp [hprepared]
    · simp [ErrorCode.isIoFault]

theorem tracks_of_outcome {api : ApiImpl} {file : FStream} {fault : Prop}
    (hsettled : (file.isOpen = true → file.state = IoState.good) ∨
      file.isOpen = true ∧ file.fail = true)
    (hfault : fault → file.isOpen = true ∧ file.fail = true) :
    ∃ stuck, Machine.Tracks { api with file := file } stuck ∧ (fault → stuck = true) := by
  by_cases hstuck : file.isOpen = true ∧ file.fail = true
  · exact ⟨true, hstuck, fun _ ↦ rfl⟩
  · exact ⟨false, hsettled.resolve_right hstuck, fun h ↦ absurd (hfault h) hstuck⟩

/-- `SendJson` from a clear state on any host leaves the stream as its `SendCommand` does. -/
theorem sendJson_outcome (host : Host) (api : ApiImpl) (request : List (Bytes × Json))
    (hpath : api.path ≠ []) (hclear : StateClear api) (hhook : api.sendTestHook = none) :
    ∃ file stuck, (api.sendJson M host request).2.1 = { api with file := file } ∧
      Machine.Tracks { api with file := file } stuck ∧
      ((api.sendJson M host request).1.code.isIoFault = true → stuck = true) := by
  obtain ⟨file, hsend, hsettled, hfault⟩ :=
    sendCommand_outcome host api _ (CommandBuffer.empty M) hpath hclear hhook
  obtain ⟨stuck, htracks, hstuck⟩ := tracks_of_outcome hsettled hfault
  exact ⟨file, stuck, (sendJson_snd host api request).trans hsend, htracks,
    fun h ↦ hstuck (sendJson_ioFault h)⟩

/-- One call on any host, from a handle in either state: the handle stays in one of the two
states, and a call that fails at a seek, the write, the flush or a read leaves it stuck. -/
theorem perform_outcome (host : Host) (api : ApiImpl) (stuck : Bool) (call : Call M)
    (hpath : api.path ≠ []) (hhook : api.sendTestHook = none) (htracks : Machine.Tracks api stuck) :
    ∃ file stuck', (perform kCmdGetAccessed host api call).2.1 = { api with file := file } ∧
      Machine.Tracks { api with file := file } stuck' ∧
      ((perform kCmdGetAccessed host api call).1.map (·.code.isIoFault) = some true →
        stuck' = true) := by
  by_cases hclose : call = .close
  · subst hclose
    by_cases hopen : api.file.isOpen = true
    · exact ⟨{ api.file with isOpen := false }, false,
        by simp [perform, close, hopen, FStream.close], fun h ↦ absurd h (by simp), by simp [perform]⟩
    · exact ⟨api.file, false, by simp [perform, close, hopen], fun h ↦ absurd h hopen,
        by simp [perform]⟩
  cases stuck with
  | true =>
    have hstep := perform_of_failed kCmdGetAccessed host api call hpath htracks.1 htracks.2 hclose
    exact ⟨api.file, true, hstep.1, htracks, fun _ ↦ rfl⟩
  | false =>
    cases call with
    | «open» =>
      obtain ⟨err, file, hopen, hcases⟩ := openApi_outcome host api hpath htracks
      refine ⟨file, false, by simp [perform, hopen], ?_, ?_⟩
      · rcases hcases with ⟨-, -, hgood⟩ | ⟨-, hclosed⟩
        · exact fun _ ↦ hgood
        · exact fun h ↦ absurd h (by simp [hclosed])
      · rcases hcases with ⟨hcode, -⟩ | ⟨hcode, -⟩ <;>
          simp [perform, hopen, hcode, ErrorCode.isIoFault]
    | close => exact absurd rfl hclose
    | sendCommand command response =>
      obtain ⟨file, hsend, hsettled, hfault⟩ :=
        sendCommand_outcome host api command response hpath htracks hhook
      obtain ⟨stuck', htracks', hstuck⟩ := tracks_of_outcome hsettled hfault
      exact ⟨file, stuck', by simp [perform, hsend], htracks', fun h ↦ hstuck (by simpa [perform] using h)⟩
    | sendJson request =>
      obtain ⟨file, stuck', hsend, htracks', hstuck⟩ :=
        sendJson_outcome (M := M) host api request hpath htracks hhook
      exact ⟨file, stuck', by simp [perform, hsend], htracks', fun h ↦ hstuck (by simpa [perform] using h)⟩
    | getAccessed workspaceRoot =>
      have hstep : (perform kCmdGetAccessed host api (.getAccessed workspaceRoot)).2.1 =
          (getAccessed M kCmdGetAccessed host api workspaceRoot).2.1 := rfl
      have hcode : (perform kCmdGetAccessed host api (.getAccessed workspaceRoot)).1.map
          (·.code.isIoFault) = some (getAccessed M kCmdGetAccessed host api workspaceRoot).1.code.isIoFault :=
        rfl
      rw [hcode, Option.some.injEq]
      by_cases hfault : (getAccessed M kCmdGetAccessed host api workspaceRoot).1.code.isIoFault = true
      · obtain ⟨request, hfault', hsend⟩ := getAccessed_ioFault kCmdGetAccessed hfault
        obtain ⟨file, stuck', hfile, htracks', hstuck⟩ :=
          sendJson_outcome (M := M) host api request hpath htracks hhook
        exact ⟨file, stuck', hstep.trans (hsend.trans hfile), htracks', fun _ ↦ hstuck hfault'⟩
      · rcases getAccessed_snd kCmdGetAccessed host api workspaceRoot with hsame | ⟨request, hsend⟩
        · exact ⟨api.file, false, hstep.trans hsame, htracks, fun h ↦ absurd h hfault⟩
        · obtain ⟨file, stuck', hfile, htracks', -⟩ :=
            sendJson_outcome (M := M) host api request hpath htracks hhook
          exact ⟨file, stuck', hstep.trans (hsend.trans hfile), htracks', fun h ↦ absurd h hfault⟩

/-- Over every run on any hosts, from a handle in either state, the handle stays in one of the
two states. -/
theorem run_outcome (api : ApiImpl) (stuck : Bool) (calls : List (Host × Call M))
    (hpath : api.path ≠ []) (hhook : api.sendTestHook = none) (htracks : Machine.Tracks api stuck) :
    ∃ file stuck', (run kCmdGetAccessed api calls).1 = { api with file := file } ∧
      Machine.Tracks { api with file := file } stuck' := by
  induction calls generalizing api stuck with
  | nil => exact ⟨api.file, stuck, rfl, htracks⟩
  | cons hc calls ih =>
    obtain ⟨file, stuck', hstep, htracks', -⟩ :=
      perform_outcome kCmdGetAccessed hc.1 api stuck hc.2 hpath hhook htracks
    obtain ⟨file', stuck'', hrun, htracks''⟩ := ih { api with file := file } stuck' hpath hhook htracks'
    refine ⟨file', stuck'', ?_, htracks''⟩
    simp only [run, hstep]
    exact hrun

/-- On hosts where any I/O step may fail, every run from a handle with a path, no test hook and
clear flags keeps the stream ready or stuck, and a call that fails at I/O leaves it stuck. -/
theorem run_fault_sticks (api : ApiImpl) (calls : List (Host × Call M)) (host : Host)
    (call : Call M) (hpath : api.path ≠ []) (hhook : api.sendTestHook = none)
    (hclear : StateClear api) :
    (∃ stuck, Machine.Tracks (run kCmdGetAccessed api calls).1 stuck) ∧
      ((perform kCmdGetAccessed host (run kCmdGetAccessed api calls).1 call).1.map
          (·.code.isIoFault) = some true →
        Machine.Tracks (perform kCmdGetAccessed host (run kCmdGetAccessed api calls).1 call).2.1 true) := by
  obtain ⟨file, stuck, hrun, htracks⟩ := run_outcome kCmdGetAccessed api false calls hpath hhook hclear
  rw [hrun]
  obtain ⟨file', stuck', hstep, htracks', hfault⟩ :=
    perform_outcome kCmdGetAccessed host { api with file := file } stuck call hpath hhook htracks
  refine ⟨⟨stuck, htracks⟩, fun h ↦ ?_⟩
  rw [hstep, ← hfault h]
  exact htracks'

/-- A host on which the api file opens but every write fails. -/
def failingWriteHost : Host :=
  ⟨some [chr '/'], fun _ ↦ none, fun _ ↦ true, true, false, true, fun _ ↦ true, fun _ ↦ ascii "ok", [], .added⟩

example : (perform 0 failingWriteHost (run 0 apiHandle [(quietHost, (.open : Call 4))]).1
    (.sendCommand (⟨[2], by decide⟩ : CommandBuffer 4) (CommandBuffer.empty 4))).1.map Error.code =
      some .kApiFileWriteFail := by
  decide

theorem run_fault_sticks_failingWrite :
    (apiHandle.path ≠ [] ∧ apiHandle.sendTestHook = none ∧ StateClear apiHandle) ∧
      ((∃ stuck, Machine.Tracks (run 0 apiHandle [(quietHost, (.open : Call 4))]).1 stuck) ∧
        ((perform 0 failingWriteHost (run 0 apiHandle [(quietHost, (.open : Call 4))]).1
            (.sendCommand (⟨[2], by decide⟩ : CommandBuffer 4) (CommandBuffer.empty 4))).1.map
            (·.code.isIoFault) = some true →
          Machine.Tracks (perform 0 failingWriteHost (run 0 apiHandle [(quietHost, (.open : Call 4))]).1
            (.sendCommand (⟨[2], by decide⟩ : CommandBuffer 4) (CommandBuffer.empty 4))).2.1 true)) :=
  ⟨⟨by decide, rfl, by decide⟩, run_fault_sticks 0 apiHandle [(quietHost, (.open : Call 4))] failingWriteHost
    (.sendCommand ⟨[2], by decide⟩ (CommandBuffer.empty 4)) (by decide) rfl (by decide)⟩

end ApiImpl

end QfsClient
