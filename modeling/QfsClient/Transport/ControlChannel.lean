import QfsClient.CommandBuffer
import QfsClient.Transport.PathResolver

/-!
# The exchange with the api file

`Open`, `Close`, `WriteCommand`, `ReadResponse` and `SendCommand` of
`qfs_client_implementation.cc` (lines 109-217). A command is written at offset 0 and flushed;
the response is then read back from offset 0 in chunks of 4096 bytes until end of file, each
chunk appended to the response buffer. After the last chunk the stream's state is cleared,
since reading to the end leaves `eofbit` and `failbit` set.

The read loop runs while the stream is not at end of file. Every round that does not end the
loop takes a whole chunk of the file, so it runs on `⌊|content| / 4096⌋ + 1` rounds of fuel
at most; `readResponse` gives it `|content| + 1`, and `readLoop_isSome` shows that this never
runs out. The main result, `readResponse_reads_content`, says the loop reassembles the file
exactly within that many reads.

The later sections say once what each call can do, for the modules above this one: which
parts of the handle it changes (only the stream, and the path only through `DeterminePath`),
what it writes to the api file (`SendCommand` writes its command once, or nothing), and what an
exchange does from a clear state on a host without faults (`sendCommand_of_faultFree`).

A reply longer than the buffer stops the loop at the chunk that does not fit, with
`kBufferTooBig`, and the state is then not cleared. `sendCommand_overflow` says when that
matters: the stream keeps `eofbit` and `failbit` exactly when the chunk that overflows is the
file's shorter last one, which is when the reply is shorter than `4096 * (⌊M / 4096⌋ + 1)` bytes.
On such a stream every later `SendCommand` fails at its seek (`sendCommand_of_failed`).
-/

namespace QfsClient

namespace ApiImpl

variable {M : ℕ}

/-- `ApiImpl::Open`. -/
def openApi (host : Host) (api : ApiImpl) : Error × ApiImpl :=
  let (err, api) := if api.path.isEmpty then api.determinePath host else (getError .kSuccess .none, api)
  if err.code != .kSuccess then (err, api)
  else if api.file.isOpen then (getError .kSuccess .none, api)
  else
    let file := api.file.open host api.path
    (if file.fail then getError .kCantOpenApiFile (.text api.path) else getError .kSuccess .none,
      { api with file := file })

/-- `ApiImpl::Close`. -/
def close (api : ApiImpl) : ApiImpl :=
  if api.file.isOpen then { api with file := api.file.close } else api

/-- `ApiImpl::WriteCommand`. -/
def writeCommand (host : Host) (api : ApiImpl) (command : CommandBuffer M) : Error × ApiImpl :=
  if !api.file.isOpen then (getError .kApiFileNotOpen .none, api)
  else
    let file := api.file.seekp host
    if file.fail then (getError .kApiFileSeekFail (.text api.path), { api with file := file })
    else
      let file := file.write host command.data
      if file.fail then (getError .kApiFileWriteFail (.text api.path), { api with file := file })
      else
        let file := file.flush host
        if file.fail then (getError .kApiFileFlushFail (.text api.path), { api with file := file })
        else (getError .kSuccess .none, { api with file := file })

/-- The chunk size of `ReadResponse`. -/
def chunkSize : ℕ := 4096

/-- The `while (!file.eof())` loop of `ReadResponse`, with at most `fuel` reads; `none` when
the fuel runs out. It ends with the code to return, the stream, and the response buffer. -/
def readLoop (host : Host) (path : Bytes) :
    ℕ → FStream → CommandBuffer M → Option (Error × FStream × CommandBuffer M)
  | fuel, file, command =>
    if file.eof then some (getError .kSuccess .none, file, command)
    else
      match fuel with
      | 0 => none
      | fuel + 1 =>
        let (data, file) := file.read host chunkSize
        if file.fail && !file.eof then some (getError .kApiFileReadFail (.text path), file, command)
        else
          let (err, command) := command.append data
          if err != .kSuccess then some (getError err .none, file, command)
          else readLoop host path fuel file command

/-- `ApiImpl::ReadResponse`. -/
def readResponse (host : Host) (api : ApiImpl) (command : CommandBuffer M) :
    Error × ApiImpl × CommandBuffer M :=
  if !api.file.isOpen then (getError .kApiFileNotOpen .none, api, command)
  else
    let file := api.file.seekg host
    if file.fail then (getError .kApiFileSeekFail .none, { api with file := file }, command)
    else
      match readLoop host api.path (file.file.content.length + 1) file command.reset with
      | some (err, file, command) =>
        if err.code == .kSuccess then (err, { api with file := file.clear }, command)
        else (err, { api with file := file }, command)
      | none => (getError .kApiFileReadFail (.text api.path), { api with file := file }, command)

/-- `ApiImpl::SendCommand`. -/
def sendCommand (host : Host) (api : ApiImpl) (command response : CommandBuffer M) :
    Error × ApiImpl × CommandBuffer M :=
  let (err, api) := api.openApi host
  if err.code != .kSuccess then (err, api, response)
  else
    let (err, api) := api.writeCommand host command
    if err.code != .kSuccess then (err, api, response)
    else
      match api.sendTestHook with
      | some hookErr =>
        if hookErr.code != .kSuccess then (hookErr, api, response)
        else api.readResponse host response
      | none => api.readResponse host response

/-! ## The read loop -/

theorem read_of_good {host : Host} {s : FStream} (n : ℕ) (hopen : s.isOpen = true)
    (hgood : s.state = IoState.good) (hread : host.readOk s.pos = true) :
    s.read host n = ((s.file.content.drop s.pos).take n,
      { s with pos := s.pos + ((s.file.content.drop s.pos).take n).length,
               state := if ((s.file.content.drop s.pos).take n).length < n then ⟨true, true, false⟩
                 else s.state }) := by
  simp [FStream.read, FStream.good, hgood, hopen, hread]

/-- From a good stream at offset `pos`, with no read failing, the loop appends the rest of the
file to the buffer within `⌊(|content| - pos) / 4096⌋ + 1` reads. -/
theorem readLoop_appends_rest (host : Host) (path : Bytes) (hread : ∀ p, host.readOk p = true) :
    ∀ (fuel : ℕ) (file : FStream) (command : CommandBuffer M),
      file.isOpen = true → file.state = IoState.good →
      (file.file.content.length - file.pos) / chunkSize < fuel →
      command.data.length + (file.file.content.length - file.pos) ≤ M →
      ∃ file' command', readLoop host path fuel file command =
          some (getError .kSuccess .none, file', command') ∧
        command'.data = command.data ++ file.file.content.drop file.pos ∧
        file'.isOpen = true ∧ file'.file = file.file := by
  intro fuel
  induction fuel with
  | zero => exact fun _ _ _ _ hfuel _ ↦ absurd hfuel (Nat.not_lt_zero _)
  | succ fuel ih =>
    intro file command hopen hgood hfuel hfit
    have hchunk : ((file.file.content.drop file.pos).take chunkSize).length =
        min chunkSize (file.file.content.length - file.pos) := by
      simp
    have hfits : command.data.length + ((file.file.content.drop file.pos).take chunkSize).length ≤ M := by
      omega
    rw [readLoop, if_neg (by simp [FStream.eof, hgood, IoState.good]), read_of_good _ hopen hgood
      (hread _)]
    by_cases hlast : file.file.content.length - file.pos < chunkSize
    · have hend : ((file.file.content.drop file.pos).take chunkSize).length < chunkSize := by omega
      have hall : (file.file.content.drop file.pos).take chunkSize = file.file.content.drop file.pos :=
        List.take_of_length_le (by simp; omega)
      refine ⟨{ file with
          pos := file.pos + ((file.file.content.drop file.pos).take chunkSize).length
          state := ⟨true, true, false⟩ },
        (command.append ((file.file.content.drop file.pos).take chunkSize)).2, ?_, ?_, hopen, rfl⟩
      · simp only [hend, if_true, FStream.fail, FStream.eof, Bool.or_true, Bool.not_true,
          Bool.and_false, Bool.false_eq_true, if_false, CommandBuffer.append_fst_of_le hfits,
          bne_self_eq_false]
        rw [readLoop.eq_def]
        simp [FStream.eof]
      · rw [CommandBuffer.append_data_of_le hfits, hall]
    · have hfull : ¬((file.file.content.drop file.pos).take chunkSize).length < chunkSize := by omega
      simp only [hfull, if_false, FStream.fail, FStream.eof, hgood, IoState.good, Bool.or_false,
        Bool.false_and, Bool.false_eq_true, CommandBuffer.append_fst_of_le hfits, bne_self_eq_false]
      obtain ⟨file', command', hloop, hdata, hopen', hfile'⟩ := ih
        { file with
          pos := file.pos + ((file.file.content.drop file.pos).take chunkSize).length
          state := IoState.good }
        (command.append ((file.file.content.drop file.pos).take chunkSize)).2 hopen rfl
        (by simp only [chunkSize] at hchunk hlast hfuel ⊢; omega)
        (by rw [CommandBuffer.append_data_of_le hfits]; simp only [List.length_append]; omega)
      refine ⟨file', command', hloop, ?_, hopen', hfile'⟩
      rw [hdata, CommandBuffer.append_data_of_le hfits, List.append_assoc, hchunk, Nat.min_eq_left (by omega),
        ← List.drop_drop, List.take_append_drop]

/-- The bound of `readLoop_overflow`, one whole chunk further on. -/
theorem chunk_bound_succ {room rest : ℕ} (hroom : chunkSize ≤ room) :
    chunkSize * ((room - chunkSize) / chunkSize + 1) ≤ rest - chunkSize ↔
      chunkSize * (room / chunkSize + 1) ≤ rest := by
  simp only [chunkSize] at hroom ⊢
  omega

/-- From a good stream with more file left than the buffer holds, the loop stops with
`kBufferTooBig` at the chunk that overflows: the stream is good after a whole chunk, with
`eofbit` and `failbit` after a short one. -/
theorem readLoop_overflow (host : Host) (path : Bytes) (hread : ∀ p, host.readOk p = true) :
    ∀ (fuel : ℕ) (file : FStream) (command : CommandBuffer M),
      file.isOpen = true → file.state = IoState.good →
      (file.file.content.length - file.pos) / chunkSize < fuel →
      M < command.data.length + (file.file.content.length - file.pos) →
      ∃ file' command', readLoop host path fuel file command =
          some (getError .kBufferTooBig .none, file', command') ∧
        file'.isOpen = true ∧ file'.file = file.file ∧
        file'.state = (if chunkSize * ((M - command.data.length) / chunkSize + 1) ≤
          file.file.content.length - file.pos then IoState.good else ⟨true, true, false⟩) ∧
        command'.data = command.data ++ (file.file.content.drop file.pos).take
          (chunkSize * ((M - command.data.length) / chunkSize)) := by
  intro fuel
  induction fuel with
  | zero => exact fun _ _ _ _ hfuel _ ↦ absurd hfuel (Nat.not_lt_zero _)
  | succ fuel ih =>
    intro file command hopen hgood hfuel hlong
    have hchunk : ((file.file.content.drop file.pos).take chunkSize).length =
        min chunkSize (file.file.content.length - file.pos) := by
      simp
    have hroom := command.size_le
    rw [readLoop, if_neg (by simp [FStream.eof, hgood, IoState.good]), read_of_good _ hopen hgood
      (hread _)]
    by_cases hfits :
        command.data.length + ((file.file.content.drop file.pos).take chunkSize).length ≤ M
    · have hwhole : ((file.file.content.drop file.pos).take chunkSize).length = chunkSize ∧
          chunkSize ≤ file.file.content.length - file.pos := by
        rw [hchunk] at hfits ⊢
        omega
      clear hchunk
      simp only [hwhole.1, lt_self_iff_false, if_false, FStream.fail, FStream.eof, hgood,
        IoState.good, Bool.or_false, Bool.false_and, Bool.false_eq_true,
        CommandBuffer.append_fst_of_le hfits, bne_self_eq_false]
      obtain ⟨file', command', hloop, hopen', hfile', hstate, hdata⟩ := ih
        { file with pos := file.pos + chunkSize, state := IoState.good }
        (command.append ((file.file.content.drop file.pos).take chunkSize)).2 hopen rfl
        (by rw [Nat.sub_add_eq]; simp only [chunkSize] at hwhole hfuel ⊢; omega)
        (by dsimp only; rw [CommandBuffer.append_data_of_le hfits, List.length_append, hwhole.1]; omega)
      rw [CommandBuffer.append_data_of_le hfits, List.length_append, hwhole.1] at hstate hdata
      dsimp only at hstate hdata
      have hround : (M - command.data.length) / chunkSize =
          (M - (command.data.length + chunkSize)) / chunkSize + 1 := by
        rw [hwhole.1] at hfits
        simp only [chunkSize] at hfits ⊢
        omega
      refine ⟨file', command', hloop, hopen', hfile', hstate.trans (if_congr ?_ rfl rfl), ?_⟩
      · rw [Nat.sub_add_eq, Nat.sub_add_eq]
        exact chunk_bound_succ (by omega)
      · have htake : ∀ q, (file.file.content.drop file.pos).take (chunkSize * (q + 1)) =
            (file.file.content.drop file.pos).take chunkSize ++
              (file.file.content.drop (file.pos + chunkSize)).take (chunkSize * q) := fun q ↦ by
          rw [Nat.mul_add_one, Nat.add_comm, List.take_add, List.drop_drop, Nat.add_comm]
        rw [hdata, hround, htake, List.append_assoc]
    · have hzero : (M - command.data.length) / chunkSize = 0 := by
        rw [hchunk] at hfits
        exact Nat.div_eq_of_lt (by simp only [chunkSize] at hfits ⊢; omega)
      simp only [hzero, Nat.zero_add, Nat.mul_one, Nat.mul_zero, List.take_zero, List.append_nil]
      by_cases hlast : ((file.file.content.drop file.pos).take chunkSize).length < chunkSize
      · have hrest : file.file.content.length - file.pos < chunkSize := by
          rw [hchunk] at hlast
          omega
        simp only [hlast, if_true, FStream.fail, FStream.eof, Bool.or_true, Bool.not_true,
          Bool.and_false, Bool.false_eq_true, if_false, CommandBuffer.append_of_lt (not_le.mp hfits)]
        exact ⟨_, command, rfl, hopen, rfl, by rw [if_neg (by omega)], rfl⟩
      · simp only [hlast, if_false, FStream.fail, FStream.eof, hgood, IoState.good, Bool.or_false,
          Bool.false_and, Bool.false_eq_true, CommandBuffer.append_of_lt (not_le.mp hfits)]
        refine ⟨_, command, rfl, hopen, rfl, (if_pos ?_).symm, rfl⟩
        rw [hchunk] at hlast
        omega

/-- The loop never runs out of fuel before it ends: a round either ends it or takes a whole
chunk, whatever the host does. So the fuel `readResponse` gives never runs out. -/
theorem readLoop_isSome (host : Host) (path : Bytes) :
    ∀ (fuel : ℕ) (file : FStream) (command : CommandBuffer M),
      (file.file.content.length - file.pos) / chunkSize < fuel →
      (readLoop host path fuel file command).isSome := by
  intro fuel
  induction fuel with
  | zero => exact fun _ _ hfuel ↦ absurd hfuel (Nat.not_lt_zero _)
  | succ fuel ih =>
    intro file command hfuel
    rw [readLoop]
    by_cases heof : file.eof = true
    · simp [heof]
    have heof' : file.state.eof = false := by simpa [FStream.eof] using heof
    simp only [heof, Bool.false_eq_true, if_false]
    by_cases hgood : file.good = true
    · by_cases hok : (file.isOpen && host.readOk file.pos) = true
      · simp only [FStream.read, hgood, hok, Bool.not_true, Bool.false_eq_true, if_false]
        by_cases hlast : ((file.file.content.drop file.pos).take chunkSize).length < chunkSize
        · simp only [hlast, if_true, FStream.fail, FStream.eof, Bool.or_true, Bool.not_true,
            Bool.and_false, Bool.false_eq_true, if_false]
          split
          · rfl
          · rw [readLoop.eq_def]; simp [FStream.eof]
        · have hfull : chunkSize ≤ file.file.content.length - file.pos := by
            simp at hlast; omega
          simp only [hlast, if_false]
          split
          · rfl
          · split
            · rfl
            · exact ih _ _ (by simp only [List.length_take, List.length_drop] at hlast ⊢
                               simp only [chunkSize] at hfull hfuel hlast ⊢; omega)
      · simp [FStream.read, hgood, hok, FStream.fail, FStream.setBad, FStream.eof, heof']
    · simp [FStream.read, hgood, FStream.fail, FStream.setFail, FStream.eof, heof']

/-- When the loop returns `kSuccess` from a good stream, it has appended the rest of the file to
the buffer, whatever the host does: a failed read ends it with `kApiFileReadFail`, and a chunk
that does not fit with `kBufferTooBig`. -/
theorem readLoop_success (host : Host) (path : Bytes) :
    ∀ (fuel : ℕ) (file : FStream) (command : CommandBuffer M) (r : Error × FStream × CommandBuffer M),
      file.state = IoState.good → readLoop host path fuel file command = some r →
      r.1.code = .kSuccess → r.2.2.data = command.data ++ file.file.content.drop file.pos := by
  intro fuel
  induction fuel with
  | zero =>
    intro file command r hgood h _
    simp [readLoop, FStream.eof, hgood] at h
  | succ fuel ih =>
    intro file command r hgood h hok
    rw [readLoop, if_neg (by simp [FStream.eof, hgood])] at h
    by_cases hread : (file.isOpen && host.readOk file.pos) = true
    swap
    · simp only [FStream.read, FStream.good, hgood, decide_True, Bool.not_true, Bool.false_eq_true,
        if_false, hread, Bool.not_false, if_true, FStream.setBad, FStream.fail, FStream.eof,
        IoState.good, Bool.or_true, Bool.and_self, Option.some.injEq] at h
      rw [← h] at hok
      cases hok
    obtain ⟨hopen, hreadOk⟩ := Bool.and_eq_true_iff.mp hread
    rw [read_of_good _ hopen hgood hreadOk] at h
    have hchunk : ((file.file.content.drop file.pos).take chunkSize).length =
        min chunkSize (file.file.content.length - file.pos) := by
      simp
    by_cases hfits :
        command.data.length + ((file.file.content.drop file.pos).take chunkSize).length ≤ M
    swap
    · simp only [FStream.fail, FStream.eof, CommandBuffer.append_of_lt (not_le.mp hfits),
        show (ErrorCode.kBufferTooBig != .kSuccess) = true from rfl, if_true] at h
      split_ifs at h <;> (rw [← Option.some.inj h] at hok; cases hok)
    by_cases hlast : ((file.file.content.drop file.pos).take chunkSize).length < chunkSize
    · simp only [hlast, if_true, FStream.fail, FStream.eof, Bool.or_true, Bool.not_true,
        Bool.and_false, Bool.false_eq_true, if_false, CommandBuffer.append_of_le hfits,
        bne_self_eq_false] at h
      rw [readLoop.eq_def] at h
      simp only [FStream.eof, if_true, Option.some.injEq] at h
      rw [← h]
      exact congrArg (command.data ++ ·) (List.take_of_length_le (by rw [hchunk] at hlast; simp; omega))
    · simp only [hlast, if_false, FStream.fail, FStream.eof, hgood, IoState.good, Bool.or_false,
        Bool.false_and, Bool.false_eq_true, CommandBuffer.append_of_le hfits, bne_self_eq_false] at h
      rw [ih _ _ r rfl h hok, List.append_assoc, hchunk, Nat.min_eq_left (by omega),
        ← List.drop_drop, List.take_append_drop]

/-- A `ReadResponse` that returns `kSuccess` has read the whole api file into the buffer. -/
theorem readResponse_success {host : Host} {api : ApiImpl} {command : CommandBuffer M}
    (h : (readResponse host api command).1.code = .kSuccess) :
    (readResponse host api command).2.2.data = api.file.file.content := by
  revert h
  unfold readResponse
  by_cases hopen : api.file.isOpen = true
  swap
  · simp [hopen]
  by_cases hfail : (api.file.seekg host).fail = true
  · simp [hopen, hfail]
  obtain ⟨hgood, hpos⟩ := FStream.seekg_of_not_fail (Bool.eq_false_iff.mpr hfail)
  simp only [hopen, Bool.not_true, Bool.false_eq_true, if_false, hfail]
  split
  · next err file response hloop =>
    split_ifs with hsucc
    · intro _
      have hdata := readLoop_success host api.path _ _ _ _ hgood hloop (by simpa using hsucc)
      rwa [hpos, CommandBuffer.reset_data, List.nil_append, List.drop_zero,
        FStream.seekg_file] at hdata
    · exact fun h ↦ absurd h (by simpa using hsucc)
  · simp

/-- A `WriteCommand` that returns `kSuccess` has written its command, so the api file holds the
daemon's answer to it. -/
theorem writeCommand_success {host : Host} {api : ApiImpl} {command : CommandBuffer M}
    (h : (api.writeCommand host command).1.code = .kSuccess) :
    (api.writeCommand host command).2.file.file.content = host.respond command.data := by
  revert h
  unfold writeCommand
  by_cases hopen : api.file.isOpen = true
  swap
  · simp [hopen]
  by_cases hseek : (api.file.seekp host).fail = true
  · simp [hopen, hseek]
  by_cases hwrite : ((api.file.seekp host).write host command.data).fail = true
  · simp [hopen, hseek, hwrite]
  have hcontent := FStream.write_content_of_not_fail (Bool.eq_false_iff.mpr hwrite)
  simp only [hopen, hseek, hwrite, Bool.not_true, Bool.false_eq_true, if_false]
  split_ifs <;> simp [hcontent]

/-- A `SendCommand` that returns `kSuccess` has written its command and read back the daemon's
whole answer to it, whatever the host and the state of the handle. -/
theorem sendCommand_success {host : Host} {api : ApiImpl} {command response : CommandBuffer M}
    (h : (api.sendCommand host command response).1.code = .kSuccess) :
    (api.sendCommand host command response).2.2.data = host.respond command.data := by
  revert h
  unfold sendCommand
  rcases api.openApi host with ⟨err, api₁⟩
  dsimp only
  split_ifs with h₁ h₂
  · exact fun h ↦ absurd h (by simpa using h₁)
  · exact fun h ↦ absurd h (by simpa using h₂)
  have hcontent := @writeCommand_success M host api₁ command (by simpa using h₂)
  split
  · split_ifs with h₃
    · exact fun h ↦ absurd h (by simpa using h₃)
    · exact fun h ↦ (readResponse_success h).trans hcontent
  · exact fun h ↦ (readResponse_success h).trans hcontent

/-- A host on which every operation succeeds and the daemon answers `ok` to any command. -/
def quietHost : Host :=
  ⟨some [chr '/'], fun _ ↦ none, fun _ ↦ true, true, true, true, fun _ ↦ true, fun _ ↦ ascii "ok", [],
    .added⟩

/-- A handle whose stream is open and good on an api file holding `ok`. -/
def openHandle : ApiImpl := ⟨ascii "/api", kInodeIdApi, none, ⟨true, IoState.good, 0, ⟨[], ascii "ok"⟩⟩⟩

theorem readLoop_isSome_openHandle :
    (openHandle.file.file.content.length - openHandle.file.pos) / chunkSize <
        openHandle.file.file.content.length + 1 ∧
      (readLoop quietHost openHandle.path (openHandle.file.file.content.length + 1) openHandle.file
        (CommandBuffer.empty 2)).isSome :=
  ⟨by decide, readLoop_isSome quietHost openHandle.path _ _ _ (by decide)⟩

/-- `ReadResponse` on an open stream that has not failed, with the seek and reads succeeding and
a file that fits: it returns `kSuccess` with the file's content, and leaves the stream open and
good. -/
theorem readResponse_of_fits (host : Host) (api : ApiImpl) (command : CommandBuffer M)
    (hopen : api.file.isOpen = true) (hfail : api.file.fail = false) (hseek : host.seekOk = true)
    (hread : ∀ p, host.readOk p = true) (hfit : api.file.file.content.length ≤ M) :
    ∃ file response, readResponse host api command =
        (getError .kSuccess .none, { api with file := file }, response) ∧
      response.data = api.file.file.content ∧ file.isOpen = true ∧ file.state = IoState.good ∧
      file.file = api.file.file := by
  have hseekg := FStream.seekg_of_ok hopen hfail hseek
  obtain ⟨file, response, hloop, hdata, hopen', hfile⟩ := readLoop_appends_rest host api.path hread
    (api.file.file.content.length + 1) (api.file.seekg host) command.reset
    (by simp [hseekg, hopen]) (by simp [hseekg]) (by simp [hseekg, chunkSize]; omega)
    (by simpa [hseekg] using hfit)
  refine ⟨file.clear, response, ?_, by simpa [hseekg] using hdata, hopen', rfl,
    by simp [FStream.clear, hfile, hseekg]⟩
  simp only [readResponse, hopen, Bool.not_true, Bool.false_eq_true, if_false]
  rw [hseekg] at hloop ⊢
  simp [hloop, FStream.fail]

/-- `ReadResponse` on an open stream that has not failed, with the seek and reads succeeding and
a file longer than the buffer: `kBufferTooBig` with the whole chunks that fit, and the stream as
`readLoop_overflow` leaves it. -/
theorem readResponse_overflow (host : Host) (api : ApiImpl) (command : CommandBuffer M)
    (hopen : api.file.isOpen = true) (hfail : api.file.fail = false) (hseek : host.seekOk = true)
    (hread : ∀ p, host.readOk p = true) (hlong : M < api.file.file.content.length) :
    ∃ file response, readResponse host api command =
        (getError .kBufferTooBig .none, { api with file := file }, response) ∧
      file.isOpen = true ∧ file.file = api.file.file ∧
      file.state = (if chunkSize * (M / chunkSize + 1) ≤ api.file.file.content.length
        then IoState.good else ⟨true, true, false⟩) ∧
      response.data = api.file.file.content.take (chunkSize * (M / chunkSize)) := by
  have hseekg := FStream.seekg_of_ok hopen hfail hseek
  obtain ⟨file, response, hloop, hopen', hfile, hstate, hdata⟩ := readLoop_overflow host api.path
    hread (api.file.file.content.length + 1) (api.file.seekg host) command.reset
    (by simp [hseekg, hopen]) (by simp [hseekg]) (by simp [hseekg, chunkSize]; omega)
    (by simpa [hseekg] using hlong)
  refine ⟨file, response, ?_, hopen', by simp [hfile, hseekg], by simpa [hseekg] using hstate,
    by simpa [hseekg] using hdata⟩
  simp only [readResponse, hopen, Bool.not_true, Bool.false_eq_true, if_false]
  rw [hseekg] at hloop ⊢
  simp [hloop, FStream.fail]

/-- `ReadResponse` on an open stream that has not failed, with the seek and reads succeeding and
a file that fits: the loop ends within `⌊|content| / 4096⌋ + 1` reads, and the buffer holds
exactly the file's content. -/
theorem readResponse_reads_content (host : Host) (api : ApiImpl) (command : CommandBuffer M)
    (hopen : api.file.isOpen = true) (hfail : api.file.fail = false) (hseek : host.seekOk = true)
    (hread : ∀ p, host.readOk p = true) (hfit : api.file.file.content.length ≤ M) :
    (readLoop host api.path (api.file.file.content.length / chunkSize + 1) (api.file.seekg host)
        (CommandBuffer.empty M)).isSome ∧
      (readResponse host api command).1.code = .kSuccess ∧
      (readResponse host api command).2.2.data = api.file.file.content := by
  have hseekg := FStream.seekg_of_ok hopen hfail hseek
  obtain ⟨file, command', hloop, -, -, -⟩ := readLoop_appends_rest host api.path hread
    (api.file.file.content.length / chunkSize + 1) (api.file.seekg host) (CommandBuffer.empty M)
    (by simp [hseekg, hopen]) (by simp [hseekg]) (by simp [hseekg]) (by simpa [hseekg] using hfit)
  obtain ⟨file', response, hresp, hdata, -⟩ :=
    readResponse_of_fits host api command hopen hfail hseek hread hfit
  exact ⟨by simp [hloop], by simp [hresp], by rw [hresp, hdata]⟩

theorem readResponse_reads_ok :
    (openHandle.file.isOpen = true ∧ openHandle.file.fail = false ∧ quietHost.seekOk = true ∧
      (∀ p, quietHost.readOk p = true) ∧ openHandle.file.file.content.length ≤ 2) ∧
    ((readLoop quietHost openHandle.path (openHandle.file.file.content.length / chunkSize + 1)
        (openHandle.file.seekg quietHost) (CommandBuffer.empty 2)).isSome ∧
      (readResponse quietHost openHandle (CommandBuffer.empty 2)).1.code = .kSuccess ∧
      (readResponse quietHost openHandle (CommandBuffer.empty 2)).2.2.data = ascii "ok") :=
  ⟨⟨rfl, rfl, rfl, fun _ ↦ rfl, by decide⟩,
    readResponse_reads_content quietHost openHandle (CommandBuffer.empty 2) rfl rfl rfl
      (fun _ ↦ rfl) (by decide)⟩

/-! ## What a call does to the handle -/

/-- `WriteCommand` changes only the stream. -/
theorem writeCommand_snd (host : Host) (api : ApiImpl) (command : CommandBuffer M) :
    ∃ file, (api.writeCommand host command).2 = { api with file := file } := by
  dsimp only [writeCommand]
  split_ifs <;> exact ⟨_, rfl⟩

/-- `ReadResponse` changes only the stream. -/
theorem readResponse_snd (host : Host) (api : ApiImpl) (command : CommandBuffer M) :
    ∃ file, (api.readResponse host command).2.1 = { api with file := file } := by
  dsimp only [readResponse]
  split_ifs
  · exact ⟨_, rfl⟩
  · exact ⟨_, rfl⟩
  · split
    · split_ifs <;> exact ⟨_, rfl⟩
    · exact ⟨_, rfl⟩

/-- `Open` changes the stream, and the path only on a handle that has none, to the one
`DeterminePath` records. -/
theorem openApi_snd (host : Host) (api : ApiImpl) :
    ∃ file, (api.openApi host).2 =
      { (if api.path.isEmpty then (api.determinePath host).2 else api) with file := file } := by
  rcases hdp : (if api.path.isEmpty then api.determinePath host else (getError .kSuccess .none, api))
    with ⟨err, api₁⟩
  have hapi₁ : api₁ = (if api.path.isEmpty then (api.determinePath host).2 else api) := by
    split_ifs at hdp ⊢
    · rw [hdp]
    · exact (Prod.mk.inj hdp).2.symm
  subst hapi₁
  simp only [openApi, hdp]
  split_ifs <;> exact ⟨_, rfl⟩

/-- `SendCommand` leaves the handle as `Open` leaves it, but for the stream. -/
theorem sendCommand_snd (host : Host) (api : ApiImpl) (command response : CommandBuffer M) :
    ∃ file, (api.sendCommand host command response).2.1 = { (api.openApi host).2 with file := file } := by
  rcases hopen : api.openApi host with ⟨err₁, api₁⟩
  rcases hwrite : api₁.writeCommand host command with ⟨err₂, api₂⟩
  obtain ⟨file₂, hfile₂⟩ := writeCommand_snd host api₁ command
  rw [hwrite] at hfile₂
  subst hfile₂
  obtain ⟨file₃, hfile₃⟩ := readResponse_snd host { api₁ with file := file₂ } response
  simp only [sendCommand, hopen, hwrite]
  split_ifs
  · exact ⟨_, rfl⟩
  · exact ⟨_, rfl⟩
  · split
    · split_ifs
      · exact ⟨_, rfl⟩
      · exact ⟨file₃, hfile₃⟩
    · exact ⟨file₃, hfile₃⟩

/-! ## What a call writes to the api file -/

theorem readLoop_file (host : Host) (path : Bytes) :
    ∀ (fuel : ℕ) (file : FStream) (command : CommandBuffer M) {r : Error × FStream × CommandBuffer M},
      readLoop host path fuel file command = some r → r.2.1.file = file.file := by
  intro fuel
  induction fuel with
  | zero =>
    intro file command r h
    rw [readLoop] at h
    split_ifs at h
    cases h
    rfl
  | succ fuel ih =>
    intro file command r h
    rw [readLoop] at h
    have hread := FStream.read_file host file chunkSize
    revert h hread
    generalize file.read host chunkSize = p
    obtain ⟨data, file'⟩ := p
    intro h hread
    split_ifs at h
    · cases h
      rfl
    dsimp only at h hread
    split_ifs at h
    · cases h
      exact hread
    · cases h
      exact hread
    · exact (ih _ _ h).trans hread

/-- `ReadResponse` reads the api file and writes nothing to it. -/
theorem readResponse_file (host : Host) (api : ApiImpl) (command : CommandBuffer M) :
    (api.readResponse host command).2.1.file.file = api.file.file := by
  dsimp only [readResponse]
  split_ifs
  · rfl
  · simp
  · split
    · rename_i heq
      have := readLoop_file host api.path _ _ _ heq
      split_ifs <;> simpa using this
    · simp

/-- `WriteCommand` writes its command to the api file, or writes nothing. -/
theorem writeCommand_file (host : Host) (api : ApiImpl) (command : CommandBuffer M) :
    (api.writeCommand host command).2.file.file = api.file.file ∨
      (api.writeCommand host command).2.file.file =
        ⟨command.data :: api.file.file.received, host.respond command.data⟩ := by
  dsimp only [writeCommand]
  rcases FStream.write_file host (api.file.seekp host) command.data with h | h <;>
  split_ifs <;> simp [h]

/-- `Open` writes nothing to the api file. -/
theorem openApi_file (host : Host) (api : ApiImpl) :
    (api.openApi host).2.file.file = api.file.file := by
  rcases hdp : (if api.path.isEmpty then api.determinePath host else (getError .kSuccess .none, api))
    with ⟨err, api₁⟩
  have hfile₁ : api₁.file = api.file := by
    split_ifs at hdp
    · rcases determinePath_cases host api with ⟨-, path, h⟩ | ⟨-, h⟩ <;>
        rw [hdp] at h <;> dsimp only at h <;> rw [h]
    · exact congrArg ApiImpl.file (Prod.mk.inj hdp).2.symm
  simp only [openApi, hdp]
  split_ifs <;> simp [hfile₁]

/-- `SendCommand` writes its command to the api file once, or writes nothing. -/
theorem sendCommand_received (host : Host) (api : ApiImpl) (command response : CommandBuffer M) :
    (api.sendCommand host command response).2.1.file.file.received = api.file.file.received ∨
      (api.sendCommand host command response).2.1.file.file.received =
        command.data :: api.file.file.received := by
  rcases hopen : api.openApi host with ⟨err₁, api₁⟩
  have h₁ : api₁.file.file = api.file.file := by rw [← openApi_file host api, hopen]
  rcases hwrite : api₁.writeCommand host command with ⟨err₂, api₂⟩
  have h₂ : api₂.file.file.received = api.file.file.received ∨
      api₂.file.file.received = command.data :: api.file.file.received := by
    rcases writeCommand_file host api₁ command with h | h <;> rw [hwrite] at h <;> dsimp only at h <;>
      simp [h, h₁]
  have h₃ := readResponse_file host api₂ response
  simp only [sendCommand, hopen, hwrite]
  split_ifs
  · exact .inl (by rw [h₁])
  · exact h₂
  · split
    · split_ifs
      · exact h₂
      · rwa [h₃]
    · rwa [h₃]

/-! ## Exchanges on a host without faults -/

/-- A host on which the api file at `path` opens and every seek, write, flush and read
succeeds. -/
structure FaultFree (host : Host) (path : Bytes) : Prop where
  opens : host.opens path = true
  seekOk : host.seekOk = true
  writeOk : host.writeOk = true
  flushOk : host.flushOk = true
  readOk : ∀ p, host.readOk p = true

/-- The state the spec expects between two calls: an open stream has its state flags clear. -/
def StateClear (api : ApiImpl) : Prop := api.file.isOpen = true → api.file.state = IoState.good

instance : DecidablePred StateClear := fun api ↦
  inferInstanceAs (Decidable (api.file.isOpen = true → api.file.state = IoState.good))

theorem openApi_of_faultFree (host : Host) (api : ApiImpl) (hpath : api.path ≠ [])
    (hff : FaultFree host api.path) (hclear : StateClear api) :
    ∃ file, api.openApi host = (getError .kSuccess .none, { api with file := file }) ∧
      file.isOpen = true ∧ file.state = IoState.good ∧ file.file = api.file.file := by
  have hne : api.path.isEmpty = false := by simpa using hpath
  by_cases hopen : api.file.isOpen = true
  · exact ⟨api.file, by simp [openApi, hne, hopen], hopen, hclear hopen, rfl⟩
  · refine ⟨{ api.file with isOpen := true, state := IoState.good, pos := 0 }, ?_, rfl, rfl, rfl⟩
    simp [openApi, hne, hopen, FStream.open, hff.opens, FStream.fail]

theorem writeCommand_of_good (host : Host) (api : ApiImpl) (command : CommandBuffer M)
    (hopen : api.file.isOpen = true) (hgood : api.file.state = IoState.good)
    (hff : FaultFree host api.path) :
    api.writeCommand host command = (getError .kSuccess .none,
      { api with file := { api.file with
          pos := command.data.length
          file := ⟨command.data :: api.file.file.received, host.respond command.data⟩ } }) := by
  simp [writeCommand, FStream.seekp, FStream.write, FStream.flush, FStream.fail, FStream.good,
    hopen, hgood, hff.seekOk, hff.writeOk, hff.flushOk]

/-- `SendCommand` from a clear state, on a host without faults and with a reply that fits the
buffer: it returns `kSuccess` with the reply to its own command, and leaves the stream open and
good. -/
theorem sendCommand_of_faultFree (host : Host) (api : ApiImpl) (command response : CommandBuffer M)
    (hpath : api.path ≠ []) (hff : FaultFree host api.path) (hclear : StateClear api)
    (hhook : api.sendTestHook = none) (hfit : (host.respond command.data).length ≤ M) :
    ∃ file response', api.sendCommand host command response =
        (getError .kSuccess .none, { api with file := file }, response') ∧
      response'.data = host.respond command.data ∧ file.isOpen = true ∧
      file.state = IoState.good ∧
      file.file = ⟨command.data :: api.file.file.received, host.respond command.data⟩ := by
  obtain ⟨file₁, hopen₁, hisOpen₁, hgood₁, hfile₁⟩ := openApi_of_faultFree host api hpath hff hclear
  have hwrite := writeCommand_of_good host { api with file := file₁ } command hisOpen₁ hgood₁ hff
  obtain ⟨file₂, response', hread, hdata, hisOpen₂, hgood₂, hfile₂⟩ := readResponse_of_fits host
    { api with file := { file₁ with
        pos := command.data.length
        file := ⟨command.data :: file₁.file.received, host.respond command.data⟩ } }
    response hisOpen₁ (by simp [FStream.fail, hgood₁]) hff.seekOk hff.readOk hfit
  refine ⟨file₂, response', ?_, hdata, hisOpen₂, hgood₂, by rw [hfile₂, hfile₁]⟩
  simp only [sendCommand, hopen₁, getError_code, bne_self_eq_false, Bool.false_eq_true, if_false,
    hwrite]
  simpa only [hhook] using hread

/-- `SendCommand` from a clear state, on a host without faults, with a reply longer than the
buffer: `kBufferTooBig` with the whole chunks that fit, and the stream open, as
`readLoop_overflow` leaves it. -/
theorem sendCommand_of_overflow (host : Host) (api : ApiImpl) (command response : CommandBuffer M)
    (hpath : api.path ≠ []) (hff : FaultFree host api.path) (hclear : StateClear api)
    (hhook : api.sendTestHook = none) (hlong : M < (host.respond command.data).length) :
    ∃ file response', api.sendCommand host command response =
        (getError .kBufferTooBig .none, { api with file := file }, response') ∧
      response'.data = (host.respond command.data).take (chunkSize * (M / chunkSize)) ∧
      file.isOpen = true ∧
      file.state = (if chunkSize * (M / chunkSize + 1) ≤ (host.respond command.data).length
        then IoState.good else ⟨true, true, false⟩) ∧
      file.file = ⟨command.data :: api.file.file.received, host.respond command.data⟩ := by
  obtain ⟨file₁, hopen₁, hisOpen₁, hgood₁, hfile₁⟩ := openApi_of_faultFree host api hpath hff hclear
  have hwrite := writeCommand_of_good host { api with file := file₁ } command hisOpen₁ hgood₁ hff
  obtain ⟨file₂, response', hread, hisOpen₂, hfile₂, hstate, hdata⟩ := readResponse_overflow host
    { api with file := { file₁ with
        pos := command.data.length
        file := ⟨command.data :: file₁.file.received, host.respond command.data⟩ } }
    response hisOpen₁ (by simp [FStream.fail, hgood₁]) hff.seekOk hff.readOk hlong
  refine ⟨file₂, response', ?_, hdata, hisOpen₂, hstate, by rw [hfile₂, hfile₁]⟩
  simp only [sendCommand, hopen₁, getError_code, bne_self_eq_false, Bool.false_eq_true, if_false,
    hwrite]
  simpa only [hhook] using hread

/-- `SendCommand` on a host without faults, with a reply longer than the buffer, returns
`kBufferTooBig` and keeps the stream open: good when the reply has at least
`4096 * (⌊M / 4096⌋ + 1)` bytes, else with `eofbit` and `failbit`. -/
theorem sendCommand_overflow (host : Host) (api : ApiImpl) (command response : CommandBuffer M)
    (hpath : api.path ≠ []) (hff : FaultFree host api.path) (hclear : StateClear api)
    (hhook : api.sendTestHook = none) (hlong : M < (host.respond command.data).length) :
    (api.sendCommand host command response).1.code = .kBufferTooBig ∧
      (api.sendCommand host command response).2.1.file.isOpen = true ∧
      (api.sendCommand host command response).2.1.file.state =
        if chunkSize * (M / chunkSize + 1) ≤ (host.respond command.data).length then IoState.good
        else ⟨true, true, false⟩ := by
  obtain ⟨file, response', hsend, -, hisOpen, hstate, -⟩ :=
    sendCommand_of_overflow host api command response hpath hff hclear hhook hlong
  rw [hsend]
  exact ⟨rfl, hisOpen, hstate⟩

theorem sendCommand_overflow_quietHost :
    (openHandle.path ≠ [] ∧ FaultFree quietHost openHandle.path ∧ StateClear openHandle ∧
      openHandle.sendTestHook = none ∧ 1 < (quietHost.respond [7]).length) ∧
    ((openHandle.sendCommand quietHost (⟨[7], by decide⟩ : CommandBuffer 1)
          (CommandBuffer.empty 1)).1.code = .kBufferTooBig ∧
      (openHandle.sendCommand quietHost (⟨[7], by decide⟩ : CommandBuffer 1)
          (CommandBuffer.empty 1)).2.1.file.isOpen = true ∧
      (openHandle.sendCommand quietHost (⟨[7], by decide⟩ : CommandBuffer 1)
          (CommandBuffer.empty 1)).2.1.file.state =
        if chunkSize * (1 / chunkSize + 1) ≤ (quietHost.respond [7]).length then IoState.good
        else ⟨true, true, false⟩) :=
  have hff : FaultFree quietHost openHandle.path := ⟨rfl, rfl, rfl, rfl, fun _ ↦ rfl⟩
  ⟨⟨by decide, hff, by decide, rfl, by decide⟩,
    sendCommand_overflow quietHost openHandle ⟨[7], by decide⟩ (CommandBuffer.empty 1) (by decide)
      hff (by decide) rfl (by decide)⟩

/-! ## A stream that has failed -/

/-- `Open` on a handle with a path and an open stream does nothing. -/
theorem openApi_of_open (host : Host) (api : ApiImpl) (hpath : api.path ≠ [])
    (hopen : api.file.isOpen = true) : api.openApi host = (getError .kSuccess .none, api) := by
  have hne : api.path.isEmpty = false := by simpa using hpath
  simp [openApi, hne, hopen]

/-- `SendCommand` on a handle whose open stream has failed, on any host: `Open` does nothing, the
seek of `WriteCommand` fails at once, and the call returns `kApiFileSeekFail` with the handle
and the response buffer as they were, having written nothing. -/
theorem sendCommand_of_failed (host : Host) (api : ApiImpl) (command response : CommandBuffer M)
    (hpath : api.path ≠ []) (hopen : api.file.isOpen = true) (hfail : api.file.fail = true) :
    api.sendCommand host command response =
      (getError .kApiFileSeekFail (.text api.path), api, response) := by
  simp [sendCommand, openApi_of_open host api hpath hopen, writeCommand, hopen, FStream.seekp,
    hfail]

end ApiImpl

end QfsClient
