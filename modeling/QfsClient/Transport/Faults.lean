import QfsClient.Transport.ControlChannel

/-!
# Exchanges on a host with faults

What `Open`, `WriteCommand`, `ReadResponse` and `SendCommand` do from the state the spec expects
on any host, where opening the api file, a seek, the write, the flush or any read may fail.
Every outcome leaves the stream in one of two states: ready (closed, or open with its state
flags clear) or stuck (open with `failbit` or `badbit` set). Only a `ReadResponse` that succeeds
clears the state flags, so a call that fails at a seek, at the write, at the flush or at a read
always leaves the stream stuck (`sendCommand_outcome`).
-/

namespace QfsClient

/-- The codes of a seek, a write, a flush or a read of the api file that failed. -/
def ErrorCode.isIoFault : ErrorCode → Bool
  | .kApiFileSeekFail | .kApiFileWriteFail | .kApiFileFlushFail | .kApiFileReadFail => true
  | _ => false

theorem ErrorCode.ne_kSuccess_of_isIoFault {c : ErrorCode} (h : c.isIoFault = true) :
    c ≠ .kSuccess := by
  rintro rfl
  cases h

namespace ApiImpl

variable {M : ℕ}

theorem read_of_fault {host : Host} {s : FStream} (n : ℕ) (hgood : s.state = IoState.good)
    (hfault : host.readOk s.pos = false) : s.read host n = ([], s.setBad) := by
  simp [FStream.read, FStream.good, hgood, hfault]

/-- The read loop from an open good stream, on any host, ends within its fuel: in success with
the stream open, with `kBufferTooBig` and the stream good or failed, or with a failed read. -/
theorem readLoop_outcome (host : Host) (path : Bytes) :
    ∀ (fuel : ℕ) (file : FStream) (command : CommandBuffer M),
      file.isOpen = true → file.state = IoState.good →
      (file.file.content.length - file.pos) / chunkSize < fuel →
      ∃ err file' command', readLoop host path fuel file command = some (err, file', command') ∧
        file'.isOpen = true ∧
        (err.code = .kSuccess ∨
          err.code = .kBufferTooBig ∧ (file'.state = IoState.good ∨ file'.fail = true) ∨
          err.code.isIoFault = true ∧ file'.fail = true) := by
  intro fuel
  induction fuel with
  | zero => exact fun _ _ _ _ hfuel ↦ absurd hfuel (Nat.not_lt_zero _)
  | succ fuel ih =>
    intro file command hopen hgood hfuel
    rw [readLoop, if_neg (by simp [FStream.eof, hgood, IoState.good])]
    cases hok : host.readOk file.pos with
    | false =>
      rw [read_of_fault _ hgood hok]
      simp only [FStream.setBad, FStream.fail, FStream.eof, hgood, IoState.good, Bool.or_true,
        Bool.not_false, Bool.and_self, if_true]
      exact ⟨_, _, _, rfl, hopen, .inr (.inr ⟨rfl, rfl⟩)⟩
    | true =>
      rw [read_of_good _ hopen hgood hok]
      by_cases hlast : ((file.file.content.drop file.pos).take chunkSize).length < chunkSize
      · simp only [hlast, if_true, FStream.fail, FStream.eof, Bool.or_true, Bool.not_true,
          Bool.and_false, Bool.false_eq_true, if_false]
        by_cases hfits :
            command.data.length + ((file.file.content.drop file.pos).take chunkSize).length ≤ M
        · simp only [CommandBuffer.append_fst_of_le hfits, bne_self_eq_false, Bool.false_eq_true,
            if_false]
          rw [readLoop.eq_def]
          exact ⟨_, _, _, rfl, hopen, .inl rfl⟩
        · simp only [CommandBuffer.append_of_lt (not_le.mp hfits)]
          exact ⟨_, _, _, rfl, hopen, .inr (.inl ⟨rfl, .inr rfl⟩)⟩
      · have hwhole : ((file.file.content.drop file.pos).take chunkSize).length = chunkSize :=
          le_antisymm (List.length_take_le _ _) (not_lt.mp hlast)
        simp only [hwhole, lt_self_iff_false, if_false, FStream.fail, FStream.eof, hgood,
          IoState.good, Bool.or_false, Bool.false_and, Bool.false_eq_true]
        by_cases hfits :
            command.data.length + ((file.file.content.drop file.pos).take chunkSize).length ≤ M
        · simp only [CommandBuffer.append_fst_of_le hfits, bne_self_eq_false, Bool.false_eq_true,
            if_false]
          refine ih _ _ hopen rfl ?_
          have hrest : chunkSize ≤ file.file.content.length - file.pos := by
            rw [List.length_take, List.length_drop] at hwhole
            omega
          dsimp only
          rw [Nat.sub_add_eq]
          simp only [chunkSize] at hrest hfuel ⊢
          omega
        · simp only [CommandBuffer.append_of_lt (not_le.mp hfits)]
          exact ⟨_, _, _, rfl, hopen, .inr (.inl ⟨rfl, .inl rfl⟩)⟩

/-- `ReadResponse` on an open good stream, on any host: the stream stays open, and it is good
after a success, good or failed after `kBufferTooBig`, and failed after a failed seek or read. -/
theorem readResponse_outcome (host : Host) (api : ApiImpl) (command : CommandBuffer M)
    (hopen : api.file.isOpen = true) (hgood : api.file.state = IoState.good) :
    ∃ err file response, api.readResponse host command = (err, { api with file := file }, response) ∧
      file.isOpen = true ∧
      (err.code = .kSuccess ∧ file.state = IoState.good ∨
        err.code = .kBufferTooBig ∧ (file.state = IoState.good ∨ file.fail = true) ∨
        err.code.isIoFault = true ∧ file.fail = true) := by
  simp only [readResponse, hopen, Bool.not_true, Bool.false_eq_true, if_false]
  cases hseek : host.seekOk with
  | false =>
    have hfail : (api.file.seekg host).fail = true := by
      simp [FStream.seekg, FStream.fail, FStream.setFail, hgood, hseek]
    rw [if_pos hfail]
    exact ⟨_, _, _, rfl, by simp [FStream.seekg, FStream.setFail, FStream.fail, hgood, hseek, hopen],
      .inr (.inr ⟨rfl, hfail⟩)⟩
  | true =>
    have hseekg := FStream.seekg_of_ok hopen (by simp [FStream.fail, hgood]) hseek
    rw [hseekg]
    obtain ⟨err, file', command', hloop, hopen', hcases⟩ := readLoop_outcome host api.path
      (api.file.file.content.length + 1) { api.file with state := IoState.good, pos := 0 }
      command.reset hopen rfl (by simp only [chunkSize]; omega)
    rw [if_neg (by simp [FStream.fail]), hloop]
    dsimp only
    rcases hcases with hsuccess | hoverflow | hfault
    · rw [if_pos (by simp [hsuccess])]
      exact ⟨_, _, _, rfl, hopen', .inl ⟨hsuccess, rfl⟩⟩
    · rw [if_neg (by simp [hoverflow.1])]
      exact ⟨_, _, _, rfl, hopen', .inr (.inl hoverflow)⟩
    · rw [if_neg (by simpa using ErrorCode.ne_kSuccess_of_isIoFault hfault.1)]
      exact ⟨_, _, _, rfl, hopen', .inr (.inr hfault)⟩

/-- `WriteCommand` on an open good stream, on any host: the stream stays open, good after a
success and failed after a failed seek, write or flush. -/
theorem writeCommand_outcome (host : Host) (api : ApiImpl) (command : CommandBuffer M)
    (hopen : api.file.isOpen = true) (hgood : api.file.state = IoState.good) :
    ∃ err file, api.writeCommand host command = (err, { api with file := file }) ∧
      file.isOpen = true ∧
      (err.code = .kSuccess ∧ file.state = IoState.good ∨ err.code.isIoFault = true ∧ file.fail = true) := by
  cases hseek : host.seekOk <;> cases hwrite : host.writeOk <;> cases hflush : host.flushOk <;>
    simp [writeCommand, FStream.seekp, FStream.write, FStream.flush, FStream.fail, FStream.good,
      FStream.setFail, FStream.setBad, hopen, hgood, hseek, hwrite, hflush, ErrorCode.isIoFault,
      and_assoc, exists_and_left, exists_eq_left']

/-- `Open` from the state the spec expects, on a handle with a path and any host: it succeeds
with the stream open and good, or fails with `kCantOpenApiFile` and the stream closed. -/
theorem openApi_outcome (host : Host) (api : ApiImpl) (hpath : api.path ≠ [])
    (hclear : StateClear api) :
    ∃ err file, api.openApi host = (err, { api with file := file }) ∧
      (err.code = .kSuccess ∧ file.isOpen = true ∧ file.state = IoState.good ∨
        err.code = .kCantOpenApiFile ∧ file.isOpen = false) := by
  have hne : api.path.isEmpty = false := by simpa using hpath
  by_cases hopen : api.file.isOpen = true
  · exact ⟨getError .kSuccess .none, api.file, by simp [openApi, hne, hopen],
      .inl ⟨rfl, hopen, hclear hopen⟩⟩
  · have hclosed : api.file.isOpen = false := by simpa using hopen
    cases hopens : host.opens api.path <;>
      simp [openApi, hne, hclosed, hopens, FStream.open, FStream.fail, FStream.setFail, and_assoc,
        exists_and_left, exists_eq_left']

/-- `SendCommand` from the state the spec expects, on any host: it changes only the stream,
leaves it ready or stuck, and leaves it stuck when it fails at a seek, the write, the flush or a
read. -/
theorem sendCommand_outcome (host : Host) (api : ApiImpl) (command response : CommandBuffer M)
    (hpath : api.path ≠ []) (hclear : StateClear api) (hhook : api.sendTestHook = none) :
    ∃ file, (api.sendCommand host command response).2.1 = { api with file := file } ∧
      ((file.isOpen = true → file.state = IoState.good) ∨ file.isOpen = true ∧ file.fail = true) ∧
      ((api.sendCommand host command response).1.code.isIoFault = true →
        file.isOpen = true ∧ file.fail = true) := by
  obtain ⟨err₁, file₁, hopen₁, hcases₁⟩ := openApi_outcome host api hpath hclear
  rcases hcases₁ with ⟨hsuccess₁, hisOpen₁, hgood₁⟩ | ⟨hfail₁, hclosed₁⟩
  · obtain ⟨err₂, file₂, hwrite₂, hisOpen₂, hcases₂⟩ :=
      writeCommand_outcome host { api with file := file₁ } command hisOpen₁ hgood₁
    rcases hcases₂ with ⟨hsuccess₂, hgood₂⟩ | ⟨hfault₂, hfail₂⟩
    · obtain ⟨err₃, file₃, response₃, hread₃, hisOpen₃, hcases₃⟩ :=
        readResponse_outcome host { api with file := file₂ } response hisOpen₂ hgood₂
      have hsend : api.sendCommand host command response =
          (err₃, { api with file := file₃ }, response₃) := by
        unfold sendCommand
        rw [hopen₁]
        dsimp only
        rw [if_neg (by simp [hsuccess₁]), hwrite₂]
        dsimp only
        rw [if_neg (by simp [hsuccess₂])]
        simpa only [hhook] using hread₃
      rw [hsend]
      refine ⟨file₃, rfl, ?_, fun hfault ↦ ⟨hisOpen₃, ?_⟩⟩
      · rcases hcases₃ with ⟨-, hgood₃⟩ | ⟨-, hgood₃ | hfail₃⟩ | ⟨-, hfail₃⟩
        · exact .inl fun _ ↦ hgood₃
        · exact .inl fun _ ↦ hgood₃
        · exact .inr ⟨hisOpen₃, hfail₃⟩
        · exact .inr ⟨hisOpen₃, hfail₃⟩
      · rcases hcases₃ with ⟨hcode, -⟩ | ⟨hcode, -⟩ | ⟨-, hfail₃⟩
        · simp [hcode, ErrorCode.isIoFault] at hfault
        · simp [hcode, ErrorCode.isIoFault] at hfault
        · exact hfail₃
    · have hne := ErrorCode.ne_kSuccess_of_isIoFault hfault₂
      have hsend : api.sendCommand host command response = (err₂, { api with file := file₂ }, response) := by
        unfold sendCommand
        rw [hopen₁]
        dsimp only
        rw [if_neg (by simp [hsuccess₁]), hwrite₂]
        dsimp only
        rw [if_pos (by simpa using hne)]
      rw [hsend]
      exact ⟨file₂, rfl, .inr ⟨hisOpen₂, hfail₂⟩, fun _ ↦ ⟨hisOpen₂, hfail₂⟩⟩
  · have hsend : api.sendCommand host command response = (err₁, { api with file := file₁ }, response) := by
      unfold sendCommand
      rw [hopen₁]
      dsimp only
      rw [if_pos (by simp [hfail₁])]
    rw [hsend]
    exact ⟨file₁, rfl, .inl fun h ↦ absurd h (by simp [hclosed₁]), fun h ↦ by
      simp [hfail₁, ErrorCode.isIoFault] at h⟩

end ApiImpl

end QfsClient
