import QfsClient.Basic

/-!
# CommandBuffer

`CommandBuffer` holds the bytes of a command to send or of a response read back
(`qfs_client_implementation.cc`, lines 32-75). `Append` inserts at the end of the vector and
answers `kBufferTooBig` when the insertion throws. An insertion at the end has the strong
guarantee, so a failed `Append` leaves the buffer as it was. The bound `M` stands for the
largest size the vector can reach; the structure carries `data.length ≤ M`.

The second half runs any sequence of `Reset`, `Append` and `CopyString` from a fresh buffer
and shows that its content is, after every call, the concatenation of the blocks that the
successful calls added since the last `Reset` or `CopyString`.
-/

namespace QfsClient

structure CommandBuffer (M : ℕ) where
  data : Bytes
  size_le : data.length ≤ M

namespace CommandBuffer

variable {M : ℕ}

/-- `CommandBuffer::CommandBuffer()`. -/
def empty (M : ℕ) : CommandBuffer M := ⟨[], Nat.zero_le M⟩

/-- `CommandBuffer::Size`. -/
def size (b : CommandBuffer M) : ℕ := b.data.length

/-- `CommandBuffer::Reset`. -/
def reset (_ : CommandBuffer M) : CommandBuffer M := empty M

/-- `CommandBuffer::Append`. -/
def append (b : CommandBuffer M) (bytes : Bytes) : ErrorCode × CommandBuffer M :=
  if h : b.data.length + bytes.length ≤ M then
    (.kSuccess, ⟨b.data ++ bytes, by simpa using h⟩)
  else (.kBufferTooBig, b)

/-- `CommandBuffer::CopyString`: clear the vector, then append the string and its
terminator. -/
def copyString (b : CommandBuffer M) (s : CStr) : ErrorCode × CommandBuffer M :=
  b.reset.append (s.bytes ++ [0])

@[simp]
theorem empty_data : (empty M).data = [] := rfl

@[simp]
theorem reset_data (b : CommandBuffer M) : b.reset.data = [] := rfl

/-- A buffer is its bytes. -/
@[ext]
theorem ext {a b : CommandBuffer M} (h : a.data = b.data) : a = b := by
  cases a
  cases b
  cases h
  rfl

theorem append_of_le {b : CommandBuffer M} {bytes : Bytes} (h : b.data.length + bytes.length ≤ M) :
    b.append bytes = (.kSuccess, ⟨b.data ++ bytes, by simpa using h⟩) := dif_pos h

theorem append_of_lt {b : CommandBuffer M} {bytes : Bytes} (h : M < b.data.length + bytes.length) :
    b.append bytes = (.kBufferTooBig, b) := dif_neg (by omega)

@[simp]
theorem append_fst_of_le {b : CommandBuffer M} {bytes : Bytes} (h : b.data.length + bytes.length ≤ M) :
    (b.append bytes).1 = .kSuccess := by
  rw [append_of_le h]

@[simp]
theorem append_data_of_le {b : CommandBuffer M} {bytes : Bytes} (h : b.data.length + bytes.length ≤ M) :
    (b.append bytes).2.data = b.data ++ bytes := by
  rw [append_of_le h]

/-- Everything `Append` can do: add the whole block and succeed, or fail at the bound and
change nothing. -/
theorem append_cases (b : CommandBuffer M) (bytes : Bytes) :
    (b.append bytes).1 = .kSuccess ∧ (b.append bytes).2.data = b.data ++ bytes ∨
      (b.append bytes).1 = .kBufferTooBig ∧ (b.append bytes).2 = b := by
  unfold append
  split <;> simp

theorem append_eq_self_of_fail {b : CommandBuffer M} {bytes : Bytes}
    (h : (b.append bytes).1 = .kBufferTooBig) : (b.append bytes).2 = b := by
  rcases append_cases b bytes with ⟨hs, -⟩ | ⟨-, he⟩
  · simp [hs] at h
  · exact he

/-- `CopyString` of a string too long for the buffer fails and leaves the buffer empty, since it
clears the buffer before the append that fails. -/
theorem copyString_of_lt {b : CommandBuffer M} {s : CStr} (h : M < s.bytes.length + 1) :
    b.copyString s = (.kBufferTooBig, empty M) := by
  rw [copyString, append_of_lt (by simpa using h)]
  rfl

/-- What `CopyString` leaves in the buffer: the string and its terminator when they fit, and
nothing otherwise. -/
theorem copyString_data (b : CommandBuffer M) (s : CStr) :
    (b.copyString s).2.data = if s.bytes.length + 1 ≤ M then s.bytes ++ [0] else [] := by
  by_cases h : s.bytes.length + 1 ≤ M
  · rw [if_pos h, copyString, append_data_of_le (by simpa using h)]
    simp
  · rw [if_neg h, copyString, append_of_lt (by simp; omega)]
    rfl

/-! ## Runs of buffer operations -/

inductive BufferOp
  | reset
  | append (bytes : Bytes)
  | copyString (s : CStr)

/-- The bytes an operation adds when it succeeds. -/
def BufferOp.block : BufferOp → Bytes
  | .reset => []
  | .append bytes => bytes
  | .copyString s => s.bytes ++ [0]

/-- `Reset` and `CopyString` start the content afresh. -/
def BufferOp.restarts : BufferOp → Bool
  | .append _ => false
  | _ => true

/-- One call. `Reset` returns nothing and cannot fail; it answers `kSuccess` here. -/
def step (b : CommandBuffer M) : BufferOp → ErrorCode × CommandBuffer M
  | .reset => (.kSuccess, b.reset)
  | .append bytes => b.append bytes
  | .copyString s => b.copyString s

/-- The buffer after a run, and each operation with the code it returned. -/
def run (b : CommandBuffer M) (ops : List BufferOp) :
    CommandBuffer M × List (BufferOp × ErrorCode) :=
  ops.foldl (fun acc op ↦ ((step acc.1 op).2, acc.2 ++ [(op, (step acc.1 op).1)])) (b, [])

@[simp]
theorem run_nil (b : CommandBuffer M) : run b [] = (b, []) := rfl

theorem run_append_singleton (b : CommandBuffer M) (ops : List BufferOp) (op : BufferOp) :
    run b (ops ++ [op]) =
      ((step (run b ops).1 op).2, (run b ops).2 ++ [(op, (step (run b ops).1 op).1)]) := by
  simp [run, List.foldl_append]

/-- The part of a trace from its last `Reset` or `CopyString` on, or all of it when it has
none. -/
def sinceRestart : List (BufferOp × ErrorCode) → List (BufferOp × ErrorCode)
  | [] => []
  | e :: rest => if rest.any (·.1.restarts) then sinceRestart rest else e :: rest

/-- What a buffer should hold after a sequence of calls: the bytes that the calls returning
`kSuccess` since the last `Reset` or `CopyString` added, in order. -/
def expectedData (trace : List (BufferOp × ErrorCode)) : Bytes :=
  ((sinceRestart trace).filter (·.2 == .kSuccess)).flatMap (·.1.block)

theorem sinceRestart_append_singleton (trace : List (BufferOp × ErrorCode))
    (e : BufferOp × ErrorCode) :
    sinceRestart (trace ++ [e]) = if e.1.restarts then [e] else sinceRestart trace ++ [e] := by
  induction trace with
  | nil => cases h : e.1.restarts <;> simp [sinceRestart]
  | cons x trace ih =>
    rw [List.cons_append, sinceRestart, ih, List.any_append]
    cases h : e.1.restarts <;> cases ht : trace.any (·.1.restarts) <;> simp [h, ht, sinceRestart]

/-- One step of the refinement: the content after a call, from the content before. -/
theorem step_data (b : CommandBuffer M) (op : BufferOp) :
    (step b op).2.data =
      if op.restarts then (if (step b op).1 = .kSuccess then op.block else [])
      else if (step b op).1 = .kSuccess then b.data ++ op.block else b.data := by
  cases op with
  | reset => simp [step, BufferOp.restarts, BufferOp.block]
  | append bytes =>
    rcases append_cases b bytes with ⟨hs, hd⟩ | ⟨hf, he⟩
    · simp [step, BufferOp.restarts, BufferOp.block, hs, hd]
    · simp [step, BufferOp.restarts, hf, he]
  | copyString s =>
    rcases append_cases b.reset (s.bytes ++ [0]) with ⟨hs, hd⟩ | ⟨hf, he⟩
    · simp [step, copyString, BufferOp.restarts, BufferOp.block, hs, hd]
    · simp [step, copyString, BufferOp.restarts, hf, he]

theorem expectedData_append_singleton (trace : List (BufferOp × ErrorCode))
    (e : BufferOp × ErrorCode) :
    expectedData (trace ++ [e]) =
      if e.1.restarts then (if e.2 = .kSuccess then e.1.block else [])
      else if e.2 = .kSuccess then expectedData trace ++ e.1.block else expectedData trace := by
  rw [expectedData, sinceRestart_append_singleton]
  split <;> split <;> simp_all [expectedData, List.filter_append]

/-- `CommandBuffer` refines its specification: after any sequence of calls from a fresh buffer,
it holds the blocks the successful calls added since the last `Reset` or `CopyString`, within
its bound, and a failed `Append` changes nothing. -/
theorem run_data_eq_expectedData (ops : List BufferOp) :
    (run (empty M) ops).1.data = expectedData (run (empty M) ops).2 ∧
      (run (empty M) ops).1.size = (expectedData (run (empty M) ops).2).length ∧
      (run (empty M) ops).1.size ≤ M ∧
      (run (empty M) ops).2.map Prod.fst = ops ∧
      ∀ (b : CommandBuffer M) (bytes : Bytes),
        (b.append bytes).1 = .kBufferTooBig → (b.append bytes).2 = b := by
  have hdata : ∀ ops : List BufferOp,
      (run (empty M) ops).1.data = expectedData (run (empty M) ops).2 := by
    intro ops
    induction ops using List.reverseRecOn with
    | nil => rfl
    | append_singleton ops op ih =>
      rw [run_append_singleton, expectedData_append_singleton, step_data, ih]
  have hops : ∀ ops : List BufferOp, (run (empty M) ops).2.map Prod.fst = ops := by
    intro ops
    induction ops using List.reverseRecOn with
    | nil => rfl
    | append_singleton ops op ih => simp [run_append_singleton, ih]
  exact ⟨hdata ops, congrArg List.length (hdata ops), (run (empty M) ops).1.size_le, hops ops,
    fun _ _ ↦ append_eq_self_of_fail⟩

end CommandBuffer

end QfsClient
