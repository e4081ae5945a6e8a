import QfsClient.Basic

/-!
# The host and the file stream

The client reaches the api file through the C library and a `std::fstream`. `Host` is what
the operating system answers during one API call: the working directory, `lstat`, whether a
path opens, whether a seek, a write or a flush succeeds, whether a read at an offset succeeds,
and what the api file holds once a command has been written to it. It also holds two things the
C++ leaves to the platform: the bytes memory holds after a buffer's data, which `json_loads`
reads when the buffer holds no 0 byte, and the order in which a `std::unordered_map` is
iterated (`IterationOrder`). Every theorem quantifies over hosts, which covers every file
system, every behaviour of the quantumfs daemon and every such choice; a host for each call
covers a daemon whose answers change over time.

`FStream` is the member `file`: whether it is open, its state flags, its position, and the api
file behind it. Its operations follow the C++11 rules of `basic_fstream`: a successful `open`
clears the state, `close` keeps the state flags, `seekp` does nothing on a failed stream,
`seekg` first clears `eofbit`, and `write` and `read` build a sentry that fails on a stream
that is not good. The api file records the commands written to it, newest first.
-/

namespace QfsClient

inductive FileType
  | regular
  | directory
  | symlink
  | charDevice
  | blockDevice
  | fifo
  | socket
  deriving DecidableEq

/-- The fields of `struct stat` the client reads. -/
structure Stat where
  mode : FileType
  ino : UInt64

/-- The order in which a `std::unordered_map<std::string, bool>` is iterated: each element once,
in an order the standard leaves to the implementation. The map is the list of its elements in
the order they were added. -/
structure IterationOrder where
  visit : List (Bytes × Bool) → List (Bytes × Bool)
  perm : ∀ m, (visit m).Perm m

/-- Iteration in the order the elements were added. -/
def IterationOrder.added : IterationOrder := ⟨id, List.Perm.refl⟩

structure Host where
  getcwd : Option Bytes
  lstat : Bytes → Option Stat
  opens : Bytes → Bool
  seekOk : Bool
  writeOk : Bool
  flushOk : Bool
  readOk : ℕ → Bool
  respond : Bytes → Bytes
  pastEnd : Bytes
  mapOrder : IterationOrder

/-- `std::ios_base::iostate`. -/
structure IoState where
  eof : Bool
  fail : Bool
  bad : Bool
  deriving DecidableEq

/-- The state of a good stream, the one `clear()` sets. -/
def IoState.good : IoState := ⟨false, false, false⟩

@[simp]
theorem IoState.good_eof : IoState.good.eof = false := rfl

@[simp]
theorem IoState.good_fail : IoState.good.fail = false := rfl

@[simp]
theorem IoState.good_bad : IoState.good.bad = false := rfl

structure ApiFile where
  received : List Bytes
  content : Bytes

structure FStream where
  isOpen : Bool
  state : IoState
  pos : ℕ
  file : ApiFile

namespace FStream

/-- `fail()`: `failbit` or `badbit`. -/
def fail (s : FStream) : Bool := s.state.fail || s.state.bad

/-- `eof()`. -/
def eof (s : FStream) : Bool := s.state.eof

/-- `good()`. -/
def good (s : FStream) : Bool := s.state = IoState.good

/-- `setstate(failbit)`. -/
def setFail (s : FStream) : FStream := { s with state := { s.state with fail := true } }

/-- `setstate(badbit)`. -/
def setBad (s : FStream) : FStream := { s with state := { s.state with bad := true } }

/-- `clear()`. -/
def clear (s : FStream) : FStream := { s with state := IoState.good }

/-- `open(path, in | out | binary)`: it fails on a stream already open. -/
def «open» (host : Host) (path : Bytes) (s : FStream) : FStream :=
  if !s.isOpen && host.opens path then { s with isOpen := true, state := IoState.good, pos := 0 }
  else s.setFail

/-- `close()`. -/
def close (s : FStream) : FStream := if s.isOpen then { s with isOpen := false } else s.setFail

/-- `seekp(0)`. -/
def seekp (host : Host) (s : FStream) : FStream :=
  if s.fail then s else if s.isOpen && host.seekOk then { s with pos := 0 } else s.setFail

/-- `seekg(0)`. -/
def seekg (host : Host) (s : FStream) : FStream :=
  let s := { s with state := { s.state with eof := false } }
  if s.fail then s else if s.isOpen && host.seekOk then { s with pos := 0 } else s.setFail

/-- `write(data, size)`. -/
def write (host : Host) (bytes : Bytes) (s : FStream) : FStream :=
  if !s.good then s.setFail
  else if s.isOpen && host.writeOk then
    { s with pos := s.pos + bytes.length, file := ⟨bytes :: s.file.received, host.respond bytes⟩ }
  else s.setBad

/-- `flush()`. -/
def flush (host : Host) (s : FStream) : FStream :=
  if !s.good then s else if host.flushOk then s else s.setBad

/-- `read(data, n)`: the bytes read, whose length is `gcount()`, and the stream after. -/
def read (host : Host) (n : ℕ) (s : FStream) : Bytes × FStream :=
  if !s.good then ([], s.setFail)
  else if !(s.isOpen && host.readOk s.pos) then ([], s.setBad)
  else
    let chunk := (s.file.content.drop s.pos).take n
    (chunk, { s with pos := s.pos + chunk.length,
                     state := if chunk.length < n then ⟨true, true, false⟩ else s.state })

/-! ### The api file behind the stream: only a write changes it -/

section File

variable (host : Host) (s : FStream)

@[simp]
theorem open_file (path : Bytes) : (s.open host path).file = s.file := by
  unfold FStream.open setFail
  split_ifs <;> rfl

@[simp]
theorem close_file : s.close.file = s.file := by
  unfold close setFail
  split_ifs <;> rfl

@[simp]
theorem seekp_file : (s.seekp host).file = s.file := by
  unfold seekp setFail
  split_ifs <;> rfl

@[simp]
theorem seekg_file : (s.seekg host).file = s.file := by
  dsimp only [seekg, setFail]
  split_ifs <;> rfl

@[simp]
theorem flush_file : (s.flush host).file = s.file := by
  unfold flush setBad
  split_ifs <;> rfl

@[simp]
theorem read_file (n : ℕ) : (s.read host n).2.file = s.file := by
  unfold read setFail setBad
  split_ifs <;> rfl

@[simp]
theorem clear_file : s.clear.file = s.file := rfl

/-- A write records its bytes and the daemon's answer to them, or changes nothing. -/
theorem write_file (bytes : Bytes) :
    (s.write host bytes).file = s.file ∨
      (s.write host bytes).file = ⟨bytes :: s.file.received, host.respond bytes⟩ := by
  unfold write setFail setBad
  split_ifs
  exacts [.inl rfl, .inr rfl, .inl rfl]

end File

theorem seekg_of_ok {host : Host} {s : FStream} (hopen : s.isOpen = true) (hfail : s.fail = false)
    (hseek : host.seekOk = true) : s.seekg host = { s with state := IoState.good, pos := 0 } := by
  simp only [fail, Bool.or_eq_false_iff] at hfail
  simp [seekg, fail, hfail, hopen, hseek, IoState.good]

/-- A `seekg` that leaves neither `failbit` nor `badbit` set rewinds to a good stream. -/
theorem seekg_of_not_fail {host : Host} {s : FStream} (h : (s.seekg host).fail = false) :
    (s.seekg host).state = IoState.good ∧ (s.seekg host).pos = 0 := by
  dsimp only [seekg, setFail] at h ⊢
  split_ifs at h ⊢ <;> simp_all [fail, IoState.good]

/-- A `write` that leaves neither `failbit` nor `badbit` set has written its bytes, and the api
file holds the daemon's answer to them. -/
theorem write_content_of_not_fail {host : Host} {s : FStream} {bytes : Bytes}
    (h : (s.write host bytes).fail = false) : (s.write host bytes).file.content = host.respond bytes := by
  unfold write setFail setBad at *
  split_ifs at h ⊢ <;> simp_all [fail]

end FStream

end QfsClient
