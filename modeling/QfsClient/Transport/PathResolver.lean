import QfsClient.Error
import QfsClient.Transport.Host

/-!
# The handle and the search for the api file

`ApiImpl` holds the api file's path, the inode number the api file must have, the test hook
and the stream. When the path is not known, `DeterminePath` walks from the working directory
up to the root and stops at the first directory holding an entry `api` that is a regular file
or a symbolic link with the api inode number (`qfs_client_implementation.cc`, lines 219-269).

`util::Split` and `util::Join` are not among the sources. They are modelled from the spec, as
cutting a path into its segments between `/`s and joining segments with `/`.

The main result, `determinePath_eq_find`, says which candidate the walk returns: over any file
system, the deepest qualifying one, and the path is left alone when none qualifies.
-/

namespace QfsClient

/-- `kApiPath`. -/
def kApiPath : Bytes := ascii "api"

/-- `kInodeIdApi`. -/
def kInodeIdApi : UInt64 := 2

structure ApiImpl where
  path : Bytes
  apiInodeId : UInt64
  sendTestHook : Option Error
  file : FStream

namespace ApiImpl

/-- A default-constructed `std::fstream` on the api file: closed and good. -/
def closedStream (file : ApiFile) : FStream := ⟨false, IoState.good, 0, file⟩

/-- `ApiImpl::ApiImpl()`. -/
def new (file : ApiFile) : ApiImpl := ⟨[], kInodeIdApi, none, closedStream file⟩

/-- `ApiImpl::ApiImpl(const char *path)`. -/
def ofPath (path : CStr) (file : ApiFile) : ApiImpl := ⟨path.bytes, kInodeIdApi, none, closedStream file⟩

/-- `util::Split(str, "/", &tokens)`, modelled from the spec: the segments between `/`s, the
empty ones left out. -/
def split (s : Bytes) : List Bytes := (s.splitOn (chr '/')).filter (!·.isEmpty)

/-- `util::Join(tokens, "/", &str)`, modelled from the spec. -/
def join (segments : List Bytes) : Bytes := [chr '/'].intercalate segments

/-- The path probed for `directories`: `"/" + path + "/" + kApiPath`. -/
def candidate (directories : List Bytes) : Bytes := chr '/' :: join directories ++ chr '/' :: kApiPath

/-- The test of the loop: `lstat` succeeded, the entry is a regular file or a symbolic link,
and its inode number is the api's. -/
def isApiFile (apiInodeId : UInt64) : Option Stat → Bool
  | some st => (st.mode == .regular || st.mode == .symlink) && st.ino == apiInodeId
  | none => false

/-- The `while (true)` loop of `DeterminePath`: the path found, or `none` once the root has
been probed. -/
def determinePathLoop (lstat : Bytes → Option Stat) (apiInodeId : UInt64)
    (directories : List Bytes) : Option Bytes :=
  if isApiFile apiInodeId (lstat (candidate directories)) then some (candidate directories)
  else if directories.isEmpty then none
  else determinePathLoop lstat apiInodeId directories.dropLast
termination_by directories.length
decreasing_by
  simp_wf
  cases directories <;> simp_all

/-- `ApiImpl::DeterminePath`. -/
def determinePath (host : Host) (api : ApiImpl) : Error × ApiImpl :=
  match host.getcwd with
  | none => (getError .kDontKnowCwd .none, api)
  | some cwd =>
    match determinePathLoop host.lstat api.apiInodeId (split cwd) with
    | some path => (getError .kSuccess (.text path), { api with path := path })
    | none => (getError .kCantFindApiFile (.text cwd), api)

/-- Whatever the walk returns is one of its candidates. -/
theorem determinePathLoop_candidate (lstat : Bytes → Option Stat) (apiInodeId : UInt64)
    (directories : List Bytes) {path : Bytes}
    (h : determinePathLoop lstat apiInodeId directories = some path) :
    ∃ dirs, path = candidate dirs := by
  induction directories using determinePathLoop.induct lstat apiInodeId with
  | case1 dirs hq =>
    rw [determinePathLoop, if_pos hq] at h
    exact ⟨dirs, (Option.some.inj h).symm⟩
  | case2 dirs hq he =>
    rw [determinePathLoop, if_neg hq, if_pos he] at h
    cases h
  | case3 dirs hq he ih =>
    rw [determinePathLoop, if_neg hq, if_neg he] at h
    exact ih h

/-- Everything `DeterminePath` does to the handle, on any host: it records a path that starts
with `/` and succeeds, or it fails and leaves the handle as it was. -/
theorem determinePath_cases (host : Host) (api : ApiImpl) :
    ((api.determinePath host).1.code = .kSuccess ∧
        ∃ path, (api.determinePath host).2 = { api with path := chr '/' :: path }) ∨
      ((api.determinePath host).1.code ≠ .kSuccess ∧ (api.determinePath host).2 = api) := by
  unfold determinePath
  cases host.getcwd with
  | none => simp
  | some cwd =>
    cases hloop : determinePathLoop host.lstat api.apiInodeId (split cwd) with
    | none => simp [hloop]
    | some path =>
      obtain ⟨dirs, rfl⟩ := determinePathLoop_candidate _ _ _ hloop
      simp only [hloop]
      exact .inl ⟨rfl, _, rfl⟩

/-! ## What the walk finds -/

/-- The largest level `k ≤ n` with `q k`. -/
def lastLevel (q : ℕ → Bool) : ℕ → Option ℕ
  | 0 => if q 0 then some 0 else none
  | n + 1 => if q (n + 1) then some (n + 1) else lastLevel q n

theorem lastLevel_eq_some {q : ℕ → Bool} {n k : ℕ} :
    lastLevel q n = some k ↔ k ≤ n ∧ q k ∧ ∀ j, k < j → j ≤ n → q j = false := by
  induction n with
  | zero =>
    constructor
    · intro hs
      by_cases h : q 0 <;> simp only [lastLevel, h, if_true, Option.some.injEq, reduceCtorEq,
        Bool.false_eq_true, if_false] at hs
      subst hs
      exact ⟨le_rfl, h, fun j hj hj' ↦ absurd hj (by omega)⟩
    · rintro ⟨hk, hq, -⟩
      obtain rfl : k = 0 := by omega
      simp [lastLevel, hq]
  | succ n ih =>
    by_cases h : q (n + 1)
    · simp only [lastLevel, h, if_true, Option.some.injEq]
      constructor
      · rintro rfl; exact ⟨le_rfl, h, fun j hj hj' ↦ absurd hj' (by omega)⟩
      · rintro ⟨hk, hq, hmax⟩
        by_contra hne
        exact absurd (hmax (n + 1) (by omega) le_rfl) (by simp [h])
    · simp only [lastLevel, h, if_false, Bool.false_eq_true, ih]
      constructor
      · rintro ⟨hk, hq, hmax⟩
        refine ⟨by omega, hq, fun j hj hj' ↦ ?_⟩
        rcases Nat.lt_or_ge j (n + 1) with hlt | hge
        · exact hmax j hj (by omega)
        · simpa [show j = n + 1 by omega] using h
      · rintro ⟨hk, hq, hmax⟩
        have hkn : k ≤ n := by
          by_contra hgt
          exact h (by simpa [show k = n + 1 by omega] using hq)
        exact ⟨hkn, hq, fun j hj hj' ↦ hmax j hj (by omega)⟩

theorem lastLevel_eq_none {q : ℕ → Bool} {n : ℕ} :
    lastLevel q n = none ↔ ∀ k ≤ n, q k = false := by
  induction n with
  | zero => by_cases h : q 0 <;> simp [lastLevel, h]
  | succ n ih =>
    by_cases h : q (n + 1)
    · simp only [lastLevel, h, if_true, reduceCtorEq, false_iff, not_forall]
      exact ⟨n + 1, le_rfl, by simp [h]⟩
    · simp only [lastLevel, h, if_false, Bool.false_eq_true, ih]
      constructor
      · intro hall k hk
        rcases Nat.lt_or_ge k (n + 1) with hlt | hge
        · exact hall k (by omega)
        · simpa [show k = n + 1 by omega] using h
      · exact fun hall k hk ↦ hall k (by omega)

/-- One round of the loop: the directories are a prefix of the working directory's
segments, and a round drops one. -/
theorem determinePathLoop_take (lstat : Bytes → Option Stat) (apiInodeId : UInt64)
    (dirs : List Bytes) {k : ℕ} (hk : k ≤ dirs.length) :
    determinePathLoop lstat apiInodeId (dirs.take k) =
      (lastLevel (fun j ↦ isApiFile apiInodeId (lstat (candidate (dirs.take j)))) k).map
        fun j ↦ candidate (dirs.take j) := by
  induction k with
  | zero =>
    unfold determinePathLoop
    by_cases h : isApiFile apiInodeId (lstat (candidate [])) <;> simp [lastLevel, h]
  | succ k ih =>
    have hdrop : (dirs.take (k + 1)).dropLast = dirs.take k := by
      rw [List.dropLast_eq_take, List.take_take, List.length_take]
      congr 1
      omega
    have hne : (dirs.take (k + 1)).isEmpty = false := by
      cases dirs <;> simp_all
    unfold determinePathLoop
    rw [hne, hdrop, ih (by omega)]
    by_cases h : isApiFile apiInodeId (lstat (candidate (dirs.take (k + 1)))) <;> simp [lastLevel, h]

theorem split_cwd {segs : List Bytes} (hsegs : ∀ s ∈ segs, s ≠ [] ∧ chr '/' ∉ s) :
    split (chr '/' :: join segs) = segs := by
  by_cases hne : segs = []
  · subst hne; decide
  · have hsplit : (chr '/' :: join segs).splitOn (chr '/') = [] :: segs := by
      have := List.splitOn_intercalate segs (chr '/') (fun l hl ↦ (hsegs l hl).2) hne
      simpa [join, List.splitOn, List.splitOnP_cons] using this
    rw [split, hsplit, List.filter_cons_of_neg (by simp), List.filter_eq_self]
    intro s hs
    simpa using (hsegs s hs).1

/-- `DeterminePath` from `/s1/.../sn` over any file system: it returns and records the candidate
of the deepest level that passes the test, and when none does, `kCantFindApiFile` with the
handle unchanged. -/
theorem determinePath_finds_deepest (segs : List Bytes) (hsegs : ∀ s ∈ segs, s ≠ [] ∧ chr '/' ∉ s)
    (host : Host) (api : ApiImpl) (hcwd : host.getcwd = some (chr '/' :: join segs)) :
    (∀ k ≤ segs.length,
      isApiFile api.apiInodeId (host.lstat (candidate (segs.take k))) = true →
      (∀ j, k < j → j ≤ segs.length →
        isApiFile api.apiInodeId (host.lstat (candidate (segs.take j))) = false) →
      determinePath host api = (getError .kSuccess (.text (candidate (segs.take k))),
        { api with path := candidate (segs.take k) })) ∧
    ((∀ k ≤ segs.length, isApiFile api.apiInodeId (host.lstat (candidate (segs.take k))) = false) →
      determinePath host api = (getError .kCantFindApiFile (.text (chr '/' :: join segs)), api)) ∧
    (∀ e api', determinePath host api = (e, api') → e.code = .kSuccess →
      ∃ k ≤ segs.length, isApiFile api.apiInodeId (host.lstat (candidate (segs.take k))) = true ∧
        api'.path = candidate (segs.take k)) := by
  have hloop := determinePathLoop_take host.lstat api.apiInodeId segs (le_refl segs.length)
  rw [List.take_length] at hloop
  have hdet : determinePath host api =
      match (lastLevel (fun j ↦ isApiFile api.apiInodeId (host.lstat (candidate (segs.take j))))
        segs.length).map (fun j ↦ candidate (segs.take j)) with
      | some path => (getError .kSuccess (.text path), { api with path := path })
      | none => (getError .kCantFindApiFile (.text (chr '/' :: join segs)), api) := by
    simp only [determinePath, hcwd, split_cwd hsegs, hloop]
  refine ⟨fun k hk hq hmax ↦ ?_, fun hnone ↦ ?_, fun e api' h hs ↦ ?_⟩
  · rw [hdet, (lastLevel_eq_some.mpr ⟨hk, hq, hmax⟩)]
    rfl
  · rw [hdet, (lastLevel_eq_none.mpr hnone)]
    rfl
  · rw [hdet] at h
    cases hl : lastLevel (fun j ↦ isApiFile api.apiInodeId (host.lstat (candidate (segs.take j))))
      segs.length with
    | none => simp [hl] at h; simp [← h.1] at hs
    | some k =>
      obtain ⟨hk, hq, -⟩ := lastLevel_eq_some.mp hl
      simp only [hl, Option.map_some', Prod.mk.injEq] at h
      exact ⟨k, hk, hq, by rw [← h.2]⟩

/-- A host whose working directory is `/a`, where `/a/api` is a directory with the api inode
number and the api file is at the root. -/
def rootApiHost : Host where
  getcwd := some (chr '/' :: join [ascii "a"])
  lstat p := if p = candidate [] then some ⟨.regular, kInodeIdApi⟩
    else if p = candidate [ascii "a"] then some ⟨.directory, kInodeIdApi⟩ else none
  opens _ := true
  seekOk := true
  writeOk := true
  flushOk := true
  readOk _ := true
  respond := id
  pastEnd := []
  mapOrder := .added

theorem determinePath_skips_decoy :
    (∀ s ∈ [ascii "a"], s ≠ [] ∧ chr '/' ∉ s) ∧
      rootApiHost.getcwd = some (chr '/' :: join [ascii "a"]) ∧
      determinePath rootApiHost (new ⟨[], []⟩) =
        (getError .kSuccess (.text (candidate [])), { new ⟨[], []⟩ with path := candidate [] }) :=
  ⟨by decide, rfl,
    (determinePath_finds_deepest [ascii "a"] (by decide) rootApiHost (new ⟨[], []⟩) rfl).1 0
      (by decide) (by decide) fun j hj hj' ↦ by
        obtain rfl : j = 1 := by simp at hj'; omega
        decide⟩

end ApiImpl

end QfsClient
