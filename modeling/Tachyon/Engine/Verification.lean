import Tachyon.Engine.OutputFile

/-!
# Reading back for verification

`verify` hashes what it reads of each fragment that has an expected hash. Its loop goes on by what a
read returned, so it ends if and only if the reads get on.
-/

namespace Tachyon

open ByteFile Resumption

/-- A file as `read_at` shows it. -/
structure StoredFile where
  content : Bytes
  /-- The `k`-th read fails, or finds at most this many bytes. -/
  calls : ℕ → DownloadResult ℕ

/-- `VERIFY_HASH_CHUNK_SIZE` -/
def verifyHashChunkSize : ℕ := 1024 * 1024

namespace StoredFile

/-- The `k`-th call of `read_at`, into a buffer of `len` bytes: the bytes it put there. -/
def readAt (file : StoredFile) (k offset len : ℕ) : DownloadResult Bytes :=
  (file.calls k).map fun n => (file.content.drop offset).take (min n len)

/-- The reading loop of `verify`. It returns what the hasher was given and the number of the next
call; `none` is a loop that is not over. -/
def hashLoop (file : StoredFile) (end_ : ℕ) :
    (fuel k offset : ℕ) → Bytes → Option (DownloadResult (Bytes × ℕ))
  | 0, _, _, _ => none
  | fuel + 1, k, offset, hashed =>
    if offset < end_ then
      match file.readAt k offset (min (end_ - offset) verifyHashChunkSize) with
      | .error e => some (.error e)
      | .ok read => file.hashLoop end_ fuel (k + 1) (offset + read.length) (hashed ++ read)
    else some (.ok (hashed, k))

/-- The loop over the fragments, with the state it leaves the task in. -/
def verifyLoop (file : StoredFile) (hash : Bytes → String) (fuel : ℕ) :
    List FragmentRecord → (k : ℕ) → (hasExpectedHash : Bool) →
      Option (DownloadResult Bool × DownloadState)
  | [], _, hasExpectedHash => some (.ok hasExpectedHash, .verifying)
  | frag :: rest, k, hasExpectedHash =>
    match frag.info.hash with
    | none => file.verifyLoop hash fuel rest k hasExpectedHash
    | some expected =>
      match file.hashLoop (wrappingAdd frag.info.start frag.info.size) fuel k
          frag.info.start [] with
      | none => none
      | some (.error e) => some (.error e, .verifying)
      | some (.ok (hashed, k)) =>
        let computed := hash hashed
        if computed ≠ expected then some (.error (.checksumMismatch expected computed), .failed)
        else file.verifyLoop hash fuel rest k true

end StoredFile

/-- `verify`, with what it returns and the state it leaves the task in. -/
def DownloadTask.verifyStored (t : DownloadTask) (file : StoredFile) (hash : Bytes → String)
    (fuel : ℕ) : Option (DownloadResult Unit × DownloadState) :=
  if !t.config.verifyChecksum then some (.ok (), t.state)
  else
    match t.storage with
    | none => some (.error (.config "存储未初始化"), .verifying)
    | some _ =>
      match file.verifyLoop hash fuel t.fragments 0 false with
      | none => none
      | some (.error e, state) => some (.error e, state)
      | some (.ok hasExpectedHash, state) =>
        if !hasExpectedHash then some (.error .noExpectedChecksum, .failed)
        else some (.ok (), state)

namespace StoredFile

/-! ### Where the reads do not get on -/

/-- The offset after some more reads, each of which the loop made and the storage answered. -/
def offsetAfter (file : StoredFile) (end_ : ℕ) : (reads k offset : ℕ) → Option ℕ
  | 0, _, offset => some offset
  | reads + 1, k, offset =>
    if offset < end_ then
      match file.calls k with
      | .error _ => none
      | .ok n => file.offsetAfter end_ reads (k + 1) (offset +
          min (min n (min (end_ - offset) verifyHashChunkSize)) (file.content.length - offset))
    else none

/-- The `k`-th read succeeds at this offset and finds nothing. -/
def Empty (file : StoredFile) (k offset : ℕ) : Prop :=
  ∃ n, file.calls k = .ok n ∧ (n = 0 ∨ file.content.length ≤ offset)

/-- The reads come to a point before the end from which on they succeed and find nothing. -/
def StallsBefore (file : StoredFile) (end_ k offset : ℕ) : Prop :=
  ∃ reads offset', file.offsetAfter end_ reads k offset = some offset' ∧ offset' < end_ ∧
    ∀ m, k + reads ≤ m → file.Empty m offset'

/-- The bytes of the file from `offset` on, at most `len` of them. -/
def slice (file : StoredFile) (offset len : ℕ) : Bytes := (file.content.drop offset).take len

/-- The reads of a fragment with an expected hash stall, after those before it were read and had
theirs. -/
def Stalls (file : StoredFile) (hash : Bytes → String) : List FragmentRecord → ℕ → Prop
  | [], _ => False
  | frag :: rest, k =>
    match frag.info.hash with
    | none => file.Stalls hash rest k
    | some expected =>
      let end_ := frag.info.start + frag.info.size
      file.StallsBefore end_ k frag.info.start ∨
        ∃ reads, file.offsetAfter end_ reads k frag.info.start = some end_ ∧
          hash (file.slice frag.info.start frag.info.size) = expected ∧
          file.Stalls hash rest (k + reads)

end StoredFile

/-- Every fragment with an expected hash is stored and has it. -/
def StoredFile.Matches (file : StoredFile) (hash : Bytes → String)
    (fragments : List FragmentRecord) : Prop :=
  ∀ frag ∈ fragments, ∀ expected, frag.info.hash = some expected →
    ∃ data, data.length = frag.info.size ∧ StoredAt file.content frag.info.start data ∧
      hash data = expected

/-- Verification ends, and unless it is off it succeeds only where every fragment with an expected
hash is stored and has it; a file that ends before one of them is refused. -/
def DownloadTask.VerifiesExactly (t : DownloadTask) (file : StoredFile) (hash : Bytes → String) :
    Prop :=
  ∃ fuel result state, t.verifyStored file hash fuel = some (result, state) ∧
    (t.config.verifyChecksum = true →
      (result = .ok () → file.Matches hash t.fragments) ∧
      ∀ frag ∈ t.fragments, frag.info.hash.isSome → 0 < frag.info.size →
        file.content.length < frag.info.start + frag.info.size → ∃ e, result = .error e)

namespace StoredFile

variable {file : StoredFile} {hash : Bytes → String} {end_ fuel k offset reads : ℕ}
  {hashed data : Bytes}

/-! ### The reading loop -/

theorem hashLoop_of_le (h : end_ ≤ offset) :
    file.hashLoop end_ (fuel + 1) k offset hashed = some (.ok (hashed, k)) := by
  rw [hashLoop, if_neg (by omega)]

theorem hashLoop_error {e : DownloadError} (h : offset < end_) (hcall : file.calls k = .error e) :
    file.hashLoop end_ (fuel + 1) k offset hashed = some (.error e) := by
  rw [hashLoop, if_pos h, readAt, hcall]
  rfl

/-- How many bytes a read finds. -/
theorem length_found (file : StoredFile) (offset n : ℕ) :
    (file.slice offset n).length = min n (file.content.length - offset) := by
  rw [slice, List.length_take, List.length_drop]

theorem hashLoop_ok {n : ℕ} (h : offset < end_) (hcall : file.calls k = .ok n) :
    file.hashLoop end_ (fuel + 1) k offset hashed =
      let read := file.slice offset (min n (min (end_ - offset) verifyHashChunkSize))
      file.hashLoop end_ fuel (k + 1) (offset + read.length) (hashed ++ read) := by
  rw [hashLoop, if_pos h, readAt, hcall]
  rfl

theorem offsetAfter_ok {n : ℕ} (h : offset < end_) (hcall : file.calls k = .ok n) :
    file.offsetAfter end_ (reads + 1) k offset =
      file.offsetAfter end_ reads (k + 1) (offset +
        (file.slice offset (min n (min (end_ - offset) verifyHashChunkSize))).length) := by
  rw [offsetAfter, if_pos h, hcall, length_found]

/-- A read that was made and answered. -/
theorem offsetAfter_succ {offset' : ℕ}
    (h : file.offsetAfter end_ (reads + 1) k offset = some offset') :
    offset < end_ ∧ ∃ n, file.calls k = .ok n := by
  rw [offsetAfter] at h
  split at h
  · rename_i hlt
    refine ⟨hlt, ?_⟩
    cases hcall : file.calls k with
    | error e =>
      rw [hcall] at h
      exact absurd h (Option.some_ne_none _).symm
    | ok n => exact ⟨n, rfl⟩
  · exact absurd h (Option.some_ne_none _).symm

theorem slice_append (file : StoredFile) (offset m n : ℕ) :
    file.slice offset m ++ file.slice (offset + m) n = file.slice offset (m + n) := by
  rw [slice, slice, slice, ← List.drop_drop, List.take_add]

/-- A read that fell short, as a read of what it found. -/
theorem slice_length (file : StoredFile) (offset n : ℕ) :
    file.slice offset (file.slice offset n).length = file.slice offset n := by
  rw [slice, slice, List.length_take, ← List.take_take, List.take_length]

/-- What a read found, and the bytes from there on. -/
theorem slice_found_append {n offset' : ℕ} (h : offset + (file.slice offset n).length ≤ offset') :
    file.slice offset n ++ file.slice (offset + (file.slice offset n).length)
        (offset' - (offset + (file.slice offset n).length)) =
      file.slice offset (offset' - offset) := by
  have hsum : offset' - offset = (file.slice offset n).length +
      (offset' - (offset + (file.slice offset n).length)) := by omega
  rw [hsum, ← slice_append, slice_length]

/-- How far answered reads come. -/
theorem offsetAfter_bounds {offset' : ℕ}
    (h : file.offsetAfter end_ reads k offset = some offset') :
    offset ≤ offset' ∧ (offset ≤ end_ → offset' ≤ end_) ∧
      (offset < offset' → offset' ≤ file.content.length) := by
  induction reads generalizing k offset with
  | zero =>
    cases h
    exact ⟨le_rfl, id, fun hlt => absurd hlt (lt_irrefl _)⟩
  | succ reads ih =>
    obtain ⟨hlt, n, hcall⟩ := offsetAfter_succ h
    rw [offsetAfter_ok hlt hcall, length_found] at h
    obtain ⟨hle, hend, hlength⟩ := ih h
    omega

/-- The loop stands where the answered reads come, with what they found. -/
theorem hashLoop_add {offset' : ℕ} (h : file.offsetAfter end_ reads k offset = some offset') :
    file.hashLoop end_ (reads + fuel) k offset hashed =
      file.hashLoop end_ fuel (k + reads) offset'
        (hashed ++ file.slice offset (offset' - offset)) := by
  induction reads generalizing k offset hashed with
  | zero =>
    cases h
    rw [Nat.sub_self, slice, List.take_zero, List.append_nil, Nat.zero_add, Nat.add_zero]
  | succ reads ih =>
    obtain ⟨hlt, n, hcall⟩ := offsetAfter_succ h
    rw [offsetAfter_ok hlt hcall] at h
    have hle := (offsetAfter_bounds h).1
    rw [Nat.add_right_comm, hashLoop_ok hlt hcall]
    dsimp only
    rw [ih h, Nat.add_right_comm k 1 reads, Nat.add_assoc k reads 1, List.append_assoc,
      slice_found_append hle]

theorem offsetAfter_add {offset' more : ℕ}
    (h : file.offsetAfter end_ reads k offset = some offset') :
    file.offsetAfter end_ (reads + more) k offset =
      file.offsetAfter end_ more (k + reads) offset' := by
  induction reads generalizing k offset with
  | zero =>
    cases h
    rw [Nat.zero_add, Nat.add_zero]
  | succ reads ih =>
    obtain ⟨hlt, n, hcall⟩ := offsetAfter_succ h
    rw [offsetAfter_ok hlt hcall] at h
    rw [Nat.add_right_comm, offsetAfter_ok hlt hcall, ih h, Nat.add_right_comm k 1 reads,
      Nat.add_assoc k reads 1]

/-- More fuel changes nothing. -/
theorem hashLoop_mono {fuel' : ℕ} {r : DownloadResult (Bytes × ℕ)} (hle : fuel ≤ fuel')
    (h : file.hashLoop end_ fuel k offset hashed = some r) :
    file.hashLoop end_ fuel' k offset hashed = some r := by
  induction fuel generalizing fuel' k offset hashed with
  | zero => exact absurd h (Option.some_ne_none r).symm
  | succ fuel ih =>
    obtain ⟨fuel', rfl⟩ : ∃ n, fuel' = n + 1 := ⟨fuel' - 1, by omega⟩
    by_cases hlt : offset < end_
    · cases hcall : file.calls k with
      | error e =>
        rw [hashLoop_error hlt hcall] at h ⊢
        exact h
      | ok n =>
        rw [hashLoop_ok hlt hcall] at h ⊢
        exact ih (by omega) h
    · rw [hashLoop_of_le (by omega)] at h ⊢
      exact h

theorem hashLoop_unique {fuel' : ℕ} {r r' : DownloadResult (Bytes × ℕ)}
    (h : file.hashLoop end_ fuel k offset hashed = some r)
    (h' : file.hashLoop end_ fuel' k offset hashed = some r') : r = r' := by
  have hmax := hashLoop_mono (le_max_left fuel fuel') h
  rw [hashLoop_mono (le_max_right fuel fuel') h'] at hmax
  exact (Option.some.inj hmax).symm

/-- Reads that come to the end give the hasher the bytes up to there. -/
theorem hashLoop_of_offsetAfter (h : file.offsetAfter end_ reads k offset = some end_) :
    file.hashLoop end_ (reads + 1) k offset hashed =
      some (.ok (hashed ++ file.slice offset (end_ - offset), k + reads)) := by
  rw [hashLoop_add h, hashLoop_of_le le_rfl]

/-- The reads that come to the end are as many in any case. -/
theorem offsetAfter_unique {reads' : ℕ} (h : file.offsetAfter end_ reads k offset = some end_)
    (h' : file.offsetAfter end_ reads' k offset = some end_) : k + reads = k + reads' := by
  have hloop : file.hashLoop end_ (reads + 1) k offset [] = _ := hashLoop_of_offsetAfter h
  have hsame := Except.ok.inj (hashLoop_unique hloop (hashLoop_of_offsetAfter h'))
  exact (Prod.mk.inj hsame).2

/-- A loop that is over without an error has come to the end. -/
theorem offsetAfter_of_hashLoop {k' : ℕ} (hle : offset ≤ end_)
    (h : file.hashLoop end_ fuel k offset hashed = some (.ok (data, k'))) :
    ∃ reads, file.offsetAfter end_ reads k offset = some end_ ∧ k' = k + reads := by
  induction fuel generalizing k offset hashed with
  | zero => exact absurd h (Option.some_ne_none _).symm
  | succ fuel ih =>
    by_cases hlt : offset < end_
    · cases hcall : file.calls k with
      | error e =>
        rw [hashLoop_error hlt hcall] at h
        cases h
      | ok n =>
        rw [hashLoop_ok hlt hcall] at h
        obtain ⟨reads, hreads, rfl⟩ := ih (by rw [length_found]; omega) h
        exact ⟨reads + 1, by rw [offsetAfter_ok hlt hcall, hreads], by omega⟩
    · rw [hashLoop_of_le (by omega)] at h
      cases h
      exact ⟨0, by rw [offsetAfter, Nat.le_antisymm hle (by omega)], rfl⟩

/-- What a loop that is over without an error gave the hasher. -/
theorem hashLoop_eq_ok {k' : ℕ} (hle : offset ≤ end_)
    (h : file.hashLoop end_ fuel k offset hashed = some (.ok (data, k'))) :
    data = hashed ++ file.slice offset (end_ - offset) ∧
      ∃ reads, file.offsetAfter end_ reads k offset = some end_ ∧ k' = k + reads := by
  obtain ⟨reads, hreads, rfl⟩ := offsetAfter_of_hashLoop hle h
  have heq := hashLoop_unique h (hashLoop_of_offsetAfter hreads)
  cases heq
  exact ⟨rfl, reads, hreads, rfl⟩

/-- Bytes that reads found are stored. -/
theorem storedAt_slice (h : file.offsetAfter end_ reads k offset = some end_) :
    (file.slice offset (end_ - offset)).length = end_ - offset ∧
      StoredAt file.content offset (file.slice offset (end_ - offset)) := by
  obtain ⟨hle, -, hlength⟩ := offsetAfter_bounds h
  have hlen : (file.slice offset (end_ - offset)).length = end_ - offset := by
    rw [length_found]
    omega
  refine ⟨hlen, storedAt_iff_slice.mpr ?_⟩
  rw [hlen]
  rfl

/-! ### When the loop ends -/

theorem found_of_empty (h : file.Empty k offset) :
    ∃ n, file.calls k = .ok n ∧ ∀ m, file.slice offset (min n m) = [] := by
  obtain ⟨n, hcall, hnone⟩ := h
  refine ⟨n, hcall, fun m => List.eq_nil_of_length_eq_zero ?_⟩
  rw [length_found]
  omega

/-- While the reads find nothing, the loop stays where it is. -/
theorem offsetAfter_of_empty (hlt : offset < end_)
    (h : ∀ i < reads, file.Empty (k + i) offset) :
    file.offsetAfter end_ reads k offset = some offset := by
  induction reads generalizing k with
  | zero => rfl
  | succ reads ih =>
    have hfirst : file.Empty k offset := h 0 (by omega)
    obtain ⟨n, hcall, hnone⟩ := found_of_empty hfirst
    rw [offsetAfter_ok hlt hcall, hnone]
    refine ih fun i hi => ?_
    rw [Nat.add_assoc, Nat.add_comm 1 i]
    exact h (i + 1) (by omega)

theorem hashLoop_eq_none_of_empty (hlt : offset < end_)
    (h : ∀ m, k ≤ m → file.Empty m offset) :
    file.hashLoop end_ fuel k offset hashed = none := by
  induction fuel generalizing k hashed with
  | zero => rfl
  | succ fuel ih =>
    obtain ⟨n, hcall, hnone⟩ := found_of_empty (h k le_rfl)
    rw [hashLoop_ok hlt hcall, hnone]
    exact ih fun m hm => h m (by omega)

theorem StallsBefore.hashLoop_eq_none (h : file.StallsBefore end_ k offset) :
    file.hashLoop end_ fuel k offset hashed = none := by
  obtain ⟨reads, offset', hreads, hlt, hempty⟩ := h
  cases hloop : file.hashLoop end_ fuel k offset hashed with
  | none => rfl
  | some r =>
    have hmore := hashLoop_mono (Nat.le_add_left fuel reads) hloop
    rw [hashLoop_add hreads, hashLoop_eq_none_of_empty hlt hempty] at hmore
    exact absurd hmore (Option.some_ne_none r).symm

theorem StallsBefore.of_offsetAfter {offset' : ℕ}
    (hreads : file.offsetAfter end_ reads k offset = some offset')
    (h : file.StallsBefore end_ (k + reads) offset') : file.StallsBefore end_ k offset := by
  obtain ⟨more, offset'', hmore, hlt, hempty⟩ := h
  rw [← offsetAfter_add hreads] at hmore
  exact ⟨reads + more, offset'', hmore, hlt, fun m hm => hempty m (by omega)⟩

/-- Where the reads get on, the loop ends: by induction on what is left to read. -/
theorem exists_hashLoop (hashed : Bytes) (h : ¬file.StallsBefore end_ k offset) :
    ∃ fuel r, file.hashLoop end_ fuel k offset hashed = some r := by
  induction hleft : end_ - offset using Nat.strong_induction_on generalizing k offset hashed with
  | _ left ih =>
    by_cases hlt : offset < end_
    · -- the first read that fails or finds something
      have hsome : ∃ i, ¬file.Empty (k + i) offset := by
        by_contra hall
        push Not at hall
        refine h ⟨0, offset, rfl, hlt, fun m hm => ?_⟩
        have hempty := hall (m - k)
        rwa [Nat.add_sub_cancel' (by omega : k ≤ m)] at hempty
      classical
      obtain ⟨i, hi, hbefore⟩ := Nat.findX hsome
      have hreads := offsetAfter_of_empty hlt fun j hj => not_not.mp (hbefore j hj)
      cases hcall : file.calls (k + i) with
      | error e =>
        refine ⟨i + 1, .error e, ?_⟩
        rw [hashLoop_add hreads, hashLoop_error hlt hcall]
      | ok n =>
        have hnext : file.offsetAfter end_ 1 (k + i) offset = some _ := offsetAfter_ok hlt hcall
        rw [← offsetAfter_add hreads] at hnext
        have hmore : 0 < (file.slice offset
            (min n (min (end_ - offset) verifyHashChunkSize))).length := by
          have hfound : 0 < n ∧ offset < file.content.length := by
            by_contra hnone
            exact hi ⟨n, hcall, by omega⟩
          have hchunk : 0 < verifyHashChunkSize := by decide
          rw [length_found]
          omega
        obtain ⟨fuel, r, hr⟩ := ih _ (by omega) _
          (fun hstalls => h (.of_offsetAfter hnext hstalls)) rfl
        exact ⟨i + 1 + fuel, r, by rw [hashLoop_add hnext, hr]⟩
    · exact ⟨1, _, hashLoop_of_le (by omega)⟩

/-! ### The loop over the fragments -/

variable {frag : FragmentRecord} {fragments rest : List FragmentRecord} {has : Bool}
  {expected : String}

theorem verifyLoop_cons_none (h : frag.info.hash = none) :
    file.verifyLoop hash fuel (frag :: rest) k has = file.verifyLoop hash fuel rest k has := by
  rw [verifyLoop, h]

/-- A fragment with an expected hash, once the loop that reads it is over. -/
theorem verifyLoop_cons_some (h : frag.info.hash = some expected)
    (hbound : frag.info.start + frag.info.size < u64Bound) :
    file.verifyLoop hash fuel (frag :: rest) k has =
      match file.hashLoop (frag.info.start + frag.info.size) fuel k frag.info.start [] with
      | none => none
      | some (.error e) => some (.error e, .verifying)
      | some (.ok (hashed, k)) =>
        if hash hashed ≠ expected then
          some (.error (.checksumMismatch expected (hash hashed)), .failed)
        else file.verifyLoop hash fuel rest k true := by
  rw [verifyLoop, h, wrappingAdd_of_lt hbound]

theorem verifyLoop_mono {fuel' : ℕ} {r : DownloadResult Bool × DownloadState} (hle : fuel ≤ fuel')
    (h : file.verifyLoop hash fuel fragments k has = some r) :
    file.verifyLoop hash fuel' fragments k has = some r := by
  induction fragments generalizing k has with
  | nil => exact h
  | cons frag rest ih =>
    cases hhash : frag.info.hash with
    | none =>
      rw [verifyLoop_cons_none hhash] at h ⊢
      exact ih h
    | some expected =>
      rw [verifyLoop, hhash] at h ⊢
      dsimp only at h ⊢
      cases hloop : file.hashLoop (wrappingAdd frag.info.start frag.info.size) fuel k
          frag.info.start [] with
      | none =>
        rw [hloop] at h
        exact absurd h (Option.some_ne_none r).symm
      | some read =>
        rw [hloop] at h
        rw [hashLoop_mono hle hloop]
        cases read with
        | error e => exact h
        | ok read =>
          dsimp only at h ⊢
          split at h
          · rename_i hne
            rwa [if_pos hne]
          · rename_i heq
            rw [if_neg heq]
            exact ih h

/-- Where no fragment stalls, the loop ends. -/
theorem exists_verifyLoop (has : Bool)
    (hbounds : ∀ frag ∈ fragments, frag.info.start + frag.info.size < u64Bound)
    (h : ¬file.Stalls hash fragments k) :
    ∃ fuel r, file.verifyLoop hash fuel fragments k has = some r := by
  induction fragments generalizing k has with
  | nil => exact ⟨0, _, rfl⟩
  | cons frag rest ih =>
    have hrest : ∀ frag ∈ rest, frag.info.start + frag.info.size < u64Bound :=
      fun frag hfrag => hbounds frag (List.mem_cons_of_mem _ hfrag)
    cases hhash : frag.info.hash with
    | none =>
      rw [Stalls, hhash] at h
      obtain ⟨fuel, r, hr⟩ := ih has hrest h
      exact ⟨fuel, r, by rw [verifyLoop_cons_none hhash, hr]⟩
    | some expected =>
      rw [Stalls, hhash] at h
      obtain ⟨hbefore, hafter⟩ := not_or.mp h
      have hbound := hbounds frag List.mem_cons_self
      obtain ⟨fuel, read, hloop⟩ := exists_hashLoop [] hbefore
      cases read with
      | error e => exact ⟨fuel, _, by rw [verifyLoop_cons_some hhash hbound, hloop]⟩
      | ok read =>
        obtain ⟨data, k'⟩ := read
        obtain ⟨rfl, reads, hreads, rfl⟩ := hashLoop_eq_ok (Nat.le_add_right _ _) hloop
        rw [List.nil_append, Nat.add_sub_cancel_left] at hloop
        by_cases heq : hash (file.slice frag.info.start frag.info.size) = expected
        · obtain ⟨fuel', r, hr⟩ := ih true hrest
            fun hstalls => hafter ⟨reads, hreads, heq, hstalls⟩
          refine ⟨max fuel fuel', r, ?_⟩
          rw [verifyLoop_cons_some hhash hbound, hashLoop_mono (le_max_left _ _) hloop]
          dsimp only
          rw [if_neg (not_not.mpr heq), verifyLoop_mono (le_max_right _ _) hr]
        · refine ⟨fuel, (.error (.checksumMismatch expected
            (hash (file.slice frag.info.start frag.info.size))), .failed), ?_⟩
          rw [verifyLoop_cons_some hhash hbound, hloop]
          exact if_pos heq

/-- What a fragment with an expected hash went through, in a loop that is over. -/
theorem verifyLoop_cons_eq_some {r : DownloadResult Bool × DownloadState}
    (hhash : frag.info.hash = some expected)
    (hbound : frag.info.start + frag.info.size < u64Bound)
    (h : file.verifyLoop hash fuel (frag :: rest) k has = some r) :
    (∃ e, r.1 = .error e ∧
      ∀ reads, file.offsetAfter (frag.info.start + frag.info.size) reads k frag.info.start =
          some (frag.info.start + frag.info.size) →
        hash (file.slice frag.info.start frag.info.size) ≠ expected) ∨
    ∃ reads, file.offsetAfter (frag.info.start + frag.info.size) reads k frag.info.start =
        some (frag.info.start + frag.info.size) ∧
      hash (file.slice frag.info.start frag.info.size) = expected ∧
      file.verifyLoop hash fuel rest (k + reads) true = some r := by
  rw [verifyLoop_cons_some hhash hbound] at h
  cases hloop : file.hashLoop (frag.info.start + frag.info.size) fuel k frag.info.start [] with
  | none =>
    rw [hloop] at h
    exact absurd h (Option.some_ne_none r).symm
  | some read =>
    rw [hloop] at h
    cases read with
    | error e =>
      cases h
      refine Or.inl ⟨e, rfl, fun reads hreads => ?_⟩
      cases hashLoop_unique hloop (hashLoop_of_offsetAfter hreads)
    | ok read =>
      obtain ⟨data, k'⟩ := read
      obtain ⟨rfl, reads, hreads, rfl⟩ := hashLoop_eq_ok (Nat.le_add_right _ _) hloop
      dsimp only at h
      rw [List.nil_append, Nat.add_sub_cancel_left] at h
      by_cases heq : hash (file.slice frag.info.start frag.info.size) = expected
      · rw [if_neg (not_not.mpr heq)] at h
        exact Or.inr ⟨reads, hreads, heq, h⟩
      · rw [if_pos heq] at h
        cases h
        exact Or.inl ⟨_, rfl, fun _ _ => heq⟩

/-- A loop that is over met no fragment that stalls. -/
theorem not_stalls_of_verifyLoop {r : DownloadResult Bool × DownloadState}
    (hbounds : ∀ frag ∈ fragments, frag.info.start + frag.info.size < u64Bound)
    (h : file.verifyLoop hash fuel fragments k has = some r) : ¬file.Stalls hash fragments k := by
  induction fragments generalizing k has with
  | nil => exact id
  | cons frag rest ih =>
    have hrest : ∀ frag ∈ rest, frag.info.start + frag.info.size < u64Bound :=
      fun frag hfrag => hbounds frag (List.mem_cons_of_mem _ hfrag)
    have hbound := hbounds frag List.mem_cons_self
    rw [Stalls]
    cases hhash : frag.info.hash with
    | none =>
      rw [verifyLoop_cons_none hhash] at h
      exact ih hrest h
    | some expected =>
      rintro (hbefore | ⟨reads, hreads, heq, hafter⟩)
      · rw [verifyLoop_cons_some hhash hbound, hbefore.hashLoop_eq_none] at h
        exact absurd h (Option.some_ne_none r).symm
      · obtain ⟨_, -, hne⟩ | ⟨reads', hreads', -, h⟩ := verifyLoop_cons_eq_some hhash hbound h
        · exact hne reads hreads heq
        · rw [offsetAfter_unique hreads hreads'] at hafter
          exact ih hrest h hafter

/-- A loop that ends without an error found every expected hash. -/
theorem matches_of_verifyLoop {b : Bool} {state : DownloadState}
    (hbounds : ∀ frag ∈ fragments, frag.info.start + frag.info.size < u64Bound)
    (h : file.verifyLoop hash fuel fragments k has = some (.ok b, state)) :
    file.Matches hash fragments := by
  induction fragments generalizing k has with
  | nil => exact fun _ hfrag => absurd hfrag List.not_mem_nil
  | cons frag rest ih =>
    have hrest : ∀ frag ∈ rest, frag.info.start + frag.info.size < u64Bound :=
      fun frag hfrag => hbounds frag (List.mem_cons_of_mem _ hfrag)
    intro frag' hfrag' expected' hexpected'
    cases hhash : frag.info.hash with
    | none =>
      rw [verifyLoop_cons_none hhash] at h
      rcases List.mem_cons.mp hfrag' with rfl | hfrag'
      · rw [hhash] at hexpected'
        exact absurd hexpected' (Option.some_ne_none _).symm
      · exact ih hrest h frag' hfrag' expected' hexpected'
    | some expected =>
      obtain ⟨_, he, -⟩ | ⟨reads, hreads, heq, h⟩ :=
        verifyLoop_cons_eq_some hhash (hbounds frag List.mem_cons_self) h
      · cases he
      · rcases List.mem_cons.mp hfrag' with rfl | hfrag'
        · obtain rfl := Option.some.inj (hhash.symm.trans hexpected')
          obtain ⟨hlength, hstored⟩ := storedAt_slice hreads
          rw [Nat.add_sub_cancel_left] at hlength hstored
          exact ⟨_, hlength, hstored, heq⟩
        · exact ih hrest h frag' hfrag' expected' hexpected'

/-- A fragment that is stored lies within the file. -/
theorem Matches.length_le (h : file.Matches hash fragments) (hfrag : frag ∈ fragments)
    (hhash : frag.info.hash.isSome) (hpos : 0 < frag.info.size) :
    frag.info.start + frag.info.size ≤ file.content.length := by
  obtain ⟨expected, hexpected⟩ := Option.isSome_iff_exists.mp hhash
  obtain ⟨data, hlength, hstored, -⟩ := h frag hfrag expected hexpected
  rw [← hlength] at hpos ⊢
  exact hstored.length_le (List.length_pos_iff.mp hpos)

end StoredFile

/-! ### Verification in a run -/

/-- How the file answers the hashes a run asks for. The world is the number of the next read. -/
def StoredFile.HashHandles (file : StoredFile) (hash : Bytes → String) :
    (r : TaskRequest) → ℕ → TaskAnswer r → ℕ → Prop
  | .hashRange start size, k, x, k' => ∃ fuel,
      match x with
      | .ok computed => ∃ data, hash data = computed ∧
          file.hashLoop (wrappingAdd start size) fuel k start [] = some (.ok (data, k'))
      | .error e => k' = k ∧
          file.hashLoop (wrappingAdd start size) fuel k start [] = some (.error e)
  | _, _, _, _ => False

section HashedFragment

variable {file : StoredFile} {hash : Bytes → String} {frag : FragmentRecord}
  {rest : List FragmentRecord} {expected : String} {k k' : ℕ}

/-- A hashed fragment and what comes after it, in a run. -/
theorem StoredFile.yields_verifyLoop_cons {b : Bool} (hhash : frag.info.hash = some expected) :
    Yields (file.HashHandles hash) (Tachyon.verifyLoop (frag :: rest)) k (.ok b) k' ↔
      b = true ∧ ∃ fuel data k₁, file.hashLoop (wrappingAdd frag.info.start frag.info.size) fuel k
        frag.info.start [] = some (.ok (data, k₁)) ∧ hash data = expected ∧
          ∃ b', Yields (file.HashHandles hash) (Tachyon.verifyLoop rest) k₁ (.ok b') k' := by
  rw [Tachyon.verifyLoop, hhash]
  constructor
  · intro hyields
    obtain ⟨x, k₁, hrequest, hyields⟩ := yields_bind.mp hyields
    obtain ⟨computed, _, hresult, hyields⟩ := yields_bind.mp hyields
    obtain ⟨rfl, rfl⟩ := yields_fromResult.mp hresult
    obtain ⟨fuel, data, rfl, hloop⟩ := yields_request.mp hrequest
    by_cases heq : hash data = expected
    · rw [if_neg (not_not.mpr heq)] at hyields
      obtain ⟨b', k₂, hrest, hyields⟩ := yields_bind.mp hyields
      obtain ⟨rfl, rfl⟩ := yields_pure.mp hyields
      exact ⟨rfl, fuel, data, k₁, hloop, heq, b', hrest⟩
    · rw [if_pos heq] at hyields
      exact absurd hyields not_yields_throw
  · rintro ⟨rfl, fuel, data, k₁, hloop, heq, b', hrest⟩
    have hhandles : file.HashHandles hash (.hashRange frag.info.start frag.info.size) k
        (Except.ok (hash data)) k₁ := ⟨fuel, data, rfl, hloop⟩
    refine yields_bind.mpr ⟨_, _, yields_request.mpr hhandles, yields_bind.mpr
      ⟨_, _, yields_fromResult.mpr ⟨rfl, rfl⟩, ?_⟩⟩
    rw [if_neg (not_not.mpr heq)]
    exact yields_bind.mpr ⟨b', k', hrest, yields_pure.mpr ⟨rfl, rfl⟩⟩

/-- The same in the loop over the stored file. -/
theorem StoredFile.verifyLoop_cons_eq_ok {fuel : ℕ} {has r : Bool} {state : DownloadState}
    (hhash : frag.info.hash = some expected) :
    file.verifyLoop hash fuel (frag :: rest) k has = some (.ok r, state) ↔
      ∃ data k₁, file.hashLoop (wrappingAdd frag.info.start frag.info.size) fuel k
        frag.info.start [] = some (.ok (data, k₁)) ∧ hash data = expected ∧
          file.verifyLoop hash fuel rest k₁ true = some (.ok r, state) := by
  rw [verifyLoop, hhash]
  dsimp only
  constructor
  · intro hverify
    cases hloop : file.hashLoop (wrappingAdd frag.info.start frag.info.size) fuel k
        frag.info.start [] with
    | none =>
      rw [hloop] at hverify
      exact absurd hverify (Option.some_ne_none _).symm
    | some read =>
      rw [hloop] at hverify
      cases read with
      | error e => cases hverify
      | ok read =>
        obtain ⟨data, k₁⟩ := read
        dsimp only at hverify
        by_cases heq : hash data = expected
        · rw [if_neg (not_not.mpr heq)] at hverify
          exact ⟨data, k₁, rfl, heq, hverify⟩
        · rw [if_pos heq] at hverify
          cases hverify
  · rintro ⟨data, k₁, hloop, heq, hverify⟩
    rw [hloop]
    dsimp only
    rw [if_neg (not_not.mpr heq)]
    exact hverify

end HashedFragment

/-- A run hashes the fragments as the loop over the stored file does, if that has turns enough. -/
theorem StoredFile.yields_verifyLoop {file : StoredFile} {hash : Bytes → String}
    {fragments : List FragmentRecord} {k : ℕ} {has r : Bool} :
    (∃ b k', Yields (file.HashHandles hash) (Tachyon.verifyLoop fragments) k (.ok b) k' ∧
        r = (has || b)) ↔
      ∃ fuel state, file.verifyLoop hash fuel fragments k has = some (.ok r, state) := by
  induction fragments generalizing k has r with
  | nil =>
    constructor
    · rintro ⟨b, k', hyields, rfl⟩
      obtain ⟨rfl, rfl⟩ := yields_pure.mp hyields
      exact ⟨0, .verifying, by rw [verifyLoop, Bool.or_false]⟩
    · rintro ⟨fuel, state, hloop⟩
      cases hloop
      exact ⟨false, k, yields_pure.mpr ⟨rfl, rfl⟩, (Bool.or_false has).symm⟩
  | cons frag rest ih =>
    cases hhash : frag.info.hash with
    | none =>
      rw [Tachyon.verifyLoop, hhash]
      simp only [verifyLoop_cons_none hhash]
      exact ih
    | some expected =>
      simp only [yields_verifyLoop_cons hhash, verifyLoop_cons_eq_ok hhash]
      constructor
      · rintro ⟨b, k', ⟨rfl, fuel, data, k₁, hloop, heq, b', hrest⟩, rfl⟩
        obtain ⟨fuel', state, hmore⟩ := ih.mp ⟨b', k', hrest, (Bool.true_or b').symm⟩
        -- enough turns for this fragment and for the rest
        refine ⟨max fuel fuel', state, data, k₁, hashLoop_mono (le_max_left _ _) hloop, heq, ?_⟩
        rw [Bool.or_true]
        exact verifyLoop_mono (le_max_right _ _) hmore
      · rintro ⟨fuel, state, data, k₁, hloop, heq, hverify⟩
        obtain ⟨b', k', hrest, rfl⟩ := ih.mpr ⟨fuel, state, hverify⟩
        exact ⟨true, k', ⟨rfl, fuel, data, k₁, hloop, heq, b', hrest⟩, by
          rw [Bool.or_true, Bool.true_or]⟩

/-! ### Verification -/

namespace DownloadTask

variable {t : DownloadTask} {file : StoredFile} {hash : Bytes → String} {fuel : ℕ}

/-- Without verification or storage nothing is read. -/
theorem verifyStored_unread (h : ¬(t.config.verifyChecksum = true ∧ t.storage.isSome)) :
    t.VerifiesExactly file hash := by
  by_cases hverify : t.config.verifyChecksum = true
  · have hstorage : t.storage = none := by
      cases hstorage : t.storage with
      | none => rfl
      | some path => exact absurd ⟨hverify, by rw [hstorage]; rfl⟩ h
    refine ⟨0, .error (.config "存储未初始化"), .verifying, ?_, fun _ => ⟨?_, ?_⟩⟩
    · rw [verifyStored, hverify, hstorage]
      rfl
    · intro hok
      cases hok
    · exact fun _ _ _ _ _ => ⟨_, rfl⟩
  · refine ⟨0, .ok (), t.state, ?_, fun hon => absurd hon hverify⟩
    rw [verifyStored, Bool.eq_false_of_not_eq_true hverify]
    rfl

/-- With them `verify` comes to what the loop over the fragments does. -/
theorem verifyStored_eq (hverify : t.config.verifyChecksum = true) (hstorage : t.storage.isSome) :
    t.verifyStored file hash fuel =
      match file.verifyLoop hash fuel t.fragments 0 false with
      | none => none
      | some (.error e, state) => some (.error e, state)
      | some (.ok hasExpectedHash, state) =>
        if !hasExpectedHash then some (.error .noExpectedChecksum, .failed)
        else some (.ok (), state) := by
  obtain ⟨path, hpath⟩ := Option.isSome_iff_exists.mp hstorage
  rw [verifyStored, hverify, hpath]
  rfl

theorem verifyStored_eq_ok {state : DownloadState} (hverify : t.config.verifyChecksum = true)
    (hstorage : t.storage.isSome) (h : t.verifyStored file hash fuel = some (.ok (), state)) :
    ∃ state', file.verifyLoop hash fuel t.fragments 0 false = some (.ok true, state') := by
  rw [verifyStored_eq hverify hstorage] at h
  cases hloop : file.verifyLoop hash fuel t.fragments 0 false with
  | none =>
    rw [hloop] at h
    exact absurd h (Option.some_ne_none _).symm
  | some r =>
    obtain ⟨result, state'⟩ := r
    rw [hloop] at h
    cases result with
    | error e => cases h
    | ok has =>
      cases has with
      | false => cases h
      | true => exact ⟨state', rfl⟩

/-- The verification of a run succeeds on the files on which `verify` does. -/
theorem yields_verify_iff :
    (∃ k, Yields (file.HashHandles hash) t.verify 0 (.ok ()) k) ↔
      ∃ fuel state, t.verifyStored file hash fuel = some (.ok (), state) := by
  rw [DownloadTask.verify]
  by_cases hverify : t.config.verifyChecksum = true
  · rw [hverify, if_neg (by decide)]
    constructor
    · rintro ⟨k, hyields⟩
      obtain ⟨path, _, horThrow, hyields⟩ := yields_bind.mp hyields
      obtain ⟨hstorage, rfl⟩ := yields_orThrow.mp horThrow
      obtain ⟨has, k', hloop, hyields⟩ := yields_bind.mp hyields
      cases has with
      | false => exact absurd hyields not_yields_throw
      | true =>
        obtain ⟨fuel, state, hstored⟩ := StoredFile.yields_verifyLoop.mp ⟨true, k', hloop, rfl⟩
        refine ⟨fuel, state, ?_⟩
        rw [verifyStored_eq hverify (by rw [hstorage]; rfl), hstored]
        rfl
    · rintro ⟨fuel, state, hstored⟩
      cases hstorage : t.storage with
      | none =>
        rw [verifyStored, hverify, hstorage] at hstored
        cases hstored
      | some path =>
        obtain ⟨state', hloop⟩ := verifyStored_eq_ok hverify (by rw [hstorage]; rfl) hstored
        obtain ⟨b, k', hloop, hb⟩ := StoredFile.yields_verifyLoop.mpr ⟨fuel, state', hloop⟩
        rw [Bool.false_or] at hb
        refine ⟨k', yields_bind.mpr ⟨path, 0, yields_orThrow.mpr ⟨rfl, rfl⟩,
          yields_bind.mpr ⟨b, k', hloop, ?_⟩⟩⟩
        rw [← hb, if_neg (by decide)]
        exact yields_pure.mpr ⟨rfl, rfl⟩
  · rw [Bool.eq_false_of_not_eq_true hverify, if_pos (by decide)]
    refine ⟨fun _ => ⟨0, t.state, ?_⟩, fun _ => ⟨0, yields_pure.mpr ⟨rfl, rfl⟩⟩⟩
    rw [verifyStored, Bool.eq_false_of_not_eq_true hverify]
    rfl

/-- Verification ends and is exact unless the reads of a fragment stall. -/
theorem verifiesExactly_iff (t : DownloadTask) (file : StoredFile) (hash : Bytes → String)
    (hbounds : ∀ frag ∈ t.fragments, frag.info.start + frag.info.size < u64Bound) :
    t.VerifiesExactly file hash ↔
      (t.config.verifyChecksum = true → t.storage.isSome → ¬file.Stalls hash t.fragments 0) := by
  constructor
  · rintro ⟨fuel, result, state, hrun, -⟩ hverify hstorage
    rw [verifyStored_eq hverify hstorage] at hrun
    cases hloop : file.verifyLoop hash fuel t.fragments 0 false with
    | none =>
      rw [hloop] at hrun
      exact absurd hrun (Option.some_ne_none _).symm
    | some r => exact StoredFile.not_stalls_of_verifyLoop hbounds hloop
  · intro h
    by_cases hread : t.config.verifyChecksum = true ∧ t.storage.isSome
    · obtain ⟨hverify, hstorage⟩ := hread
      obtain ⟨fuel, ⟨result, state⟩, hloop⟩ :=
        StoredFile.exists_verifyLoop false hbounds (h hverify hstorage)
      have hrun : t.verifyStored file hash fuel = _ := verifyStored_eq hverify hstorage
      rw [hloop] at hrun
      cases result with
      | error e =>
        refine ⟨fuel, .error e, state, hrun, fun _ => ⟨fun hok => ?_, fun _ _ _ _ _ => ⟨e, rfl⟩⟩⟩
        cases hok
      | ok hasExpectedHash =>
        have hmatches := StoredFile.matches_of_verifyLoop hbounds hloop
        cases hasExpectedHash with
        | false =>
          refine ⟨fuel, .error .noExpectedChecksum, .failed, hrun, fun _ => ⟨fun hok => ?_,
            fun _ _ _ _ _ => ⟨_, rfl⟩⟩⟩
          cases hok
        | true =>
          refine ⟨fuel, .ok (), state, hrun, fun _ => ⟨fun _ => hmatches,
            fun frag hfrag hhash hpos hshort => ?_⟩⟩
          have hle := hmatches.length_le hfrag hhash hpos
          omega
    · exact verifyStored_unread hread

/-- A task with one fragment of two bytes to verify. -/
def twoByteTask : DownloadTask := { oneByteTask with
  config := .default "dir"
  storage := some "path"
  fragments := [.new ⟨0, 0, 1, 2, 2, some "hash"⟩ 3] }

/-- A file of some bytes that are read one at a time. -/
def bytewise (content : Bytes) : StoredFile := ⟨content, fun _ => .ok 1⟩

theorem twoByteTask_bounds :
    ∀ frag ∈ twoByteTask.fragments, frag.info.start + frag.info.size < u64Bound := by
  intro frag hfrag
  rw [List.mem_singleton.mp hfrag]
  decide

theorem verifiesExactly_iff_bytewise :
    twoByteTask.VerifiesExactly (bytewise [7, 8]) (fun _ => "hash") := by
  refine (verifiesExactly_iff _ _ _ twoByteTask_bounds).mpr fun _ _ hstalls => ?_
  obtain ⟨reads, offset, -, hlt, hempty⟩ | ⟨_, _, _, hrest⟩ := hstalls
  · obtain ⟨n, hcall, hnone⟩ := hempty _ le_rfl
    cases hcall
    exact absurd hlt (not_lt.mpr (hnone.resolve_left one_ne_zero))
  · exact hrest

/-- The file was cut off after the first byte: the second read finds nothing, and so do all the
others. -/
theorem truncated_file_not_verified :
    ¬∀ (t : DownloadTask) (file : StoredFile) (hash : Bytes → String),
      (∀ frag ∈ t.fragments, frag.info.start + frag.info.size < u64Bound) →
        t.VerifiesExactly file hash := by
  intro hall
  obtain ⟨fuel, result, state, hrun, -⟩ :=
    hall twoByteTask (bytewise [7]) (fun _ => "hash") twoByteTask_bounds
  have hstalls : (bytewise [7]).StallsBefore (0 + 2) 0 0 :=
    ⟨1, 1, rfl, by decide, fun m _ => ⟨1, rfl, Or.inr le_rfl⟩⟩
  have hnone : (bytewise [7]).verifyLoop (fun _ => "hash") fuel twoByteTask.fragments 0 false =
      none := by
    rw [twoByteTask, StoredFile.verifyLoop_cons_some rfl (by decide)]
    dsimp only [FragmentRecord.new]
    rw [hstalls.hashLoop_eq_none]
  rw [verifyStored_eq rfl rfl, hnone] at hrun
  exact absurd hrun (Option.some_ne_none _).symm

end DownloadTask

end Tachyon
