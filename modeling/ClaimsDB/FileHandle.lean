/-
File handles as append-only files.

A handle reopens its file on every change of direction.  `Read` and `Write` are loops over system
calls that may each move fewer bytes than were asked for.  The answers of the system are a list,
and a call that has not returned after all of them gives `none`.

* **`transferLoop_spec`**, **`transferLoop_returns`** — what the loops move, and that they end;
* **`append_only_file`** — from every state a handle can be in, the file is what the calls denote;
* **`hdfs_read_past_end`** — the HDFS handle asks for ever at the end of a file.
-/
import Mathlib.Tactic

namespace FileHandle

open List

inductive FileStatus
  | kInReading | kInOverWriting | kInAppending | kClosed
  deriving DecidableEq

inductive RetCode
  | rSuccess | rWriteDiskFileFail | rReadDiskFileFail | rReadHdfsFileFail | rFileEOF
  deriving DecidableEq

inductive Backend
  | disk | hdfs
  deriving DecidableEq

/-- A length as an `int`, and as a `tSize`. -/
def int32 (n : ℕ) : ℤ := (BitVec.ofNat 32 n).toInt

namespace Backend

/-- The length a system call is given: a `size_t` on disk, a `tSize` in HDFS. -/
def asked : Backend → ℕ → ℤ
  | disk, n => n
  | hdfs, n => int32 n

/-- `file_length`, an `int` in HDFS, as the `size_t` that `ReadTotalFile` hands out. -/
def fileLength : Backend → ℕ → ℕ
  | disk, n => n
  | hdfs, n => (int32 n % 2 ^ 64).toNat

/-- Whether `Malloc(file_length + 1)` gets memory.  The sum is an `int` in HDFS: past its end, or
below zero, it becomes a `size_t` for which there is no memory, and `memset` follows `NULL`. -/
def mallocs : Backend → ℕ → Bool
  | disk, _ => true
  | hdfs, n => decide (-1 ≤ int32 n ∧ int32 n + 1 < 2 ^ 31)

def readFail : Backend → RetCode
  | disk => .rReadDiskFileFail
  | hdfs => .rReadHdfsFileFail

end Backend

/-- What a system call returns: `-1`, or the number of bytes moved. -/
def transfer (asked : ℤ) (left : ℕ) : Option ℕ → Option ℕ
  | none => none
  | some k => if asked < 0 then none else some (min (k + 1) (min asked.toNat left))

/-- The loop of `Read` and of `Write`.  Only the `Read` of the disk handle stops at a `0`. -/
def transferLoop (b : Backend) (fail : RetCode) (stops : Bool) (length left : ℕ) :
    List (Option ℕ) → ℕ → Option (RetCode × ℕ)
  | answers, total =>
    if length ≤ total then some (.rSuccess, total) else
    match answers with
    | [] => none
    | answer :: answers =>
      match transfer (b.asked (length - total)) (left - total) answer with
      | none => some (fail, total)
      | some n =>
        if n = 0 ∧ stops then some (.rFileEOF, total)
        else transferLoop b fail stops length left answers (total + n)

structure Handle where
  file : List UInt8
  status : FileStatus
  pos : ℕ

namespace Handle

def switchStatus (s : Handle) : FileStatus → Handle
  | .kInReading => if s.status = .kInReading then s else ⟨s.file, .kInReading, 0⟩
  | .kInOverWriting => ⟨[], .kInOverWriting, 0⟩
  | .kInAppending => if s.status = .kInAppending then s else ⟨s.file, .kInAppending, 0⟩
  | .kClosed => s

/-- The bytes between the position of a reading handle and the end of the file. -/
def left (s : Handle) : ℕ := s.file.length - s.pos

def write (b : Backend) (answers : List (Option ℕ)) (data : List UInt8) (s : Handle) :
    Option (RetCode × List UInt8 × Handle) :=
  (transferLoop b .rWriteDiskFileFail false data.length data.length answers 0).map fun r =>
    (r.1, [], { s with file := s.file ++ data.take r.2 })

def read (b : Backend) (answers : List (Option ℕ)) (length : ℕ) (s : Handle) :
    Option (RetCode × List UInt8 × Handle) :=
  (transferLoop b b.readFail (b = .disk) length s.left answers 0).map fun r =>
    (r.1, (s.file.drop s.pos).take r.2, { s with pos := s.pos + r.2 })

end Handle

inductive Call
  | append (data : List UInt8)
  | overWrite (data : List UInt8)
  | readTotalFile
  | read (length : ℕ)

def call (b : Backend) (answers : List (Option ℕ)) (s : Handle) :
    Call → Option (RetCode × List UInt8 × Handle)
  | .append data => (s.switchStatus .kInAppending).write b answers data
  | .overWrite data => (s.switchStatus .kInOverWriting).write b answers data
  | .readTotalFile =>
    -- after the crash in `Malloc` the call does not return either
    if b.mallocs s.file.length then
      { s.switchStatus .kInReading with pos := 0 }.read b answers (b.fileLength s.file.length)
    else none
  | .read length => (s.switchStatus .kInReading).read b answers length

/-- The calls made on a handle, each with the code it returned. -/
inductive History (b : Backend) (start : Handle) : List (Call × RetCode) → Handle → Prop
  | nil : History b start [] start
  | snoc {calls s answers c ret out s'} (h : History b start calls s)
      (hc : call b answers s c = some (ret, out, s')) : History b start (calls ++ [(c, ret)]) s'

/-- What a call makes of the contents of an append-only file. -/
def Call.denote (file : List UInt8) : Call → List UInt8
  | .append data => file ++ data
  | .overWrite data => data
  | _ => file

def Call.writes : Call → Bool
  | .append _ | .overWrite _ => true
  | _ => false

/-- How many bytes a call asks for. -/
def Call.size (s : Handle) : Call → ℕ
  | .append data | .overWrite data => data.length
  | .readTotalFile => s.file.length
  | .read length => length

/-- The lengths fit in an `int`, that of a file that is read as a whole with one byte more, and no
read goes past the end of the file. -/
def Call.FitsHdfs (s : Handle) (c : Call) : Prop :=
  c.size s < 2 ^ 31 ∧ (c = .readTotalFile → s.file.length + 1 < 2 ^ 31) ∧
    ∀ length, c = .read length → length ≤ (s.switchStatus .kInReading).left

theorem int32_eq {n : ℕ} (h : n < 2 ^ 31) : int32 n = n := by
  rw [int32, BitVec.toInt_eq_toNat_cond, BitVec.toNat_ofNat]
  omega

theorem int32_le (n : ℕ) : (int32 n).toNat ≤ n := by
  rw [int32, BitVec.toInt_eq_toNat_cond, BitVec.toNat_ofNat]
  omega

namespace Backend

theorem asked_le : ∀ (b : Backend) (n : ℕ), (b.asked n).toNat ≤ n
  | disk, n => (Int.toNat_natCast n).le
  | hdfs, n => int32_le n

theorem asked_eq : ∀ {b : Backend} {n : ℕ}, (b = hdfs → n < 2 ^ 31) → b.asked n = n
  | disk, _, _ => rfl
  | hdfs, _, h => int32_eq (h rfl)

theorem fileLength_eq : ∀ {b : Backend} {n : ℕ}, (b = hdfs → n < 2 ^ 31) → b.fileLength n = n
  | disk, _, _ => rfl
  | hdfs, n, h => by
    have := h rfl
    rw [fileLength, int32_eq this]
    omega

theorem mallocs_eq : ∀ {b : Backend} {n : ℕ}, (b = hdfs → n + 1 < 2 ^ 31) → b.mallocs n = true
  | disk, _, _ => rfl
  | hdfs, n, h => by
    have := h rfl
    rw [mallocs, int32_eq (by omega), decide_eq_true_iff]
    omega

end Backend

section Loop

variable {b : Backend} {fail : RetCode} {stops : Bool} {length left : ℕ}

/-- The loop never moves more than was asked for or was there, and all of it on success. -/
theorem transferLoop_spec (hfail : fail ≠ .rSuccess) :
    ∀ {answers total r}, transferLoop b fail stops length left answers total = some r →
      total ≤ length → total ≤ left → r.2 ≤ left ∧ (r.1 = .rSuccess → r.2 = length)
  | answers, total, r, h, hlen, hleft => by
    unfold transferLoop at h
    split_ifs at h with hdone
    · cases h
      exact ⟨hleft, fun _ => hlen.antisymm hdone⟩
    have hasked := b.asked_le (length - total)
    match answers, h with
    | none :: _, h =>
      cases h
      exact ⟨hleft, fun he => absurd he hfail⟩
    | some k :: answers, h =>
      simp only [transfer] at h
      split_ifs at h
      · cases h
        exact ⟨hleft, fun he => absurd he hfail⟩
      · simp only at h
        split_ifs at h
        · cases h
          exact ⟨hleft, fun he => RetCode.noConfusion he⟩
        · exact transferLoop_spec hfail h (by omega) (by omega)

/-- Each answer moves a byte or ends the loop, so one answer more than bytes asked for will do. -/
theorem transferLoop_returns (hb : b = .hdfs → length < 2 ^ 31)
    (hstops : stops = true ∨ length ≤ left) :
    ∀ {answers total}, length - total < answers.length →
      (transferLoop b fail stops length left answers total).isSome
  | answer :: answers, total, h => by
    rw [transferLoop, Backend.asked_eq fun he => (by have := hb he; omega)]
    split_ifs with hdone
    · rfl
    cases answer with
    | none => rfl
    | some k =>
      simp only [transfer, if_neg (Int.not_lt.2 (Int.natCast_nonneg _)), Int.toNat_natCast]
      split_ifs with hn
      · rfl
      · have hpos : 0 < min (k + 1) (min (length - total) (left - total)) := by
          rcases hstops with hs | hl
          · exact Nat.pos_of_ne_zero fun h0 => hn ⟨h0, hs⟩
          · omega
        rw [List.length_cons] at h
        exact transferLoop_returns hb hstops (by omega)

end Loop

variable {b : Backend} {answers : List (Option ℕ)} {s s' : Handle} {ret : RetCode}
  {out data : List UInt8} {length : ℕ}

theorem file_of_write (h : s.write b answers data = some (ret, out, s')) :
    ret = .rSuccess → s'.file = s.file ++ data := by
  obtain ⟨r, hr, he⟩ := Option.map_eq_some_iff.1 h
  cases he
  intro hret
  have hspec := transferLoop_spec (by decide) hr (Nat.zero_le _) (Nat.zero_le _)
  rw [hspec.2 hret, take_length]

theorem read_spec (h : s.read b answers length = some (ret, out, s')) :
    s'.file = s.file ∧
      (ret = .rSuccess → length ≤ s.left ∧ out = (s.file.drop s.pos).take length) := by
  obtain ⟨r, hr, he⟩ := Option.map_eq_some_iff.1 h
  cases he
  refine ⟨rfl, fun hret => ?_⟩
  have hspec := transferLoop_spec (by cases b <;> decide) hr (Nat.zero_le _) (Nat.zero_le _)
  rw [← hspec.2 hret]
  exact ⟨hspec.1, rfl⟩

/-- A `ReadTotalFile` that returns has got its memory. -/
theorem read_of_readTotalFile (h : call b answers s .readTotalFile = some (ret, out, s')) :
    { s.switchStatus .kInReading with pos := 0 }.read b answers (b.fileLength s.file.length) =
      some (ret, out, s') := by
  rw [call] at h
  split_ifs at h
  exact h

theorem file_switchStatus (s : Handle) {status : FileStatus} (h : status ≠ .kInOverWriting) :
    (s.switchStatus status).file = s.file := by
  cases status <;> simp only [Handle.switchStatus] <;> first | contradiction | split_ifs <;> rfl

/-- A call that succeeds, or only reads, does to the file what it denotes. -/
theorem file_of_call {c : Call} (h : call b answers s c = some (ret, out, s'))
    (hok : c.writes = true → ret = .rSuccess) : s'.file = c.denote s.file := by
  cases c with
  | append data =>
    rw [file_of_write h (hok rfl), file_switchStatus s (by decide), Call.denote]
  | overWrite data => exact file_of_write h (hok rfl)
  | readTotalFile =>
    exact (read_spec (read_of_readTotalFile h)).1.trans (file_switchStatus s (by decide))
  | read length => exact (read_spec h).1.trans (file_switchStatus s (by decide))

theorem file_of_history {start : Handle} {calls : List (Call × RetCode)}
    (h : History b start calls s) (hok : ∀ c ∈ calls, c.1.writes = true → c.2 = .rSuccess) :
    s.file = (calls.map Prod.fst).foldl Call.denote start.file := by
  induction h with
  | nil => rfl
  | snoc h hc ih =>
    rw [List.forall_mem_append] at hok
    rw [file_of_call hc (hok.2 _ (mem_singleton_self _)), ih hok.1, map_append, foldl_append]
    rfl

theorem call_returns {c : Call} (hfits : b = .hdfs → c.FitsHdfs s)
    (hanswers : c.size s < answers.length) : (call b answers s c).isSome := by
  have hsize : b = .hdfs → c.size s < 2 ^ 31 := fun hb => (hfits hb).1
  cases c with
  | append data | overWrite data =>
    rw [call, Handle.write, Option.isSome_map]
    exact transferLoop_returns hsize (.inr le_rfl) hanswers
  | readTotalFile =>
    have hlen : b.fileLength s.file.length = s.file.length := Backend.fileLength_eq hsize
    rw [call, if_pos (Backend.mallocs_eq fun hb => (hfits hb).2.1 rfl), Handle.read,
      Option.isSome_map, hlen]
    refine transferLoop_returns hsize (.inr ?_) hanswers
    rw [Handle.left, file_switchStatus s (by decide)]
    exact le_rfl
  | read length =>
    rw [call, Handle.read, Option.isSome_map]
    refine transferLoop_returns hsize ?_ hanswers
    cases b with
    | disk => exact .inl rfl
    | hdfs => exact .inr ((hfits rfl).2.2 length rfl)

/-- From every state a handle can be in: the file is what the calls denote if no write has failed,
and the next call returns, `ReadTotalFile` with the whole file and its length, and `Read` with
success only if enough bytes are left. -/
theorem append_only_file {start : Handle} {calls : List (Call × RetCode)}
    (h : History b start calls s) :
    ((∀ c ∈ calls, c.1.writes = true → c.2 = .rSuccess) →
      s.file = (calls.map Prod.fst).foldl Call.denote start.file) ∧
    ∀ c : Call, (b = .hdfs → c.FitsHdfs s) → ∀ answers : List (Option ℕ),
      (c.size s < answers.length → (call b answers s c).isSome) ∧
      ∀ out s', call b answers s c = some (.rSuccess, out, s') →
        (c = .readTotalFile → out = s.file ∧ b.fileLength s.file.length = s.file.length) ∧
        ∀ length, c = .read length → length ≤ (s.switchStatus .kInReading).left := by
  refine ⟨file_of_history h, fun c hfits answers => ⟨call_returns hfits, fun out s' hc => ⟨?_, ?_⟩⟩⟩
  · rintro rfl
    have hlen : b.fileLength s.file.length = s.file.length :=
      Backend.fileLength_eq fun hb => (hfits hb).1
    refine ⟨?_, hlen⟩
    rw [((read_spec (read_of_readTotalFile hc)).2 rfl).2, hlen, drop_zero,
      file_switchStatus s (by decide)]
    exact take_length
  · rintro length rfl
    exact ((read_spec hc).2 rfl).1

/-- One byte appended to an empty HDFS file, then read by two calls of `ReadTotalFile`. -/
theorem one_byte_appended :
    History .hdfs ⟨[], .kClosed, 0⟩ [(.append [7], .rSuccess)] ⟨[7], .kInAppending, 0⟩ ∧
    (call .hdfs [some 0, some 0] ⟨[7], .kInAppending, 0⟩ .readTotalFile).isSome := by
  have h : History .hdfs ⟨[], .kClosed, 0⟩ [(.append [7], .rSuccess)] ⟨[7], .kInAppending, 0⟩ :=
    .snoc .nil (show call .hdfs [some 0] _ _ = _ from rfl)
  exact ⟨h, ((append_only_file h).2 .readTotalFile (fun _ => ⟨by decide, by simp, by simp⟩) _).1
    (by decide)⟩

theorem transferLoop_past_end :
    ∀ answers : List (Option ℕ), (∀ a ∈ answers, a ≠ none) →
      transferLoop .hdfs .rReadHdfsFileFail false 1 0 answers 0 = none
  | [], _ => rfl
  | none :: _, h => absurd rfl (h none mem_cons_self)
  | some _ :: answers, h => transferLoop_past_end answers fun a ha => h a (mem_cons_of_mem _ ha)

/-- At the end of a file the disk handle says so, and the HDFS handle asks for ever. -/
theorem hdfs_read_past_end :
    (call .disk [some 0] ⟨[], .kClosed, 0⟩ (.read 1)).map Prod.fst = some .rFileEOF ∧
    ∀ answers : List (Option ℕ), (∀ a ∈ answers, a ≠ none) →
      call .hdfs answers ⟨[], .kClosed, 0⟩ (.read 1) = none :=
  ⟨rfl, fun _ h => Option.map_eq_none_iff.2 (transferLoop_past_end _ h)⟩

end FileHandle
