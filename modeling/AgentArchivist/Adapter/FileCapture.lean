import AgentArchivist.Lib.Slices
import Mathlib.Algebra.Group.Nat.Defs

/-! # Complete records of a growing file

The boundary of a snapshot, selected by one scan for newlines, and the cursor that
captures what completed since the last pass. The cursor looks only at what stands after
its position; where each snapshot keeps the complete records of the one before, what it
captures over the passes is the complete part of the last, record by record. -/
namespace AgentArchivist.Adapter.FileCapture
open Lib List
open Lib.Slices hiding completePrefix

def U64_MAX : Nat := 2 ^ 64 - 1

def isNewline (byte : UInt8) : Bool := byte == 0x0a

/-- A slice in memory is shorter than half the address space. -/
structure Slice where
  bytes : List UInt8
  bound : bytes.length < 2 ^ 63

/-- A length as a 64-bit count. -/
def measured (bytes : Nat) : Nat := min bytes U64_MAX

def saturatingAdd (a b : Nat) : Nat := min (a + b) U64_MAX

structure RecordBoundary where
  completeBytes : Nat
  completeRecords : Nat
  incompleteTailBytes : Nat
deriving DecidableEq, Repr

namespace RecordBoundary

/-- The loop of `select`: bytes through the last newline so far, and newlines so far. -/
def scan (source : List (UInt8 × Nat)) (state : Nat × Nat) : Nat × Nat :=
  source.foldl (fun (bytes, records) (byte, index) =>
    if byte == 0x0a then (index + 1, records + 1) else (bytes, records)) state

def select (source : List UInt8) : RecordBoundary :=
  let (completeBytes, completeRecords) := scan source.zipIdx (0, 0)
  { completeBytes := measured completeBytes
    completeRecords := measured completeRecords
    incompleteTailBytes := measured (source.length - completeBytes) }

/-- Every byte through the last newline. -/
def completePrefix (source : List UInt8) : List UInt8 := Slices.completePrefix isNewline source

/-- The complete records, each with its newline. -/
def records (source : List UInt8) : List (List UInt8) := splitInclusive isNewline (completePrefix source)

end RecordBoundary

/-- What one pass captured, and the boundary of the whole snapshot after it. -/
structure PassOutcome where
  captured : List UInt8
  boundary : RecordBoundary
deriving DecidableEq, Repr

inductive CaptureCursorError where
  | sourceShrank
deriving DecidableEq, Repr

structure CaptureCursor where
  position : Nat
  completeRecords : Nat
deriving DecidableEq, Repr

namespace CaptureCursor

def new : CaptureCursor := ⟨0, 0⟩

def observe (cursor : CaptureCursor) (source : List UInt8) :
    Except CaptureCursorError PassOutcome × CaptureCursor :=
  if source.length < cursor.position then (.error .sourceShrank, cursor)
  else
    let suffix := source.drop cursor.position
    let suffixBoundary := RecordBoundary.select suffix
    let captured := suffix.take suffixBoundary.completeBytes
    let boundary : RecordBoundary :=
      { completeBytes := saturatingAdd cursor.position suffixBoundary.completeBytes
        completeRecords := saturatingAdd cursor.completeRecords suffixBoundary.completeRecords
        incompleteTailBytes := suffixBoundary.incompleteTailBytes }
    (.ok ⟨captured, boundary⟩, ⟨boundary.completeBytes, boundary.completeRecords⟩)

end CaptureCursor

/-! ## What the scan selects -/

section
open RecordBoundary

section
variable (source : List UInt8)

theorem scan_eq (start : Nat) (state : Nat × Nat) :
    scan (source.zipIdx start) state =
      (match rposition isNewline source with
        | some last => start + last + 1
        | none => state.1, state.2 + source.countP isNewline) := by
  induction source generalizing start state with
  | nil => simp [scan, rposition]
  | cons byte source ih =>
    have hstep : scan ((byte :: source).zipIdx start) state = scan (source.zipIdx (start + 1))
        (if byte == 0x0a then (start + 1, state.2 + 1) else state) := rfl
    rw [hstep, ih, rposition, countP_cons]
    by_cases hb : byte = 0x0a
    · subst hb
      cases rposition isNewline source <;> simp [isNewline] <;> omega
    have hno : isNewline byte = false := by simpa [isNewline] using hb
    cases rposition isNewline source with
    | none => simp [hno, hb]
    | some last =>
      simp [hno, hb]
      omega

theorem completeLength : (scan source.zipIdx (0, 0)).1 = (completePrefix source).length := by
  rw [scan_eq, completePrefix, Slices.completePrefix]
  cases h : rposition isNewline source with
  | none => rfl
  | some last =>
    obtain ⟨before, x, after, rfl, rfl, -⟩ := exists_of_rposition h
    simp

theorem countP_completePrefix : source.countP isNewline = (records source).length := by
  obtain ⟨tail, hsplit, hterm, htail⟩ := completePrefix_split isNewline source
  have hnone : tail.countP isNewline = 0 := by
    rw [countP_eq_zero]
    intro y hy
    simp [htail y hy]
  rw [records, completePrefix, splitInclusive_length hterm]
  conv => lhs; rw [hsplit, countP_append, hnone, Nat.add_zero]

theorem completePrefix_length_le : (completePrefix source).length ≤ source.length :=
  (completePrefix_initial isNewline source).length_le

theorem records_length_le : (records source).length ≤ source.length := by
  rw [← countP_completePrefix]
  exact countP_le_length

end

theorem select_eq {source} (h : source.length < 2 ^ 63) : select source =
    { completeBytes := (completePrefix source).length
      completeRecords := (records source).length
      incompleteTailBytes := source.length - (completePrefix source).length } := by
  have hbytes := completeLength source
  have hrecords : (scan source.zipIdx (0, 0)).2 = (records source).length := by
    rw [scan_eq, ← countP_completePrefix]
    exact Nat.zero_add _
  have hmeasured : ∀ n, n ≤ source.length → measured n = n := by
    intro n hn
    have hmax : U64_MAX = 2 ^ 64 - 1 := rfl
    rw [measured, Nat.min_eq_left]
    omega
  unfold select
  simp only [hbytes, hrecords]
  rw [hmeasured _ (completePrefix_length_le source), hmeasured _ (records_length_le source),
    hmeasured _ (Nat.sub_le _ _)]

/-! ## A pass -/

/-- The cursor stands at the end of the complete part of a snapshot. -/
structure At (cursor : CaptureCursor) (source : List UInt8) : Prop where
  position : cursor.position = (completePrefix source).length
  completeRecords : cursor.completeRecords = (records source).length

theorem at_new : At .new [] := ⟨rfl, rfl⟩

/-- A snapshot that keeps the complete records captures what completed since. -/
theorem observe_extends {cursor : CaptureCursor} {old} {source : Slice} (h : At cursor old)
    (hkeeps : completePrefix old <+: completePrefix source.bytes) :
    ∃ captured boundary cursor', cursor.observe source.bytes = (.ok ⟨captured, boundary⟩, cursor') ∧
      completePrefix source.bytes = completePrefix old ++ captured ∧
      records source.bytes = records old ++ splitInclusive isNewline captured ∧
      boundary = select source.bytes ∧ At cursor' source.bytes := by
  obtain ⟨suffix, hsource⟩ := hkeeps.trans (completePrefix_initial isNewline source.bytes)
  have hterm := completePrefix_terminated isNewline old
  have hlen : (completePrefix old).length + suffix.length = source.bytes.length := by
    rw [← hsource, length_append]
  have hbound := source.bound
  have hcomplete : completePrefix source.bytes = completePrefix old ++ completePrefix suffix := by
    rw [← hsource]
    exact completePrefix_append hterm
  have hrecords : records source.bytes = records old ++ records suffix := by
    rw [records, hcomplete]
    exact splitInclusive_append hterm
  have hdrop : source.bytes.drop cursor.position = suffix := by
    rw [h.position, ← hsource, drop_left]
  have hcaptured : suffix.take (completePrefix suffix).length = completePrefix suffix :=
    (prefix_iff_eq_take.mp (completePrefix_initial isNewline suffix)).symm
  have hshort : suffix.length < 2 ^ 63 := by omega
  have hselect := select_eq hshort
  have hboundary : RecordBoundary.mk
      (saturatingAdd cursor.position (completePrefix suffix).length)
      (saturatingAdd cursor.completeRecords (records suffix).length)
      (suffix.length - (completePrefix suffix).length) = select source.bytes := by
    have hmax : U64_MAX = 2 ^ 64 - 1 := rfl
    have hle := completePrefix_length_le suffix
    have hle' := records_length_le source.bytes
    rw [select_eq hbound, hcomplete, hrecords, h.position, h.completeRecords, saturatingAdd,
      saturatingAdd, ← hlen]
    rw [hrecords] at hle'
    simp only [length_append, RecordBoundary.mk.injEq] at hle' ⊢
    omega
  refine ⟨completePrefix suffix, select source.bytes, ⟨(select source.bytes).completeBytes,
    (select source.bytes).completeRecords⟩, ?_, hcomplete, hrecords, rfl, ?_⟩
  · unfold CaptureCursor.observe
    have hlong : ¬ source.bytes.length < cursor.position := by
      rw [h.position]
      omega
    rw [if_neg hlong, hdrop, ← hboundary]
    simp [hselect, hcaptured]
  · rw [select_eq hbound]
    exact ⟨rfl, rfl⟩

end

end AgentArchivist.Adapter.FileCapture
