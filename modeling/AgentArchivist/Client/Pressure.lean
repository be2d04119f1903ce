import AgentArchivist.Lib.Runs
import Mathlib.Algebra.Group.Nat.Defs
import Mathlib.Data.List.Chain

/-! # The spool's pressure gate

Either high-water condition pauses new materialization, and a paused gate resumes below a
percentage of the cap. A percentage above 100 can put that point above the cap: a paused gate then
admits what the cap forbids. -/
namespace AgentArchivist.Client.Pressure
open Lib.Runs

structure PressureLimits where
  spoolCapBytes : UInt64
  freeFloorBytes : UInt64
  resumePercent : UInt64

def U64_MAX : UInt64 := UInt64.ofNat (2 ^ 64 - 1)

/-- `u64::saturating_mul`. -/
def saturatingMul (a b : UInt64) : UInt64 :=
  if a.toNat * b.toNat < 2 ^ 64 then a * b else U64_MAX

def PressureLimits.resumeThresholdBytes (limits : PressureLimits) : UInt64 :=
  saturatingMul limits.spoolCapBytes limits.resumePercent / 100

structure PressureReasons where
  spoolCap : Bool
  freeFloor : Bool
  draining : Bool
deriving DecidableEq

def PressureReasons.none : PressureReasons := ⟨false, false, false⟩

structure PressureStatus where
  paused : Bool
  reasons : PressureReasons
  spoolBytes : UInt64
  freeBytes : UInt64
  limits : PressureLimits

structure PressureGate where
  limits : PressureLimits
  paused : Bool

def PressureGate.new (limits : PressureLimits) : PressureGate := ⟨limits, false⟩

def PressureGate.evaluate (gate : PressureGate) (spoolBytes freeBytes : UInt64) :
    PressureStatus × PressureGate :=
  let capLive : Bool := spoolBytes ≥ gate.limits.spoolCapBytes
  let floorLive : Bool := freeBytes ≤ gate.limits.freeFloorBytes
  let paused :=
    if gate.paused then
      if spoolBytes < gate.limits.resumeThresholdBytes && !floorLive then false else gate.paused
    else if capLive || floorLive then true
    else gate.paused
  let reasons : PressureReasons :=
    if !paused then .none
    else if capLive || floorLive then ⟨capLive, floorLive, false⟩
    else { PressureReasons.none with draining := true }
  (⟨paused, reasons, spoolBytes, freeBytes, gate.limits⟩, { gate with paused })

/-- The evaluations of a gate, over what is measured before each. -/
def PressureGate.statuses (gate : PressureGate) (measured : List (UInt64 × UInt64)) :
    List PressureStatus :=
  (run (fun gate m => gate.evaluate m.1 m.2) gate measured).1

/-- The usage is below a bound, and the free space above the floor. -/
def Under (limits : PressureLimits) (bound : UInt64) (s : PressureStatus) : Prop :=
  s.spoolBytes < bound ∧ limits.freeFloorBytes < s.freeBytes

structure Sound (limits : PressureLimits) (statuses : List PressureStatus) : Prop where
  admits : ∀ s ∈ statuses, s.paused = false → Under limits limits.spoolCapBytes s
  /-- A pause lasts until the first measurement that has recovered. -/
  latched : statuses.IsChain fun s s' =>
    s.paused = true → (s'.paused = false ↔ Under limits limits.resumeThresholdBytes s')
  named : ∀ s ∈ statuses, s.reasons ≠ .none ↔ s.paused = true

theorem le_max (n : UInt64) : n ≤ U64_MAX := UInt64.le_iff_toNat_le.mpr (Nat.le_pred_of_lt n.toNat_lt)

variable {limits : PressureLimits}

/-- Below which usage a gate admits. -/
theorem evaluate_admits {paused spoolBytes freeBytes} :
    ((PressureGate.mk limits paused).evaluate spoolBytes freeBytes).1.paused = false ↔
      spoolBytes < (if paused then limits.resumeThresholdBytes else limits.spoolCapBytes) ∧
        limits.freeFloorBytes < freeBytes := by
  cases paused <;> simp [PressureGate.evaluate]

theorem evaluate_named (gate : PressureGate) (spoolBytes freeBytes : UInt64) :
    (gate.evaluate spoolBytes freeBytes).1.reasons ≠ .none ↔
      (gate.evaluate spoolBytes freeBytes).1.paused = true := by
  simp only [PressureGate.evaluate]
  generalize decide (spoolBytes ≥ _) = capLive, decide (freeBytes ≤ _) = floorLive,
    decide (spoolBytes < _) = below, gate.paused = paused
  revert capLive floorLive below paused
  decide

/-- Where the gate resumes below the cap or never, every evaluation is sound, also after a pause. -/
theorem statuses_sound (h : limits.resumeThresholdBytes ≤ limits.spoolCapBytes ∨
    limits.freeFloorBytes = U64_MAX) (paused : Bool)
    (measured : List (UInt64 × UInt64)) :
    Sound limits ((PressureGate.mk limits paused).statuses measured) ∧
      ∀ s ∈ ((PressureGate.mk limits paused).statuses measured).head?,
        paused = true → (s.paused = false ↔ Under limits limits.resumeThresholdBytes s) := by
  induction measured generalizing paused with
  | nil => exact ⟨⟨nofun, .nil, nofun⟩, nofun⟩
  | cons m measured ih =>
    obtain ⟨hrest, hnext⟩ := ih ((PressureGate.mk limits paused).evaluate m.1 m.2).1.paused
    have hadmits := @evaluate_admits limits paused m.1 m.2
    refine ⟨⟨List.forall_mem_cons.mpr ⟨fun hopen => ?_, hrest.admits⟩,
      hrest.latched.cons hnext,
      List.forall_mem_cons.mpr ⟨evaluate_named .., hrest.named⟩⟩, ?_⟩
    · obtain ⟨hbelow, hfloor⟩ := hadmits.mp hopen
      refine ⟨?_, hfloor⟩
      cases paused with
      | false => exact hbelow
      | true =>
        rcases h with hle | hmax
        · exact UInt64.lt_of_lt_of_le hbelow hle
        · exact absurd (hmax ▸ hfloor) (UInt64.not_lt.mpr (le_max m.2))
    · rintro _ ⟨⟩ rfl
      exact hadmits

/-- The gate keeps its policy over every sequence of measurements exactly where the point below
which it resumes is not above the cap, or it never resumes. -/
theorem pressure_gate_sound_iff (limits : PressureLimits) :
    (∀ measured, Sound limits ((PressureGate.new limits).statuses measured)) ↔
      limits.resumeThresholdBytes ≤ limits.spoolCapBytes ∨
        limits.freeFloorBytes = U64_MAX := by
  refine ⟨fun h => ?_, fun h measured => (statuses_sound h false measured).1⟩
  by_contra hnot
  obtain ⟨hle, hmax⟩ := not_or.mp hnot
  -- at the cap the gate pauses, and resumes at once
  have hpauses : ((PressureGate.new limits).evaluate limits.spoolCapBytes U64_MAX).1.paused = true :=
    eq_true_of_ne_false fun hopen => UInt64.lt_irrefl _ (evaluate_admits.mp hopen).1
  have hresumes := (@evaluate_admits limits true limits.spoolCapBytes U64_MAX).mpr
    ⟨UInt64.not_le.mp hle, UInt64.lt_of_le_of_ne (le_max _) hmax⟩
  rw [← hpauses] at hresumes
  have hsecond := (h [(_, _), (_, _)]).admits _ (List.mem_cons_of_mem _ List.mem_cons_self) hresumes
  exact UInt64.lt_irrefl _ hsecond.1

/-- Twice the cap as the resume point: the second measurement is admitted above the cap. -/
theorem admitted_above_cap : ∃ s ∈ (PressureGate.new ⟨100, 0, 200⟩).statuses [(150, 1), (150, 1)],
    s.paused = false ∧ ¬ Under ⟨100, 0, 200⟩ 100 s :=
  ⟨_, List.mem_cons_of_mem _ List.mem_cons_self, by decide, by unfold Under; decide⟩

end AgentArchivist.Client.Pressure
