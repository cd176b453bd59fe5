import RustSbi.Lib.Warl
import RustSbi.Target

/-!
The SBI firmware features extension (`sbi/fwft.rs`). Five features are fields
of `menvcfg`, set by writing the register and reading it back and got after a
probe that the field holds bits at all; misaligned exception delegation is two
bits of `medeleg`. What a write of either register leaves is up to the
hardware: `menvcfg` is a WARL register with any legal values.
-/

namespace RustSbi.SbiFwft

open Warl

variable {xlen : Xlen} {ι A : Type}

/-! ## Fields (`sbi/fwft.rs`) -/

/-- The features that `menvcfg` holds. -/
inductive EnvcfgFeature
  | landingPad
  | shadowStack
  | doubleTrap
  | pteAdHwUpdating
  | pointerMaskingPmlen
  deriving DecidableEq, Repr

/-- `ENVCFG_PMM_SHIFT`. -/
def envcfgPmmShift : Nat := 9

/-- `ENVCFG_LPE`, `ENVCFG_SSE`, `ENVCFG_DTE`, `ENVCFG_ADUE` and `ENVCFG_PMM`. -/
def EnvcfgFeature.mask (xlen : Xlen) : EnvcfgFeature → BitVec xlen.bits
  | landingPad => 1#(xlen.bits) <<< 0
  | shadowStack => 1#(xlen.bits) <<< 8
  | doubleTrap => 1#(xlen.bits) <<< 1
  | pteAdHwUpdating => 1#(xlen.bits) <<< 5
  | pointerMaskingPmlen => 0b11#(xlen.bits) <<< envcfgPmmShift

/-- `MIS_DELEG`: the delegation bits of misaligned loads and stores. -/
def misDeleg (xlen : Xlen) : BitVec xlen.bits := 1#(xlen.bits) <<< 4 ||| 1#(xlen.bits) <<< 6

/-- `menvcfg_bit`. -/
def menvcfgBit : (featureId : Nat) → Option EnvcfgFeature
  | 1 => some .landingPad
  | 2 => some .shadowStack
  | 3 => some .doubleTrap
  | 4 => some .pteAdHwUpdating
  | _ => none

/-! ## Hardware -/

/-- `menvcfg` with the fields of the features among its own. -/
structure Menvcfg (xlen : Xlen) (ι : Type) extends Register ι xlen.bits where
  own : EnvcfgFeature → ι
  mask_own : ∀ feature, mask (own feature) = feature.mask xlen

/-- The registers, and the choices that the hardware will make at the writes to come. -/
structure Csrs (xlen : Xlen) (A : Type) where
  menvcfg : BitVec xlen.bits
  medeleg : BitVec xlen.bits
  choices : Nat → A

/-- A hart, as far as the extension depends on it. -/
structure HartModel (xlen : Xlen) (ι A : Type) where
  hasSMode : Bool
  hasMenvcfg : Bool
  menvcfg : Menvcfg xlen ι
  hardware : Hardware menvcfg.toRegister A
  writeMedeleg : A → (current written : BitVec xlen.bits) → BitVec xlen.bits
  reset : Csrs xlen A
  reset_legal : menvcfg.Legal reset.menvcfg

/-- A routine of the extension. -/
abbrev Op (xlen : Xlen) (A α : Type) := StateM (Csrs xlen A) α

namespace Csrs

variable (hart : HartModel xlen ι A) (csrs : Csrs xlen A)

/-- `csrw menvcfg`. -/
def storeMenvcfg (value : BitVec xlen.bits) : Csrs xlen A where
  menvcfg := hart.hardware.write (csrs.choices 0) csrs.menvcfg value
  medeleg := csrs.medeleg
  choices n := csrs.choices (n + 1)

/-- `csrw medeleg`. -/
def storeMedeleg (value : BitVec xlen.bits) : Csrs xlen A where
  menvcfg := csrs.menvcfg
  medeleg := hart.writeMedeleg (csrs.choices 0) csrs.medeleg value
  choices n := csrs.choices (n + 1)

end Csrs

/-! ## The extension -/

section Extension

variable (hart : HartModel xlen ι A)

/-- `menvcfg_read`, which fails where the register is not there. -/
def menvcfgRead : Op xlen A (Option (BitVec xlen.bits)) := do
  if hart.hasMenvcfg then return some (← get).menvcfg
  else return none

/-- `menvcfg_write`. -/
def menvcfgWrite (value : BitVec xlen.bits) : Op xlen A Bool := do
  if hart.hasMenvcfg then
    modify fun csrs => csrs.storeMenvcfg hart value
    return true
  else return false

/-- Writes a field and reads it back. -/
def writeAndCheck (mask next : BitVec xlen.bits) : Op xlen A SbiRet := do
  if ← menvcfgWrite hart next then
    match ← menvcfgRead hart with
    | none => return .notSupported
    | some readBack =>
      if readBack &&& mask ≠ next &&& mask then return .notSupported
      else return .success 0
  else return .notSupported

/-- `set_menvcfg_bit`. -/
def setMenvcfgBit (bit value : BitVec xlen.bits) : Op xlen A SbiRet := do
  if value > 1#(xlen.bits) then return .invalidParam
  else match ← menvcfgRead hart with
    | none => return .notSupported
    | some current =>
      writeAndCheck hart bit (if value = 1#(xlen.bits) then current ||| bit else current &&& ~~~bit)

/-- `set_pmm`. -/
def setPmm (value : BitVec xlen.bits) : Op xlen A SbiRet := do
  let envcfgPmm := EnvcfgFeature.pointerMaskingPmlen.mask xlen
  if value > 3#(xlen.bits) then return .invalidParam
  else match ← menvcfgRead hart with
    | none => return .notSupported
    | some current =>
      writeAndCheck hart envcfgPmm ((current &&& ~~~envcfgPmm) ||| (value <<< envcfgPmmShift))

/-- `menvcfg_bits_supported`. -/
def menvcfgBitsSupported (mask : BitVec xlen.bits) : Op xlen A Bool := do
  match ← menvcfgRead hart with
  | none => return false
  | some current =>
    if ← menvcfgWrite hart (current ||| mask) then
      match ← menvcfgRead hart with
      | none =>
        let _ ← menvcfgWrite hart current
        return false
      | some probed =>
        let _ ← menvcfgWrite hart current
        return probed &&& mask ≠ 0#(xlen.bits)
    else return false

/-- `set`. -/
def set (featureId : Nat) (value flags : BitVec xlen.bits) : Op xlen A SbiRet := do
  if flags ≠ 0#(xlen.bits) then return .invalidParam
  else match featureId with
    | 0 =>
      if hart.hasSMode = false then return .notSupported
      else if value > 1#(xlen.bits) then return .invalidParam
      else
        modify fun csrs => csrs.storeMedeleg hart
          (if value = 1#(xlen.bits) then csrs.medeleg ||| misDeleg xlen
          else csrs.medeleg &&& ~~~misDeleg xlen)
        return .success 0
    | 5 => setPmm hart value
    | featureId =>
      match menvcfgBit featureId with
      | some feature => setMenvcfgBit hart (feature.mask xlen) value
      | none => return .notSupported

/-- `get`. -/
def get (featureId : Nat) : Op xlen A SbiRet := do
  match featureId with
  | 0 =>
    if hart.hasSMode = false then return .notSupported
    else return .success (if (← MonadState.get).medeleg &&& misDeleg xlen ≠ 0#(xlen.bits) then 1 else 0)
  | 5 =>
    let envcfgPmm := EnvcfgFeature.pointerMaskingPmlen.mask xlen
    if ← menvcfgBitsSupported hart envcfgPmm then
      match ← menvcfgRead hart with
      | some value => return .success ((value &&& envcfgPmm) >>> envcfgPmmShift).toNat
      | none => return .notSupported
    else return .notSupported
  | featureId =>
    match menvcfgBit featureId with
    | some feature =>
      if ← menvcfgBitsSupported hart (feature.mask xlen) then
        match ← menvcfgRead hart with
        | some value => return .success (if value &&& feature.mask xlen ≠ 0#(xlen.bits) then 1 else 0)
        | none => return .notSupported
      else return .notSupported
    | none => return .notSupported

end Extension

/-! ## Calls and runs -/

/-- A call of the extension. -/
inductive Call (xlen : Xlen)
  | set (featureId : Nat) (value flags : BitVec xlen.bits)
  | get (featureId : Nat)

def Call.run (hart : HartModel xlen ι A) : Call xlen → Op xlen A SbiRet
  | .set featureId value flags => SbiFwft.set hart featureId value flags
  | .get featureId => SbiFwft.get hart featureId

/-- The registers after a sequence of calls. -/
def runAll (hart : HartModel xlen ι A) : List (Call xlen) → Csrs xlen A → Csrs xlen A
  | [], csrs => csrs
  | call :: calls, csrs => runAll hart calls (call.run hart csrs).2

/-- The call is no successful set of the feature. -/
def Call.Spares (hart : HartModel xlen ι A) (featureId : Nat) (call : Call xlen)
    (csrs : Csrs xlen A) : Prop :=
  ∀ value flags, call = .set featureId value flags → (call.run hart csrs).1 ≠ .success 0

/-- No call of the sequence sets the feature. -/
def Undisturbed (hart : HartModel xlen ι A) (featureId : Nat) : List (Call xlen) → Csrs xlen A → Prop
  | [], _ => True
  | call :: calls, csrs =>
    call.Spares hart featureId csrs ∧ Undisturbed hart featureId calls (call.run hart csrs).2

/-- The feature with an identifier, if `menvcfg` holds it. -/
def envcfgFeature : (featureId : Nat) → Option EnvcfgFeature
  | 5 => some .pointerMaskingPmlen
  | featureId => menvcfgBit featureId

/-- The bits of `menvcfg` that are the feature's own. -/
def ownMask (xlen : Xlen) (featureId : Nat) : BitVec xlen.bits :=
  ((envcfgFeature featureId).map (·.mask xlen)).getD 0#(xlen.bits)

/-- Settings are atomic: from any legal contents of `menvcfg`. -/
structure Atomic (hart : HartModel xlen ι A) : Prop where
  /-- A call changes only the field of its feature. -/
  outside : ∀ csrs featureId value flags, hart.menvcfg.Legal csrs.menvcfg →
    (set hart featureId value flags csrs).2.menvcfg &&& ~~~ownMask xlen featureId =
      csrs.menvcfg &&& ~~~ownMask xlen featureId
  /-- A call that fails changes nothing. -/
  failed : ∀ csrs featureId value flags, hart.menvcfg.Legal csrs.menvcfg →
    (∀ ret, (set hart featureId value flags csrs).1 ≠ .success ret) →
      (set hart featureId value flags csrs).2.menvcfg = csrs.menvcfg
  /-- Getting a feature changes nothing. -/
  probed : ∀ csrs featureId, hart.menvcfg.Legal csrs.menvcfg →
    (get hart featureId csrs).2.menvcfg = csrs.menvcfg
  /-- What was set is got, until it is set again. -/
  kept : ∀ csrs featureId value flags, hart.menvcfg.Legal csrs.menvcfg →
    (set hart featureId value flags csrs).1 = .success 0 →
      ∀ calls, Undisturbed hart featureId calls (set hart featureId value flags csrs).2 →
        (get hart featureId (runAll hart calls (set hart featureId value flags csrs).2)).1 =
          .success value.toNat

/-! ## Fields and values -/

namespace EnvcfgFeature

/-- The largest value of a feature. -/
def limit (xlen : Xlen) : EnvcfgFeature → BitVec xlen.bits
  | pointerMaskingPmlen => 3#(xlen.bits)
  | _ => 1#(xlen.bits)

/-- The contents of the feature's field for a value. -/
def encode (feature : EnvcfgFeature) (value : BitVec xlen.bits) : BitVec xlen.bits :=
  match feature with
  | pointerMaskingPmlen => value <<< envcfgPmmShift
  | _ => if value = 1#(xlen.bits) then feature.mask xlen else 0#(xlen.bits)

/-- The value of the feature, from the contents of its field. -/
def decode (feature : EnvcfgFeature) (field : BitVec xlen.bits) : Nat :=
  match feature with
  | pointerMaskingPmlen => (field >>> envcfgPmmShift).toNat
  | _ => if field ≠ 0#(xlen.bits) then 1 else 0

variable {feature : EnvcfgFeature} {value : BitVec xlen.bits}

theorem toNat_small (xlen : Xlen) {n : Nat} (h : n < 4) : (BitVec.ofNat xlen.bits n).toNat = n := by
  have hbits : 2 ^ 2 ≤ 2 ^ xlen.bits := Nat.pow_le_pow_right (by decide) (by cases xlen <;> decide)
  rw [BitVec.toNat_ofNat, Nat.mod_eq_of_lt (by omega)]

theorem le_limit_cases (h : ¬ value > feature.limit xlen) :
    value = 0#(xlen.bits) ∨ value = 1#(xlen.bits) ∨
      feature = pointerMaskingPmlen ∧ (value = 2#(xlen.bits) ∨ value = 3#(xlen.bits)) := by
  have hle := BitVec.le_def.mp (BitVec.not_lt.mp h)
  simp only [← BitVec.toNat_inj, toNat_small xlen (show 0 < 4 by decide),
    toNat_small xlen (show 1 < 4 by decide), toNat_small xlen (show 2 < 4 by decide),
    toNat_small xlen (show 3 < 4 by decide)]
  cases feature with
  | pointerMaskingPmlen =>
    rw [limit, toNat_small xlen (by decide)] at hle
    simp only [true_and]
    omega
  | landingPad | shadowStack | doubleTrap | pteAdHwUpdating =>
    rw [limit, toNat_small xlen (by decide)] at hle
    · omega
    · nofun

theorem zero_le_limit (xlen : Xlen) (feature : EnvcfgFeature) :
    ¬ 0#(xlen.bits) > feature.limit xlen := by
  cases xlen <;> cases feature <;> decide

theorem encode_zero (feature : EnvcfgFeature) : feature.encode 0#(xlen.bits) = 0#(xlen.bits) := by
  cases xlen <;> cases feature <;> decide

theorem encode_subset (h : ¬ value > feature.limit xlen) :
    feature.encode value &&& ~~~feature.mask xlen = 0#(xlen.bits) := by
  rcases le_limit_cases h with rfl | rfl | ⟨rfl, rfl | rfl⟩
  all_goals cases xlen
  all_goals first | decide | (cases feature <;> decide)

theorem decode_encode (h : ¬ value > feature.limit xlen) :
    feature.decode (feature.encode value) = value.toNat := by
  rcases le_limit_cases h with rfl | rfl | ⟨rfl, rfl | rfl⟩
  all_goals cases xlen
  all_goals first | decide | (cases feature <;> decide)

end EnvcfgFeature

/-! ## What a call does -/

section Calls

variable {hart : HartModel xlen ι A} {csrs : Csrs xlen A} {featureId : Nat}
  {value flags : BitVec xlen.bits}

theorem menvcfgRead_run (h : hart.hasMenvcfg = true) (csrs : Csrs xlen A) :
    menvcfgRead hart csrs = (some csrs.menvcfg, csrs) := by
  simp only [menvcfgRead, h, if_true]
  rfl

theorem menvcfgRead_absent (h : hart.hasMenvcfg = false) (csrs : Csrs xlen A) :
    menvcfgRead hart csrs = (none, csrs) := by
  simp only [menvcfgRead, h, Bool.false_eq_true, if_false]
  rfl

theorem menvcfgWrite_run (h : hart.hasMenvcfg = true) (value : BitVec xlen.bits) (csrs : Csrs xlen A) :
    menvcfgWrite hart value csrs = (true, csrs.storeMenvcfg hart value) := by
  simp only [menvcfgWrite, h, if_true]
  rfl

theorem writeAndCheck_run (h : hart.hasMenvcfg = true) (mask next : BitVec xlen.bits)
    (csrs : Csrs xlen A) : writeAndCheck hart mask next csrs =
      (if (csrs.storeMenvcfg hart next).menvcfg &&& mask ≠ next &&& mask then .notSupported
        else .success 0, csrs.storeMenvcfg hart next) := by
  simp only [writeAndCheck, bind, StateT.bind, menvcfgWrite_run h, if_true, menvcfgRead_run h]
  split <;> rfl

/-- The probe writes ones, and then what was there before. -/
theorem menvcfgBitsSupported_run (h : hart.hasMenvcfg = true) (mask : BitVec xlen.bits)
    (csrs : Csrs xlen A) : menvcfgBitsSupported hart mask csrs =
      (decide ((csrs.storeMenvcfg hart (csrs.menvcfg ||| mask)).menvcfg &&& mask ≠ 0#(xlen.bits)),
        (csrs.storeMenvcfg hart (csrs.menvcfg ||| mask)).storeMenvcfg hart csrs.menvcfg) := by
  simp only [menvcfgBitsSupported, bind, StateT.bind, menvcfgRead_run h, menvcfgWrite_run h, if_true]
  rfl

theorem menvcfgBitsSupported_absent (h : hart.hasMenvcfg = false) (mask : BitVec xlen.bits)
    (csrs : Csrs xlen A) : menvcfgBitsSupported hart mask csrs = (false, csrs) := by
  simp only [menvcfgBitsSupported, bind, StateT.bind, menvcfgRead_absent h]
  rfl

theorem setMenvcfgBit_run {feature : EnvcfgFeature} (hbit : feature ≠ .pointerMaskingPmlen) :
    setMenvcfgBit hart (feature.mask xlen) value csrs =
      if value > feature.limit xlen then (.invalidParam, csrs)
      else if hart.hasMenvcfg = false then (.notSupported, csrs)
      else writeAndCheck hart (feature.mask xlen)
        (hart.menvcfg.insert (hart.menvcfg.own feature) csrs.menvcfg (feature.encode value)) csrs := by
  have hlimit : feature.limit xlen = 1#(xlen.bits) := by
    cases feature <;> first | rfl | exact absurd rfl hbit
  have hencode : feature.encode value =
      if value = 1#(xlen.bits) then feature.mask xlen else 0#(xlen.bits) := by
    cases feature <;> first | rfl | exact absurd rfl hbit
  rw [hlimit, hencode, setMenvcfgBit]
  by_cases hvalue : value > 1#(xlen.bits)
  · simp only [hvalue, if_true]
    rfl
  · cases hm : hart.hasMenvcfg with
    | false =>
      simp only [hvalue, if_false, bind, StateT.bind, menvcfgRead_absent hm, if_true]
      rfl
    | true =>
      simp only [hvalue, if_false, bind, StateT.bind, menvcfgRead_run hm, Bool.true_eq_false]
      congr 1
      rw [← hart.menvcfg.mask_own feature]
      split
      · exact Register.or_mask_eq_insert
      · exact Register.and_not_mask_eq_insert

theorem setPmm_run : setPmm hart value csrs =
    if value > EnvcfgFeature.pointerMaskingPmlen.limit xlen then (.invalidParam, csrs)
    else if hart.hasMenvcfg = false then (.notSupported, csrs)
    else writeAndCheck hart (EnvcfgFeature.pointerMaskingPmlen.mask xlen)
      (hart.menvcfg.insert (hart.menvcfg.own .pointerMaskingPmlen) csrs.menvcfg
        (EnvcfgFeature.pointerMaskingPmlen.encode value)) csrs := by
  rw [setPmm, EnvcfgFeature.limit]
  by_cases hvalue : value > 3#(xlen.bits)
  · simp only [hvalue, if_true]
    rfl
  · cases hm : hart.hasMenvcfg with
    | false =>
      simp only [hvalue, if_false, bind, StateT.bind, menvcfgRead_absent hm, if_true]
      rfl
    | true =>
      simp only [hvalue, if_false, bind, StateT.bind, menvcfgRead_run hm, Bool.true_eq_false]
      rw [Register.insert, hart.menvcfg.mask_own]
      rfl

theorem set_flags (h : flags ≠ 0#(xlen.bits)) :
    set hart featureId value flags csrs = (.invalidParam, csrs) := by
  unfold set
  rw [if_pos h]
  rfl

/-- `set` of a feature that `menvcfg` holds. -/
theorem set_envcfg (hart : HartModel xlen ι A) (csrs : Csrs xlen A) (value : BitVec xlen.bits)
    {feature : EnvcfgFeature} (h : envcfgFeature featureId = some feature) :
    set hart featureId value 0#(xlen.bits) csrs =
      if value > feature.limit xlen then (.invalidParam, csrs)
      else if hart.hasMenvcfg = false then (.notSupported, csrs)
      else writeAndCheck hart (feature.mask xlen)
        (hart.menvcfg.insert (hart.menvcfg.own feature) csrs.menvcfg (feature.encode value)) csrs := by
  match featureId, h with
  | 1, h | 2, h | 3, h | 4, h =>
    cases h
    unfold set
    rw [if_neg (by simp)]
    exact setMenvcfgBit_run nofun
  | 5, h =>
    cases h
    unfold set
    rw [if_neg (by simp)]
    exact setPmm_run
  | 0, h | n + 6, h => cases h

theorem set_unknown (h : envcfgFeature featureId = none) (hne : featureId ≠ 0) :
    set hart featureId value 0#(xlen.bits) csrs = (.notSupported, csrs) := by
  match featureId, h with
  | 0, _ => exact absurd rfl hne
  | n + 6, _ =>
    unfold set
    rw [if_neg (by simp)]
    rfl

/-- `set` of the delegation of misaligned accesses. -/
theorem set_misaligned (hart : HartModel xlen ι A) (csrs : Csrs xlen A) (value : BitVec xlen.bits) :
    set hart 0 value 0#(xlen.bits) csrs =
    if hart.hasSMode = false then (.notSupported, csrs)
    else if value > 1#(xlen.bits) then (.invalidParam, csrs)
    else (.success 0, csrs.storeMedeleg hart
      (if value = 1#(xlen.bits) then csrs.medeleg ||| misDeleg xlen
      else csrs.medeleg &&& ~~~misDeleg xlen)) := by
  unfold set
  rw [if_neg (by simp)]
  by_cases hs : hart.hasSMode = false
  · simp only [hs, if_true]
    rfl
  · by_cases hvalue : value > 1#(xlen.bits)
    · simp only [hs, hvalue, if_true]
      rfl
    · simp only [hs, hvalue, if_false]
      rfl

/-- `get` of a feature that `menvcfg` holds. -/
theorem get_envcfg {feature : EnvcfgFeature} (h : envcfgFeature featureId = some feature) :
    get hart featureId csrs =
      if hart.hasMenvcfg = false then (.notSupported, csrs)
      else
        let probe := csrs.storeMenvcfg hart (csrs.menvcfg ||| feature.mask xlen)
        let restored := probe.storeMenvcfg hart csrs.menvcfg
        (if probe.menvcfg &&& feature.mask xlen ≠ 0#(xlen.bits) then
          .success (feature.decode (restored.menvcfg &&& feature.mask xlen))
        else .notSupported, restored) := by
  match featureId, h with
  | 1, h | 2, h | 3, h | 4, h | 5, h =>
    cases h
    unfold get
    cases hm : hart.hasMenvcfg with
    | false =>
      simp only [bind, StateT.bind, menvcfgBitsSupported_absent hm, if_true, Bool.false_eq_true, if_false,
        menvcfgBit]
      rfl
    | true =>
      simp only [bind, StateT.bind, menvcfgBitsSupported_run hm, Bool.true_eq_false, if_false,
        menvcfgBit, decide_eq_true_eq]
      split
      · simp only [bind, StateT.bind, menvcfgRead_run hm]
        rfl
      · rfl
  | 0, h | n + 6, h => cases h

theorem get_unknown (h : envcfgFeature featureId = none) (hne : featureId ≠ 0) :
    get hart featureId csrs = (.notSupported, csrs) := by
  match featureId, h with
  | 0, _ => exact absurd rfl hne
  | n + 6, _ => rfl

theorem get_misaligned : get hart 0 csrs =
    (if hart.hasSMode = false then .notSupported
      else .success (if csrs.medeleg &&& misDeleg xlen ≠ 0#(xlen.bits) then 1 else 0), csrs) := by
  unfold get
  split <;> rfl

/-- The outcomes of `set`: nothing is written, or `medeleg` is, or the field of the feature is. -/
theorem set_cases (hart : HartModel xlen ι A) (csrs : Csrs xlen A) (featureId : Nat)
    (value flags : BitVec xlen.bits) :
    ((∀ ret, (set hart featureId value flags csrs).1 ≠ .success ret) ∧
      (set hart featureId value flags csrs).2 = csrs) ∨
    (featureId = 0 ∧ hart.hasSMode = true ∧ (value = 0#(xlen.bits) ∨ value = 1#(xlen.bits)) ∧
      set hart featureId value flags csrs = (.success 0, csrs.storeMedeleg hart
        (if value = 1#(xlen.bits) then csrs.medeleg ||| misDeleg xlen
        else csrs.medeleg &&& ~~~misDeleg xlen))) ∨
    ∃ feature, envcfgFeature featureId = some feature ∧ hart.hasMenvcfg = true ∧
      ¬ value > feature.limit xlen ∧
      set hart featureId value flags csrs = writeAndCheck hart (feature.mask xlen)
        (hart.menvcfg.insert (hart.menvcfg.own feature) csrs.menvcfg (feature.encode value)) csrs := by
  by_cases hflags : flags = 0#(xlen.bits)
  · subst hflags
    cases hfeature : envcfgFeature featureId with
    | none =>
      by_cases hzero : featureId = 0
      · subst hzero
        rw [set_misaligned]
        by_cases hs : hart.hasSMode = false
        · rw [if_pos hs]
          exact .inl ⟨nofun, rfl⟩
        · by_cases hvalue : value > 1#(xlen.bits)
          · rw [if_neg hs, if_pos hvalue]
            exact .inl ⟨nofun, rfl⟩
          · rw [if_neg hs, if_neg hvalue]
            have hle : ¬ value > EnvcfgFeature.landingPad.limit xlen := hvalue
            refine .inr (.inl ⟨rfl, eq_true_of_ne_false hs, ?_, rfl⟩)
            rcases EnvcfgFeature.le_limit_cases hle with h | h | ⟨⟨⟩, -⟩
            · exact .inl h
            · exact .inr h
      · rw [set_unknown hfeature hzero]
        exact .inl ⟨nofun, rfl⟩
    | some feature =>
      rw [set_envcfg hart csrs value hfeature]
      by_cases hvalue : value > feature.limit xlen
      · rw [if_pos hvalue]
        exact .inl ⟨nofun, rfl⟩
      · by_cases hm : hart.hasMenvcfg = false
        · rw [if_neg hvalue, if_pos hm]
          exact .inl ⟨nofun, rfl⟩
        · rw [if_neg hvalue, if_neg hm]
          exact .inr (.inr ⟨feature, rfl, eq_true_of_ne_false hm, hvalue, rfl⟩)
  · rw [set_flags hflags]
    exact .inl ⟨nofun, rfl⟩

/-- A legal word that is written back is there again. -/
theorem storeMenvcfg_legal (csrs : Csrs xlen A) {x : BitVec xlen.bits} (hx : hart.menvcfg.Legal x) :
    (csrs.storeMenvcfg hart x).menvcfg = x :=
  hart.hardware.write_of_legal hx

/-- `get` leaves both registers as they were. -/
theorem get_registers (hlegal : hart.menvcfg.Legal csrs.menvcfg) :
    (get hart featureId csrs).2.menvcfg = csrs.menvcfg ∧
      (get hart featureId csrs).2.medeleg = csrs.medeleg := by
  cases hfeature : envcfgFeature featureId with
  | none =>
    by_cases hzero : featureId = 0
    · subst hzero
      rw [get_misaligned]
      exact ⟨rfl, rfl⟩
    · rw [get_unknown hfeature hzero]
      exact ⟨rfl, rfl⟩
  | some feature =>
    rw [get_envcfg hfeature]
    split
    · exact ⟨rfl, rfl⟩
    · exact ⟨storeMenvcfg_legal _ hlegal, rfl⟩

end Calls

/-! ## Fields of one feature -/

section Field

variable {hart : HartModel xlen ι A} {feature : EnvcfgFeature}

theorem encode_subset_own (menvcfg : Menvcfg xlen ι) {value : BitVec xlen.bits}
    (h : ¬ value > feature.limit xlen) :
    feature.encode value &&& ~~~menvcfg.mask (menvcfg.own feature) = 0#(xlen.bits) := by
  rw [menvcfg.mask_own]
  exact EnvcfgFeature.encode_subset h

theorem EnvcfgFeature.mask_injective : Function.Injective (EnvcfgFeature.mask xlen) := by
  intro f g h
  cases xlen <;> cases f <;> cases g <;> first | rfl | exact absurd h (by decide)

theorem Menvcfg.own_ne (menvcfg : Menvcfg xlen ι) {other : EnvcfgFeature} (h : other ≠ feature) :
    menvcfg.own other ≠ menvcfg.own feature := by
  intro heq
  have hmask : other.mask xlen = feature.mask xlen := by
    rw [← menvcfg.mask_own, ← menvcfg.mask_own, heq]
  exact h (EnvcfgFeature.mask_injective hmask)

/-- The identifier of a feature. -/
def EnvcfgFeature.featureType : EnvcfgFeature → Nat
  | landingPad => 1
  | shadowStack => 2
  | doubleTrap => 3
  | pteAdHwUpdating => 4
  | pointerMaskingPmlen => 5

theorem envcfgFeature_featureType (feature : EnvcfgFeature) :
    envcfgFeature feature.featureType = some feature := by
  cases feature <;> rfl

theorem eq_featureType {featureId : Nat} (h : envcfgFeature featureId = some feature) :
    featureId = feature.featureType := by
  match featureId, h with
  | 1, h | 2, h | 3, h | 4, h | 5, h =>
    cases h
    rfl
  | 0, h | n + 6, h => cases h

/-- A feature of one bit is off or on. -/
theorem bit_cases (hbit : feature ≠ .pointerMaskingPmlen) (x : BitVec xlen.bits) :
    x &&& feature.mask xlen = 0#(xlen.bits) ∨ x &&& feature.mask xlen = feature.mask xlen := by
  obtain ⟨k, hk⟩ : ∃ k, feature.mask xlen = BitVec.twoPow xlen.bits k := by
    cases feature with
    | landingPad => exact ⟨0, (BitVec.twoPow_eq _ _).symm⟩
    | shadowStack => exact ⟨8, (BitVec.twoPow_eq _ _).symm⟩
    | doubleTrap => exact ⟨1, (BitVec.twoPow_eq _ _).symm⟩
    | pteAdHwUpdating => exact ⟨5, (BitVec.twoPow_eq _ _).symm⟩
    | pointerMaskingPmlen => exact absurd rfl hbit
  rw [hk, BitVec.and_twoPow]
  split
  · exact .inr rfl
  · exact .inl rfl

theorem encode_bit_cases (hbit : feature ≠ .pointerMaskingPmlen) (value : BitVec xlen.bits) :
    feature.encode value = 0#(xlen.bits) ∨ feature.encode value = feature.mask xlen := by
  have hencode : feature.encode value =
      if value = 1#(xlen.bits) then feature.mask xlen else 0#(xlen.bits) := by
    cases feature <;> first | rfl | exact absurd rfl hbit
  rw [hencode]
  split
  · exact .inr rfl
  · exact .inl rfl

theorem mask_ne_zero : feature.mask xlen ≠ 0#(xlen.bits) := by
  cases xlen <;> cases feature <;> decide

/-- The pointer-masking field holds the value that it encodes. -/
theorem encode_pmm_field (x : BitVec xlen.bits) :
    EnvcfgFeature.pointerMaskingPmlen.encode
        ((x &&& EnvcfgFeature.pointerMaskingPmlen.mask xlen) >>> envcfgPmmShift) =
      x &&& EnvcfgFeature.pointerMaskingPmlen.mask xlen := by
  apply BitVec.eq_of_getLsbD_eq
  intro k hk
  simp only [EnvcfgFeature.encode, EnvcfgFeature.mask, BitVec.getLsbD_shiftLeft,
    BitVec.getLsbD_ushiftRight, BitVec.getLsbD_and, hk, decide_true, Bool.true_and]
  by_cases hshift : k < envcfgPmmShift
  · simp [hshift]
  · simp [hshift, hk, show envcfgPmmShift + (k - envcfgPmmShift) = k by omega]

theorem le_limit_pmm_field (x : BitVec xlen.bits) :
    ¬ (x &&& EnvcfgFeature.pointerMaskingPmlen.mask xlen) >>> envcfgPmmShift >
      EnvcfgFeature.pointerMaskingPmlen.limit xlen := by
  have hmask : EnvcfgFeature.pointerMaskingPmlen.mask xlen >>> envcfgPmmShift = 3#(xlen.bits) := by
    cases xlen <;> decide
  rw [BitVec.ushiftRight_and_distrib, hmask, EnvcfgFeature.limit, gt_iff_lt, BitVec.not_lt,
    BitVec.le_def, BitVec.toNat_and]
  exact Nat.and_le_right

/-- The two parts of a word. -/
theorem eq_of_parts {w : Nat} {x y mask : BitVec w} (h : x &&& mask = y &&& mask)
    (h' : x &&& ~~~mask = y &&& ~~~mask) : x = y := by
  apply BitVec.eq_of_getLsbD_eq
  intro k hk
  have hbit := congrArg (BitVec.getLsbD · k) h
  have hbit' := congrArg (BitVec.getLsbD · k) h'
  simp only [BitVec.getLsbD_and, BitVec.getLsbD_not, hk, decide_true, Bool.true_and] at hbit hbit'
  revert hbit hbit'
  cases x.getLsbD k <;> cases y.getLsbD k <;> cases mask.getLsbD k <;> decide

/-- Writing the field of a feature changes nothing outside it. -/
theorem storeMenvcfg_outside {csrs : Csrs xlen A} (hlegal : hart.menvcfg.Legal csrs.menvcfg)
    {value : BitVec xlen.bits} (h : ¬ value > feature.limit xlen) :
    (csrs.storeMenvcfg hart (hart.menvcfg.insert (hart.menvcfg.own feature) csrs.menvcfg
      (feature.encode value))).menvcfg &&& ~~~feature.mask xlen =
      csrs.menvcfg &&& ~~~feature.mask xlen := by
  rw [← hart.menvcfg.mask_own feature]
  exact hart.hardware.write_outside hlegal (encode_subset_own hart.menvcfg h)

/-- Whether the field reads back as the value that was written. -/
theorem writeAndCheck_success_iff (hm : hart.hasMenvcfg = true) (csrs : Csrs xlen A)
    {value : BitVec xlen.bits} (h : ¬ value > feature.limit xlen) {next : BitVec xlen.bits}
    (hnext : next = hart.menvcfg.insert (hart.menvcfg.own feature) csrs.menvcfg (feature.encode value)) :
    ((∃ ret, (writeAndCheck hart (feature.mask xlen) next csrs).1 = .success ret) ↔
      (csrs.storeMenvcfg hart next).menvcfg &&& feature.mask xlen = feature.encode value) ∧
    ((writeAndCheck hart (feature.mask xlen) next csrs).1 = .success 0 ↔
      (csrs.storeMenvcfg hart next).menvcfg &&& feature.mask xlen = feature.encode value) ∧
    (writeAndCheck hart (feature.mask xlen) next csrs).2 = csrs.storeMenvcfg hart next := by
  have hfield : next &&& feature.mask xlen = feature.encode value := by
    rw [hnext, ← hart.menvcfg.mask_own feature]
    exact Register.insert_field (encode_subset_own hart.menvcfg h)
  rw [writeAndCheck_run hm, hfield]
  by_cases heq : (csrs.storeMenvcfg hart next).menvcfg &&& feature.mask xlen = feature.encode value
  · simp [heq]
  · simp [heq]

end Field

/-! ## Hardware on which settings are atomic -/

/-- Every feature of one bit can be on, a refused pointer-masking length leaves
the field as it was, the probe of the field does not read zero, and the
delegation bits are taken. -/
structure Conforms (hart : HartModel xlen ι A) : Prop where
  bits : hart.hasMenvcfg = true → ∀ feature, feature ≠ .pointerMaskingPmlen →
    hart.menvcfg.legal (hart.menvcfg.own feature) (feature.mask xlen)
  refused : hart.hasMenvcfg = true → ∀ a x, hart.menvcfg.Legal x →
    ∀ value, ¬ value > EnvcfgFeature.pointerMaskingPmlen.limit xlen →
      ¬ hart.menvcfg.legal (hart.menvcfg.own .pointerMaskingPmlen)
        (EnvcfgFeature.pointerMaskingPmlen.encode value) →
        hart.hardware.write a x (hart.menvcfg.insert (hart.menvcfg.own .pointerMaskingPmlen) x
          (EnvcfgFeature.pointerMaskingPmlen.encode value)) &&&
            EnvcfgFeature.pointerMaskingPmlen.mask xlen =
          x &&& EnvcfgFeature.pointerMaskingPmlen.mask xlen
  probe : hart.hasMenvcfg = true → ∀ a x, hart.menvcfg.Legal x →
    hart.hardware.write a x (x ||| EnvcfgFeature.pointerMaskingPmlen.mask xlen) &&&
      EnvcfgFeature.pointerMaskingPmlen.mask xlen ≠ 0#(xlen.bits)
  delegation : hart.hasSMode = true → ∀ a medeleg,
    hart.writeMedeleg a medeleg (medeleg ||| misDeleg xlen) &&& misDeleg xlen ≠ 0#(xlen.bits) ∧
      hart.writeMedeleg a medeleg (medeleg &&& ~~~misDeleg xlen) &&& misDeleg xlen = 0#(xlen.bits)

section Atomic

variable {hart : HartModel xlen ι A} {csrs : Csrs xlen A} {featureId : Nat}
  {value flags : BitVec xlen.bits}

/-- Whatever the hardware, `set` changes only the field of its feature. -/
theorem set_outside (featureId : Nat) (value flags : BitVec xlen.bits)
    (hlegal : hart.menvcfg.Legal csrs.menvcfg) :
    (set hart featureId value flags csrs).2.menvcfg &&& ~~~ownMask xlen featureId =
      csrs.menvcfg &&& ~~~ownMask xlen featureId := by
  rcases set_cases hart csrs featureId value flags with
    ⟨-, hsame⟩ | ⟨rfl, -, -, hset⟩ | ⟨feature, hfeature, hm, hvalue, hset⟩
  · rw [hsame]
  · rw [hset]
    rfl
  · rw [hset, (writeAndCheck_success_iff hm csrs hvalue rfl).2.2, ownMask, hfeature]
    exact storeMenvcfg_outside hlegal hvalue

theorem set_legal (hlegal : hart.menvcfg.Legal csrs.menvcfg) :
    hart.menvcfg.Legal (set hart featureId value flags csrs).2.menvcfg := by
  rcases set_cases hart csrs featureId value flags with
    ⟨-, hsame⟩ | ⟨-, -, -, hset⟩ | ⟨feature, -, hm, hvalue, hset⟩
  · rw [hsame]
    exact hlegal
  · rw [hset]
    exact hlegal
  · rw [hset, (writeAndCheck_success_iff hm csrs hvalue rfl).2.2]
    exact hart.hardware.legal_write _ _ _ hlegal

/-- A field that was refused its value is as it was. -/
theorem Conforms.field_of_refused (h : Conforms hart) (hm : hart.hasMenvcfg = true) {a : A}
    {x : BitVec xlen.bits} (hx : hart.menvcfg.Legal x) {feature : EnvcfgFeature}
    (hvalue : ¬ value > feature.limit xlen)
    (hrefused : hart.hardware.write a x (hart.menvcfg.insert (hart.menvcfg.own feature) x
      (feature.encode value)) &&& feature.mask xlen ≠ feature.encode value) :
    hart.hardware.write a x (hart.menvcfg.insert (hart.menvcfg.own feature) x
      (feature.encode value)) &&& feature.mask xlen = x &&& feature.mask xlen := by
  have hfield : hart.menvcfg.insert (hart.menvcfg.own feature) x (feature.encode value) &&&
      hart.menvcfg.mask (hart.menvcfg.own feature) = feature.encode value :=
    Register.insert_field (encode_subset_own hart.menvcfg hvalue)
  have hillegal : ¬ hart.menvcfg.legal (hart.menvcfg.own feature) (feature.encode value) := by
    intro hlegal
    rw [← hfield] at hlegal
    have hkept := hart.hardware.write_field a x _ _ hlegal
    rw [hfield, hart.menvcfg.mask_own] at hkept
    exact hrefused hkept
  by_cases hbit : feature = .pointerMaskingPmlen
  · subst hbit
    exact h.refused hm a x hx value hvalue hillegal
  · -- the field has one bit, and the value that is not legal is not the one it holds
    have hold := hx (hart.menvcfg.own feature)
    rw [hart.menvcfg.mask_own] at hold
    have hne : x &&& feature.mask xlen ≠ feature.encode value := fun heq => hillegal (heq ▸ hold)
    rcases bit_cases hbit x with hx0 | hx1 <;> rcases encode_bit_cases hbit value with he0 | he1
    · exact absurd (hx0.trans he0.symm) hne
    · rw [hx0]
      exact (bit_cases hbit _).resolve_right (he1 ▸ hrefused)
    · rw [hx1]
      exact (bit_cases hbit _).resolve_left (he0 ▸ hrefused)
    · exact absurd (hx1.trans he1.symm) hne

theorem Conforms.set_failed (h : Conforms hart) (hlegal : hart.menvcfg.Legal csrs.menvcfg)
    (hfailed : ∀ ret, (set hart featureId value flags csrs).1 ≠ .success ret) :
    (set hart featureId value flags csrs).2.menvcfg = csrs.menvcfg := by
  rcases set_cases hart csrs featureId value flags with
    ⟨-, hsame⟩ | ⟨-, -, -, hset⟩ | ⟨feature, -, hm, hvalue, hset⟩
  · rw [hsame]
  · rw [hset] at hfailed
    exact absurd rfl (hfailed 0)
  · obtain ⟨hsuccess, -, hstate⟩ := writeAndCheck_success_iff hm csrs hvalue rfl
    rw [hset] at hfailed ⊢
    rw [hstate]
    rw [← not_exists, hsuccess] at hfailed
    exact eq_of_parts (h.field_of_refused hm hlegal hvalue hfailed)
      (storeMenvcfg_outside hlegal hvalue)

/-! ### Runs -/

/-- The successes of `set` carry no value. -/
theorem set_success {ret : Nat} (h : (set hart featureId value flags csrs).1 = .success ret) :
    (set hart featureId value flags csrs).1 = .success 0 := by
  rcases set_cases hart csrs featureId value flags with
    ⟨hfailed, -⟩ | ⟨-, -, -, hset⟩ | ⟨feature, -, hm, hvalue, hset⟩
  · exact absurd h (hfailed ret)
  · rw [hset]
  · obtain ⟨hsome, hzero, -⟩ := writeAndCheck_success_iff hm csrs hvalue rfl
    rw [hset] at h ⊢
    exact hzero.mpr (hsome.mp ⟨ret, h⟩)

theorem run_legal (call : Call xlen) (hlegal : hart.menvcfg.Legal csrs.menvcfg) :
    hart.menvcfg.Legal (call.run hart csrs).2.menvcfg := by
  cases call with
  | set featureId value flags => exact set_legal hlegal
  | get featureId =>
    rw [show ((Call.get featureId).run hart csrs).2.menvcfg = csrs.menvcfg from
      (get_registers hlegal).1]
    exact hlegal

/-- Calls that do not set a feature leave its field. -/
theorem Conforms.run_field (h : Conforms hart) {call : Call xlen} {feature : EnvcfgFeature}
    (hlegal : hart.menvcfg.Legal csrs.menvcfg) (hspares : call.Spares hart feature.featureType csrs) :
    (call.run hart csrs).2.menvcfg &&& feature.mask xlen = csrs.menvcfg &&& feature.mask xlen := by
  cases call with
  | get featureId => exact congrArg (· &&& _) (get_registers hlegal).1
  | set featureId value flags =>
    by_cases hid : featureId = feature.featureType
    · subst hid
      have hfailed : ∀ ret, (set hart feature.featureType value flags csrs).1 ≠ .success ret :=
        fun ret hret => hspares value flags rfl (set_success hret)
      exact congrArg (· &&& _) (h.set_failed hlegal hfailed)
    · have houtside := set_outside featureId value flags hlegal
      rw [← hart.menvcfg.mask_own feature]
      cases hother : envcfgFeature featureId with
      | none =>
        rw [ownMask, hother] at houtside
        simp only [Option.map_none, Option.getD_none, BitVec.not_zero, BitVec.and_allOnes] at houtside
        exact congrArg (· &&& _) houtside
      | some other =>
        rw [ownMask, hother, Option.map_some, Option.getD_some, ← hart.menvcfg.mask_own other]
          at houtside
        have hne : other ≠ feature := by
          rintro rfl
          exact hid (eq_featureType hother)
        exact Register.field_of_outside_eq (hart.menvcfg.own_ne hne) houtside

/-- Calls that do not set the delegation leave it. -/
theorem run_medeleg {call : Call xlen} (hlegal : hart.menvcfg.Legal csrs.menvcfg)
    (hspares : call.Spares hart 0 csrs) : (call.run hart csrs).2.medeleg = csrs.medeleg := by
  cases call with
  | get featureId => exact (get_registers hlegal).2
  | set featureId value flags =>
    change (set hart featureId value flags csrs).2.medeleg = csrs.medeleg
    rcases set_cases hart csrs featureId value flags with
      ⟨-, hsame⟩ | ⟨rfl, -, -, hset⟩ | ⟨feature, -, hm, hvalue, hset⟩
    · rw [hsame]
    · exact absurd (congrArg Prod.fst hset) (hspares value flags rfl)
    · rw [hset, (writeAndCheck_success_iff hm csrs hvalue rfl).2.2]
      rfl

/-- A register field that calls leave is what it was after any number of them. -/
theorem runAll_kept {α : Type} (field : Csrs xlen A → α) {featureId : Nat}
    (hstep : ∀ (call : Call xlen) csrs, hart.menvcfg.Legal csrs.menvcfg →
      call.Spares hart featureId csrs → field (call.run hart csrs).2 = field csrs)
    (calls : List (Call xlen)) {csrs : Csrs xlen A} (hlegal : hart.menvcfg.Legal csrs.menvcfg)
    (hcalls : Undisturbed hart featureId calls csrs) :
    hart.menvcfg.Legal (runAll hart calls csrs).menvcfg ∧
      field (runAll hart calls csrs) = field csrs := by
  induction calls generalizing csrs with
  | nil => exact ⟨hlegal, rfl⟩
  | cons call calls ih =>
    obtain ⟨hend, hfield⟩ := ih (run_legal call hlegal) hcalls.2
    exact ⟨hend, hfield.trans (hstep call csrs hlegal hcalls.1)⟩

/-- The probe of a feature finds it. -/
theorem Conforms.probe_field (h : Conforms hart) (hm : hart.hasMenvcfg = true)
    (hlegal : hart.menvcfg.Legal csrs.menvcfg) (feature : EnvcfgFeature) :
    (csrs.storeMenvcfg hart (csrs.menvcfg ||| feature.mask xlen)).menvcfg &&& feature.mask xlen ≠
      0#(xlen.bits) := by
  by_cases hbit : feature = .pointerMaskingPmlen
  · subst hbit
    exact h.probe hm _ _ hlegal
  · have hfield : (csrs.menvcfg ||| feature.mask xlen) &&&
        hart.menvcfg.mask (hart.menvcfg.own feature) = feature.mask xlen := by
      rw [← hart.menvcfg.mask_own feature]
      exact Register.or_mask_field
    have hlegal' := h.bits hm feature hbit
    rw [← hfield] at hlegal'
    have hstored := hart.hardware.write_field (csrs.choices 0) csrs.menvcfg _ _ hlegal'
    rw [hfield, hart.menvcfg.mask_own] at hstored
    rw [Csrs.storeMenvcfg, hstored]
    exact mask_ne_zero

/-! ### Settings that are kept -/

/-- What was set in `menvcfg` is got after any calls that do not set it. -/
theorem Conforms.kept_envcfg (h : Conforms hart) (hlegal : hart.menvcfg.Legal csrs.menvcfg)
    {feature : EnvcfgFeature} (hm : hart.hasMenvcfg = true)
    (hvalue : ¬ value > feature.limit xlen)
    (hfield : csrs.menvcfg &&& feature.mask xlen = feature.encode value) {calls : List (Call xlen)}
    (hcalls : Undisturbed hart feature.featureType calls csrs) :
    (get hart feature.featureType (runAll hart calls csrs)).1 = .success value.toNat := by
  obtain ⟨hend, hkept⟩ := runAll_kept (fun csrs => csrs.menvcfg &&& feature.mask xlen)
    (fun call csrs hlegal hspares => h.run_field hlegal hspares) calls hlegal hcalls
  rw [get_envcfg (envcfgFeature_featureType _), hm, if_neg (by decide)]
  change (if _ ≠ 0#(xlen.bits) then SbiRet.success _ else .notSupported) = _
  rw [if_pos (h.probe_field hm hend feature), storeMenvcfg_legal _ hend, hkept, hfield,
    EnvcfgFeature.decode_encode hvalue]

/-- So is the delegation of misaligned accesses. -/
theorem Conforms.kept_misaligned (h : Conforms hart) (hlegal : hart.menvcfg.Legal csrs.menvcfg)
    (hs : hart.hasSMode = true) (hvalue : value = 0#(xlen.bits) ∨ value = 1#(xlen.bits)) {a : A}
    {medeleg : BitVec xlen.bits}
    (hmedeleg : csrs.medeleg = hart.writeMedeleg a medeleg
      (if value = 1#(xlen.bits) then medeleg ||| misDeleg xlen else medeleg &&& ~~~misDeleg xlen))
    {calls : List (Call xlen)} (hcalls : Undisturbed hart 0 calls csrs) :
    (get hart 0 (runAll hart calls csrs)).1 = .success value.toNat := by
  obtain ⟨hon, hoff⟩ := h.delegation hs a medeleg
  rw [get_misaligned, (runAll_kept Csrs.medeleg
    (fun call csrs hlegal hspares => run_medeleg hlegal hspares) calls hlegal hcalls).2, hs, hmedeleg]
  rcases hvalue with rfl | rfl
  · have hne : (0#(xlen.bits) : BitVec xlen.bits) ≠ 1#(xlen.bits) := by cases xlen <;> decide
    rw [if_neg hne, hoff]
    simp
  · rw [if_pos rfl, if_pos hon, EnvcfgFeature.toNat_small xlen (by decide)]
    rfl

theorem Conforms.set_kept (h : Conforms hart) (hlegal : hart.menvcfg.Legal csrs.menvcfg)
    (hset : (set hart featureId value flags csrs).1 = .success 0) {calls : List (Call xlen)}
    (hcalls : Undisturbed hart featureId calls (set hart featureId value flags csrs).2) :
    (get hart featureId (runAll hart calls (set hart featureId value flags csrs).2)).1 =
      .success value.toNat := by
  have hlegal' : hart.menvcfg.Legal (set hart featureId value flags csrs).2.menvcfg :=
    set_legal hlegal
  rcases set_cases hart csrs featureId value flags with
    ⟨hfailed, -⟩ | ⟨rfl, hs, hvalue, heq⟩ | ⟨feature, hfeature, hm, hvalue, heq⟩
  · exact absurd hset (hfailed 0)
  · rw [heq] at hcalls hlegal' ⊢
    exact h.kept_misaligned hlegal' hs hvalue rfl hcalls
  · obtain rfl := eq_featureType hfeature
    obtain ⟨-, hzero, hstate⟩ := writeAndCheck_success_iff hm csrs hvalue rfl
    rw [heq] at hset hcalls hlegal' ⊢
    have hfield := hzero.mp hset
    rw [← hstate] at hfield
    exact h.kept_envcfg hlegal' hm hvalue hfield hcalls

/-! ### What atomic settings ask of the hardware -/

/-- The registers with chosen contents, on hardware that will make one choice throughout. -/
def Csrs.steady (menvcfg medeleg : BitVec xlen.bits) (a : A) : Csrs xlen A where
  menvcfg := menvcfg
  medeleg := medeleg
  choices := fun _ => a

/-- A value that stayed in its field is got, so the probe of the field finds it. -/
theorem Atomic.probe_of_stored (h : Atomic hart) (csrs : Csrs xlen A) (hlegal : hart.menvcfg.Legal csrs.menvcfg)
    (hm : hart.hasMenvcfg = true) {feature : EnvcfgFeature} (hvalue : ¬ value > feature.limit xlen)
    {next : Csrs xlen A}
    (hnext : next = csrs.storeMenvcfg hart (hart.menvcfg.insert (hart.menvcfg.own feature)
      csrs.menvcfg (feature.encode value)))
    (hstored : next.menvcfg &&& feature.mask xlen = feature.encode value) :
    (next.storeMenvcfg hart (next.menvcfg ||| feature.mask xlen)).menvcfg &&& feature.mask xlen ≠
      0#(xlen.bits) := by
  obtain ⟨-, hzero, hstate⟩ := writeAndCheck_success_iff hm csrs hvalue rfl
  have hset := set_envcfg hart csrs value (envcfgFeature_featureType feature)
  rw [if_neg hvalue, hm, if_neg (by decide)] at hset
  have hget := h.kept csrs feature.featureType value 0#(xlen.bits) hlegal
    (by rw [hset, hzero, ← hnext]; exact hstored) [] trivial
  rw [hset, hstate, ← hnext, runAll, get_envcfg (envcfgFeature_featureType _), hm,
    if_neg (by decide)] at hget
  intro hprobe
  dsimp only at hget
  rw [if_neg (not_not_intro hprobe)] at hget
  cases hget

/-- Otherwise a set to 0 would succeed on a bit that `get` does not find. -/
theorem Atomic.bits (h : Atomic hart) (hm : hart.hasMenvcfg = true) {feature : EnvcfgFeature}
    (hbit : feature ≠ .pointerMaskingPmlen) :
    hart.menvcfg.legal (hart.menvcfg.own feature) (feature.mask xlen) := by
  by_contra hillegal
  have hreset := hart.reset_legal (hart.menvcfg.own feature)
  rw [hart.menvcfg.mask_own] at hreset
  have hzero : hart.reset.menvcfg &&& feature.mask xlen = 0#(xlen.bits) :=
    (bit_cases hbit _).resolve_right fun hone => hillegal (hone ▸ hreset)
  rw [hzero, ← EnvcfgFeature.encode_zero feature] at hreset
  have hvalue := EnvcfgFeature.zero_le_limit xlen feature
  have hsubset := encode_subset_own hart.menvcfg hvalue
  have hinsert := Register.legal_insert hart.reset_legal hsubset hreset
  have hstored : (hart.reset.storeMenvcfg hart (hart.menvcfg.insert (hart.menvcfg.own feature)
      hart.reset.menvcfg (feature.encode 0#(xlen.bits)))).menvcfg &&& feature.mask xlen =
        feature.encode 0#(xlen.bits) := by
    rw [storeMenvcfg_legal _ hinsert, ← hart.menvcfg.mask_own]
    exact Register.insert_field hsubset
  -- what the probe reads is legal, hence not the bit
  have hprobe := h.probe_of_stored hart.reset hart.reset_legal hm hvalue rfl hstored
  have hstate := storeMenvcfg_legal hart.reset hinsert
  have hread := hart.hardware.legal_write (hart.reset.choices 1) _
    (hart.menvcfg.insert (hart.menvcfg.own feature) hart.reset.menvcfg
      (feature.encode 0#(xlen.bits)) ||| feature.mask xlen) hinsert (hart.menvcfg.own feature)
  rw [hart.menvcfg.mask_own, ← hstate] at hread
  exact hillegal ((bit_cases hbit _).resolve_left hprobe ▸ hread)

/-- Otherwise a set that failed would leave the length that the hardware put instead. -/
theorem Atomic.refused (h : Atomic hart) (hm : hart.hasMenvcfg = true) {a : A}
    {x : BitVec xlen.bits} (hx : hart.menvcfg.Legal x)
    (hvalue : ¬ value > EnvcfgFeature.pointerMaskingPmlen.limit xlen)
    (hillegal : ¬ hart.menvcfg.legal (hart.menvcfg.own .pointerMaskingPmlen)
      (EnvcfgFeature.pointerMaskingPmlen.encode value)) :
    hart.hardware.write a x (hart.menvcfg.insert (hart.menvcfg.own .pointerMaskingPmlen) x
      (EnvcfgFeature.pointerMaskingPmlen.encode value)) = x := by
  have hset := set_envcfg hart (.steady x 0#(xlen.bits) a) value
    (envcfgFeature_featureType .pointerMaskingPmlen)
  rw [if_neg hvalue, hm, if_neg (by decide)] at hset
  obtain ⟨hsome, -, hstate⟩ :=
    writeAndCheck_success_iff hm (.steady x 0#(xlen.bits) a) hvalue rfl
  have hfailed := h.failed (.steady x 0#(xlen.bits) a) EnvcfgFeature.pointerMaskingPmlen.featureType value 0#(xlen.bits) hx
  rw [hset, hstate, ← not_exists, hsome] at hfailed
  refine hfailed fun hread => hillegal ?_
  have hlegal := hart.hardware.legal_write a x (hart.menvcfg.insert
    (hart.menvcfg.own .pointerMaskingPmlen) x (EnvcfgFeature.pointerMaskingPmlen.encode value)) hx
    (hart.menvcfg.own .pointerMaskingPmlen)
  rw [hart.menvcfg.mask_own] at hlegal
  exact hread ▸ hlegal

/-- Otherwise `get` would not find a length that was set. -/
theorem Atomic.probe (h : Atomic hart) (hm : hart.hasMenvcfg = true) {a : A}
    {x : BitVec xlen.bits} (hx : hart.menvcfg.Legal x) :
    hart.hardware.write a x (x ||| EnvcfgFeature.pointerMaskingPmlen.mask xlen) &&&
      EnvcfgFeature.pointerMaskingPmlen.mask xlen ≠ 0#(xlen.bits) := by
  -- the length that is there is set again
  have hself : hart.menvcfg.insert (hart.menvcfg.own .pointerMaskingPmlen) x
      (x &&& hart.menvcfg.mask (hart.menvcfg.own .pointerMaskingPmlen)) = x :=
    Register.insert_self
  rw [hart.menvcfg.mask_own, ← encode_pmm_field] at hself
  have hnext : Csrs.steady x 0#(xlen.bits) a = (Csrs.steady x 0#(xlen.bits) a).storeMenvcfg hart (hart.menvcfg.insert
      (hart.menvcfg.own .pointerMaskingPmlen) x (EnvcfgFeature.pointerMaskingPmlen.encode
        ((x &&& EnvcfgFeature.pointerMaskingPmlen.mask xlen) >>> envcfgPmmShift))) := by
    rw [hself]
    exact congrArg (Csrs.steady · 0#(xlen.bits) a) (hart.hardware.write_of_legal hx).symm
  exact h.probe_of_stored (.steady x 0#(xlen.bits) a) hx hm (le_limit_pmm_field x) hnext
    (encode_pmm_field x).symm

/-- Otherwise a delegation that was set would not be got. -/
theorem Atomic.delegation (h : Atomic hart) (hs : hart.hasSMode = true) (a : A)
    (medeleg : BitVec xlen.bits) :
    hart.writeMedeleg a medeleg (medeleg ||| misDeleg xlen) &&& misDeleg xlen ≠ 0#(xlen.bits) ∧
      hart.writeMedeleg a medeleg (medeleg &&& ~~~misDeleg xlen) &&& misDeleg xlen =
        0#(xlen.bits) := by
  have hget : ∀ value : BitVec xlen.bits, ¬ value > 1#(xlen.bits) →
      (if hart.writeMedeleg a medeleg (if value = 1#(xlen.bits) then medeleg ||| misDeleg xlen
          else medeleg &&& ~~~misDeleg xlen) &&& misDeleg xlen ≠ 0#(xlen.bits) then 1 else 0) =
        value.toNat := by
    intro value hvalue
    have hset := set_misaligned hart (.steady hart.reset.menvcfg medeleg a) value
    rw [hs, if_neg (by decide), if_neg hvalue] at hset
    have hkept := h.kept (.steady hart.reset.menvcfg medeleg a) 0 value 0#(xlen.bits)
      hart.reset_legal (by rw [hset]) [] trivial
    rw [hset, runAll, get_misaligned, hs, if_neg (by decide)] at hkept
    exact SbiRet.success.inj hkept
  constructor
  · intro hzero
    have hone := hget 1#(xlen.bits) (BitVec.lt_irrefl _)
    rw [if_pos rfl, if_neg (not_not_intro hzero), EnvcfgFeature.toNat_small xlen (by decide)] at hone
    cases hone
  · by_contra hne
    have hzero := hget 0#(xlen.bits) (EnvcfgFeature.zero_le_limit xlen .landingPad)
    have h01 : (0#(xlen.bits) : BitVec xlen.bits) ≠ 1#(xlen.bits) := by cases xlen <;> decide
    rw [if_neg h01, if_pos hne, EnvcfgFeature.toNat_small xlen (by decide)] at hzero
    cases hzero

theorem Atomic.conforms (h : Atomic hart) : Conforms hart where
  bits hm _ hbit := h.bits hm hbit
  refused hm _ _ hx _ hvalue hillegal := congrArg (· &&& _) (h.refused hm hx hvalue hillegal)
  probe hm _ _ hx := h.probe hm hx
  delegation hs a medeleg := h.delegation hs a medeleg

/-- Settings are atomic on the hardware on which every feature of one bit can be
on, a refused pointer-masking length leaves the one that was there, the probe of
that field finds it and the delegation bits are taken, and on no other. -/
theorem atomic_iff_conforms (hart : HartModel xlen ι A) : Atomic hart ↔ Conforms hart := by
  refine ⟨Atomic.conforms, fun h => ⟨?_, ?_, ?_, ?_⟩⟩
  · intro csrs featureId value flags hlegal
    exact set_outside featureId value flags hlegal
  · intro csrs featureId value flags hlegal hfailed
    exact h.set_failed hlegal hfailed
  · intro csrs featureId hlegal
    exact (get_registers hlegal).1
  · intro csrs featureId value flags hlegal hset calls hcalls
    exact h.set_kept hlegal hset hcalls

end Atomic

/-! ## A hart with two lengths -/

/-- Every field takes any value, except that a length is 0 or 2. -/
def twoLengths : Menvcfg .rv64 (Option EnvcfgFeature) where
  mask
    | some feature => feature.mask .rv64
    | none => ~~~0x723#64
  legal
    | some .pointerMaskingPmlen => fun x => x = 0#64 ∨ x = 0x400#64
    | _ => fun _ => True
  disjoint i j h := by
    match i, j with
    | none, none => exact absurd rfl h
    | none, some feature | some feature, none => cases feature <;> decide
    | some feature, some other =>
      cases feature <;> cases other <;> first | decide | exact absurd rfl h
  cover k hk := by
    have hfields : ∀ k < 64, ∃ i ∈ [some .landingPad, some .shadowStack, some .doubleTrap,
        some .pteAdHwUpdating, some .pointerMaskingPmlen, none],
        (Option.elim i (~~~0x723#64) (EnvcfgFeature.mask .rv64)).getLsbD k = true := by
      decide +kernel
    obtain ⟨i, -, hi⟩ := hfields k hk
    refine ⟨i, ?_⟩
    cases i <;> exact hi
  own := some
  mask_own _ := rfl

/-- What is stored: length 0 for those that the hart does not have. -/
def storeLength (written : BitVec 64) : BitVec 64 :=
  if written &&& 0x600#64 = 0#64 ∨ written &&& 0x600#64 = 0x400#64 then written
  else written &&& ~~~0x600#64

theorem storeLength_legal (written : BitVec 64) :
    storeLength written &&& 0x600#64 = 0#64 ∨ storeLength written &&& 0x600#64 = 0x400#64 := by
  unfold storeLength
  split
  · assumption
  · left
    rw [BitVec.and_assoc, BitVec.and_comm (~~~0x600#64), BitVec.and_not_self]
    exact BitVec.and_zero

theorem storeLength_field {mask : BitVec 64} (h : ~~~0x600#64 &&& mask = mask) (written : BitVec 64) :
    storeLength written &&& mask = written &&& mask := by
  unfold storeLength
  split
  · rfl
  · rw [BitVec.and_assoc, h]

/-- A hart with `twoLengths`. -/
def twoLengthsHart : HartModel .rv64 (Option EnvcfgFeature) Unit where
  hasSMode := true
  hasMenvcfg := true
  menvcfg := twoLengths
  hardware :=
    { write := fun _ _ written => storeLength written
      legal_write := fun _ _ written _ i => by
        match i with
        | none | some .landingPad | some .shadowStack | some .doubleTrap | some .pteAdHwUpdating =>
          trivial
        | some .pointerMaskingPmlen => exact storeLength_legal written
      write_field := fun _ _ written i hlegal => by
        match i, hlegal with
        | some .pointerMaskingPmlen, hlegal => exact congrArg (· &&& 0x600#64) (if_pos hlegal)
        | none, _ | some .landingPad, _ | some .shadowStack, _ | some .doubleTrap, _
        | some .pteAdHwUpdating, _ => exact storeLength_field rfl written }
  writeMedeleg := fun _ _ written => written
  reset := .steady 0x400#64 0#64 ()
  reset_legal
    | none | some .landingPad | some .shadowStack | some .doubleTrap | some .pteAdHwUpdating => trivial
    | some .pointerMaskingPmlen => .inr rfl

/-- Length 3 is refused, and length 2 is gone. -/
theorem refused_length_not_atomic : ¬ Atomic twoLengthsHart := by
  intro h
  have hkept := h.failed twoLengthsHart.reset 5 3#64 0#64 twoLengthsHart.reset_legal
    (by
      have : (set twoLengthsHart 5 3#64 0#64 twoLengthsHart.reset).1 = .notSupported := by rfl
      rw [this]
      nofun)
  exact absurd hkept (by decide)

end RustSbi.SbiFwft
