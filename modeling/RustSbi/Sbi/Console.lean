import RustSbi.Ecall.Abi
import RustSbi.Memory.Supervisor

/-!
Transfers of the debug console (`sbi/console.rs`). One call moves at most one chunk between the
guest's buffer and a backend that may take or give fewer bytes, fail, or answer with a count that
is too large.
-/

namespace RustSbi.Console

open RustSbi.Memory Store
open RustSbi.Ecall (Physical)

variable {xlen : Xlen} {σ : Type}

/-! ## The console -/

/-- `DbcnError`. -/
inductive DbcnError
  | denied
  | failed
  deriving DecidableEq, Repr

/-- `DbcnBackend`: one operation on one slice; `read_slice` may change all of it. -/
structure DbcnBackend (σ : Type) where
  writeSlice : σ → List (BitVec 8) → Except DbcnError Nat × σ
  readSlice : {len : Nat} → σ → Vector (BitVec 8) len →
    Except DbcnError Nat × Vector (BitVec 8) len × σ

/-- `MAX_TRANSFER_BYTES`. -/
def maxTransferBytes : Nat := 256

/-- `dbcn_error`. -/
def dbcnError : DbcnError → SbiRet
  | .denied => .denied
  | .failed => .failed

/-- Guest memory and the console device. -/
structure Machine (σ : Type) where
  ram : Ram
  device : σ

/-- `SbiConsole::validate_buffer`. -/
def validateBuffer (memory : SupervisorMemory xlen) (buffer : Physical xlen) :
    Except SbiRet (Nat × Nat) :=
  let start := buffer.physAddrLo.toNat
  let len := buffer.numBytes.toNat
  if len = 0 then .ok (start, 0)
  else if buffer.physAddrHi ≠ 0 then .error .invalidParam
  else
    match PhysAddrRange.fromStartLen xlen start len with
    | .error _ => .error .invalidParam
    | .ok range =>
      match memory.checkRange range with
      | .error _ => .error .invalidParam
      | .ok () => .ok (start, len)

/-- `Console::write`. -/
def write (memory : SupervisorMemory xlen) (backend : DbcnBackend σ) (buffer : Physical xlen)
    (m : Machine σ) : SbiRet × Machine σ :=
  match validateBuffer memory buffer with
  | .error error => (error, m)
  | .ok (start, len) =>
    if len = 0 then (.success 0, m)
    else
      let chunkLen := min len maxTransferBytes
      match memory.read m.ram start chunkLen with
      | .error _ => (.invalidParam, m)
      | .ok chunk =>
        match backend.writeSlice m.device chunk with
        | (.error error, device) => (dbcnError error, { m with device })
        | (.ok count, device) =>
          if count > chunkLen then (.failed, { m with device })
          else (.success count, { m with device })

/-- `Console::read`. -/
def read (memory : SupervisorMemory xlen) (backend : DbcnBackend σ) (buffer : Physical xlen)
    (m : Machine σ) : SbiRet × Machine σ :=
  match validateBuffer memory buffer with
  | .error error => (error, m)
  | .ok (start, len) =>
    if len = 0 then (.success 0, m)
    else
      let chunkLen := min len maxTransferBytes
      match backend.readSlice m.device (Vector.replicate chunkLen 0#8) with
      | (.error error, _, device) => (dbcnError error, { m with device })
      | (.ok count, chunk, device) =>
        if count > chunkLen then (.failed, { m with device })
        else if count ≠ 0 then
          match memory.write m.ram start (chunk.toList.take count) with
          | (.error _, ram) => (.invalidParam, ⟨ram, device⟩)
          | (.ok (), ram) => (.success count, ⟨ram, device⟩)
        else (.success count, { m with device })

/-! ## One call -/

/-- The buffer is empty, or in registered memory. -/
def Valid (memory : SupervisorMemory xlen) (buffer : Physical xlen) : Prop :=
  buffer.numBytes.toNat = 0 ∨
    (buffer.physAddrHi = 0 ∧ memory.Holds buffer.physAddrLo.toNat buffer.numBytes.toNat)

variable {memory : SupervisorMemory xlen} {backend : DbcnBackend σ} {buffer : Physical xlen}
  {m m' : Machine σ} {ret : SbiRet} {count : Nat} {sent taken : σ → List (BitVec 8)}

theorem validateBuffer_of_valid (h : Valid memory buffer) :
    validateBuffer memory buffer = .ok (buffer.physAddrLo.toNat, buffer.numBytes.toNat) := by
  unfold validateBuffer
  by_cases hlen : buffer.numBytes.toNat = 0
  · simp [hlen]
  · obtain ⟨hhi, hholds⟩ := h.resolve_left hlen
    have haccess := SupervisorMemory.checkAccess_eq_ok_iff.mpr (.inr hholds)
    rw [SupervisorMemory.checkAccess, if_neg hlen] at haccess
    simp only [if_neg hlen, hhi, ne_eq, not_true_eq_false, if_false]
    cases hrange : PhysAddrRange.fromStartLen xlen buffer.physAddrLo.toNat buffer.numBytes.toNat with
    | error e => simp [hrange, bind, Except.bind] at haccess
    | ok range =>
      rw [hrange] at haccess
      have hcheck : memory.checkRange range = .ok () := haccess
      simp only [hcheck]

theorem validateBuffer_of_not_valid (h : ¬ Valid memory buffer) :
    validateBuffer memory buffer = .error .invalidParam := by
  obtain ⟨hlen, hrest⟩ := not_or.mp h
  unfold validateBuffer
  simp only [if_neg hlen]
  split
  next => rfl
  next hhi =>
    have hrefused : memory.checkAccess buffer.physAddrLo.toNat buffer.numBytes.toNat ≠ .ok () :=
      fun haccess => hrest ⟨not_not.mp hhi,
        (SupervisorMemory.checkAccess_eq_ok_iff.mp haccess).resolve_left hlen⟩
    rw [SupervisorMemory.checkAccess, if_neg hlen] at hrefused
    cases hrange : PhysAddrRange.fromStartLen xlen buffer.physAddrLo.toNat buffer.numBytes.toNat with
    | error e => rfl
    | ok range =>
      rw [hrange] at hrefused
      cases hcheck : memory.checkRange range with
      | error e => simp only [hcheck]
      | ok u => exact absurd hcheck hrefused

theorem write_of_not_valid (h : ¬ Valid memory buffer) :
    write memory backend buffer m = (.invalidParam, m) := by
  rw [write, validateBuffer_of_not_valid h]

theorem read_of_not_valid (h : ¬ Valid memory buffer) :
    read memory backend buffer m = (.invalidParam, m) := by
  rw [read, validateBuffer_of_not_valid h]

theorem write_of_valid (h : Valid memory buffer) (hlen : buffer.numBytes.toNat ≠ 0) :
    write memory backend buffer m =
      let chunkLen := min buffer.numBytes.toNat maxTransferBytes
      match backend.writeSlice m.device (load m.ram buffer.physAddrLo.toNat chunkLen) with
      | (.error error, device) => (dbcnError error, { m with device })
      | (.ok count, device) =>
        if count > chunkLen then (.failed, { m with device })
        else (.success count, { m with device }) := by
  have hholds := (h.resolve_left hlen).2.first (Nat.min_le_left _ maxTransferBytes)
  rw [write, validateBuffer_of_valid h]
  simp only [if_neg hlen, SupervisorMemory.read_of_holds hholds]

theorem read_of_valid (h : Valid memory buffer) (hlen : buffer.numBytes.toNat ≠ 0) :
    read memory backend buffer m =
      let chunkLen := min buffer.numBytes.toNat maxTransferBytes
      match backend.readSlice m.device (Vector.replicate chunkLen 0#8) with
      | (.error error, _, device) => (dbcnError error, { m with device })
      | (.ok count, chunk, device) =>
        if count > chunkLen then (.failed, { m with device })
        else (.success count,
          ⟨store m.ram buffer.physAddrLo.toNat (chunk.toList.take count), device⟩) := by
  rw [read, validateBuffer_of_valid h]
  simp only [if_neg hlen]
  split
  next => rfl
  next count chunk device hrun =>
    split
    next => rfl
    next hcount =>
      have hcount := not_lt.mp hcount
      split
      next =>
        have hlength : (chunk.toList.take count).length = count := by simp [hcount]
        have hholds := (h.resolve_left hlen).2.first (hcount.trans (Nat.min_le_left _ _))
        rw [SupervisorMemory.write_of_holds (by rw [hlength]; exact hholds)]
      next hzero =>
        obtain rfl := not_not.mp hzero
        rw [List.take_zero, store_nil]

/-- A backend that answers with a count not above the request has moved exactly the first bytes: its
output grows by those of the source, and those that it gives are the next of its input. -/
structure DbcnBackend.Exact (backend : DbcnBackend σ) (sent taken : σ → List (BitVec 8)) : Prop where
  write : ∀ device src count device', backend.writeSlice device src = (.ok count, device') →
    count ≤ src.length → sent device' = sent device ++ src.take count
  read : ∀ {len : Nat} device (dst : Vector (BitVec 8) len) count dst' device',
    backend.readSlice device dst = (.ok count, dst', device') → count ≤ len →
    taken device' = taken device ++ dst'.toList.take count

/-- The backend takes some of every slice. -/
def DbcnBackend.TakesSome (backend : DbcnBackend σ) : Prop :=
  ∀ device src, src ≠ [] → ∃ count device',
    backend.writeSlice device src = (.ok count, device') ∧ 0 < count ∧ count ≤ src.length

/-- The backend puts something into every slice. -/
def DbcnBackend.GivesSome (backend : DbcnBackend σ) : Prop :=
  ∀ {len : Nat} device (dst : Vector (BitVec 8) len), len ≠ 0 → ∃ count dst' device',
    backend.readSlice device dst = (.ok count, dst', device') ∧ 0 < count ∧ count ≤ len

/-- The guest's buffer. -/
def bytes (ram : Ram) (buffer : Physical xlen) : List (BitVec 8) :=
  load ram buffer.physAddrLo.toNat buffer.numBytes.toNat

theorem valid_of_write_success (hcall : write memory backend buffer m = (.success count, m')) :
    Valid memory buffer := by
  by_contra hnot
  rw [write_of_not_valid hnot] at hcall
  exact SbiRet.noConfusion (Prod.mk.inj hcall).1

theorem valid_of_read_success (hcall : read memory backend buffer m = (.success count, m')) :
    Valid memory buffer := by
  by_contra hnot
  rw [read_of_not_valid hnot] at hcall
  exact SbiRet.noConfusion (Prod.mk.inj hcall).1

theorem dbcnError_ne_success (error : DbcnError) (count : Nat) : dbcnError error ≠ .success count := by
  cases error <;> exact nofun

/-- A write never changes guest memory, and on success the device got the first bytes. -/
theorem write_exact (hexact : backend.Exact sent taken)
    (hcall : write memory backend buffer m = (ret, m')) :
    m'.ram = m.ram ∧ ∀ count, ret = .success count → count ≤ buffer.numBytes.toNat ∧
      sent m'.device = sent m.device ++ (bytes m.ram buffer).take count := by
  by_cases hvalid : Valid memory buffer
  · by_cases hlen : buffer.numBytes.toNat = 0
    · rw [write, validateBuffer_of_valid hvalid] at hcall
      simp only [if_pos hlen, Prod.mk.injEq] at hcall
      obtain ⟨rfl, rfl⟩ := hcall
      refine ⟨rfl, fun count hcount => ?_⟩
      cases hcount
      simp
    · rw [write_of_valid hvalid hlen] at hcall
      dsimp only at hcall
      split at hcall
      next error device hrun =>
        obtain ⟨rfl, rfl⟩ := Prod.mk.inj hcall
        exact ⟨rfl, fun count hcount => absurd hcount (dbcnError_ne_success error count)⟩
      next accepted device hrun =>
        split at hcall
        next =>
          obtain ⟨rfl, rfl⟩ := Prod.mk.inj hcall
          exact ⟨rfl, nofun⟩
        next haccepted =>
          obtain ⟨rfl, rfl⟩ := Prod.mk.inj hcall
          refine ⟨rfl, fun count hcount => ?_⟩
          cases hcount
          have hle := not_lt.mp haccepted
          have hmoved := hexact.write _ _ _ _ hrun (by rw [length_load]; exact hle)
          refine ⟨hle.trans (Nat.min_le_left _ _), ?_⟩
          rw [hmoved, bytes, take_load hle, take_load (hle.trans (Nat.min_le_left _ _))]
  · rw [write_of_not_valid hvalid] at hcall
    obtain ⟨rfl, rfl⟩ := Prod.mk.inj hcall
    exact ⟨rfl, nofun⟩

/-- On success the first bytes of the buffer are the next of the device, and nothing else of guest
memory has changed; an error changes none of it. -/
theorem read_exact (hexact : backend.Exact sent taken)
    (hcall : read memory backend buffer m = (ret, m')) :
    (∀ count, ret = .success count → count ≤ buffer.numBytes.toNat ∧
      ∃ values, values.length = count ∧ taken m'.device = taken m.device ++ values ∧
        m'.ram = store m.ram buffer.physAddrLo.toNat values) ∧
    ((∀ count, ret ≠ .success count) → m'.ram = m.ram) := by
  by_cases hvalid : Valid memory buffer
  · by_cases hlen : buffer.numBytes.toNat = 0
    · rw [read, validateBuffer_of_valid hvalid] at hcall
      simp only [if_pos hlen, Prod.mk.injEq] at hcall
      obtain ⟨rfl, rfl⟩ := hcall
      refine ⟨fun count hcount => ?_, fun _ => rfl⟩
      cases hcount
      exact ⟨Nat.zero_le _, [], rfl, (List.append_nil _).symm, store_nil.symm⟩
    · rw [read_of_valid hvalid hlen] at hcall
      dsimp only at hcall
      split at hcall
      next error dst device hrun =>
        obtain ⟨rfl, rfl⟩ := Prod.mk.inj hcall
        exact ⟨fun count hcount => absurd hcount (dbcnError_ne_success error count), fun _ => rfl⟩
      next given dst device hrun =>
        split at hcall
        next =>
          obtain ⟨rfl, rfl⟩ := Prod.mk.inj hcall
          exact ⟨nofun, fun _ => rfl⟩
        next hgiven =>
          obtain ⟨rfl, rfl⟩ := Prod.mk.inj hcall
          have hle := not_lt.mp hgiven
          refine ⟨fun count hcount => ?_, fun herror => absurd rfl (herror given)⟩
          cases hcount
          exact ⟨hle.trans (Nat.min_le_left _ _), dst.toList.take given, by simp [hle],
            hexact.read _ _ _ _ _ hrun hle, rfl⟩
  · rw [read_of_not_valid hvalid] at hcall
    obtain ⟨rfl, rfl⟩ := Prod.mk.inj hcall
    exact ⟨nofun, fun _ => rfl⟩

/-! ## Calls on what is left -/

/-- What is left of the buffer after `count` bytes. -/
def remaining (buffer : Physical xlen) (count : Nat) : Physical xlen where
  numBytes := buffer.numBytes - BitVec.ofNat xlen.bits count
  physAddrLo := buffer.physAddrLo + BitVec.ofNat xlen.bits count
  physAddrHi := buffer.physAddrHi

/-- The call is made on the buffer, and after each count again on what is left of it. -/
inductive Reissued (call : Physical xlen → Machine σ → SbiRet × Machine σ) :
    Physical xlen → Machine σ → List Nat → Physical xlen → Machine σ → Prop
  | done (buffer : Physical xlen) (m : Machine σ) : Reissued call buffer m [] buffer m
  | next {buffer buffer' : Physical xlen} {m m₁ m' : Machine σ} {count : Nat} {counts : List Nat}
      (hcall : call buffer m = (.success count, m₁))
      (hrest : Reissued call (remaining buffer count) m₁ counts buffer' m') :
      Reissued call buffer m (count :: counts) buffer' m'

theorem remaining_numBytes (hcount : count ≤ buffer.numBytes.toNat) :
    (remaining buffer count).numBytes.toNat = buffer.numBytes.toNat - count := by
  have hword : (BitVec.ofNat xlen.bits count).toNat = count :=
    (BitVec.toNat_ofNat _ _).trans (Nat.mod_eq_of_lt (hcount.trans_lt buffer.numBytes.isLt))
  rw [remaining, BitVec.toNat_sub_of_le (by rw [BitVec.le_def, hword]; exact hcount), hword]

theorem remaining_start (hvalid : Valid memory buffer) (hcount : count ≤ buffer.numBytes.toNat) :
    (remaining buffer count).physAddrLo.toNat = buffer.physAddrLo.toNat + count := by
  have hword : (BitVec.ofNat xlen.bits count).toNat = count :=
    (BitVec.toNat_ofNat _ _).trans (Nat.mod_eq_of_lt (hcount.trans_lt buffer.numBytes.isLt))
  have hfits : buffer.physAddrLo.toNat + count < 2 ^ xlen.bits := by
    rcases hvalid with hempty | ⟨-, hwords, -⟩
    · have := buffer.physAddrLo.isLt
      omega
    · have : xlen.words = 2 ^ xlen.bits := rfl
      omega
  rw [remaining, BitVec.toNat_add, hword, Nat.mod_eq_of_lt hfits]

/-- What is left of a buffer that was accepted is accepted. -/
theorem remaining_valid (hvalid : Valid memory buffer) (hcount : count ≤ buffer.numBytes.toNat) :
    Valid memory (remaining buffer count) := by
  rw [Valid, remaining_numBytes hcount, remaining_start hvalid hcount]
  rcases hvalid with hempty | ⟨hhi, hholds⟩
  · exact .inl (by omega)
  · exact .inr ⟨hhi, hholds.part (by omega)⟩

theorem bytes_remaining (hvalid : Valid memory buffer) (hcount : count ≤ buffer.numBytes.toNat)
    (ram : Ram) : bytes ram (remaining buffer count) = (bytes ram buffer).drop count := by
  rw [bytes, bytes, drop_load, remaining_numBytes hcount, remaining_start hvalid hcount]

/-- Repeated writes send the buffer in order. -/
theorem write_reissued (hexact : backend.Exact sent taken) {counts : List Nat}
    {buffer' : Physical xlen} (hrun : Reissued (write memory backend) buffer m counts buffer' m') :
    m'.ram = m.ram ∧ counts.sum ≤ buffer.numBytes.toNat ∧
      buffer'.numBytes.toNat = buffer.numBytes.toNat - counts.sum ∧
      sent m'.device = sent m.device ++ (bytes m.ram buffer).take counts.sum := by
  induction hrun with
  | done buffer m => exact ⟨rfl, Nat.zero_le _, rfl, by simp⟩
  | @next buffer buffer' m m₁ m' count counts hcall _ ih =>
    have hvalid := valid_of_write_success hcall
    obtain ⟨hram, hsuccess⟩ := write_exact hexact hcall
    obtain ⟨hcount, hsent⟩ := hsuccess count rfl
    obtain ⟨hram', hsum, hleft, hsent'⟩ := ih
    rw [remaining_numBytes hcount] at hsum hleft
    rw [hram, bytes_remaining hvalid hcount] at hsent'
    rw [List.sum_cons]
    refine ⟨hram'.trans hram, by omega, by omega, ?_⟩
    rw [hsent', hsent, List.append_assoc, List.take_add]

/-- Repeated reads fill the buffer in order. -/
theorem read_reissued (hexact : backend.Exact sent taken) {counts : List Nat}
    {buffer' : Physical xlen} (hrun : Reissued (read memory backend) buffer m counts buffer' m') :
    counts.sum ≤ buffer.numBytes.toNat ∧
      buffer'.numBytes.toNat = buffer.numBytes.toNat - counts.sum ∧
      ∃ values, values.length = counts.sum ∧ taken m'.device = taken m.device ++ values ∧
        m'.ram = store m.ram buffer.physAddrLo.toNat values := by
  induction hrun with
  | done buffer m => exact ⟨Nat.zero_le _, rfl, [], rfl, (List.append_nil _).symm, store_nil.symm⟩
  | @next buffer buffer' m m₁ m' count counts hcall _ ih =>
    have hvalid := valid_of_read_success hcall
    obtain ⟨hcount, values, hlength, htaken, hram⟩ := (read_exact hexact hcall).1 count rfl
    obtain ⟨hsum, hleft, values', hlength', htaken', hram'⟩ := ih
    rw [remaining_numBytes hcount] at hsum hleft
    rw [List.sum_cons]
    refine ⟨by omega, by omega, values ++ values', by simp [hlength, hlength'], ?_, ?_⟩
    · rw [htaken', htaken, List.append_assoc]
    · rw [hram', hram, remaining_start hvalid hcount, store_append, hlength]

/-- Calls that move something of every accepted buffer move all of it. -/
theorem reissued_completes {call : Physical xlen → Machine σ → SbiRet × Machine σ}
    (hmoves : ∀ buffer m, Valid memory buffer → buffer.numBytes.toNat ≠ 0 →
      ∃ count m', call buffer m = (.success count, m') ∧ 0 < count ∧ count ≤ buffer.numBytes.toNat)
    (hvalid : Valid memory buffer) :
    ∃ counts buffer' m', Reissued call buffer m counts buffer' m' ∧ buffer'.numBytes.toNat = 0 := by
  induction hlen : buffer.numBytes.toNat using Nat.strongRecOn generalizing buffer m with
  | _ len ih =>
    by_cases hempty : len = 0
    · exact ⟨[], buffer, m, .done buffer m, hlen.trans hempty⟩
    · obtain ⟨count, m₁, hcall, hpos, hcount⟩ := hmoves buffer m hvalid (by omega)
      obtain ⟨counts, buffer', m', hrun, hleft⟩ := ih (len - count) (by omega)
        (remaining_valid hvalid hcount) (by rw [remaining_numBytes hcount, hlen])
      exact ⟨count :: counts, buffer', m', .next hcall hrun, hleft⟩

theorem write_completes (htakes : backend.TakesSome) (hvalid : Valid memory buffer) :
    ∃ counts buffer' m', Reissued (write memory backend) buffer m counts buffer' m' ∧
      buffer'.numBytes.toNat = 0 := by
  refine reissued_completes (fun buffer m hvalid hlen => ?_) hvalid
  have hchunk : load m.ram buffer.physAddrLo.toNat (min buffer.numBytes.toNat maxTransferBytes) ≠ [] := by
    rw [ne_eq, ← List.length_eq_zero_iff, length_load, maxTransferBytes]
    omega
  obtain ⟨count, device', hrun, hpos, hcount⟩ := htakes m.device _ hchunk
  rw [length_load] at hcount
  refine ⟨count, { m with device := device' }, ?_, hpos, hcount.trans (Nat.min_le_left _ _)⟩
  rw [write_of_valid hvalid hlen]
  simp only [hrun, gt_iff_lt, if_neg (not_lt.mpr hcount)]

theorem read_completes (hgives : backend.GivesSome) (hvalid : Valid memory buffer) :
    ∃ counts buffer' m', Reissued (read memory backend) buffer m counts buffer' m' ∧
      buffer'.numBytes.toNat = 0 := by
  refine reissued_completes (fun buffer m hvalid hlen => ?_) hvalid
  have hchunk : min buffer.numBytes.toNat maxTransferBytes ≠ 0 := by
    rw [maxTransferBytes]
    omega
  obtain ⟨count, dst', device', hrun, hpos, hcount⟩ :=
    hgives m.device (Vector.replicate (min buffer.numBytes.toNat maxTransferBytes) 0#8) hchunk
  refine ⟨count, ⟨store m.ram buffer.physAddrLo.toNat (dst'.toList.take count), device'⟩, ?_, hpos,
    hcount.trans (Nat.min_le_left _ _)⟩
  rw [read_of_valid hvalid hlen]
  simp only [hrun, gt_iff_lt, if_neg (not_lt.mpr hcount)]

/-- What was stored at the start of the buffer is there, and the rest of memory is as it was. -/
theorem stored_in_buffer {ram ram' : Ram} {values : List (BitVec 8)}
    (hlength : values.length ≤ buffer.numBytes.toNat)
    (hram : ram' = store ram buffer.physAddrLo.toNat values) :
    (bytes ram' buffer).take values.length = values ∧
      ∀ addr, addr < buffer.physAddrLo.toNat ∨ buffer.physAddrLo.toNat + values.length ≤ addr →
        ram' addr = ram addr := by
  subst hram
  exact ⟨by rw [bytes, take_load hlength, load_store], fun addr => store_of_outside⟩

/-- Console transfers are exact. A successful call has moved exactly the first bytes of the buffer, as
many as it says, and nothing else of guest memory has changed; a failed one leaves guest memory as
it is; calls on what is left move the buffer in order, the whole of it when nothing is left; and
nothing is left in the end of an accepted buffer if the backend takes, or gives, some of every slice. -/
theorem console_exact (memory : SupervisorMemory xlen) (hexact : backend.Exact sent taken) :
    (∀ buffer m ret m', write memory backend buffer m = (ret, m') →
      m'.ram = m.ram ∧ ∀ count, ret = .success count → count ≤ buffer.numBytes.toNat ∧
        sent m'.device = sent m.device ++ (bytes m.ram buffer).take count) ∧
    (∀ buffer m ret m', read memory backend buffer m = (ret, m') →
      (∀ count, ret = .success count → count ≤ buffer.numBytes.toNat ∧
        taken m'.device = taken m.device ++ (bytes m'.ram buffer).take count ∧
        ∀ addr, addr < buffer.physAddrLo.toNat ∨ buffer.physAddrLo.toNat + count ≤ addr →
          m'.ram addr = m.ram addr) ∧
      ((∀ count, ret ≠ .success count) → m'.ram = m.ram)) ∧
    (∀ buffer m counts buffer' m', Reissued (write memory backend) buffer m counts buffer' m' →
      counts.sum + buffer'.numBytes.toNat = buffer.numBytes.toNat ∧ m'.ram = m.ram ∧
      sent m'.device = sent m.device ++ (bytes m.ram buffer).take counts.sum ∧
      (buffer'.numBytes.toNat = 0 → sent m'.device = sent m.device ++ bytes m.ram buffer)) ∧
    (∀ buffer m counts buffer' m', Reissued (read memory backend) buffer m counts buffer' m' →
      counts.sum + buffer'.numBytes.toNat = buffer.numBytes.toNat ∧
      taken m'.device = taken m.device ++ (bytes m'.ram buffer).take counts.sum ∧
      (∀ addr, addr < buffer.physAddrLo.toNat ∨ buffer.physAddrLo.toNat + counts.sum ≤ addr →
        m'.ram addr = m.ram addr) ∧
      (buffer'.numBytes.toNat = 0 → taken m'.device = taken m.device ++ bytes m'.ram buffer)) ∧
    (backend.TakesSome → ∀ buffer m, Valid memory buffer → ∃ counts buffer' m',
      Reissued (write memory backend) buffer m counts buffer' m' ∧ buffer'.numBytes.toNat = 0) ∧
    (backend.GivesSome → ∀ buffer m, Valid memory buffer → ∃ counts buffer' m',
      Reissued (read memory backend) buffer m counts buffer' m' ∧ buffer'.numBytes.toNat = 0) := by
  have hwhole : ∀ (ram : Ram) (buffer : Physical xlen) (n : Nat), buffer.numBytes.toNat ≤ n →
      (bytes ram buffer).take n = bytes ram buffer := by
    intro ram buffer n hn
    exact List.take_of_length_le (by rw [bytes, length_load]; exact hn)
  refine ⟨fun buffer m ret m' => write_exact hexact, fun buffer m ret m' hcall => ?_,
    fun buffer m counts buffer' m' hrun => ?_, fun buffer m counts buffer' m' hrun => ?_,
    fun htakes _ _ => write_completes htakes, fun hgives _ _ => read_completes hgives⟩
  · obtain ⟨hsuccess, herror⟩ := read_exact hexact hcall
    refine ⟨fun count hret => ?_, herror⟩
    obtain ⟨hcount, values, rfl, htaken, hram⟩ := hsuccess count hret
    obtain ⟨hbytes, hrest⟩ := stored_in_buffer hcount hram
    exact ⟨hcount, by rw [htaken, hbytes], hrest⟩
  · obtain ⟨hram, hsum, hleft, hsent⟩ := write_reissued hexact hrun
    refine ⟨by omega, hram, hsent, fun hnone => ?_⟩
    rw [hsent, hwhole _ _ _ (by omega)]
  · obtain ⟨hsum, hleft, values, hlength, htaken, hram⟩ := read_reissued hexact hrun
    obtain ⟨hbytes, hrest⟩ := stored_in_buffer (hlength ▸ hsum) hram
    rw [hlength] at hbytes hrest
    refine ⟨by omega, by rw [htaken, hbytes], hrest, fun hnone => ?_⟩
    rw [htaken, ← hbytes, hwhole _ _ _ (by omega)]

/-! ## A device that accepts 16 bytes at once and gives up to 3 -/

/-- The bytes sent, those taken, and the next byte to be taken. -/
structure Uart where
  sent : List (BitVec 8)
  taken : List (BitVec 8)
  next : BitVec 8
  deriving DecidableEq

def uart : DbcnBackend Uart where
  writeSlice device src :=
    let accepted := src.take 16
    (.ok accepted.length, { device with sent := device.sent ++ accepted })
  readSlice {len} device dst :=
    let given := [device.next, device.next + 1, device.next + 2].take len
    (.ok given.length, Vector.ofFn fun i => given.getD i dst[i],
      { device with taken := device.taken ++ given, next := device.next + BitVec.ofNat 8 given.length })

theorem uart_exact : uart.Exact Uart.sent Uart.taken where
  write := by
    intro device src count device' hrun _
    obtain ⟨hcount, rfl⟩ := Prod.mk.inj hrun
    obtain rfl := Except.ok.inj hcount
    show device.sent ++ src.take 16 = device.sent ++ src.take (src.take 16).length
    rw [List.length_take, List.take_eq_take_min]
  read := by
    intro len device dst count dst' device' hrun _
    obtain ⟨hcount, hrest⟩ := Prod.mk.inj hrun
    obtain ⟨rfl, rfl⟩ := Prod.mk.inj hrest
    obtain rfl := Except.ok.inj hcount
    refine congrArg (device.taken ++ ·) ?_
    generalize [device.next, device.next + 1, device.next + 2] = given
    refine List.ext_getElem ?_ fun i hi _ => ?_
    · simp
    · have hgiven : i < given.length := (List.length_take_le' _ _).trans_lt' hi
      simp [hgiven]

theorem uart_takesSome : uart.TakesSome := by
  intro device src hsrc
  refine ⟨_, _, rfl, ?_, List.length_take_le' _ _⟩
  rw [List.length_take]
  exact lt_min (by decide) (List.length_pos_of_ne_nil hsrc)

theorem uart_givesSome : uart.GivesSome := by
  intro len device dst hlen
  refine ⟨_, _, _, rfl, ?_, List.length_take_le _ _⟩
  rw [List.length_take]
  exact lt_min (Nat.pos_of_ne_zero hlen) (by simp)

def uartMemory : SupervisorMemory .rv64 := ⟨[⟨0x1000, 0x2000, by decide, by decide⟩]⟩

def uartBuffer : Physical .rv64 := ⟨40, 0x1000, 0⟩

def uartMachine : Machine Uart := ⟨fun addr => BitVec.ofNat 8 addr, ⟨[], [], 7⟩⟩

/-- The buffer of 40 bytes is sent whole, the first call sends 16 bytes of it, and the first read
fills three. -/
theorem console_exact_uart :
    (∃ counts buffer' m', Reissued (write uartMemory uart) uartBuffer uartMachine counts buffer' m' ∧
      buffer'.numBytes.toNat = 0 ∧ m'.device.sent = bytes uartMachine.ram uartBuffer) ∧
    (∃ counts buffer' m', Reissued (read uartMemory uart) uartBuffer uartMachine counts buffer' m' ∧
      buffer'.numBytes.toNat = 0 ∧ m'.device.taken = bytes m'.ram uartBuffer) ∧
    (∃ m', write uartMemory uart uartBuffer uartMachine = (.success 16, m') ∧
      m'.device.sent = (bytes uartMachine.ram uartBuffer).take 16) ∧
    ∃ m', read uartMemory uart uartBuffer uartMachine = (.success 3, m') ∧
      m'.device.taken = (bytes m'.ram uartBuffer).take 3 := by
  obtain ⟨hwrite, hread, hwrites, hreads, hsent, hfilled⟩ := console_exact uartMemory uart_exact
  have hvalid : Valid uartMemory uartBuffer :=
    .inr ⟨rfl, by decide, _, List.mem_singleton_self _, by decide, by decide⟩
  refine ⟨?_, ?_, ⟨_, rfl, ?_⟩, ⟨_, rfl, ?_⟩⟩
  · obtain ⟨counts, buffer', m', hrun, hnone⟩ := hsent uart_takesSome uartBuffer uartMachine hvalid
    exact ⟨counts, buffer', m', hrun, hnone, (hwrites _ _ _ _ _ hrun).2.2.2 hnone⟩
  · obtain ⟨counts, buffer', m', hrun, hnone⟩ := hfilled uart_givesSome uartBuffer uartMachine hvalid
    exact ⟨counts, buffer', m', hrun, hnone, (hreads _ _ _ _ _ hrun).2.2.2 hnone⟩
  · exact ((hwrite uartBuffer uartMachine _ _ rfl).2 16 rfl).2
  · exact ((hread uartBuffer uartMachine _ _ rfl).1 3 rfl).2.1

end RustSbi.Console
