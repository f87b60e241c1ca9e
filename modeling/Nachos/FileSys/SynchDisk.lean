import Nachos.FileSys.OpenFile
import Nachos.Threads.SynchDevice

/-!
# The synchronous disk

`class SynchDisk` (`filesys/synchdisk.cc`) over `class Disk` (`machine/disk.cc`). The disk reads or
writes a sector when it is asked to, and interrupts later, when the head has passed the sector; the
interrupt can come at any time here.

* `synchDisk_atomic`: `ReadSector` and `WriteSector` are atomic, and the disk is asked for one
  sector at a time.
* `synchDisk_returns`: each call returns.
-/

namespace Nachos.FileSys

open Nachos.Lib Nachos.Threads

/-- What a sector holds. -/
abbrev SectorData : Type := Fin SectorSize → UInt8

/-- `ReadRequest` and `WriteRequest`. -/
inductive DiskRequest
  | read (sectorNumber : ℤ)
  | write (sectorNumber : ℤ) (data : SectorData)

/-- `class Disk`: the answer to `ReadRequest` is what it puts into `data` (disk.cc:118-155). -/
def diskDevice : Device Disk DiskRequest (Option SectorData) where
  request disk
    | .read sectorNumber => (disk, some (disk sectorNumber.toNat))
    | .write sectorNumber data => (Function.update disk sectorNumber.toNat data, none)
  legal
    | .read sectorNumber | .write sectorNumber _ => decide
      (0 ≤ sectorNumber ∧ sectorNumber < NumSectors)

/-- `SynchDisk::ReadSector` (synchdisk.cc:72). -/
def SynchDisk.readSector (sectorNumber : ℤ) : List DiskRequest := [.read sectorNumber]

/-- `SynchDisk::WriteSector` (synchdisk.cc:90). -/
def SynchDisk.writeSector (sectorNumber : ℤ) (data : SectorData) : List DiskRequest :=
  [.write sectorNumber data]

variable {τ : Type} [DecidableEq τ]

/-- The lock, the semaphore, the disk and the threads. -/
abbrev SynchDisk (τ : Type) := SynchDevice τ Disk DiskRequest (Option SectorData)

/-- A call is one of the two, for a sector that the disk has. -/
def SectorCall (_ : SynchDisk τ) : DeviceEvent τ DiskRequest → Prop
  | .call _ rs => ∃ sectorNumber : ℤ, (0 ≤ sectorNumber ∧ sectorNumber < NumSectors) ∧
      (rs = SynchDisk.readSector sectorNumber ∨ ∃ data,
        rs = SynchDisk.writeSector sectorNumber data)
  | _ => True

omit [DecidableEq τ] in
theorem SectorCall.legal {s : SynchDisk τ} {e : DeviceEvent τ DiskRequest} (h : SectorCall s e) :
    CallLegal diskDevice s e := by
  cases e with
  | call t rs =>
    obtain ⟨n, hn, rfl | ⟨data, rfl⟩⟩ := h
    · intro r hr
      obtain rfl := List.mem_singleton.mp hr
      exact decide_eq_true hn
    · intro r hr
      obtain rfl := List.mem_singleton.mp hr
      exact decide_eq_true hn
  | go t => trivial
  | interrupt => trivial

/-- **`ReadSector` and `WriteSector` are atomic** whatever the order of the threads and the
    interrupts: what the calls return is what they would return one after the other. No assertion of
    the disk fails. -/
theorem synchDisk_atomic {disk : Disk} {l : List (DeviceEvent τ DiskRequest)} {s : SynchDisk τ}
    (hl : Guarded (deviceStep diskDevice) SectorCall (.new disk) l)
    (h : exec (deviceStep diskDevice) (.new disk) l = .ok s) :
    Linearizable diskDevice.run disk (seen (deviceStep diskDevice) deviceSee (.new disk) l) ∧
      ∀ e, deviceStep diskDevice s e ≠ .error .assertion := by
  have hlegal := hl.mono fun _ _ => SectorCall.legal
  exact ⟨⟨_, synchDevice_follows hlegal h⟩, synchDevice_safe hlegal h⟩

/-- Two threads, of which the second calls while the first waits for the disk. -/
def readAndWrite : List (DeviceEvent Bool DiskRequest) :=
  [.call false (SynchDisk.readSector 3), .go false, .go false,
    .call true (SynchDisk.writeSector 3 fun _ => 7), .go false, .interrupt, .go false, .go false,
    .go true, .go true, .go true, .interrupt, .go true, .go true]

theorem guarded_readAndWrite (disk : Disk) :
    Guarded (deviceStep diskDevice) SectorCall (.new disk) readAndWrite := by
  apply Guarded.of_mem
  intro e he s
  simp only [readAndWrite, List.mem_cons, List.not_mem_nil, or_false] at he
  rcases he with rfl | rfl | rfl | rfl | rfl | rfl | rfl | rfl | rfl | rfl | rfl | rfl | rfl | rfl
  · exact ⟨3, by decide, Or.inl rfl⟩
  on_goal 3 => exact ⟨3, by decide, Or.inr ⟨_, rfl⟩⟩
  all_goals trivial

theorem ends_readAndWrite :
    Ends (deviceStep diskDevice) (.new fun _ _ => 0) readAndWrite fun s =>
      s.active = false ∧ s.device 3 0 = 7 := by
  decide +kernel

theorem synchDisk_atomic_readAndWrite :
    ∃ s, exec (deviceStep diskDevice) (.new fun _ _ => 0) readAndWrite = .ok s ∧
      Linearizable diskDevice.run (fun _ _ => 0)
        (seen (deviceStep diskDevice) deviceSee (.new fun _ _ => 0) readAndWrite) := by
  obtain ⟨s, hs, -⟩ := ends_readAndWrite
  exact ⟨s, hs, (synchDisk_atomic (guarded_readAndWrite _) hs).1⟩

/-- A call adds six steps. -/
theorem cost_sectorCall {s s' : SynchDisk τ} {l : List (DeviceEvent τ DiskRequest)}
    (hl : Guarded (deviceStep diskDevice) SectorCall s l)
    (h : exec (deviceStep diskDevice) s l = .ok s') :
    (l.map DeviceEvent.cost).sum = 6 * l.countP (!·.isWork) := by
  induction l generalizing s with
  | nil => rfl
  | cons e l ih =>
    obtain ⟨s₁, hs₁, hl'⟩ := exec_cons_eq_ok h
    rw [List.map_cons, List.sum_cons, ih (hl.2 s₁ hs₁) hl', List.countP_cons]
    cases e with
    | call t rs =>
      have hlength : rs.length = 1 := by
        obtain ⟨n, -, rfl | ⟨data, rfl⟩⟩ := hl.1
        · rfl
        · rfl
      simp only [DeviceEvent.cost, DeviceEvent.isWork, hlength, Bool.not_false, if_true]
      omega
    | go t => simp [DeviceEvent.cost, DeviceEvent.isWork]
    | interrupt => simp [DeviceEvent.cost, DeviceEvent.isWork]

/-- **Each call returns**: it takes six steps at most, and the run stops only when all calls have
    returned. -/
theorem synchDisk_returns {disk : Disk} {l : List (DeviceEvent τ DiskRequest)} {s : SynchDisk τ}
    (hl : Guarded (deviceStep diskDevice) SectorCall (.new disk) l)
    (h : exec (deviceStep diskDevice) (.new disk) l = .ok s) :
    l.countP DeviceEvent.isWork ≤ 6 * l.countP (!·.isWork) ∧
      ((∀ e : DeviceEvent τ DiskRequest, e.isWork = true → ∀ s',
        deviceStep diskDevice s e ≠ .ok s') →
        ∀ t, s.point t = .outside) := by
  rw [← cost_sectorCall hl h]
  exact synchDevice_returns (hl.mono fun _ _ => SectorCall.legal) h

theorem synchDisk_returns_readAndWrite :
    ∃ s, exec (deviceStep diskDevice) (.new fun _ _ => 0) readAndWrite = .ok s ∧
      readAndWrite.countP DeviceEvent.isWork ≤ 6 * readAndWrite.countP (!·.isWork) := by
  obtain ⟨s, hs, -⟩ := ends_readAndWrite
  exact ⟨s, hs, (synchDisk_returns (guarded_readAndWrite _) hs).1⟩

end Nachos.FileSys
