/-
PCI enumeration (`drivers/pci/pci.c`).

`pci_probe` looks at every function of every slot of every bus and enters
the first sixteen that answer into `pci_devices`. For each it prints the name
of its class, from a table of eighteen: the class is a byte of the device's
own, and for a larger one the name is read behind the table.
-/
import ShawnOS.Lib.Touched
import ShawnOS.Lib.Traces
import Mathlib.Data.Nat.Bitwise

namespace ShawnOS

open Touched Traces

/-- What a read of `PCI_CONFIG_DATA` returns for each address written to
`PCI_CONFIG_ADDR` before it. -/
abbrev ConfigSpace := Nat → BitVec 32

/-- `PCI_CLASS_IDS`. -/
def pciClassIds : List String :=
  ["no class specification",
   "Mass Storage Controller",
   "Network Controller",
   "Display Controller",
   "Multimedia Device",
   "Memory Controller",
   "Bridge Device",
   "Simple Communication Controller",
   "Base System Peripheral",
   "Input Device",
   "Docking Station",
   "Processor",
   "Serial Bus Controller",
   "Wireless Controller",
   "Intelligent I/O Controller",
   "Satellite Communication Controller",
   "Encryption/Decryption Controller",
   "Data Acquisition and Signal Processing Controller"]

/-- `pci_device_t`. -/
structure PciDevice where
  vendor : Nat
  device : Nat
  func : Nat

/-- What `pci_probe` prints. -/
inductive PciOutput where
  | device (vendor device : BitVec 16) (className : Option String)
  | limitReached

/-- `pci_devices` with its size, the table of class names, and what was
printed. -/
structure PciState where
  devices : Logged Nat PciDevice
  devicesSize : Nat
  classIds : Logged Nat (Option String)
  output : List PciOutput

/-- `pci_config_read_word`. -/
def pciConfigReadWord (config : ConfigSpace) (bus slot func : BitVec 16) (offset : BitVec 8) : BitVec 16 :=
  let lbus := bus.setWidth 32
  let lslot := slot.setWidth 32
  let lfunc := func.setWidth 32
  let address := lbus <<< 16 ||| lslot <<< 11 ||| lfunc <<< 8 ||| (offset &&& 0xFC).setWidth 32 ||| 0x80000000
  ((config address.toNat >>> ((offset &&& 2).toNat * 8)) &&& 0xffff).setWidth 16

/-- `pci_get_vendor_id`. -/
def pciGetVendorId (config : ConfigSpace) (bus slot func : BitVec 16) : BitVec 16 :=
  pciConfigReadWord config bus slot func 0

/-- `pci_get_device_id`. -/
def pciGetDeviceId (config : ConfigSpace) (bus slot func : BitVec 16) : BitVec 16 :=
  pciConfigReadWord config bus slot func 2

/-- `pci_get_device_class_id`. -/
def pciGetDeviceClassId (config : ConfigSpace) (bus slot func : BitVec 16) : BitVec 16 :=
  let classIdSeg := (pciConfigReadWord config bus slot func 0xA).setWidth 32
  ((classIdSeg &&& ~~~0x00FF) >>> 8).setWidth 16

/-- The body of the three loops of `pci_probe`; an error is its early
return. -/
def pciProbeFunction (config : ConfigSpace) (bus slot func : Nat) (s : PciState) : Except PciState PciState :=
  if s.devicesSize > 15 then .error { s with output := s.output ++ [.limitReached] }
  else
    let vendorId := pciGetVendorId config (.ofNat 16 bus) (.ofNat 16 slot) (.ofNat 16 func)
    if vendorId = 0xFFFF then .ok s
    else
      let deviceId := pciGetDeviceId config (.ofNat 16 bus) (.ofNat 16 slot) (.ofNat 16 func)
      let classId := pciGetDeviceClassId config (.ofNat 16 bus) (.ofNat 16 slot) (.ofNat 16 func)
      let (className, classIds) := s.classIds.read classId.toNat
      let device : PciDevice := ⟨vendorId.toNat, deviceId.toNat, func⟩
      .ok
        { devices := s.devices.write s.devicesSize device
          devicesSize := s.devicesSize + 1
          classIds
          output := s.output ++ [.device vendorId deviceId className] }

/-- `pci_probe`. -/
def pciProbe (config : ConfigSpace) (s : PciState) : PciState :=
  let loops : Except PciState PciState :=
    (List.range 256).foldlM (fun s bus =>
      (List.range 32).foldlM (fun s slot =>
        (List.range 8).foldlM (fun s func => pciProbeFunction config bus slot func s) s) s) s
  match loops with
  | .ok s => s
  | .error s => s

/-- Before the first probe, with whatever `pci_devices` holds. -/
def pciStart (devices : Nat → PciDevice) : PciState where
  devices := .start devices
  devicesSize := 0
  classIds := .start fun i => pciClassIds[i]?
  output := []

/-! ## Functions by their place -/

/-- A function of a slot of a bus. -/
structure PciFunction where
  bus : Nat
  slot : Nat
  func : Nat

/-- Where its register is in configuration space. -/
def PciFunction.address (f : PciFunction) (register : Nat) : Nat :=
  2 ^ 31 + 2 ^ 16 * f.bus + 2 ^ 11 * f.slot + 2 ^ 8 * f.func + register

/-- The vendor id: the low word of the first register. -/
def PciFunction.vendor (config : ConfigSpace) (f : PciFunction) : Nat := (config (f.address 0)).toNat % 2 ^ 16

/-- The device id, in its high word. -/
def PciFunction.deviceId (config : ConfigSpace) (f : PciFunction) : Nat := (config (f.address 0)).toNat / 2 ^ 16

/-- The class: the highest byte of the third register. -/
def PciFunction.classByte (config : ConfigSpace) (f : PciFunction) : Nat := (config (f.address 8)).toNat / 2 ^ 24

/-- Its entry in `pci_devices`. -/
def PciFunction.entry (config : ConfigSpace) (f : PciFunction) : PciDevice :=
  ⟨f.vendor config, f.deviceId config, f.func⟩

/-- Every function there can be, in order. -/
def pciFunctions : List PciFunction :=
  (List.range 256).flatMap fun bus => (List.range 32).flatMap fun slot => (List.range 8).map fun func => ⟨bus, slot, func⟩

/-- Those that answer. -/
def present (config : ConfigSpace) : List PciFunction := pciFunctions.filter fun f => f.vendor config ≠ 0xFFFF

/-- The first sixteen that answer are entered, in order, and no table is
touched outside. -/
structure ProbeRight (config : ConfigSpace) (devices : Nat → PciDevice) : Prop where
  size : (pciProbe config (pciStart devices)).devicesSize = min 16 (present config).length
  entries : ∀ i f, i < 16 → (present config)[i]? = some f →
    (pciProbe config (pciStart devices)).devices.cells i = f.entry config
  stores : (pciProbe config (pciStart devices)).devices.Within (· < 16)
  classes : (pciProbe config (pciStart devices)).classIds.Within (· < 18)

/-! ## Reading configuration space -/

/-- A place a function can have. -/
structure PciFunction.Place (f : PciFunction) : Prop where
  bus : f.bus < 256
  slot : f.slot < 32
  func : f.func < 8

theorem place_of_mem {f : PciFunction} (h : f ∈ pciFunctions) : f.Place := by
  simp only [pciFunctions, List.mem_flatMap, List.mem_map, List.mem_range] at h
  obtain ⟨bus, hbus, slot, hslot, func, hfunc, rfl⟩ := h
  exact ⟨hbus, hslot, hfunc⟩

/-- A field of the address. -/
theorem field_toNat {n k : Nat} (hn : n < 2 ^ 16) (hk : n * 2 ^ k < 2 ^ 32) :
    ((BitVec.ofNat 16 n).setWidth 32 <<< k).toNat = n * 2 ^ k := by
  rw [BitVec.toNat_shiftLeft, BitVec.toNat_setWidth, BitVec.toNat_ofNat, Nat.mod_eq_of_lt hn,
    Nat.mod_eq_of_lt (Nat.lt_trans hn (by decide)), Nat.shiftLeft_eq, Nat.mod_eq_of_lt hk]

/-- The fields do not overlap. -/
theorem PciFunction.Place.address_eq {f : PciFunction} (h : f.Place) {register : BitVec 8} :
    ((BitVec.ofNat 16 f.bus).setWidth 32 <<< 16 ||| (BitVec.ofNat 16 f.slot).setWidth 32 <<< 11 |||
      (BitVec.ofNat 16 f.func).setWidth 32 <<< 8 ||| register.setWidth 32 ||| 0x80000000).toNat =
      f.address register.toNat := by
  have hbus := h.bus; have hslot := h.slot; have hfunc := h.func; have hreg := register.isLt
  have h1 : f.bus * 2 ^ 16 ||| f.slot * 2 ^ 11 = 2 ^ 11 * (32 * f.bus + f.slot) := by
    rw [Nat.mul_comm, ← Nat.two_pow_add_eq_or_of_lt (by omega)]
    omega
  have h2 : 2 ^ 11 * (32 * f.bus + f.slot) ||| f.func * 2 ^ 8 = 2 ^ 8 * (256 * f.bus + 8 * f.slot + f.func) := by
    rw [← Nat.two_pow_add_eq_or_of_lt (by omega)]
    omega
  have h3 : 2 ^ 8 * (256 * f.bus + 8 * f.slot + f.func) ||| register.toNat =
      2 ^ 8 * (256 * f.bus + 8 * f.slot + f.func) + register.toNat :=
    (Nat.two_pow_add_eq_or_of_lt (by omega) _).symm
  have h4 : 2 ^ 31 * 1 ||| (2 ^ 8 * (256 * f.bus + 8 * f.slot + f.func) + register.toNat) = f.address register.toNat := by
    rw [← Nat.two_pow_add_eq_or_of_lt (by omega), PciFunction.address]
    omega
  rw [BitVec.toNat_or, BitVec.toNat_or, BitVec.toNat_or, BitVec.toNat_or, field_toNat (by omega) (by omega),
    field_toNat (by omega) (by omega), field_toNat (by omega) (by omega), BitVec.toNat_setWidth,
    Nat.mod_eq_of_lt (by omega), h1, h2, h3, Nat.or_comm]
  exact h4

/-- A word of configuration space. -/
theorem PciFunction.Place.readWord {f : PciFunction} (h : f.Place) (config : ConfigSpace) (offset : BitVec 8) :
    (pciConfigReadWord config (.ofNat 16 f.bus) (.ofNat 16 f.slot) (.ofNat 16 f.func) offset).toNat =
      (config (f.address (offset &&& 0xFC).toNat)).toNat / 2 ^ ((offset &&& 2).toNat * 8) % 2 ^ 16 := by
  have hmask (w : BitVec 32) : (w &&& 0xffff).toNat = w.toNat % 2 ^ 16 := by
    rw [BitVec.toNat_and]
    exact Nat.and_two_pow_sub_one_eq_mod w.toNat 16
  rw [pciConfigReadWord, h.address_eq, BitVec.toNat_setWidth, hmask, Nat.mod_mod, BitVec.toNat_ushiftRight,
    Nat.shiftRight_eq_div_pow]

theorem PciFunction.Place.vendorId {f : PciFunction} (h : f.Place) (config : ConfigSpace) :
    (pciGetVendorId config (.ofNat 16 f.bus) (.ofNat 16 f.slot) (.ofNat 16 f.func)).toNat = f.vendor config := by
  rw [pciGetVendorId, h.readWord]
  exact congrArg (· % 2 ^ 16) (Nat.div_one _)

theorem PciFunction.Place.deviceId {f : PciFunction} (h : f.Place) (config : ConfigSpace) :
    (pciGetDeviceId config (.ofNat 16 f.bus) (.ofNat 16 f.slot) (.ofNat 16 f.func)).toNat = f.deviceId config := by
  have hlt := (config (f.address 0)).isLt
  have hhigh : f.deviceId config < 2 ^ 16 := by
    rw [PciFunction.deviceId]
    omega
  rw [pciGetDeviceId, h.readWord]
  exact Nat.mod_eq_of_lt hhigh

theorem highByte (w : BitVec 16) : (((w.setWidth 32 &&& ~~~0x00FF) >>> 8).setWidth 16).toNat = w.toNat / 2 ^ 8 := by
  have hlt := w.isLt
  have hmask : (~~~0x00FF : BitVec 32).toNat >>> 8 = 2 ^ 24 - 1 := by decide
  rw [BitVec.toNat_setWidth, BitVec.toNat_ushiftRight, BitVec.toNat_and, Nat.shiftRight_and_distrib, hmask,
    Nat.and_two_pow_sub_one_eq_mod, BitVec.toNat_setWidth, Nat.shiftRight_eq_div_pow]
  omega

theorem PciFunction.Place.classId {f : PciFunction} (h : f.Place) (config : ConfigSpace) :
    (pciGetDeviceClassId config (.ofNat 16 f.bus) (.ofNat 16 f.slot) (.ofNat 16 f.func)).toNat = f.classByte config := by
  have hlt := (config (f.address 8)).isLt
  have hword : (pciConfigReadWord config (.ofNat 16 f.bus) (.ofNat 16 f.slot) (.ofNat 16 f.func) 0xA).toNat =
      (config (f.address 8)).toNat / 2 ^ 16 % 2 ^ 16 := h.readWord config 0xA
  rw [pciGetDeviceClassId, highByte, hword, PciFunction.classByte]
  omega

/-! ## Probing -/

variable {config : ConfigSpace} {devices : Nat → PciDevice} {found : List PciFunction} {s : PciState}

/-- The loops' body at a function. -/
def probe (config : ConfigSpace) (s : PciState) (f : PciFunction) : Except PciState PciState :=
  pciProbeFunction config f.bus f.slot f.func s

/-- The state, whether `pci_probe` returned early or not. -/
def stateOf : Except PciState PciState → PciState
  | .ok s | .error s => s

/-- `found` was entered, one after the other. -/
structure Entered (config : ConfigSpace) (found : List PciFunction) (s : PciState) : Prop where
  le : found.length ≤ 16
  size : s.devicesSize = found.length
  entries : ∀ i f, found[i]? = some f → s.devices.cells i = f.entry config
  stores : s.devices.Within (· < 16)
  classes : s.classIds.touched = (found.map (·.classByte config)).reverse

theorem Entered.start (config : ConfigSpace) (devices : Nat → PciDevice) : Entered config [] (pciStart devices) :=
  ⟨Nat.zero_le _, rfl, fun i f h => (by cases h), within_start devices, rfl⟩

theorem pciProbe_eq (config : ConfigSpace) (s : PciState) :
    pciProbe config s = stateOf (pciFunctions.foldlM (probe config) s) := by
  simp only [pciFunctions, foldlM_flatMap, List.foldlM_map, probe]
  rfl

/-- A full table ends the loops. -/
theorem Entered.probe_full (h : Entered config found s) (hfull : found.length = 16) (f : PciFunction) :
    ∃ s', probe config s f = .error s' ∧ Entered config found s' := by
  refine ⟨_, if_pos (by rw [h.size]; omega), h.le, h.size, h.entries, h.stores, h.classes⟩

/-- The entry behind the table's end. -/
theorem entries_concat {cells : Nat → PciDevice} (h : ∀ i g, found[i]? = some g → cells i = g.entry config)
    (f : PciFunction) : ∀ i g, (found ++ [f])[i]? = some g →
      Function.update cells found.length (f.entry config) i = g.entry config := by
  intro i g hg
  by_cases hi : i = found.length
  · subst hi
    rw [List.getElem?_concat_length] at hg
    cases hg
    exact Function.update_self ..
  · rw [Function.update_of_ne hi]
    refine h i g ?_
    have hlt := (List.getElem?_eq_some_iff.mp hg).1
    rw [List.length_append, List.length_singleton] at hlt
    rw [List.getElem?_append_left (by omega)] at hg
    exact hg

/-- **One function** is entered if it answers. -/
theorem Entered.probe_next (h : Entered config found s) (hroom : found.length < 16) {f : PciFunction} (hf : f.Place) :
    ∃ s', probe config s f = .ok s' ∧
      Entered config (found ++ [f].filter fun f => f.vendor config ≠ 0xFFFF) s' := by
  have hsize := h.size
  have hvendor := hf.vendorId config
  have hdevice := hf.deviceId config
  have hclass := hf.classId config
  rw [probe, pciProbeFunction, if_neg (by omega)]
  dsimp only
  split
  · next hnone =>
    rw [hnone] at hvendor
    refine ⟨s, rfl, ?_⟩
    have hskip : ([f].filter fun f => f.vendor config ≠ 0xFFFF) = [] := by simp [← hvendor]
    rw [hskip, List.append_nil]
    exact h
  · next hsome =>
    have hne : f.vendor config ≠ 0xFFFF := by
      intro he
      exact hsome (BitVec.eq_of_toNat_eq (hvendor.trans he))
    have hkeep : ([f].filter fun f => f.vendor config ≠ 0xFFFF) = [f] := by simp [hne]
    refine ⟨_, rfl, ?_⟩
    rw [hkeep]
    refine ⟨by simp; omega, by simp [hsize], ?_, ?_, ?_⟩
    · dsimp only
      rw [write_cells, hvendor, hdevice, hsize]
      exact entries_concat h.entries f
    · exact within_write.mpr ⟨by omega, h.stores⟩
    · simp [Logged.read, hclass, h.classes]

/-- **The loops** enter the functions that answer until the table is full. -/
theorem Entered.run : ∀ {l found : List PciFunction} {s : PciState}, Entered config found s → (∀ f ∈ l, f.Place) →
    Entered config ((found ++ l.filter fun f => f.vendor config ≠ 0xFFFF).take 16) (stateOf (l.foldlM (probe config) s))
  | [], found, s, h, _ => by
    rw [List.filter_nil, List.append_nil, List.take_of_length_le h.le]
    exact h
  | f :: l, found, s, h, hplace => by
    have hle := h.le
    rw [List.foldlM_cons]
    by_cases hfull : found.length = 16
    · obtain ⟨s', hprobe, h'⟩ := h.probe_full hfull f
      rw [hprobe, List.take_append_of_le_length (by omega), List.take_of_length_le hle]
      exact h'
    · obtain ⟨s', hprobe, h'⟩ := h.probe_next (by omega) (hplace f List.mem_cons_self)
      have hrest := h'.run fun g hg => hplace g (List.mem_cons_of_mem f hg)
      rw [List.append_assoc, ← List.filter_append, List.singleton_append] at hrest
      rw [hprobe]
      exact hrest

theorem pciProbe_entered (config : ConfigSpace) (devices : Nat → PciDevice) :
    Entered config ((present config).take 16) (pciProbe config (pciStart devices)) := by
  rw [pciProbe_eq]
  exact (Entered.start config devices).run fun f => place_of_mem

/-- **PCI enumeration** is right exactly when the first sixteen functions that
answer have a class the table names. -/
theorem pciProbe_right_iff (config : ConfigSpace) (devices : Nat → PciDevice) :
    ProbeRight config devices ↔ ∀ f ∈ (present config).take 16, f.classByte config < 18 := by
  have h := pciProbe_entered config devices
  have hclasses : (pciProbe config (pciStart devices)).classIds.Within (· < 18) ↔
      ∀ f ∈ (present config).take 16, f.classByte config < 18 := by
    rw [Logged.Within, h.classes]
    constructor
    · intro hall f hf
      exact hall _ (List.mem_reverse.mpr (List.mem_map_of_mem hf))
    · intro hall i hi
      obtain ⟨f, hf, rfl⟩ := List.mem_map.mp (List.mem_reverse.mp hi)
      exact hall f hf
  constructor
  · intro hright
    exact hclasses.mp hright.classes
  · intro hall
    refine ⟨by rw [h.size, List.length_take], fun i f hi hf => ?_, h.stores, hclasses.mpr hall⟩
    exact h.entries i f (by rw [List.getElem?_take_of_lt hi]; exact hf)

/-- A bridge whose class byte is `0xFF`, and nothing else. -/
def unassignedBridge : ConfigSpace := fun a =>
  if a = 0x80000000 then 0x12378086 else if a = 0x80000008 then 0xFF000000 else 0xFFFFFFFF

/-- Its class name is read far behind the table. -/
theorem pciProbe_class_outside : ¬ ProbeRight unassignedBridge fun _ => ⟨0, 0, 0⟩ := by
  intro h
  obtain ⟨l, hl⟩ : ∃ l, pciFunctions = ⟨0, 0, 0⟩ :: l := ⟨pciFunctions.tail, rfl⟩
  have hfirst : (⟨0, 0, 0⟩ : PciFunction) ∈ (present unassignedBridge).take 16 := by
    rw [present, hl, List.filter_cons_of_pos (by decide)]
    exact List.mem_cons_self
  have hentered := pciProbe_entered unassignedBridge fun _ => ⟨0, 0, 0⟩
  have hread := h.classes 0xFF (by
    rw [hentered.classes]
    exact List.mem_reverse.mpr (List.mem_map_of_mem hfirst))
  omega

end ShawnOS
