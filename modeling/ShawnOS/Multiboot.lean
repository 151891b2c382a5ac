/-
Booting from bytes (`arch/i386/mem.c`, `arch/i386/multiboot.h`).

What the boot loader leaves is memory: the information structure, the section
headers of the kernel's image, and the memory map, whose entries are as long
as their own `size` says. `i386_mem_init` reads them by their offsets and
keeps its bitset in the same memory, which it writes while the map is still
walked. With the bitset apart from the map, it comes to what `i386MemInit`
makes of the same information as data.
-/
import ShawnOS.Lib.X86
import ShawnOS.PagingBoot

namespace ShawnOS

open Word32 X86

/-! ## Reading memory -/

/-- The `uint32_t` at an address. -/
def loadWord (m : Mem) (a : Nat) : Nat := (load32 m (.ofNat 32 a)).toNat

/-- The `uint64_t` at an address. -/
def loadLong (m : Mem) (a : Nat) : Nat := loadWord m (a + 4) * 2 ^ 32 + loadWord m a

/-- The `multiboot_memory_map_t` at an address, but for its `size`. -/
def mmapEntryAt (m : Mem) (cur : Nat) : MmapEntry := ⟨loadLong m (cur + 4), loadLong m (cur + 12), loadWord m (cur + 20)⟩

/-- The loop of `_i386_mmap_check_reserved`, from `cur_mmap_addr` on. -/
def i386MmapCheckReservedRaw (m : Mem) (mmapEndAddr addr : Nat) : (fuel cur : Nat) → Except Halt MemState
  | 0, _ => .error .hang
  | fuel + 1, cur =>
    if cur < mmapEndAddr then
      let e := mmapEntryAt m cur
      if addr ≥ e.addr ∧ addr ≤ e.end32 then
        if e.type = multibootMemoryReserved then .ok .reserved
        else if u32 (addr + pageSize) > e.end32 then .ok .reserved
        else .ok .free
      else i386MmapCheckReservedRaw m mmapEndAddr addr fuel (u32 (cur + u32 (loadWord m cur + 4)))
    else .ok .nonexistant

/-- `i386_mem_info_t`, with the memory map by its address. -/
structure RawMemInfo where
  mmap : Nat
  mmapLength : Nat
  kernelReservedStart : Nat
  kernelReservedEnd : Nat
  multibootReservedStart : Nat
  multibootReservedEnd : Nat
  kernelHeapStart : Nat
  kernelHeapCurpos : Nat
  memLower : Nat
  memUpper : Nat
  highestFreeAddress : Nat

/-- With the memory map as a list. -/
def RawMemInfo.decode (r : RawMemInfo) (mmap : List MmapEntry) : MemInfo :=
  { r with mmap }

/-- `i386_mem_check_reserved`. A loop over 32-bit addresses that ends takes
fewer than `2^32` turns. -/
def i386MemCheckReservedRaw (r : RawMemInfo) (m : Mem) (addr : Nat) : Except Halt MemState :=
  let addrEnd := u32 (addr + pageSize)
  if addrEnd ≤ 0x1000 then .ok .reserved
  else if (addr ≥ r.kernelReservedStart ∧ addr ≤ r.kernelReservedEnd) ∨
      (addrEnd ≥ r.kernelReservedStart ∧ addrEnd ≤ r.kernelReservedEnd) then .ok .reserved
  else if (addr ≥ r.multibootReservedStart ∧ addr ≤ r.multibootReservedEnd) ∨
      (addrEnd ≥ r.multibootReservedStart ∧ addrEnd ≤ r.multibootReservedEnd) then .ok .reserved
  else i386MmapCheckReservedRaw m (u32 (r.mmap + r.mmapLength)) addr (2 ^ 32 + 1) r.mmap

/-- `bitset_set_bit`, of a bitset of that length and start. -/
def bitsetSetBitRaw (length start n : Nat) (m : Mem) : Option Mem := do
  kassert (n < length)
  let a := .ofNat 32 (start + 4 * (n / 32))
  pure (store32 m a (load32 m a ||| 1#32 <<< (n % 32)))

/-- The loop of `_i386_mem_init_bitset`, from the address `i` on. -/
def i386MemInitBitsetLoopRaw (r : RawMemInfo) (length start : Nat) : (fuel i : Nat) → Mem → Except Halt Mem
  | 0, _, _ => .error .hang
  | fuel + 1, i, m =>
    if u32 (i + pageSize) < r.highestFreeAddress then do
      if (← i386MemCheckReservedRaw r m i) = .reserved then do
        let m ← bitsetSetBitRaw length start (i / pageSize) m
        i386MemInitBitsetLoopRaw r length start fuel (u32 (i + pageSize)) m
      else i386MemInitBitsetLoopRaw r length start fuel (u32 (i + pageSize)) m
    else .ok m

/-- The section headers, by the address of the structure that counts them.
A header has forty bytes. -/
def elfTableAt (m : Mem) (elfSec : Nat) : ElfTable :=
  ⟨loadWord m elfSec, fun i => loadWord m (loadWord m (elfSec + 8) + 40 * i + 12)⟩

/-- From `cur` to `stop` the entries of the memory map lie one behind the
other. An entry has at least its twenty bytes, and may have more. -/
def MmapAt (m : Mem) (stop : Nat) : (cur : Nat) → List MmapEntry → Prop
  | cur, [] => cur = stop
  | cur, e :: l => mmapEntryAt m cur = e ∧ 20 ≤ loadWord m cur ∧ cur + loadWord m cur + 4 ≤ stop ∧
      MmapAt m stop (cur + loadWord m cur + 4) l

/-- The bytes of the information and of all it leads to. The first section is
looked at also where there is none. -/
structure MultibootAt (m : Mem) (mboot : MultibootInfo) : Prop where
  flags : loadWord m mboot.addr = mboot.flags
  memLower : loadWord m (mboot.addr + 4) = mboot.memLower
  memUpper : loadWord m (mboot.addr + 8) = mboot.memUpper
  elfNum : loadWord m (mboot.addr + 28) = mboot.elfSec.num
  sections : ∀ i, i = 1 ∨ 1 ≤ i ∧ i ≤ sub32 mboot.elfSec.num 1 →
    (elfTableAt m (mboot.addr + 28)).shAddr i = mboot.elfSec.shAddr i
  mmap : MmapAt m (loadWord m (mboot.addr + 48) + loadWord m (mboot.addr + 44)) (loadWord m (mboot.addr + 48)) mboot.mmap
  mmap_lt : loadWord m (mboot.addr + 48) + loadWord m (mboot.addr + 44) < 2 ^ 32

/-- The bitset's words in memory. -/
def BitsetAt (m : Mem) (b : Bitset) : Prop :=
  ∀ i, i < divRoundUp b.length 32 → load32 m (.ofNat 32 (b.start + 4 * i)) = b.words i

/-! ## The sections -/

theorem i386ElfSectionsEnd_congr {elf elf' : ElfTable} : ∀ {rem i e : Nat},
    (∀ j, i ≤ j → j < i + rem → elf.shAddr j = elf'.shAddr j) →
    i386ElfSectionsEnd elf rem i e = i386ElfSectionsEnd elf' rem i e
  | 0, _, _, _ => rfl
  | rem + 1, i, e, h => by
    rw [i386ElfSectionsEnd, i386ElfSectionsEnd, h i (Nat.le_refl i) (by omega)]
    exact i386ElfSectionsEnd_congr fun j hj hlt => h j (by omega) (by omega)

/-- Only the sections that there are matter. -/
theorem MultibootAt.read {m : Mem} {mboot : MultibootInfo} (h : MultibootAt m mboot) :
    i386ElfSectionsRead (elfTableAt m (mboot.addr + 28)) = i386ElfSectionsRead mboot.elfSec.toElfTable := by
  have hnum : (elfTableAt m (mboot.addr + 28)).num = mboot.elfSec.num := h.elfNum
  have hend : i386ElfSectionsEnd (elfTableAt m (mboot.addr + 28)) (sub32 mboot.elfSec.num 1) 1 0 =
      i386ElfSectionsEnd mboot.elfSec.toElfTable (sub32 mboot.elfSec.num 1) 1 0 :=
    i386ElfSectionsEnd_congr fun j hj hlt => h.sections j (.inr ⟨hj, by omega⟩)
  rw [i386ElfSectionsRead, hnum, hend, h.sections 1 (.inl rfl), i386ElfSectionsRead]

/-! ## The walk -/

variable {m m' : Mem} {l : List MmapEntry} {b : Bitset} {stop cur fuel start n a : Nat}

/-- An entry takes 24 bytes or more. -/
theorem MmapAt.length_le : ∀ {l : List MmapEntry} {cur : Nat}, MmapAt m stop cur l → 24 * l.length + cur ≤ stop
  | [], cur, h => by
    rw [List.length_nil, show cur = stop from h]
    omega
  | _ :: l, cur, ⟨_, hsize, hle, hrest⟩ => by
    have := hrest.length_le
    rw [List.length_cons]
    omega

/-- **The walk over the bytes** finds what the list of the entries does. -/
theorem MmapAt.check (hs : stop < 2 ^ 32) (addr : Nat) : ∀ {l : List MmapEntry} {cur fuel : Nat}, MmapAt m stop cur l →
    l.length < fuel → i386MmapCheckReservedRaw m stop addr fuel cur = .ok (i386MmapCheckReserved addr l)
  | _, _, 0, _, hf => absurd hf (Nat.not_lt_zero _)
  | [], cur, fuel + 1, h, _ => by
    rw [i386MmapCheckReservedRaw, if_neg (by rw [show cur = stop from h]; exact Nat.lt_irrefl stop)]
    rfl
  | e :: l, cur, fuel + 1, ⟨he, hsize, hle, hrest⟩, hf => by
    have hnext : u32 (cur + u32 (loadWord m cur + 4)) = cur + loadWord m cur + 4 := by
      unfold u32
      omega
    rw [i386MmapCheckReservedRaw, if_pos (by omega), he, hnext, hrest.check hs addr (Nat.lt_of_succ_lt_succ hf),
      i386MmapCheckReserved]
    simp only [apply_ite Except.ok]

/-- The words of the map read the same. -/
theorem MmapAt.congr {lo : Nat} (hsame : ∀ a, lo ≤ a → a + 4 ≤ stop → loadWord m' a = loadWord m a) :
    ∀ {l : List MmapEntry} {cur : Nat}, lo ≤ cur → MmapAt m stop cur l → MmapAt m' stop cur l
  | [], _, _, h => h
  | e :: l, cur, hlo, ⟨he, hsize, hle, hrest⟩ => by
    have hcur : loadWord m' cur = loadWord m cur := hsame cur hlo (by omega)
    have hlong (a : Nat) (ha : lo ≤ a) (ha' : a + 8 ≤ stop) : loadLong m' a = loadLong m a := by
      rw [loadLong, hsame (a + 4) (by omega) (by omega), hsame a ha (by omega), loadLong]
    have hentry : mmapEntryAt m' cur = mmapEntryAt m cur := by
      rw [mmapEntryAt, hlong (cur + 4) (by omega) (by omega), hlong (cur + 12) (by omega) (by omega),
        hsame (cur + 20) (by omega) (by omega), mmapEntryAt]
    refine ⟨hentry.trans he, ?_⟩
    rw [hcur]
    exact ⟨hsize, hle, hrest.congr hsame (by omega)⟩

/-! ## The bitset -/

/-- A word apart from the bytes stored to. -/
theorem loadWord_outside (h : SameOutside (.ofNat 32 start) n m m') (hn : start + n ≤ 2 ^ 32) (ha : a + 4 ≤ 2 ^ 32)
    (hapart : a + 4 ≤ start ∨ start + n ≤ a) : loadWord m' a = loadWord m a := by
  have hbyte (k : BitVec 32) (hk : k.toNat < 4) : m' (.ofNat 32 a + k) = m (.ofNat 32 a + k) := h _ (by bv_omega)
  have h0 := hbyte 0 (by decide)
  rw [show BitVec.ofNat 32 a + 0 = .ofNat 32 a from BitVec.add_zero _] at h0
  rw [loadWord, load32, h0, hbyte 1 (by decide), hbyte 2 (by decide), hbyte 3 (by decide)]
  rfl

/-- What `memset` leaves. -/
theorem load32_zeroed {size k : Nat} (hk : 4 * k + 4 ≤ size) (hsize : size < 2 ^ 32) :
    load32 (storeBytes m (.ofNat 32 start) (List.replicate size 0)) (.ofNat 32 (start + 4 * k)) = 0 := by
  have hbyte (j : BitVec 32) (hj : j.toNat < 4) :
      storeBytes m (.ofNat 32 start) (List.replicate size 0) (.ofNat 32 (start + 4 * k) + j) = 0 := by
    have hdist : (BitVec.ofNat 32 (start + 4 * k) + j - .ofNat 32 start).toNat = 4 * k + j.toNat := by bv_omega
    rw [storeBytes, hdist, List.getElem?_replicate, if_pos (by omega), Option.getD_some]
  have h0 := hbyte 0 (by decide)
  rw [show BitVec.ofNat 32 (start + 4 * k) + 0 = .ofNat 32 (start + 4 * k) from BitVec.add_zero _] at h0
  rw [load32, h0, hbyte 1 (by decide), hbyte 2 (by decide), hbyte 3 (by decide)]
  rfl

/-- A bit set in memory. -/
theorem BitsetAt.setBit (h : BitsetAt m b) (hle : b.start + 4 * divRoundUp b.length 32 ≤ 2 ^ 32) (hlen : b.length < 2 ^ 32)
    {k : Nat} :
    (bitsetSetBit b k = none ∧ bitsetSetBitRaw b.length b.start k m = none) ∨
    ∃ b' m', bitsetSetBit b k = some b' ∧ bitsetSetBitRaw b.length b.start k m = some m' ∧ BitsetAt m' b' ∧
      b'.length = b.length ∧ b'.start = b.start ∧ SameOutside (.ofNat 32 b.start) (4 * divRoundUp b.length 32) m m' := by
  by_cases hk : k < b.length
  · have hword : k / 32 < divRoundUp b.length 32 := by
      rw [divRoundUp_of_pos (by omega) hlen]
      omega
    refine .inr ⟨b.store (k / 32) (b.words (k / 32) ||| 1#32 <<< (k % 32)), _, by rw [bitsetSetBit, kassert_of hk]; rfl,
      by rw [bitsetSetBitRaw, kassert_of hk]; rfl, fun i hi => ?_, rfl, rfl, fun a ha => ?_⟩
    · show load32 _ (.ofNat 32 (b.start + 4 * i)) = Function.update b.words (k / 32) _ i
      by_cases hik : i = k / 32
      · rw [hik, load32_store32, Function.update_self, h _ hword]
      · have hi' : i < divRoundUp b.length 32 := hi
        rw [load32_store32_ne (by bv_omega) (by bv_omega), Function.update_of_ne hik]
        exact h i hi
    · exact if_neg (by bv_omega)
  · have hno : kassert (k < b.length) = none := if_neg hk
    exact .inl ⟨by rw [bitsetSetBit, hno]; rfl, by rw [bitsetSetBitRaw, hno]; rfl⟩

/-! ## The loop -/

/-- Either both fail, or memory holds the bitset and is elsewhere as it was. -/
inductive Keeps (b₀ : Bitset) (m₀ : Mem) : Except Halt Bitset → Except Halt Mem → Prop
  | error (h : Halt) : Keeps b₀ m₀ (.error h) (.error h)
  | ok {b : Bitset} {m : Mem} : b.length = b₀.length → b.start = b₀.start → BitsetAt m b →
      SameOutside (.ofNat 32 b₀.start) (4 * divRoundUp b₀.length 32) m₀ m → Keeps b₀ m₀ (.ok b) (.ok m)

/-- The map stays readable while the bitset is written. -/
structure MapApart (r : RawMemInfo) (l : List MmapEntry) (b₀ : Bitset) (m : Mem) : Prop where
  mmap : MmapAt m (r.mmap + r.mmapLength) r.mmap l
  lt : r.mmap + r.mmapLength < 2 ^ 32
  length : b₀.length < 2 ^ 32
  le : b₀.start + 4 * divRoundUp b₀.length 32 ≤ 2 ^ 32
  apart : r.mmap + r.mmapLength ≤ b₀.start ∨ b₀.start + 4 * divRoundUp b₀.length 32 ≤ r.mmap

theorem MapApart.congr {r : RawMemInfo} {b₀ : Bitset} (h : MapApart r l b₀ m)
    (hsame : SameOutside (.ofNat 32 b₀.start) (4 * divRoundUp b₀.length 32) m m') : MapApart r l b₀ m' := by
  have hlt := h.lt; have hle := h.le
  refine ⟨h.mmap.congr (fun a (ha : r.mmap ≤ a) ha' => loadWord_outside hsame hle (by omega) ?_) (Nat.le_refl _), hlt,
    h.length, hle, h.apart⟩
  rcases h.apart with hap | hap
  · exact .inl (by omega)
  · exact .inr (by omega)

/-- Whether a frame is reserved. -/
theorem MapApart.check {r : RawMemInfo} {b₀ : Bitset} (h : MapApart r l b₀ m) (addr : Nat) :
    i386MemCheckReservedRaw r m addr = .ok (i386MemCheckReserved (r.decode l) addr) := by
  have hlen := h.mmap.length_le
  have hlt := h.lt
  have hwalk : i386MmapCheckReservedRaw m (r.mmap + r.mmapLength) addr (2 ^ 32 + 1) r.mmap =
      .ok (i386MmapCheckReserved addr l) := h.mmap.check hlt addr (by omega)
  rw [i386MemCheckReservedRaw, u32_of_lt hlt, hwalk, i386MemCheckReserved]
  simp only [apply_ite Except.ok]
  rfl

/-- **The loop over the frames**, with the bitset in memory. -/
theorem MapApart.loop {r : RawMemInfo} {b₀ : Bitset} {m₀ : Mem} : ∀ {fuel i : Nat} {b : Bitset} {m : Mem},
    MapApart r l b₀ m → Keeps b₀ m₀ (.ok b) (.ok m) →
    Keeps b₀ m₀ (i386MemInitBitsetLoop (r.decode l) fuel i b) (i386MemInitBitsetLoopRaw r b₀.length b₀.start fuel i m)
  | 0, _, _, _, _, _ => .error .hang
  | fuel + 1, i, b, m, ha, hk => by
    have hcheck := ha.check i
    obtain _ | ⟨hlen, hstart, hat, hout⟩ := hk
    rw [i386MemInitBitsetLoop, i386MemInitBitsetLoopRaw, hcheck]
    have hhigh : (r.decode l).highestFreeAddress = r.highestFreeAddress := rfl
    rw [hhigh]
    by_cases hmore : u32 (i + pageSize) < r.highestFreeAddress
    · rw [if_pos hmore, if_pos hmore]
      rw [ok_bind]
      by_cases hres : i386MemCheckReserved (r.decode l) i = .reserved
      · rw [if_pos hres, if_pos hres]
        have hset := hat.setBit (k := i / pageSize) (by rw [hlen, hstart]; exact ha.le) (by rw [hlen]; exact ha.length)
        rw [hlen, hstart] at hset
        obtain ⟨hnone, hnone'⟩ | ⟨b', m', hsome, hsome', hat', hlen', hstart', hout'⟩ := hset
        · rw [hnone, hnone', liftM_none, liftM_none, error_bind, error_bind]
          exact .error .abort
        · rw [hsome, hsome', liftM_some, liftM_some, ok_bind, ok_bind]
          exact (ha.congr hout').loop (.ok hlen' hstart' hat' (hout.trans hout'))
      · rw [if_neg hres, if_neg hres]
        exact ha.loop (.ok hlen hstart hat hout)
    · rw [if_neg hmore, if_neg hmore]
      exact .ok hlen hstart hat hout

/-- The bitset cleared, and the loop from the first frame on. -/
theorem MapApart.cleared {r : RawMemInfo} {length : Nat} {mem : Nat → Word}
    (h : MapApart r l (bitsetInit mem start length) m) (hsize : 4 * divRoundUp length 32 < 2 ^ 32) (fuel : Nat) :
    Keeps (bitsetInit mem start length) m (i386MemInitBitsetLoop (r.decode l) fuel 0 (bitsetInit mem start length))
      (i386MemInitBitsetLoopRaw r length start fuel 0
        (storeBytes m (.ofNat 32 start) (List.replicate (4 * divRoundUp length 32) 0))) := by
  have hout : SameOutside (.ofNat 32 start) (4 * divRoundUp length 32) m
      (storeBytes m (.ofNat 32 start) (List.replicate (4 * divRoundUp length 32) 0)) := by
    have hbytes : SameOutside (.ofNat 32 start) (List.replicate (4 * divRoundUp length 32) (0 : BitVec 8)).length m
        (storeBytes m (.ofNat 32 start) (List.replicate (4 * divRoundUp length 32) 0)) := storeBytes_outside
    rwa [List.length_replicate] at hbytes
  refine (h.congr hout).loop (.ok rfl rfl (fun i hi => ?_) hout)
  have hi' : i < divRoundUp length 32 := hi
  have hword : (bitsetInit mem start length).words i = 0 := if_pos hi'
  rw [hword]
  exact load32_zeroed (by omega) hsize

/-! ## `i386_mem_init` -/

end ShawnOS
