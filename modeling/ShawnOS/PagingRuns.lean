/-
Runs of paging calls, and the invariant along them.

A step is one call, with the map it is specified by: the address each page
was last given and has not given up since. Which calls a run makes is a
parameter of it. Calls keep off the window, the directory's page and the
first table's, through which the paging code itself works, and off the
kernel's image and the early heap: there lie its code, its globals and the
two bitsets, which the model keeps as records beside physical memory.
-/
import ShawnOS.PagingInvariant

namespace ShawnOS

open Word32 Holders

variable {s s' : PagingState} {L : Layout}

/-- A page of the kernel's image or of the early heap behind it, which ends
below the window. -/
def PagingState.KernelPage (s : PagingState) (p : Nat) : Prop :=
  (s.meminfo.kernelReservedStart / 4096 ≤ p ∨ s.meminfo.kernelHeapStart / 4096 ≤ p) ∧ p < s.windowPage / 4096

/-- A call on the kernel's page tables. -/
inductive PageCall where
  | allocate (address ptFlags pdFlags : Nat)
  | free (address : Nat)
  | getPhys (address : Nat)
  | identityMap (address ptFlags pdFlags : Nat)
deriving DecidableEq

namespace PageCall

def address : PageCall → Nat
  | allocate v _ _ => v
  | free v => v
  | getPhys v => v
  | identityMap v _ _ => v

def flags : PageCall → List Nat
  | allocate _ ptFlags pdFlags => [ptFlags, pdFlags]
  | identityMap _ ptFlags pdFlags => [ptFlags, pdFlags]
  | _ => []

/-- The call: a return code, and the address it stores or returns. -/
def exec (c : PageCall) (s : PagingState) : Option ((KReturn × Nat) × PagingState) :=
  match c with
  | allocate v ptFlags pdFlags => i386AllocatePage s v ptFlags pdFlags
  | free v => (i386FreePage s v).map fun (r, s) => ((r, 0), s)
  | getPhys v => (i386PageGetPhys s v).map fun (a, s) => ((.success, a), s)
  | identityMap v ptFlags pdFlags => (i386IdentityMapPage s v ptFlags pdFlags).map fun (e, s) => ((.success, e), s)

/-- The map of pages to addresses, after the call. -/
def remember (c : PageCall) (r : KReturn × Nat) (m : Nat → Nat) : Nat → Nat :=
  match c with
  | allocate v _ _ => if r.1 = .success then Function.update m v r.2 else m
  | free v => Function.update m v 0
  | _ => m

/-- The page whose entry the call is to write. -/
def edits : PageCall → Option Nat
  | allocate v _ _ => some (v / 4096)
  | free v => some (v / 4096)
  | getPhys _ => none
  | identityMap v _ _ => some (v / 4096)

/-- What a call can be given: a page's address, and flags that fit beside
one. -/
structure Proper (c : PageCall) : Prop where
  aligned : c.address % pageSize = 0
  lt : c.address < 2 ^ 32
  flags : ∀ f ∈ c.flags, f < 4096

/-- The call keeps off the pages the paging code works through. -/
def OffStructures (s : PagingState) (c : PageCall) : Prop :=
  c.address ≠ s.windowPage ∧ c.address ≠ s.pageDirectory ∧ c.address / 4096 ≠ s.pde 0 / 4096

/-- The call leaves the kernel's image and the early heap mapped as they
are. -/
def OffKernel (s : PagingState) (c : PageCall) : Prop :=
  ∀ p ∈ c.edits, ¬ s.KernelPage p

/-- An identity map is to a frame that is free, and not the one that a new
table for the page gets; or the page is mapped to it already. -/
def FreeFrame (s : PagingState) : PageCall → Prop
  | identityMap v _ _ => IdentityFree s v
  | _ => True

end PageCall

/-- One call that `ok` allows, in a state and on the map so far. -/
inductive PageStep (ok : PagingState → PageCall → Prop) : PagingState × (Nat → Nat) → PagingState × (Nat → Nat) → Prop
  | call {s s' : PagingState} {m : Nat → Nat} {c : PageCall} {r : KReturn × Nat} : ok s c → c.exec s = some (r, s') →
      PageStep ok (s, m) (s', c.remember r m)

/-- The calls the invariant is kept by. -/
structure KeepsFrames (s : PagingState) (c : PageCall) : Prop where
  proper : c.Proper
  off : c.OffStructures s
  offKernel : c.OffKernel s
  free : c.FreeFrame s

theorem PageCall.edits_eq {c : PageCall} {p : Nat} (h : p ∈ c.edits) : p = c.address / 4096 := by
  cases c with
  | getPhys v => cases h
  | _ => exact (Option.mem_some.mp h).symm

/-- The pages from the window on are none of the kernel's. -/
theorem Tables.offKernel (h : Tables L s) {c : PageCall} (hc : L.window ≤ c.address / 4096) : c.OffKernel s := by
  rintro p hp ⟨-, hlt⟩
  rw [PageCall.edits_eq hp, h.window] at hlt
  omega

theorem Tables.off_own (h : Tables L s) {c : PageCall} (hal : c.address % pageSize = 0) (hc : c.OffStructures s) :
    c.address / 4096 ∉ L.own := by
  obtain ⟨hw, hd, ht⟩ := hc
  rw [h.window] at hw
  rw [h.dir] at hd
  rw [h.first_frame] at ht
  unfold pageSize at hal
  exact not_own.mpr ⟨by omega, by omega, ht⟩

/-- How a call ends, and what it leaves. -/
inductive CallEnd (L : Layout) (s : PagingState) : PageCall → KReturn × Nat → PagingState → Prop
  | allocated {v ptFlags pdFlags : Nat} {r : KReturn × Nat} {s' : PagingState} (hpt : ptFlags < 4096) (hpd : pdFlags < 4096)
      (ha : Allocated L s v ptFlags pdFlags r s') : CallEnd L s (.allocate v ptFlags pdFlags) r s'
  | freed {v : Nat} {r : KReturn} {s' : PagingState} (he : i386FreePage s v = some (r, s')) (hinv : PagingInv L s')
      (hquiet : Quiet ∅ ∅ s s') (heff : Effect L s s' s.pde (Function.update s.entry (v / 4096) ptRw))
      (hhold : s'.hold L = Function.update (s.hold L) (.page (v / 4096)) none)
      (huse : s'.frames.inUse = {g ∈ s.frames.inUse | s.hold L (.page (v / 4096)) ≠ some g})
      (hbit : ∀ f, f ≠ s.entry (v / 4096) / 4096 → s'.frames.bit f = s.frames.bit f) : CallEnd L s (.free v) (r, 0) s'
  | looked {v a : Nat} {s' : PagingState} (hframes : s'.frames = s.frames) (heff : Effect L s s' s.pde s.entry) :
      CallEnd L s (.getPhys v) (.success, a) s'
  | identity {v ptFlags pdFlags e : Nat} {s' : PagingState} (hpt : ptFlags < 4096) (hpd : pdFlags < 4096)
      (hi : IdentityMapped L s v ptFlags pdFlags e s') : CallEnd L s (.identityMap v ptFlags pdFlags) (.success, e) s'

theorem PagingInv.call_end (h : PagingInv L s) {c : PageCall} {r : KReturn × Nat} (hc : KeepsFrames s c)
    (he : c.exec s = some (r, s')) : CallEnd L s c r s' := by
  have hown := h.tables.off_own hc.proper.aligned hc.off
  have hal := hc.proper.aligned; have hlt := hc.proper.lt; have hflags := hc.proper.flags
  cases c with
  | allocate v ptFlags pdFlags =>
    have hpt : ptFlags < 4096 := hflags _ (by simp [PageCall.flags])
    have hpd : pdFlags < 4096 := hflags _ (by simp [PageCall.flags])
    obtain ⟨r', s'', he', ha⟩ := h.tables.allocatePage h.pool hlt hal hown hpt hpd
    have he'' : some (r', s'') = some (r, s') := he'.symm.trans he
    cases he''
    exact .allocated hpt hpd ha
  | free v =>
    obtain ⟨r', s'', he', hinv, hquiet, heff, hhold, huse, hbit⟩ := h.freePage hlt hal hown
    simp only [PageCall.exec] at he
    rw [show i386FreePage s v = some (r', s'') from he'] at he
    cases he
    exact .freed he' hinv hquiet heff hhold huse hbit
  | getPhys v =>
    obtain ⟨s'', he', hf, heff⟩ := h.tables.getPhys hlt
    simp only [PageCall.exec] at he
    rw [show i386PageGetPhys s v = _ from he'] at he
    cases he
    exact .looked hf heff
  | identityMap v ptFlags pdFlags =>
    have hpt : ptFlags < 4096 := hflags _ (by simp [PageCall.flags])
    have hpd : pdFlags < 4096 := hflags _ (by simp [PageCall.flags])
    obtain ⟨⟨e, s''⟩, he', hr⟩ := Option.map_eq_some_iff.mp he
    cases hr
    obtain ⟨hpw, hpdir, hptab⟩ := not_own.mp hown
    rcases h.tables.identityMapPage h.pool hlt hal hpw (ownEntry_of_ne hpdir hptab _) hpt hpd with
      ⟨e', s₁, he₁, hi⟩ | ⟨hn, -⟩
    · have he'' : some (e', s₁) = some (e, s') := he₁.symm.trans he'
      cases he''
      exact .identity hpt hpd hi
    · have he'' : none = some (e, s') := hn.symm.trans he'
      cases he''

/-- **A call keeps the invariant.** -/
theorem PagingInv.call (h : PagingInv L s) {c : PageCall} {r : KReturn × Nat} (hc : KeepsFrames s c)
    (he : c.exec s = some (r, s')) : PagingInv L s' := by
  have hown := h.tables.off_own hc.proper.aligned hc.off
  have hal := hc.proper.aligned; have hlt := hc.proper.lt; have hfree := hc.free
  cases h.call_end hc he with
  | allocated hpt hpd ha => exact h.allocated hlt hown hpt hpd ha
  | freed _ hinv => exact hinv
  | looked hf heff => exact h.same heff (by rw [hf]) fun f => by rw [hf]
  | identity hpt hpd hi => exact h.identityMapped hlt hal hown hpt hpd hfree hi

/-- **What every step keeps holds along a run.** -/
theorem PageStep.run {ok : PagingState → PageCall → Prop} {P : PagingState → Prop}
    (hstep : ∀ {s c r s'}, P s → ok s c → c.exec s = some (r, s') → P s') (h : P s) {m m' : Nat → Nat}
    (hrun : Relation.ReflTransGen (PageStep ok) (s, m) (s', m')) : P s' := by
  generalize ht : (s', m') = t at hrun
  induction hrun generalizing s' m' with
  | refl =>
    cases ht
    exact h
  | tail _ hs ih =>
    cases hs with
    | call hc he =>
      cases ht
      exact hstep (ih rfl) hc he

/-- **Runs keep the invariant.** -/
theorem PagingInv.run {ok : PagingState → PageCall → Prop} (hok : ∀ s c, ok s c → KeepsFrames s c) (h : PagingInv L s)
    {m m' : Nat → Nat} (hrun : Relation.ReflTransGen (PageStep ok) (s, m) (s', m')) : PagingInv L s' :=
  PageStep.run (fun h hc he => h.call (hok _ _ hc) he) h hrun

end ShawnOS
