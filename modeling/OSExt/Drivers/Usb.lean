import OSExt.Memory.ObjectAlignment

/-!
# Descriptors for the USB controller

`usb_create_transfer` and `usb_create_queue_head` take 32 bytes each from `kmalloc`
and fill them in. The controller reads both structures at physical addresses whose
low five bits it ignores, and a queue head goes on behind its 32nd byte.
-/

namespace OSExt.Drivers

open Lib Memory Memory.Clients

/-- `sizeof(struct usb_qTD)`, `sizeof(struct usb_QH)` -/
def sizeofUsbQTD : Nat := 32
def sizeofUsbQH : Nat := 16 + sizeofUsbQTD

/-- Stores words at offsets from `p`, one after the other. -/
def writeFields (mem : Nat → Byte) (p : Nat) (fields : List (Nat × Word)) : Nat → Byte :=
  fields.foldl (fun mem f => storeWord mem (p + f.1) f.2) mem

/-- `kmalloc(32)`, the test for NULL, `k_memset` over the 32 bytes and the fields. -/
def usbCreate (env : Env) (fuel : Nat) (fields : List (Nat × Word)) : KernelM Nat := do
  let p ← kmalloc (slabCalls env fuel).allocObjectFromCache fuel 32
  if p = 0 then pure 0
  else
    update (fun k => k.setMem (writeFields (fill k.mem p 32 0) p fields))
    pure p

/-- What `usb_create_transfer` is called with. -/
structure Transfer where
  dataToggle : BitVec 8
  totalBytes : BitVec 16
  ioc : BitVec 8
  pid : BitVec 8
  firstOffset : BitVec 16
  page0 : Word
  page1 : Word
  page2 : Word
  page3 : Word
  page4 : Word

/-- `transfer->qTD_token`; of the length, `total_bytes && 0x7fff` leaves one bit. -/
def Transfer.token (t : Transfer) : Word :=
  (t.dataToggle.setWidth 32 <<< 31)
    ||| ((if t.totalBytes ≠ 0 then 1#32 else 0#32) <<< 16)
    ||| ((t.ioc.setWidth 32 &&& 0b1#32) <<< 15)
    ||| ((t.pid.setWidth 32 &&& 0b11#32) <<< 8)
    ||| (1#32 <<< 7)

/-- `usb_create_transfer` -/
def usbCreateTransfer (env : Env) (fuel : Nat) (t : Transfer) : KernelM Nat :=
  usbCreate env fuel
    -- `nextqTD` and `altnextqTD` are invalid pointers
    [(0, 1#32), (4, 1#32), (8, t.token),
     (12, (t.page0 &&& ~~~0xfff#32) ||| (t.firstOffset.setWidth 32 &&& 0xfff#32)),
     (16, t.page1 &&& ~~~0xfff#32), (20, t.page2 &&& ~~~0xfff#32),
     (24, t.page3 &&& ~~~0xfff#32), (28, t.page4 &&& ~~~0xfff#32)]

/-- What `usb_create_queue_head` is called with. -/
structure QueueHead where
  nakReload : BitVec 8
  controlEndpoint : BitVec 8
  maxPacketSize : BitVec 16
  dataToggleControl : BitVec 8
  endpointSpeed : BitVec 8
  endpointNumber : BitVec 8
  deviceAddress : BitVec 8
  mult : BitVec 8
  port : BitVec 8
  hub : BitVec 8
  splitMask : BitVec 8
  interruptMask : BitVec 8

/-- `queue_head->endpt_cap1` -/
def QueueHead.endptCap1 (q : QueueHead) : Word :=
  ((q.nakReload.setWidth 32 &&& 0xf#32) <<< 28)
    ||| ((q.controlEndpoint.setWidth 32 &&& 0b1#32) <<< 27)
    ||| ((q.maxPacketSize.setWidth 32 &&& 0x7ff#32) <<< 16)
    ||| ((q.dataToggleControl.setWidth 32 &&& 0b1#32) <<< 14)
    ||| ((q.endpointSpeed.setWidth 32 &&& 0b11#32) <<< 12)
    ||| ((q.endpointNumber.setWidth 32 &&& 0xf#32) <<< 8)
    ||| (q.deviceAddress.setWidth 32 &&& 0x7f#32)

/-- `queue_head->endpt_cap2` -/
def QueueHead.endptCap2 (q : QueueHead) : Word :=
  ((q.mult.setWidth 32 &&& 0b11#32) <<< 30)
    ||| ((q.port.setWidth 32 &&& 0x7f#32) <<< 23)
    ||| ((q.hub.setWidth 32 &&& 0x7f#32) <<< 16)
    ||| (q.splitMask.setWidth 32 <<< 8)
    ||| q.interruptMask.setWidth 32

/-- `usb_create_queue_head` -/
def usbCreateQueueHead (env : Env) (fuel : Nat) (q : QueueHead) : KernelM Nat :=
  usbCreate env fuel
    -- the next thing is also a queue head, the overlay's two pointers are invalid
    [(0, 0b1#32 <<< 1), (4, q.endptCap1), (8, q.endptCap2), (16, 1#32), (20, 1#32)]

/-! ## Where descriptors lie -/

/-- At `p` there is an object of at least `n` bytes, at a multiple of 32 in physical memory. -/
def DescriptorAt (k : Kernel) (p n : Nat) : Prop :=
  ∃ x ∈ k.grown, ∃ i < k.count x.cache x.slab, k.objAddr x.cache x.slab i = p ∧
    32 ∣ k.physicalAddr x i ∧ n ≤ k.objSize x.cache

section

variable {env : Env} {w : World} {g g' : Shape} {k k' : Kernel} {c p n : Nat}

/-- Filling a descriptor in does not move it. -/
theorem usbCreate_spec (fuel : Nat) (fields : List (Nat × Word)) {Q : Nat → Kernel → Prop}
    {E : Stop → Kernel → Prop}
    (h : Ensures (kmalloc (slabCalls env fuel).allocObjectFromCache fuel 32) Q E k)
    (hmem : ∀ p k mem, Q p k → Q p (k.setMem mem)) : Ensures (usbCreate env fuel fields) Q E k := by
  rw [usbCreate, ensures_bind]
  refine h.imp fun p k1 hp => ?_
  refine ensures_ite (fun hnull => ?_) fun _ => ?_
  · rw [← hnull]
    exact hp
  · rw [ensures_bind, ensures_update]
    exact hmem _ _ _ hp

/-- Objects of 32 bytes lie at multiples of 32 only without a header before them. -/
theorem aligns_thirtyTwo {ca : Cache} (hsize : ca.objSize = 32) {page : Nat}
    (hpage : smallPageSize ∣ page) : ca.Aligns 32 page ↔ ca.descOnSlab = false := by
  rw [aligns_of_dvd hpage (by decide), and_iff_left (.inr ⟨1, hsize⟩)]
  unfold Cache.header
  cases hon : ca.descOnSlab with
  | false =>
      rw [base_offSlab hon]
      exact iff_of_true (Nat.dvd_zero 32) rfl
  | true =>
      have hpages : ca.slabPages = 1 := by
        unfold Cache.slabPages
        rw [hsize]
        rfl
      rw [base_onSlab hon, ca.slabAtZero_size, ca.slabAtZero_start, hpages, hsize]
      decide

/-- **A descriptor of 32 bytes** is where the controller finds it if no header is before it. -/
theorem descriptorAt_iff (h : SlabInv g k) (hblocks : BlocksAligned k.pages) {x : Grown}
    (hx : x ∈ k.grown) {i : Nat} (hi : i < k.count x.cache x.slab)
    (hp : k.objAddr x.cache x.slab i = p) (hsize : k.objSize x.cache = 32) :
    DescriptorAt k p n ↔ n ≤ 32 ∧ (k.cache x.cache).descOnSlab = false := by
  have hs := (h.caches.logged x hx).1
  have haligns : ∀ y ∈ k.grown,
      ((k.cache x.cache).Aligns 32 y.page ↔ (k.cache x.cache).descOnSlab = false) :=
    fun y hy => aligns_thirtyTwo hsize ((h.caches.logged y hy).2.1 hblocks)
  constructor
  · intro hgiven
    obtain ⟨y, hy, j, hj, hyp, hdvd, hn⟩ := hgiven
    have hsy := (h.caches.logged y hy).1
    -- there is one object at the address
    obtain ⟨hslab, rfl⟩ := h.objects_unique hs hsy hi hj (hp ▸ h.layout.inObject_self hs)
      (hyp ▸ h.layout.inObject_self hsy)
    have hcache : y.cache = x.cache := h.grown_cache (hslab ▸ hs) hy
    rw [hcache, hsize] at hn
    have hstride : 32 ∣ (k.cache x.cache).objSize := ⟨1, hsize⟩
    refine ⟨hn, (haligns y hy).mp ⟨?_, .inr hstride⟩⟩
    rw [h.physicalAddr hy, hcache] at hdvd
    exact (Nat.dvd_add_left (Dvd.dvd.mul_left hstride i)).mp hdvd
  · intro hgiven
    obtain ⟨hn, hoff⟩ := hgiven
    refine ⟨x, hx, i, hi, hp, ?_, by rw [hsize]; exact hn⟩
    have hall := (objectsAligned_iff_aligns h hx 32).mpr ((haligns x hx).mpr hoff)
    exact hall i hi

/-- Every descriptor is an object of exactly 32 bytes. -/
theorem usbCreate_descriptor (hw : Run env Harmless w) (hblocks : BlocksAligned w.kernel.pages)
    {fuel : Nat} {fields : List (Nat × Word)}
    (hcall : usbCreate env fuel fields w.kernel = (.ok p, k)) (hp : p ≠ 0) :
    ∃ c, bestFitCache w.kernel 32 fuel w.kernel.caches 0 = some c ∧
      (DescriptorAt k p n ↔ n ≤ 32 ∧ (w.kernel.cache c).descOnSlab = false) := by
  obtain ⟨g, h⟩ := slabInv_of_run hw
  obtain ⟨c0, hc0, hwith⟩ := created_of_run hw (x := (32, 0, 0#16)) (by decide)
  have hexact : ∃ c ∈ g.caches, (w.kernel.cache c).kmallocs = true ∧ w.kernel.objSize c = 32 := by
    refine ⟨c0, (isCache_iff h).mp hc0, ?_, hwith.1⟩
    unfold Cache.kmallocs
    rw [hwith.2.2]
    rfl
  have hspec : Ensures (usbCreate env fuel fields) (fun p k => p ≠ 0 →
      ∃ c, bestFitCache w.kernel 32 fuel w.kernel.caches 0 = some c ∧
        (DescriptorAt k p n ↔ n ≤ 32 ∧ (w.kernel.cache c).descOnSlab = false)) NoEmptySlab
      w.kernel := by
    refine usbCreate_spec fuel fields
      ((kmalloc_spec (slabCalls_ok env fuel).alloc h fuel 32).imp fun p k hk hp => ?_)
      fun p k mem hk hp => hk hp
    rcases hk with ⟨rfl, _⟩ | ⟨c, g', hbest, hc, _, hgives⟩
    · exact absurd rfl hp
    · have hsize := bestFitCache_exact h.lists.caches hexact hbest
      have hca := hgives.later.layout.cache c hc
      obtain ⟨x, hx, rfl, i, hi, haddr⟩ := hgives.logged hc (.inr (by rw [hsize]; decide))
      refine ⟨x.cache, hbest, ?_⟩
      rw [← descOnSlab_congr hca]
      exact descriptorAt_iff hgives.inv (hgives.later.statics.blocksAligned.mpr hblocks) hx hi haddr
        (hca.objSize.trans hsize)
  exact hspec.ok hcall hp

/-! ## What is aligned -/

/-- Every object of a cache with an alignment is at a multiple of it, and every descriptor at one
of 32 and with room for its structure. -/
structure AllAligned (env : Env) (w : World) : Prop where
  objects : ∀ fuel c p k, IsCache w.kernel c → (w.kernel.cache c).alignment ≠ 0 →
    (slabCalls env fuel).allocObjectFromCache c w.kernel = (.ok p, k) →
    ∃ x ∈ k.grown, x.cache = c ∧ ∃ i < k.count c x.slab, k.objAddr c x.slab i = p ∧
      (w.kernel.cache c).alignment ∣ k.physicalAddr x i
  transfers : ∀ fuel t p k, usbCreateTransfer env fuel t w.kernel = (.ok p, k) → p ≠ 0 →
    DescriptorAt k p sizeofUsbQTD
  queueHeads : ∀ fuel q p k, usbCreateQueueHead env fuel q w.kernel = (.ok p, k) → p ≠ 0 →
    DescriptorAt k p sizeofUsbQH

/-- When it is. -/
structure AlignedWhen (env : Env) (w : World) : Prop where
  /-- what is given is of a slab that is aligned as a whole if its objects are big, or else if the
  page `usePage` gave, the header and the size fit -/
  objects : ∀ fuel c p k, IsCache w.kernel c → (w.kernel.cache c).alignment ≠ 0 →
    (slabCalls env fuel).allocObjectFromCache c w.kernel = (.ok p, k) →
    ∃ x ∈ k.grown, x.cache = c ∧ (∃ i < k.count c x.slab, k.objAddr c x.slab i = p) ∧
      (k.ObjectsAligned (w.kernel.cache c).alignment x ↔ smallPageSize ≤ w.kernel.objSize c ∨
        (w.kernel.cache c).Aligns (w.kernel.cache c).alignment x.page)
  /-- a transfer is if the cache of 32 byte objects that `kmalloc` takes has no headers -/
  transfers : ∀ fuel t p k, usbCreateTransfer env fuel t w.kernel = (.ok p, k) → p ≠ 0 →
    ∃ c, bestFitCache w.kernel 32 fuel w.kernel.caches 0 = some c ∧
      (DescriptorAt k p sizeofUsbQTD ↔ (w.kernel.cache c).descOnSlab = false)
  /-- a queue head never is -/
  queueHeads : ∀ fuel q p k, usbCreateQueueHead env fuel q w.kernel = (.ok p, k) → p ≠ 0 →
    ¬ DescriptorAt k p sizeofUsbQH

/-- **Alignment**, in every run. -/
theorem alignedWhen_of_run (hw : Run env Harmless w) (hblocks : BlocksAligned w.kernel.pages) :
    AlignedWhen env w := by
  obtain ⟨g, h⟩ := slabInv_of_run hw
  refine ⟨fun fuel c p k hc hne hcall => ?_, fun fuel t p k hcall hp => ?_,
    fun fuel q p k hcall hp => ?_⟩
  · have hmem := (isCache_iff h).mp hc
    obtain ⟨g', hgives⟩ := ((slabCalls_ok env fuel).alloc g _ c h hmem).ok hcall
    obtain ⟨x, hx, rfl, hslot⟩ := hgives.logged hmem (.inl hne)
    have hca := hgives.later.layout.cache _ hmem
    refine ⟨x, hx, rfl, hslot, ?_⟩
    have hiff := objectsAligned_iff hgives.inv hx (by rw [hca.alignment]; exact hne)
    rw [aligns_congr hca, hca.alignment, hgives.later.layout.objSize hmem] at hiff
    exact hiff
  · obtain ⟨c, hbest, hiff⟩ := usbCreate_descriptor (n := sizeofUsbQTD) hw hblocks hcall hp
    exact ⟨c, hbest, hiff.trans (and_iff_right (Nat.le_refl _))⟩
  · obtain ⟨c, _, hiff⟩ := usbCreate_descriptor (n := sizeofUsbQH) hw hblocks hcall hp
    exact fun hat => absurd (hiff.mp hat).1 (by decide)

/-- A queue head with nothing set. -/
def plainHead : QueueHead := ⟨0, 0, 0, 0, 0, 0, 0, 0, 0, 0, 0, 0⟩

/-- A queue head from the caches as they are set up. -/
theorem alignedWhen_started : ¬ DescriptorAt
    (usbCreateQueueHead quietEnv 200 plainHead startedKernel).2 0xe4004024 sizeofUsbQH := by
  have hblocks : BlocksAligned startedKernel.pages := by
    unfold BlocksAligned
    decide +kernel
  have hcall : (usbCreateQueueHead quietEnv 200 plainHead startedKernel).1 = .ok 0xe4004024 := by
    decide +kernel
  have h := (alignedWhen_of_run (run_started Harmless) hblocks).queueHeads 200 plainHead
  dsimp only at h
  exact h _ _ (run_eq hcall) (by omega)

/-- Once the cache for queue heads has given an object, and once it has given two. -/
def oneHead : Kernel := ((Op.allocObjectFromCache 0xe4000158).run quietEnv 200 startedKernel).2
def twoHeads : Kernel := ((slabCalls quietEnv 200).allocObjectFromCache 0xe4000158 oneHead).2

theorem run_oneHead : ∃ w, Run quietEnv Harmless w ∧ w.kernel = oneHead := by
  obtain ⟨w, hrun, hw, _⟩ := reached_started Harmless
  have hcache : IsCache startedKernel 0xe4000158 :=
    isCache_iterate 10 (by decide +kernel) (by decide +kernel)
  have hop : Harmless w (.allocObjectFromCache 0xe4000158) := by
    rw [Harmless, hw]
    exact hcache
  have hcall : ((Op.allocObjectFromCache 0xe4000158).run quietEnv 200 startedKernel).1
      = .ok 0xe4004000 := by
    decide +kernel
  obtain ⟨w1, hrun1, hw1, _⟩ := hrun.reaches hw hop hcall
  exact ⟨w1, hrun1, hw1⟩

theorem twoHeads_given : (slabCalls quietEnv 200).allocObjectFromCache 0xe4000158 oneHead =
    (.ok 0xe4004030, twoHeads) :=
  @run_eq Nat ((slabCalls quietEnv 200).allocObjectFromCache 0xe4000158) oneHead 0xe4004030
    (by decide +kernel)

/-- The second object of the queue heads' cache is 48 bytes behind the start of a page. -/
theorem secondQueueHead_misaligned : ¬ ∀ (env : Env) (w : World), Run env Harmless w →
    BlocksAligned w.kernel.pages → AllAligned env w := by
  intro h
  obtain ⟨w, hrun, hw⟩ := run_oneHead
  have hblocks : BlocksAligned oneHead.pages := by
    unfold BlocksAligned
    decide +kernel
  have hcache : IsCache oneHead 0xe4000158 :=
    isCache_iterate 10 (by decide +kernel) (by decide +kernel)
  have hall := (h quietEnv w hrun (hw ▸ hblocks)).objects 200 0xe4000158 0xe4004030 twoHeads
  rw [hw] at hall
  obtain ⟨x, hx, hxc, i, hi, haddr, hdvd⟩ := hall hcache (by decide +kernel) twoHeads_given
  have hnone : ∀ x ∈ twoHeads.grown, x.cache = 0xe4000158 →
      ∀ i < twoHeads.count 0xe4000158 x.slab, twoHeads.objAddr 0xe4000158 x.slab i = 0xe4004030 →
        ¬ (oneHead.cache 0xe4000158).alignment ∣ twoHeads.physicalAddr x i := by
    decide +kernel
  exact hnone x hx hxc i hi haddr hdvd

end

end OSExt.Drivers
