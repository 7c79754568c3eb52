import OSExt.Drivers.Usb
import OSExt.Lib.Fields
import OSExt.Memory.PageWalk

/-!
# What the USB controller reads

The bit fields of the two descriptors, read back from the memory they were written to. Every
field of a queue head is its argument modulo the field's width, and so is every field of a
transfer but one: the length is `total_bytes && 0x7fff`, a truth value.
-/

namespace OSExt.Drivers

open Lib Memory Memory.Clients

/-! ## Words in memory -/

theorem loadWord_congr {mem mem' : Nat → Byte} {a : Nat} (h : ∀ i < 4, mem (a + i) = mem' (a + i)) :
    loadWord mem a = loadWord mem' a := by
  have h0 := h 0 (by omega)
  rw [Nat.add_zero] at h0
  rw [loadWord, loadWord, h 3 (by omega), h 2 (by omega), h 1 (by omega), h0]

theorem loadWord_storeWord (mem : Nat → Byte) (a : Nat) (w : Word) :
    loadWord (storeWord mem a w) a = w := by
  have hbyte : ∀ i < 4, storeWord mem a w (a + i) = w.extractLsb' (8 * i) 8 := by
    intro i hi
    rw [storeWord, if_pos (by omega), Nat.add_sub_cancel_left]
  have h0 := hbyte 0 (by omega)
  rw [Nat.add_zero] at h0
  rw [loadWord, hbyte 3 (by omega), hbyte 2 (by omega), hbyte 1 (by omega), h0,
    BitVec.extractLsb'_append_extractLsb'_eq_extractLsb' (by omega),
    BitVec.extractLsb'_append_extractLsb'_eq_extractLsb' (by omega),
    BitVec.extractLsb'_append_extractLsb'_eq_extractLsb' (by omega)]
  exact BitVec.extractLsb'_eq_self

theorem loadWord_storeWord_apart (mem : Nat → Byte) {a b : Nat} (w : Word)
    (h : a + 4 ≤ b ∨ b + 4 ≤ a) : loadWord (storeWord mem a w) b = loadWord mem b :=
  loadWord_congr fun i hi => storeWord_other mem w (by omega)

theorem writeFields_apart {p a : Nat} : ∀ {fields : List (Nat × Word)} (mem : Nat → Byte),
    (∀ f ∈ fields, a + 4 ≤ f.1 ∨ f.1 + 4 ≤ a) →
    loadWord (writeFields mem p fields) (p + a) = loadWord mem (p + a) := by
  intro fields
  induction fields with
  | nil => exact fun mem _ => rfl
  | cons f fields ih =>
      intro mem h
      have hf := h f List.mem_cons_self
      rw [writeFields, List.foldl_cons]
      exact (ih _ fun g hg => h g (List.mem_cons_of_mem f hg)).trans
        (loadWord_storeWord_apart mem f.2 (by omega))

/-- **What was written is read back**, if the fields do not overlap. -/
theorem writeFields_read (p : Nat) : ∀ (fields : List (Nat × Word)) (mem : Nat → Byte),
    fields.Pairwise (fun f g => f.1 + 4 ≤ g.1 ∨ g.1 + 4 ≤ f.1) →
    ∀ f ∈ fields, loadWord (writeFields mem p fields) (p + f.1) = f.2 := by
  intro fields
  induction fields with
  | nil => exact fun _ _ f hf => absurd hf List.not_mem_nil
  | cons g fields ih =>
      intro mem hapart f hf
      obtain ⟨hg, hapart⟩ := List.pairwise_cons.mp hapart
      rw [writeFields, List.foldl_cons]
      rcases List.mem_cons.mp hf with rfl | hf
      · exact (writeFields_apart _ hg).trans (loadWord_storeWord mem _ _)
      · exact ih _ hapart f hf

/-- A descriptor that was made is its fields over some memory. -/
theorem usbCreate_written {env : Env} {fuel : Nat} {fields : List (Nat × Word)} {k k' : Kernel}
    {p : Nat} (hcall : usbCreate env fuel fields k = (.ok p, k')) (hp : p ≠ 0) :
    ∃ mem, k'.mem = writeFields mem p fields := by
  have hspec : Ensures (usbCreate env fuel fields)
      (fun p k => p ≠ 0 → ∃ mem, k.mem = writeFields mem p fields) (fun _ _ => True) k := by
    rw [usbCreate, ensures_bind]
    refine ensures_iff.mpr ⟨fun p k1 _ => ?_, fun _ _ _ => trivial⟩
    refine ensures_ite (fun _ hne => absurd rfl hne) fun _ => ?_
    rw [ensures_bind, ensures_update]
    exact fun _ => ⟨_, rfl⟩
  exact hspec.ok hcall hp

/-! ## The packed words -/

/-- An argument masked to the width of its field. -/
def masked {v : Nat} (lo width : Nat) (x : BitVec v) : Field 32 :=
  ⟨lo, width, x.setWidth 32 &&& BitVec.ofNat 32 (2 ^ width - 1)⟩

/-- An argument that is as wide as its field. -/
def whole {v : Nat} (lo : Nat) (x : BitVec v) : Field 32 := ⟨lo, v, x.setWidth 32⟩

section

variable {v lo width : Nat} (x : BitVec v)

theorem masked_value (hv : v ≤ 32) (hwidth : width ≤ 32) :
    (masked lo width x).value.toNat = x.toNat % 2 ^ width := by
  rw [masked, toNat_and_mask _ hwidth, BitVec.toNat_setWidth,
    Nat.mod_eq_of_lt (Nat.lt_of_lt_of_le x.isLt (Nat.pow_le_pow_right (by omega) hv))]

theorem masked_fits (hv : v ≤ 32) (h : lo + width ≤ 32) : (masked lo width x).Fits :=
  ⟨by rw [masked_value x hv (by omega)]; exact Nat.mod_lt _ (Nat.two_pow_pos width), h⟩

theorem whole_value (hv : v ≤ 32) : (whole lo x).value.toNat = x.toNat := by
  rw [whole, BitVec.toNat_setWidth,
    Nat.mod_eq_of_lt (Nat.lt_of_lt_of_le x.isLt (Nat.pow_le_pow_right (by omega) hv))]

theorem whole_fits (h : lo + v ≤ 32) : (whole lo x).Fits :=
  ⟨by rw [whole_value x (by omega)]; exact x.isLt, h⟩

end

/-- The fields of `endpt_cap1`. -/
def QueueHead.fields1 (q : QueueHead) : List (Field 32) :=
  [masked 28 4 q.nakReload, masked 27 1 q.controlEndpoint, masked 16 11 q.maxPacketSize,
   masked 14 1 q.dataToggleControl, masked 12 2 q.endpointSpeed, masked 8 4 q.endpointNumber,
   masked 0 7 q.deviceAddress]

/-- The fields of `endpt_cap2`. -/
def QueueHead.fields2 (q : QueueHead) : List (Field 32) :=
  [masked 30 2 q.mult, masked 23 7 q.port, masked 16 7 q.hub, whole 8 q.splitMask,
   whole 0 q.interruptMask]

/-- The fields of the token; the last one is the status, active and nothing else. -/
def Transfer.fields (t : Transfer) : List (Field 32) :=
  [⟨31, 1, t.dataToggle.setWidth 32⟩, ⟨16, 15, if t.totalBytes ≠ 0 then 1#32 else 0#32⟩,
   masked 15 1 t.ioc, masked 8 2 t.pid, ⟨0, 8, 0x80#32⟩]

theorem endptCap1_eq (q : QueueHead) : q.endptCap1 = pack q.fields1 := by
  simp only [QueueHead.endptCap1, QueueHead.fields1, pack, Field.word, masked, BitVec.or_zero,
    BitVec.or_assoc, BitVec.shiftLeft_zero, Nat.reducePow, Nat.reduceSub]

theorem endptCap2_eq (q : QueueHead) : q.endptCap2 = pack q.fields2 := by
  simp only [QueueHead.endptCap2, QueueHead.fields2, pack, Field.word, masked, whole,
    BitVec.or_zero, BitVec.or_assoc, BitVec.shiftLeft_zero, Nat.reducePow, Nat.reduceSub]

theorem token_eq (t : Transfer) : t.token = pack t.fields := by
  simp only [Transfer.token, Transfer.fields, pack, Field.word, masked, BitVec.or_zero,
    BitVec.or_assoc]
  rfl

theorem fields1_fit (q : QueueHead) : ∀ f ∈ q.fields1, f.Fits := by
  simp only [QueueHead.fields1, List.forall_mem_cons]
  refine ⟨?_, ?_, ?_, ?_, ?_, ?_, ?_, nofun⟩ <;> exact masked_fits _ (by omega) (by omega)

theorem fields2_fit (q : QueueHead) : ∀ f ∈ q.fields2, f.Fits := by
  simp only [QueueHead.fields2, List.forall_mem_cons]
  refine ⟨?_, ?_, ?_, ?_, ?_, nofun⟩
  · exact masked_fits _ (by omega) (by omega)
  · exact masked_fits _ (by omega) (by omega)
  · exact masked_fits _ (by omega) (by omega)
  · exact whole_fits _ (by omega)
  · exact whole_fits _ (by omega)

theorem fields_fit {t : Transfer} (h : t.dataToggle = 0 ∨ t.dataToggle = 1) :
    ∀ f ∈ t.fields, f.Fits := by
  simp only [Transfer.fields, List.forall_mem_cons]
  refine ⟨⟨?_, Nat.le_refl 32⟩, ⟨?_, Nat.le_succ 31⟩, ?_, ?_, ⟨by decide, by decide⟩, nofun⟩
  · cases h with
    | inl h => rw [h]; decide
    | inr h => rw [h]; decide
  · by_cases hzero : t.totalBytes ≠ 0
    · rw [if_pos hzero]; decide
    · rw [if_neg hzero]; decide
  · exact masked_fits _ (by omega) (by omega)
  · exact masked_fits _ (by omega) (by omega)

theorem fields1_apart (q : QueueHead) : q.fields1.Pairwise fun f g => f.Apart g.lo g.width := by
  simp [QueueHead.fields1, masked, Field.Apart]

theorem fields2_apart (q : QueueHead) : q.fields2.Pairwise fun f g => f.Apart g.lo g.width := by
  simp [QueueHead.fields2, masked, whole, Field.Apart]

theorem fields_apart (t : Transfer) : t.fields.Pairwise fun f g => f.Apart g.lo g.width := by
  simp [Transfer.fields, masked, Field.Apart]

/-! ## Reading the descriptors -/

/-- What the controller reads in a transfer at `p`, the length aside. -/
structure TransferRest (mem : Nat → Byte) (p : Nat) (t : Transfer) : Prop where
  toggle : field (loadWord mem (p + 8)) 31 1 = t.dataToggle.toNat
  ioc : field (loadWord mem (p + 8)) 15 1 = t.ioc.toNat % 2 ^ 1
  currentPage : field (loadWord mem (p + 8)) 12 3 = 0
  errors : field (loadWord mem (p + 8)) 10 2 = 0
  pid : field (loadWord mem (p + 8)) 8 2 = t.pid.toNat % 2 ^ 2
  /-- active only -/
  status : field (loadWord mem (p + 8)) 0 8 = 0x80
  page0 : field (loadWord mem (p + 12)) 12 20 = t.page0.toNat / 2 ^ 12
  firstOffset : field (loadWord mem (p + 12)) 0 12 = t.firstOffset.toNat % 2 ^ 12
  page1 : (loadWord mem (p + 16)).toNat = t.page1.toNat / 2 ^ 12 * 2 ^ 12
  page2 : (loadWord mem (p + 20)).toNat = t.page2.toNat / 2 ^ 12 * 2 ^ 12
  page3 : (loadWord mem (p + 24)).toNat = t.page3.toNat / 2 ^ 12 * 2 ^ 12
  page4 : (loadWord mem (p + 28)).toNat = t.page4.toNat / 2 ^ 12 * 2 ^ 12

/-- All that the controller reads in a transfer is what the caller asked for. -/
structure TransferDecodes (mem : Nat → Byte) (p : Nat) (t : Transfer) : Prop where
  totalBytes : field (loadWord mem (p + 8)) 16 15 = t.totalBytes.toNat % 2 ^ 15
  rest : TransferRest mem p t

/-- All that the controller reads in the two capability words of a queue head. -/
structure QueueHeadDecodes (mem : Nat → Byte) (p : Nat) (q : QueueHead) : Prop where
  nakReload : field (loadWord mem (p + 4)) 28 4 = q.nakReload.toNat % 2 ^ 4
  controlEndpoint : field (loadWord mem (p + 4)) 27 1 = q.controlEndpoint.toNat % 2 ^ 1
  maxPacketSize : field (loadWord mem (p + 4)) 16 11 = q.maxPacketSize.toNat % 2 ^ 11
  reclamation : field (loadWord mem (p + 4)) 15 1 = 0
  dataToggleControl : field (loadWord mem (p + 4)) 14 1 = q.dataToggleControl.toNat % 2 ^ 1
  endpointSpeed : field (loadWord mem (p + 4)) 12 2 = q.endpointSpeed.toNat % 2 ^ 2
  endpointNumber : field (loadWord mem (p + 4)) 8 4 = q.endpointNumber.toNat % 2 ^ 4
  inactivate : field (loadWord mem (p + 4)) 7 1 = 0
  deviceAddress : field (loadWord mem (p + 4)) 0 7 = q.deviceAddress.toNat % 2 ^ 7
  mult : field (loadWord mem (p + 8)) 30 2 = q.mult.toNat % 2 ^ 2
  port : field (loadWord mem (p + 8)) 23 7 = q.port.toNat % 2 ^ 7
  hub : field (loadWord mem (p + 8)) 16 7 = q.hub.toNat % 2 ^ 7
  splitMask : field (loadWord mem (p + 8)) 8 8 = q.splitMask.toNat
  interruptMask : field (loadWord mem (p + 8)) 0 8 = q.interruptMask.toNat

/-- An address without its offset, and the offset. -/
theorem page_or_offset {v : Nat} (page : Word) (offset : BitVec v) (hv : v ≤ 32) :
    field ((page &&& ~~~0xfff#32) ||| (offset.setWidth 32 &&& 0xfff#32)) 12 20
      = page.toNat / 2 ^ 12 ∧
    field ((page &&& ~~~0xfff#32) ||| (offset.setWidth 32 &&& 0xfff#32)) 0 12
      = offset.toNat % 2 ^ 12 := by
  have hpage : (page &&& ~~~0xfff#32).toNat = page.toNat / 2 ^ 12 * 2 ^ 12 :=
    toNat_and_not_mask page 12
  have hoffset : (offset.setWidth 32 &&& 0xfff#32).toNat = offset.toNat % 2 ^ 12 :=
    @masked_value v 0 12 offset hv (by omega)
  have hlt := page.isLt
  rw [field_or, field_or]
  unfold field
  rw [hpage, hoffset, Nat.mul_div_cancel _ (Nat.two_pow_pos 12),
    Nat.div_eq_of_lt (Nat.mod_lt _ (Nat.two_pow_pos 12)), Nat.zero_mod, Nat.or_zero, Nat.pow_zero,
    Nat.div_one, Nat.div_one, Nat.mul_mod_left, Nat.zero_or, Nat.mod_mod]
  exact ⟨Nat.mod_eq_of_lt (by omega), rfl⟩

/-- **Every field of a queue head** decodes to its argument. -/
theorem usbCreateQueueHead_decodes {env : Env} {fuel : Nat} {q : QueueHead} {k k' : Kernel}
    {p : Nat} (hcall : usbCreateQueueHead env fuel q k = (.ok p, k')) (hp : p ≠ 0) :
    QueueHeadDecodes k'.mem p q := by
  obtain ⟨mem, hmem⟩ := usbCreate_written hcall hp
  have hread := writeFields_read p [(0, 0b1#32 <<< 1), (4, q.endptCap1), (8, q.endptCap2), (16, 1#32),
    (20, 1#32)] mem (by simp)
  have h4 : loadWord k'.mem (p + 4) = pack q.fields1 := by
    rw [hmem, ← endptCap1_eq]
    exact hread (4, q.endptCap1) (by simp)
  have h8 : loadWord k'.mem (p + 8) = pack q.fields2 := by
    rw [hmem, ← endptCap2_eq]
    exact hread (8, q.endptCap2) (by simp)
  have hfit := fields1_fit q
  have hfields1 := field_pack hfit (fields1_apart q)
  have hfields2 := field_pack (fields2_fit q) (fields2_apart q)
  simp only [QueueHead.fields1, List.forall_mem_cons] at hfields1
  simp only [QueueHead.fields2, List.forall_mem_cons] at hfields2
  obtain ⟨hnak, hcontrol, hmax, htoggle, hspeed, hnumber, haddress, -⟩ := hfields1
  obtain ⟨hmult, hport, hhub, hsplit, hint, -⟩ := hfields2
  constructor
  case nakReload => rw [h4]; exact hnak.trans (masked_value _ (by omega) (by omega))
  case controlEndpoint => rw [h4]; exact hcontrol.trans (masked_value _ (by omega) (by omega))
  case maxPacketSize => rw [h4]; exact hmax.trans (masked_value _ (by omega) (by omega))
  case dataToggleControl => rw [h4]; exact htoggle.trans (masked_value _ (by omega) (by omega))
  case endpointSpeed => rw [h4]; exact hspeed.trans (masked_value _ (by omega) (by omega))
  case endpointNumber => rw [h4]; exact hnumber.trans (masked_value _ (by omega) (by omega))
  case deviceAddress => rw [h4]; exact haddress.trans (masked_value _ (by omega) (by omega))
  case mult => rw [h8]; exact hmult.trans (masked_value _ (by omega) (by omega))
  case port => rw [h8]; exact hport.trans (masked_value _ (by omega) (by omega))
  case hub => rw [h8]; exact hhub.trans (masked_value _ (by omega) (by omega))
  case splitMask => rw [h8]; exact hsplit.trans (whole_value _ (by omega))
  case interruptMask => rw [h8]; exact hint.trans (whole_value _ (by omega))
  -- two bits of the first word that no argument is for
  case reclamation =>
    rw [h4]
    exact field_pack_gap hfit (by simp [QueueHead.fields1, masked, Field.Apart])
  case inactivate =>
    rw [h4]
    exact field_pack_gap hfit (by simp [QueueHead.fields1, masked, Field.Apart])

/-- A transfer's fields but for the length decode to their arguments; the length is a truth
value. -/
theorem usbCreateTransfer_decodes {env : Env} {fuel : Nat} {t : Transfer} {k k' : Kernel}
    {p : Nat} (htoggle : t.dataToggle = 0 ∨ t.dataToggle = 1)
    (hcall : usbCreateTransfer env fuel t k = (.ok p, k')) (hp : p ≠ 0) :
    TransferRest k'.mem p t ∧
      field (loadWord k'.mem (p + 8)) 16 15 = if t.totalBytes ≠ 0 then 1 else 0 := by
  obtain ⟨mem, hmem⟩ := usbCreate_written hcall hp
  have hread := writeFields_read p [(0, 1#32), (4, 1#32), (8, t.token),
     (12, (t.page0 &&& ~~~0xfff#32) ||| (t.firstOffset.setWidth 32 &&& 0xfff#32)),
     (16, t.page1 &&& ~~~0xfff#32), (20, t.page2 &&& ~~~0xfff#32),
     (24, t.page3 &&& ~~~0xfff#32), (28, t.page4 &&& ~~~0xfff#32)] mem (by simp)
  simp only [List.forall_mem_cons] at hread
  rw [← hmem] at hread
  -- the two links are not the caller's
  obtain ⟨-, -, h8, h12, h16, h20, h24, h28, -⟩ := hread
  have hfit := fields_fit htoggle
  have hfields := field_pack hfit (fields_apart t)
  simp only [Transfer.fields, List.forall_mem_cons] at hfields
  obtain ⟨hdata, htotal, hioc, hpid, hstatus, -⟩ := hfields
  have hpage0 := page_or_offset t.page0 t.firstOffset (by omega)
  rw [token_eq] at h8
  refine ⟨?_, ?_⟩
  · constructor
    case toggle => rw [h8]; exact hdata.trans (@whole_value 8 31 t.dataToggle (by omega))
    case ioc => rw [h8]; exact hioc.trans (masked_value _ (by omega) (by omega))
    case pid => rw [h8]; exact hpid.trans (masked_value _ (by omega) (by omega))
    case status => rw [h8]; exact hstatus
    case page0 => rw [h12]; exact hpage0.1
    case firstOffset => rw [h12]; exact hpage0.2
    case page1 => rw [h16]; exact toNat_and_not_mask t.page1 12
    case page2 => rw [h20]; exact toNat_and_not_mask t.page2 12
    case page3 => rw [h24]; exact toNat_and_not_mask t.page3 12
    case page4 => rw [h28]; exact toNat_and_not_mask t.page4 12
    case currentPage =>
      rw [h8]
      exact field_pack_gap hfit (by simp [Transfer.fields, masked, Field.Apart])
    case errors =>
      rw [h8]
      exact field_pack_gap hfit (by simp [Transfer.fields, masked, Field.Apart])
  · rw [h8]
    refine htotal.trans ?_
    by_cases hzero : t.totalBytes ≠ 0
    · rw [if_pos hzero, if_pos hzero]; rfl
    · rw [if_neg hzero, if_neg hzero]; rfl

/-- The lengths that are their truth value modulo 2^15. -/
theorem truth_eq_mod_iff (n : BitVec 16) :
    (if n ≠ 0 then 1 else 0) = n.toNat % 2 ^ 15 ↔ n = 0 ∨ n = 1 ∨ n = 0x8001 := by
  have h0 : n = 0 ↔ n.toNat = 0 := BitVec.toNat_inj.symm
  have h1 : n = 1 ↔ n.toNat = 1 := BitVec.toNat_inj.symm
  have h8001 : n = 0x8001 ↔ n.toNat = 0x8001 := BitVec.toNat_inj.symm
  have hlt := n.isLt
  by_cases hzero : n = 0
  · rw [if_neg (not_not_intro hzero), h0.mp hzero]
    exact iff_of_true rfl (Or.inl hzero)
  · have hpos : n.toNat ≠ 0 := fun h => hzero (h0.mpr h)
    rw [if_pos hzero, h0, h1, h8001]
    omega

/-- **The descriptors decode**: a queue head always, and a transfer exactly if its length
modulo 2^15 is the truth value of its length. -/
theorem usb_descriptors_decode {env : Env} {fuel : Nat} {k k' : Kernel} {p : Nat} (hp : p ≠ 0) :
    (∀ q, usbCreateQueueHead env fuel q k = (.ok p, k') → QueueHeadDecodes k'.mem p q) ∧
    ∀ t, t.dataToggle = 0 ∨ t.dataToggle = 1 → usbCreateTransfer env fuel t k = (.ok p, k') →
      (TransferDecodes k'.mem p t ↔
        t.totalBytes = 0 ∨ t.totalBytes = 1 ∨ t.totalBytes = 0x8001) := by
  refine ⟨fun q hcall => usbCreateQueueHead_decodes hcall hp, fun t htoggle hcall => ?_⟩
  obtain ⟨hrest, htotal⟩ := usbCreateTransfer_decodes htoggle hcall hp
  have hcond : field (loadWord k'.mem (p + 8)) 16 15 = t.totalBytes.toNat % 2 ^ 15 ↔
      t.totalBytes = 0 ∨ t.totalBytes = 1 ∨ t.totalBytes = 0x8001 := by
    rw [htotal]
    exact truth_eq_mod_iff t.totalBytes
  exact ⟨fun h => hcond.mp h.totalBytes, fun h => ⟨hcond.mpr h, hrest⟩⟩

/-- A transfer of 64 bytes from the first page. -/
def sixtyFourBytes : Transfer := ⟨0, 64, 1, 1, 0, 0, 0, 0, 0, 0⟩

theorem usbCreateTransfer_started :
    (usbCreateTransfer quietEnv 200 sixtyFourBytes startedKernel).1 = .ok 0xe4004024 := by
  decide +kernel

theorem usb_descriptors_decode_started : 0xe4004024 ≠ 0 ∧
    (TransferDecodes (usbCreateTransfer quietEnv 200 sixtyFourBytes startedKernel).2.mem 0xe4004024
      sixtyFourBytes ↔ sixtyFourBytes.totalBytes = 0 ∨ sixtyFourBytes.totalBytes = 1 ∨
        sixtyFourBytes.totalBytes = 0x8001) :=
  ⟨by omega, (usb_descriptors_decode (by omega)).2 sixtyFourBytes (Or.inl rfl)
    (run_eq usbCreateTransfer_started)⟩

/-- The controller is asked for one byte of the 64. -/
theorem sixtyFourBytes_lost : ¬ ∀ (env : Env) (fuel : Nat) (t : Transfer) (k k' : Kernel) (p : Nat),
    t.dataToggle = 0 ∨ t.dataToggle = 1 → usbCreateTransfer env fuel t k = (.ok p, k') → p ≠ 0 →
      TransferDecodes k'.mem p t := by
  intro h
  have hcall := run_eq usbCreateTransfer_started
  have hall := h quietEnv 200 sixtyFourBytes startedKernel _ _ (Or.inl rfl) hcall (by omega)
  have hone := (usbCreateTransfer_decodes (Or.inl rfl) hcall (by omega)).2
  rw [hall.totalBytes] at hone
  exact absurd hone (by decide)

end OSExt.Drivers
