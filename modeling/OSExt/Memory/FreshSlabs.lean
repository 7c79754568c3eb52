import OSExt.Memory.SlabRuns

/-!
# New slabs

What `growCache` puts on the free list is meant to be wholly free. On-slab used bits
are on the page it has just cleared. An array of used bits off-slab is an object from
`kmalloc` like any other, and nobody clears it: it has what its last owner wrote.
-/

namespace OSExt.Memory

open Lib

/-- `n` calls of `alloc_object_from_slab` in a row. -/
def allocsFromSlab (slab objSize : Nat) (flags : BitVec 16) : Nat → KernelM (List Nat)
  | 0 => pure []
  | n + 1 => do
    let object ← allocObjectFromSlab slab objSize flags
    let objects ← allocsFromSlab slab objSize flags n
    pure (object :: objects)

section

variable {g : Shape} {k : Kernel} {c s : Nat}

/-- **The free slots are given in order**, then NULL. -/
theorem allocsFromSlab_from (hbits : (k.cache c).descOnSlab = true ∨ (k.slab s).used ≠ 0)
    {n j : Nat} (hj : j + n = k.count c s) (hused : ∀ i < j, k.IsUsed c s i)
    (hclear : ∀ i, j ≤ i → i < k.count c s → ¬ k.IsUsed c s i) :
    ∃ k', allocsFromSlab s (k.cache c).objSize (k.cache c).flags (n + 1) k =
      (.ok ((List.range' j n).map (k.objAddr c s) ++ [0]), k') := by
  induction n generalizing k j with
  | zero =>
      refine ⟨k, ?_⟩
      rw [allocsFromSlab, bind_ok]
      refine ⟨_, _, allocObjectFromSlab_none hbits fun i hi => hused i (by omega), ?_⟩
      rfl
  | succ n ih =>
      have hgive := allocObjectFromSlab_at hbits (show j < k.count c s by omega) hused
        (hclear j (Nat.le_refl j) (by omega))
      -- one more slot is in use afterwards
      obtain ⟨k1, hk1⟩ : ∃ k1, k1 = k.setMem (setUsedBit k.mem (k.bitmap c s) j) := ⟨_, rfl⟩
      have hused1 : ∀ i < j + 1, k1.IsUsed c s i := by
        intro i hi
        rw [hk1]
        show usedBit (setUsedBit k.mem (k.bitmap c s) j) (k.bitmap c s) i ≠ 0
        by_cases hij : i = j
        · rw [hij]
          exact usedBit_set_self _ _ _
        · rw [usedBit_set_other _ _ (Ne.symm hij)]
          exact hused i (by omega)
      have hclear1 : ∀ i, j + 1 ≤ i → i < k1.count c s → ¬ k1.IsUsed c s i := by
        intro i hi hlt
        rw [hk1] at hlt ⊢
        show ¬ usedBit (setUsedBit k.mem (k.bitmap c s) j) (k.bitmap c s) i ≠ 0
        rw [usedBit_set_other _ _ (by omega)]
        exact hclear i (by omega) hlt
      have hsame : k1.cache = k.cache ∧ k1.slab = k.slab := by
        rw [hk1]
        exact ⟨rfl, rfl⟩
      have hbits1 : (k1.cache c).descOnSlab = true ∨ (k1.slab s).used ≠ 0 := by
        rw [hsame.1, hsame.2]
        exact hbits
      have hcount : k1.count c s = k.count c s := by rw [hk1]; rfl
      obtain ⟨k', hrest⟩ := ih (k := k1) (j := j + 1) hbits1 (by omega) hused1 hclear1
      rw [hsame.1] at hrest
      refine ⟨k', ?_⟩
      rw [allocsFromSlab, bind_ok]
      refine ⟨_, _, hgive, ?_⟩
      rw [← hk1, bind_ok]
      refine ⟨_, _, hrest, ?_⟩
      rw [List.range'_succ, List.map_cons, List.cons_append, hk1]
      rfl

/-- A slab of the shape has its used bits. -/
theorem SlabInv.hasBits (h : SlabInv g k) (hs : g.Has c s) :
    (k.cache c).descOnSlab = true ∨ (k.slab s).used ≠ 0 := by
  cases hon : (k.cache c).descOnSlab with
  | true => exact .inl rfl
  | false =>
      obtain ⟨c', s', i, hs', _, haddr, _⟩ := h.uses.bitmap c s hs hon
      exact .inr (haddr ▸ h.layout.objAddr_ne_zero hs' i)

end

namespace Clients

/-- A slab as `growCache` is meant to add it, with the memory as it was then. -/
structure WhollyFree (k : Kernel) (x : Grown) : Prop where
  clear : ∀ i < k.count x.cache x.slab, usedBit x.mem (k.bitmap x.cache x.slab) i = 0
  /-- as many objects as there are slots, one after the other, then NULL -/
  allocs : ∃ k', allocsFromSlab x.slab (k.cache x.cache).objSize (k.cache x.cache).flags
    (k.count x.cache x.slab + 1) (k.setMem x.mem) =
      (.ok ((List.range (k.count x.cache x.slab)).map (k.objAddr x.cache x.slab) ++ [0]), k')
  objects : ∀ i, k.objAddr x.cache x.slab i ≠ 0
  count : (k.cache x.cache).descOnSlab = false →
    k.count x.cache x.slab = (k.slab x.slab).size * smallPageSize / k.objSize x.cache

theorem whollyFree_of_clear {g : Shape} {k : Kernel} {x : Grown} (h : SlabInv g k)
    (hx : x ∈ k.grown)
    (hclear : ∀ i < k.count x.cache x.slab, usedBit x.mem (k.bitmap x.cache x.slab) i = 0) :
    WhollyFree k x := by
  have hs := (h.caches.logged x hx).1
  refine ⟨hclear, ?_, h.layout.objAddr_ne_zero hs, fun hoff => count_offSlab hoff⟩
  have hall := allocsFromSlab_from (k := k.setMem x.mem) (c := x.cache) (s := x.slab)
    (h.hasBits hs) (Nat.zero_add _) (fun i hi => absurd hi (Nat.not_lt_zero i))
    fun i _ hi => not_not.mpr (hclear i hi)
  rw [← List.range_eq_range'] at hall
  exact hall

/-- Once an object of 128 bytes has been given, from an off-slab slab. -/
def bigGiven : Kernel := ((Op.kmalloc 128).run quietEnv 200 startedKernel).2

/-- Eight bytes from `kmalloc`, written full of ones, and given back. -/
def bytesGiven : Kernel := ((Op.kmalloc 8).run quietEnv 200 startedKernel).2
def bytesWritten : Kernel :=
  ((Op.write (fill bytesGiven.mem 0xe4004054 8 0xff)).run quietEnv 200 bytesGiven).2
def bytesFreed : Kernel := ((Op.kfree 0xe4004054).run quietEnv 200 bytesWritten).2

theorem run_bytesGiven : ∃ w, Run quietEnv Legal w ∧ w.kernel = bytesGiven ∧
    w.live = [⟨0xe4004054, 0xe400013c, .kmalloc 8⟩] := by
  obtain ⟨w, hrun, hw, hl⟩ := reached_started Legal
  have hcall : ((Op.kmalloc 8).run quietEnv 200 startedKernel).1 = .ok 0xe4004054 := by
    decide +kernel
  have hop : Legal w (.kmalloc 8) := trivial
  obtain ⟨w1, hrun1, hw1, hl1⟩ := hrun.reaches hw hop hcall
  have hcache : bestFitCache startedKernel 8 200 startedKernel.caches 0 = some 0xe400013c := by
    decide +kernel
  refine ⟨w1, hrun1, hw1, ?_⟩
  rw [hl1, Op.held, World.with, if_neg (by omega), hw, hcache, hl]
  rfl

theorem run_bytesWritten : ∃ w, Run quietEnv Legal w ∧ w.kernel = bytesWritten ∧
    w.live = [⟨0xe4004054, 0xe400013c, .kmalloc 8⟩] := by
  obtain ⟨w, hrun, hw, hl⟩ := run_bytesGiven
  have hsize : w.kernel.objSize 0xe400013c = 8 := by
    rw [hw]
    decide +kernel
  have hop : Legal w (.write (fill bytesGiven.mem 0xe4004054 8 0xff)) := by
    refine ⟨⟨0xe4004054, 0xe400013c, .kmalloc 8⟩, by simp [hl], fun b hb => ?_⟩
    rw [hw]
    exact fill_other _ _ fun hin => hb (Live.covers_of hsize hin)
  have hcall : ∀ mem k, ((Op.write mem).run quietEnv 200 k).1 = .ok 0 := fun _ _ => rfl
  obtain ⟨w1, hrun1, hw1, hl1⟩ := hrun.reaches hw hop (hcall _ _)
  exact ⟨w1, hrun1, hw1, hl1.trans hl⟩

theorem run_bytesFreed : ∃ w, Run quietEnv Legal w ∧ w.kernel = bytesFreed := by
  obtain ⟨w, hrun, hw, hl⟩ := run_bytesWritten
  have hop : Legal w (.kfree 0xe4004054) :=
    ⟨⟨0xe4004054, 0xe400013c, .kmalloc 8⟩, by simp [hl], rfl⟩
  have hcall : ((Op.kfree 0xe4004054).run quietEnv 200 bytesWritten).1 = .ok 0 := by decide +kernel
  obtain ⟨w1, hrun1, hw1, _⟩ := hrun.reaches hw hop hcall
  exact ⟨w1, hrun1, hw1⟩

end Clients

end OSExt.Memory
