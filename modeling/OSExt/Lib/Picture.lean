import Mathlib.Tactic
import Mathlib.Data.BitVec

/-!
# Painting a picture

A buffer is painted by writes at places. What a picture `v` shows on a region `P` is painted
by `f` if `f` makes the buffer show it there and leaves the rest: then it does not matter in
which order the writes are made, nor how often. Steps one after the other paint the union of
their regions, and so does a loop.
-/

namespace OSExt.Lib

variable {ι α γ : Type}

/-- `f` makes a buffer show `v` on `P`, and leaves the rest of it. -/
def Paints (v : ι → α) (P : ι → Prop) (f : (ι → α) → ι → α) : Prop :=
  ∀ buff i, (P i → f buff i = v i) ∧ (¬ P i → f buff i = buff i)

/-- `for (uint32_t x = xs; x < stop; x++)` -/
def forWord {σ : Type} (xs stop : BitVec 32) (body : BitVec 32 → σ → σ) (s : σ) : σ :=
  (List.range' xs.toNat (stop.toNat - xs.toNat)).foldl (fun s x => body (BitVec.ofNat 32 x) s) s

section

variable {v w : ι → α} {P Q : ι → Prop} {f g : (ι → α) → ι → α}

namespace Paints

theorem congr (h : Paints v P f) (hPQ : ∀ i, P i ↔ Q i) : Paints v Q f := by
  intro buff i
  rw [← hPQ i]
  exact h buff i

/-- Only what the picture shows on the region matters. -/
theorem congr_picture (h : Paints v P f) (hvw : ∀ i, P i → v i = w i) : Paints w P f := by
  intro buff i
  refine ⟨fun hi => ?_, (h buff i).2⟩
  rw [← hvw i hi]
  exact (h buff i).1 hi

theorem idle (v : ι → α) : Paints v (fun _ => False) id :=
  fun _ _ => ⟨False.elim, fun _ => rfl⟩

theorem write [DecidableEq ι] (v : ι → α) (j : ι) :
    Paints v (fun i => i = j) (fun buff => Function.update buff j (v j)) := by
  intro buff i
  refine ⟨fun h => ?_, fun h => Function.update_of_ne h _ _⟩
  subst h
  exact Function.update_self ..

/-- **One after the other.** -/
theorem seq (hf : Paints v P f) (hg : Paints v Q g) :
    Paints v (fun i => P i ∨ Q i) (fun buff => g (f buff)) := by
  intro buff i
  refine ⟨fun h => ?_, fun h => ?_⟩
  · by_cases hQ : Q i
    · exact (hg (f buff) i).1 hQ
    · show g (f buff) i = v i
      rw [(hg (f buff) i).2 hQ]
      exact (hf buff i).1 (h.resolve_right hQ)
  · show g (f buff) i = buff i
    rw [(hg (f buff) i).2 fun hQ => h (Or.inr hQ)]
    exact (hf buff i).2 fun hP => h (Or.inl hP)

/-- **One picture over another**: the second one is seen where it is painted. -/
theorem covered [DecidablePred Q] (hf : Paints v P f) (hg : Paints w Q g) :
    Paints (fun i => if Q i then w i else v i) (fun i => P i ∨ Q i) (fun buff => g (f buff)) := by
  intro buff i
  by_cases hQ : Q i
  · have hseen := (hg (f buff) i).1 hQ
    simpa [hQ] using hseen
  · have hkept := (hg (f buff) i).2 hQ
    simpa [hQ, hkept] using hf buff i

theorem ite {c : Prop} [Decidable c] (hf : c → Paints v P f) :
    Paints v (fun i => c ∧ P i) (fun buff => if c then f buff else buff) := by
  intro buff i
  by_cases hc : c
  · simp only [hc, true_and]
    exact hf hc buff i
  · simp only [hc, false_and]
    exact ⟨False.elim, fun _ => rfl⟩

/-- **A loop** paints what its rounds paint. -/
theorem foldl {step : (ι → α) → γ → ι → α} {R : γ → ι → Prop} : ∀ {l : List γ},
    (∀ a ∈ l, Paints v (R a) (fun buff => step buff a)) →
    Paints v (fun i => ∃ a ∈ l, R a i) (fun buff => l.foldl step buff) := by
  intro l
  induction l with
  | nil => exact fun _ => (idle v).congr fun i => by simp
  | cons a l ih =>
      intro h
      have hfirst := h a List.mem_cons_self
      have hrest := ih fun b hb => h b (List.mem_cons_of_mem a hb)
      exact (hfirst.seq hrest).congr fun i => by simp

theorem forWord {xs stop : BitVec 32} {body : BitVec 32 → (ι → α) → ι → α}
    {R : BitVec 32 → ι → Prop} (h : ∀ x, xs ≤ x → x < stop → Paints v (R x) (body x)) :
    Paints v (fun i => ∃ x, xs ≤ x ∧ x < stop ∧ R x i) (Lib.forWord xs stop body) := by
  have hword : ∀ n ∈ List.range' xs.toNat (stop.toNat - xs.toNat),
      (BitVec.ofNat 32 n).toNat = n ∧ xs.toNat ≤ n ∧ n < stop.toNat := by
    intro n hn
    have hn := List.mem_range'_1.mp hn
    have hstop := stop.isLt
    exact ⟨by rw [BitVec.toNat_ofNat]; exact Nat.mod_eq_of_lt (by omega), by omega, by omega⟩
  have hround : ∀ n ∈ List.range' xs.toNat (stop.toNat - xs.toNat),
      Paints v (R (BitVec.ofNat 32 n)) (fun buff => body (BitVec.ofNat 32 n) buff) := by
    intro n hn
    obtain ⟨hnat, hlo, hhi⟩ := hword n hn
    exact h _ (by rw [BitVec.le_def, hnat]; exact hlo) (by rw [BitVec.lt_def, hnat]; exact hhi)
  have hloop : Paints v (fun i => ∃ n ∈ List.range' xs.toNat (stop.toNat - xs.toNat),
      R (BitVec.ofNat 32 n) i) (Lib.forWord xs stop body) := foldl hround
  refine hloop.congr fun i => ?_
  constructor
  · intro hi
    obtain ⟨n, hn, hR⟩ := hi
    obtain ⟨hnat, hlo, hhi⟩ := hword n hn
    exact ⟨_, by rw [BitVec.le_def, hnat]; exact hlo, by rw [BitVec.lt_def, hnat]; exact hhi, hR⟩
  · intro hi
    obtain ⟨x, hlo, hhi, hR⟩ := hi
    rw [BitVec.le_def] at hlo
    rw [BitVec.lt_def] at hhi
    refine ⟨x.toNat, List.mem_range'_1.mpr (by omega), ?_⟩
    rw [BitVec.ofNat_toNat, BitVec.setWidth_eq]
    exact hR

end Paints

/-- What is painted is what the picture shows there. -/
theorem Paints.apply [DecidablePred P] (h : Paints v P f) (buff : ι → α) (i : ι) :
    f buff i = if P i then v i else buff i := by
  split
  · next hi => exact (h buff i).1 hi
  · next hi => exact (h buff i).2 hi

end

end OSExt.Lib
