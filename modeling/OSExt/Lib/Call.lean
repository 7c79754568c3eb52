import Mathlib.Tactic

/-!
# Calls that may stop

Imperative code over a state of type `σ`: a call returns a value or stops for a
reason in `ε`, and leaves a state either way. `Ensures x Q E k` says that from
`k` the call `x` establishes `Q` if it returns and `E` if it stops. The rules
take a call apart at its first step, so that each callee is met with its own
specification.
-/

namespace OSExt.Lib

/-- A call: it returns or stops, and leaves a state either way. -/
def Call (σ ε α : Type) : Type := σ → Except ε α × σ

section

variable {σ ε α β : Type}

instance : Monad (Call σ ε) where
  pure a k := (.ok a, k)
  bind x f k :=
    match x k with
    | (.ok a, k) => f a k
    | (.error s, k) => (.error s, k)

def stop (s : ε) : Call σ ε α := fun k => (.error s, k)

/-- Reads something off the state. -/
def gets (f : σ → α) : Call σ ε α := fun k => (.ok (f k), k)

def update (f : σ → σ) : Call σ ε Unit := fun k => (.ok (), f k)

/-- `for (i = 0; i < n; i++)`, from `i` on. -/
def forRange (body : Nat → Call σ ε Unit) : Nat → Nat → Call σ ε Unit
  | _, 0 => pure ()
  | i, n + 1 => do
    body i
    forRange body (i + 1) n

/-! ## What a call did -/

variable {k k' : σ}

theorem bind_eq (x : Call σ ε α) (f : α → Call σ ε β) (k : σ) :
    (x >>= f) k =
      match x k with
      | (.ok a, k) => f a k
      | (.error s, k) => (.error s, k) := rfl

theorem bind_ok {x : Call σ ε α} {f : α → Call σ ε β} {b : β} :
    (x >>= f) k = (.ok b, k') ↔ ∃ a k1, x k = (.ok a, k1) ∧ f a k1 = (.ok b, k') := by
  rw [bind_eq]
  rcases h : x k with ⟨a | s, k1⟩
  · simp
  · simp

@[simp] theorem pure_ok {a b : α} :
    (pure a : Call σ ε α) k = (.ok b, k') ↔ a = b ∧ k = k' := by
  show (Except.ok a, k) = _ ↔ _
  simp

@[simp] theorem stop_ok {s : ε} {b : α} :
    (stop s : Call σ ε α) k = (.ok b, k') ↔ False := by
  simp [stop]

@[simp] theorem gets_ok {f : σ → α} {b : α} :
    (gets f : Call σ ε α) k = (.ok b, k') ↔ f k = b ∧ k = k' := by
  simp [gets]

@[simp] theorem update_ok {f : σ → σ} {u : Unit} :
    (update f : Call σ ε Unit) k = (.ok u, k') ↔ f k = k' := by
  simp [update]

/-! ## What a call ensures -/

/-- From `k`, the call establishes `Q` if it returns and `E` if it stops. -/
def Ensures (x : Call σ ε α) (Q : α → σ → Prop) (E : ε → σ → Prop) (k : σ) : Prop :=
  match x k with
  | (.ok a, k') => Q a k'
  | (.error s, k') => E s k'

variable {x : Call σ ε α} {Q Q' : α → σ → Prop} {E E' : ε → σ → Prop}

theorem ensures_iff : Ensures x Q E k ↔
    (∀ a k', x k = (.ok a, k') → Q a k') ∧ ∀ s k', x k = (.error s, k') → E s k' := by
  unfold Ensures
  rcases h : x k with ⟨s | a, k1⟩
  · simp
  · simp

theorem Ensures.ok (h : Ensures x Q E k) {a : α} (hx : x k = (.ok a, k')) : Q a k' :=
  (ensures_iff.mp h).1 a k' hx

theorem Ensures.stopped (h : Ensures x Q E k) {s : ε} (hx : x k = (.error s, k')) : E s k' :=
  (ensures_iff.mp h).2 s k' hx

/-- A call that cannot stop returns. -/
theorem Ensures.returns (h : Ensures x Q (fun _ _ => False) k) :
    ∃ a k', x k = (.ok a, k') ∧ Q a k' := by
  rcases hx : x k with ⟨s | a, k'⟩
  · exact (h.stopped hx).elim
  · exact ⟨a, k', rfl, h.ok hx⟩

/-- A call whose outcome is known. -/
theorem ensures_of_ok {a : α} (h : x k = (.ok a, k')) : Ensures x Q E k ↔ Q a k' := by
  unfold Ensures
  rw [h]

/-- **Consequence**: what a callee ensures is used for what the caller needs. -/
theorem Ensures.conseq (h : Ensures x Q E k) (hQ : ∀ a k', Q a k' → Q' a k')
    (hE : ∀ s k', E s k' → E' s k') : Ensures x Q' E' k :=
  ensures_iff.mpr ⟨fun a k' hx => hQ a k' (h.ok hx), fun s k' hx => hE s k' (h.stopped hx)⟩

theorem Ensures.imp (h : Ensures x Q E k) (hQ : ∀ a k', Q a k' → Q' a k') : Ensures x Q' E k :=
  h.conseq hQ fun _ _ hs => hs

@[simp] theorem ensures_pure {a : α} : Ensures (pure a) Q E k ↔ Q a k := Iff.rfl

@[simp] theorem ensures_stop {s : ε} : Ensures (stop s) Q E k ↔ E s k := Iff.rfl

@[simp] theorem ensures_gets {f : σ → α} : Ensures (gets f) Q E k ↔ Q (f k) k := Iff.rfl

@[simp] theorem ensures_update {f : σ → σ} {Q : Unit → σ → Prop} :
    Ensures (update f) Q E k ↔ Q () (f k) := Iff.rfl

/-- **Sequence**: the rest of the call starts where its first part returns. -/
@[simp] theorem ensures_bind {f : α → Call σ ε β} {Q : β → σ → Prop} :
    Ensures (x >>= f) Q E k ↔ Ensures x (fun a k1 => Ensures (f a) Q E k1) E k := by
  unfold Ensures
  rw [bind_eq]
  rcases h : x k with ⟨s | a, k1⟩
  · exact Iff.rfl
  · exact Iff.rfl

/-- A read, with its result as a variable: cheaper to check than the two rules above
where the rest of the call is big. -/
theorem ensures_gets_bind {a : σ → α} {f : α → Call σ ε β} {Q : β → σ → Prop}
    (h : ∀ b, b = a k → Ensures (f b) Q E k) : Ensures (gets a >>= f) Q E k := by
  rw [ensures_bind, ensures_gets]
  exact h _ rfl

theorem ensures_ite {p : Prop} [Decidable p] {y : Call σ ε α} (hx : p → Ensures x Q E k)
    (hy : ¬ p → Ensures y Q E k) : Ensures (if p then x else y) Q E k := by
  by_cases h : p
  · rw [if_pos h]
    exact hx h
  · rw [if_neg h]
    exact hy h

/-- **Loops**: each round keeps the invariant. -/
theorem ensures_forRange {body : Nat → Call σ ε Unit} {I : σ → Prop}
    (hbody : ∀ i k, I k → Ensures (body i) (fun _ => I) E k) :
    ∀ {n i : Nat} {k : σ}, I k → Ensures (forRange body i n) (fun _ => I) E k
  | 0, _, _, h => h
  | _ + 1, i, k, h => by
      rw [forRange, ensures_bind]
      exact (hbody i k h).imp fun _ _ h => ensures_forRange hbody h

/-! ## Calls that return -/

/-- From `k`, the call returns. -/
def Returns (x : Call σ ε α) (k : σ) : Prop := ∃ a k', x k = (.ok a, k')

/-- **Sequence**: the rest has to return where the first part does. -/
theorem Returns.bind {f : α → Call σ ε β} (hx : Returns x k)
    (hf : ∀ a k1, x k = (.ok a, k1) → Returns (f a) k1) : Returns (x >>= f) k := by
  obtain ⟨a, k1, ha⟩ := hx
  obtain ⟨b, k2, hb⟩ := hf a k1 ha
  exact ⟨b, k2, bind_ok.mpr ⟨a, k1, ha, hb⟩⟩

theorem Returns.ite {p : Prop} [Decidable p] {y : Call σ ε α} (hx : p → Returns x k)
    (hy : ¬ p → Returns y k) : Returns (if p then x else y) k := by
  by_cases h : p
  · rw [if_pos h]
    exact hx h
  · rw [if_neg h]
    exact hy h

/-! ## Where a call leads -/

/-- Wherever the call returns, `R` holds between the state before and the one after. -/
structure Leads (R : σ → σ → Prop) (x : Call σ ε α) : Prop where
  rel : ∀ k a k', x k = (.ok a, k') → R k k'

namespace Leads

variable {R : σ → σ → Prop} {y : Call σ ε α}

protected theorem stop (s : ε) : Leads R (stop s : Call σ ε α) := by
  refine ⟨fun k a k' h => ?_⟩
  exact (stop_ok.mp h).elim

/-- A write has to be one that `R` allows. -/
protected theorem update {f : σ → σ} (h : ∀ k, R k (f k)) :
    Leads R (update f : Call σ ε Unit) := by
  refine ⟨fun k a k' hk => ?_⟩
  rw [← update_ok.mp hk]
  exact h k

protected theorem ite {c : Prop} [Decidable c] (hx : Leads R x) (hy : Leads R y) :
    Leads R (if c then x else y) := by
  by_cases hc : c
  · rw [if_pos hc]
    exact hx
  · rw [if_neg hc]
    exact hy

variable [IsPreorder σ R]

protected theorem pure (a : α) : Leads R (pure a : Call σ ε α) := by
  refine ⟨fun k b k' h => ?_⟩
  rw [(pure_ok.mp h).2]
  exact refl k'

protected theorem gets (f : σ → α) : Leads R (gets f : Call σ ε α) := by
  refine ⟨fun k a k' h => ?_⟩
  rw [(gets_ok.mp h).2]
  exact refl k'

/-- **Sequence**: both parts go along `R`. -/
protected theorem bind {f : α → Call σ ε β} (hx : Leads R x) (hf : ∀ a, Leads R (f a)) :
    Leads R (x >>= f) := by
  refine ⟨fun k b k' h => ?_⟩
  obtain ⟨a, k1, ha, hb⟩ := bind_ok.mp h
  exact IsTrans.trans k k1 k' (hx.rel k a k1 ha) ((hf a).rel k1 b k' hb)

protected theorem forRange {body : Nat → Call σ ε Unit} (hbody : ∀ i, Leads R (body i)) :
    ∀ {n i : Nat}, Leads R (forRange body i n)
  | 0, _ => .pure ()
  | _ + 1, i => .bind (hbody i) fun _ => Leads.forRange hbody

end Leads

/-! ## What a call leaves alone -/

/-- `p` of the state is as it was. -/
def Unchanged {τ : Type} (p : σ → τ) (k k' : σ) : Prop := p k' = p k

instance {τ : Type} (p : σ → τ) : IsPreorder σ (Unchanged p) where
  refl _ := rfl
  trans _ _ _ h h' := h'.trans h

/-- The call returns with `p` of the state as it was. -/
structure Leaves {τ : Type} (p : σ → τ) (x : Call σ ε α) : Prop where
  same : ∀ k a k', x k = (.ok a, k') → p k' = p k

section

variable {τ : Type} {p : σ → τ} {y : Call σ ε α}

theorem Leads.leaves (h : Leads (Unchanged p) x) : Leaves p x := ⟨h.rel⟩

namespace Leaves

theorem leads (h : Leaves p x) : Leads (Unchanged p) x := ⟨h.same⟩

protected theorem pure (a : α) : Leaves p (pure a : Call σ ε α) := (Leads.pure a).leaves

protected theorem gets (f : σ → α) : Leaves p (gets f : Call σ ε α) := (Leads.gets f).leaves

/-- A write has to be one of something else. -/
protected theorem update {f : σ → σ} (h : ∀ k, p (f k) = p k) :
    Leaves p (update f : Call σ ε Unit) := (Leads.update h).leaves

/-- **Sequence**: both parts leave it alone. -/
protected theorem bind {f : α → Call σ ε β} (hx : Leaves p x) (hf : ∀ a, Leaves p (f a)) :
    Leaves p (x >>= f) := (hx.leads.bind fun a => (hf a).leads).leaves

protected theorem ite {c : Prop} [Decidable c] (hx : Leaves p x) (hy : Leaves p y) :
    Leaves p (if c then x else y) := (hx.leads.ite hy.leads).leaves

end Leaves

end

end

end OSExt.Lib
