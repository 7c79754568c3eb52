import OSExt.Lib.Chain
import OSExt.Libk.Modes

/-!
# Deferred actions

`deferred_action.c`: work that has to wait is put at the end of a linked queue, and taken
from its front when there is time. Actions and queue pointers are kept by their address.

Nothing takes an action off the queue: `action_do_next` executes the first action and
leaves it where it is. What such a queue does is `outcomes`, and it is a FIFO queue only
as long as no action is executed.
-/

namespace OSExt.Scheduling

open Lib Libk

/-! ## State -/

/-- `struct deferred_action` -/
structure DeferredAction where
  /-- 1 for a syscall, 2 for a function -/
  type : Nat
  /-- of the function -/
  address : Nat
  next : Nat

structure Actions where
  cpsr : Word
  /-- what a queue pointer holds, 0 for NULL -/
  queue : Nat → Nat
  action : Nat → DeferredAction
  /-- the functions that have been called -/
  called : List Nat

namespace Actions

def next (s : Actions) (a : Nat) : Nat := (s.action a).next

/-- `node->next = action;` -/
def setNext (node action : Nat) (s : Actions) : Actions :=
  { s with action := Function.update s.action node { s.action node with next := action } }

def setCpsr (cpsr : Word) (s : Actions) : Actions := { s with cpsr }

end Actions

/-! ## The operations -/

def actionGetNext (queue : Nat) (s : Actions) : Nat :=
  if queue = 0 then 0 else if s.queue queue = 0 then 0 else s.queue queue

/-- `none` where the loop to the end of the queue does not end. -/
def actionAdd (fuel queue action : Nat) (s : Actions) : Option Actions :=
  if queue = 0 then some s
  else if s.queue queue = 0 then
    some { s with queue := Function.update s.queue queue action }
  else
    let state := irqSaveState s.cpsr
    let s := s.setCpsr (irqDisable s.cpsr)
    (lastNode s.next 0 fuel (s.queue queue)).map fun next =>
      let s := s.setNext next action
      s.setCpsr (irqRestoreState state s.cpsr)

/-- Its body is empty. -/
def actionSyscall (_action : Nat) (s : Actions) : Actions := s

/-- What the function does is `call`. -/
def callFunction (call : Nat → Actions → Actions) (address : Nat) (s : Actions) : Actions :=
  { call address s with called := s.called ++ [address] }

/-- The dispatch on the type of an action. -/
def execute (call : Nat → Actions → Actions) (action : Nat) (s : Actions) : Actions :=
  let s := if (s.action action).type = 1 then actionSyscall action s else s
  if (s.action action).type = 2 then callFunction call (s.action action).address s else s

def actionDoNext (call : Nat → Actions → Actions) (queue : Nat) (s : Actions) : Nat × Actions :=
  if queue = 0 then (0, s)
  else
    let state := irqSaveState s.cpsr
    let s := s.setCpsr (irqDisable s.cpsr)
    -- the return from here leaves interrupts off
    if s.queue queue = 0 then (0, s)
    else
      let action := s.queue queue
      let s := execute call action s
      (action, s.setCpsr (irqRestoreState state s.cpsr))

/-! ## Runs -/

inductive ActionOp where
  /-- the caller fills in a record, with NULL for its link, and adds it -/
  | add (action type address : Nat)
  | doNext
deriving DecidableEq, Repr

/-- An operation, with what it returns. -/
def actionStep (call : Nat → Actions → Actions) (fuel queue : Nat) :
    ActionOp → Actions → Option (Option Nat × Actions)
  | .add action type address, s =>
    let s := { s with action := Function.update s.action action ⟨type, address, 0⟩ }
    (actionAdd fuel queue action s).map (none, ·)
  | .doNext, s =>
    let r := actionDoNext call queue s
    some (some r.1, r.2)

def actionRun (call : Nat → Actions → Actions) (fuel queue : Nat) :
    List ActionOp → Actions → Option (List (Option Nat) × Actions)
  | [], s => some ([], s)
  | op :: ops, s => do
    let r ← actionStep call fuel queue op s
    let rest ← actionRun call fuel queue ops r.2
    some (r.1 :: rest.1, rest.2)

/-- The actions added by a run, in order. -/
def added : List ActionOp → List Nat
  | [] => []
  | .add action _ _ :: ops => action :: added ops
  | .doNext :: ops => added ops

/-- The actions that were executed and returned. -/
def executed : List (Option Nat) → List Nat
  | [] => []
  | none :: outs => executed outs
  | some a :: outs => if a = 0 then executed outs else a :: executed outs

/-- The functions of actions. -/
def functionsOf (s : Actions) (actions : List Nat) : List Nat :=
  actions.filterMap fun a => if (s.action a).type = 2 then some (s.action a).address else none

/-- **A FIFO queue**: the actions executed are the first ones added, each once and in
order, with their functions called; the next one is the oldest not yet executed; NULL is
returned just when all have been executed. -/
structure IsFifo (queue : Nat) (ops : List ActionOp) (outs : List (Option Nat))
    (s s' : Actions) : Prop where
  inOrder : executed outs <+: added ops
  called : s'.called = s.called ++ functionsOf s' (executed outs)
  oldest : actionGetNext queue s' = ((added ops).drop (executed outs).length).headD 0
  empty : ∀ i, ops[i]? = some .doNext →
    (outs[i]? = some (some 0) ↔ executed (outs.take i) = added (ops.take i))

/-- No action is taken once there is one. -/
def NeverTaken (ops : List ActionOp) : Prop :=
  ∀ i, ops[i]? = some .doNext → added (ops.take i) = []

/-! ## What the code does -/

/-- The outcomes on a queue that holds `l`: the first action stays. -/
def outcomes : List Nat → List ActionOp → List (Option Nat)
  | _, [] => []
  | l, .add action _ _ :: ops => none :: outcomes (l ++ [action]) ops
  | l, .doNext :: ops => some (l.headD 0) :: outcomes l ops

/-- The queue at `queue` holds the actions `l`, first to last. -/
def Actions.Holds (s : Actions) (queue : Nat) (l : List Nat) : Prop :=
  IsList s.next 0 (s.queue queue) l

section

variable {call : Nat → Actions → Actions} {queue fuel : Nat} {s : Actions} {l : List Nat}

theorem Actions.Holds.head (h : s.Holds queue l) : s.queue queue = l.headD 0 := by
  cases l with
  | nil => exact h
  | cons a l => exact h.1

theorem actionGetNext_eq (hqueue : queue ≠ 0) (h : s.Holds queue l) :
    actionGetNext queue s = l.headD 0 := by
  rw [actionGetNext, if_neg hqueue, h.head]
  by_cases hnull : l.headD 0 = 0
  · rw [if_pos hnull, hnull]
  · rw [if_neg hnull]

/-- The link that a node gets is the only one that changes. -/
theorem Actions.next_setNext (node action : Nat) (s : Actions) :
    (s.setNext node action).next = Function.update s.next node action := by
  funext a
  show (Function.update s.action node _ a).next = _
  by_cases ha : a = node
  · rw [ha, Function.update_self, Function.update_self]
  · rw [Function.update_of_ne ha, Function.update_of_ne ha]
    rfl

/-- Adding an action whose link is NULL puts it last. -/
theorem actionAdd_holds {action : Nat} (hqueue : queue ≠ 0) (h : s.Holds queue l)
    (hnd : l.Nodup) (hnew : action ∉ l) (hnull : action ≠ 0) (hnext : s.next action = 0)
    (hfuel : l.length ≤ fuel) :
    ∃ s', actionAdd fuel queue action s = some s'
      ∧ s'.Holds queue (l ++ [action]) ∧ s'.called = s.called := by
  rw [actionAdd, if_neg hqueue]
  rcases List.eq_nil_or_concat l with hnil | ⟨pre, last, hlast⟩
  · subst hnil
    rw [if_pos (show s.queue queue = 0 from h)]
    refine ⟨_, rfl, ⟨?_, hnull, hnext⟩, rfl⟩
    show Function.update s.queue queue action queue = action
    rw [Function.update_self]
  · rw [List.concat_eq_append] at hlast
    subst hlast
    have hne : s.queue queue ≠ 0 := fun hq => absurd (h.eq_nil_iff.mpr hq) (by simp)
    have hend : lastNode s.next 0 fuel (s.queue queue) = some last :=
      h.lastNode_eq (by simpa using hfuel)
    have hlink : IsList (s.setNext last action).next 0 (s.queue queue) (pre ++ [last] ++ [action]) := by
      rw [Actions.next_setNext]
      exact h.link hnd hnew hnull hnext
    rw [if_neg hne]
    dsimp only
    rw [show (s.setCpsr (irqDisable s.cpsr)).next = s.next from rfl,
      show (s.setCpsr (irqDisable s.cpsr)).queue queue = s.queue queue from rfl, hend]
    exact ⟨_, rfl, hlink, rfl⟩

/-- An operation adds a new record at the end. -/
theorem actionStep_add (call : Nat → Actions → Actions) {action : Nat} (type address : Nat)
    (hqueue : queue ≠ 0) (h : s.Holds queue l) (hnd : l.Nodup) (hnew : action ∉ l)
    (hnull : action ≠ 0) (hfuel : l.length ≤ fuel) :
    ∃ s', actionStep call fuel queue (.add action type address) s = some (none, s')
      ∧ s'.Holds queue (l ++ [action]) ∧ s'.called = s.called := by
  -- the record is written first, off the queue
  let s₁ : Actions := { s with action := Function.update s.action action ⟨type, address, 0⟩ }
  have hnext : s₁.next action = 0 := by
    show (Function.update s.action action _ action).next = 0
    rw [Function.update_self]
  have h₁ : s₁.Holds queue l := by
    refine IsList.congr h fun a ha => ?_
    have hne : a ≠ action := by
      intro heq
      exact hnew (heq ▸ ha)
    show (Function.update s.action action _ a).next = (s.action a).next
    rw [Function.update_of_ne hne]
  obtain ⟨s', hadd, hholds, hcalled⟩ := actionAdd_holds hqueue h₁ hnd hnew hnull hnext hfuel
  exact ⟨s', congrArg (Option.map _) hadd, hholds, hcalled⟩

/-- What an action does to the queue is nothing. -/
theorem execute_keeps (hcall : ∀ f s, (call f s).queue = s.queue ∧ (call f s).action = s.action)
    (a : Nat) (s : Actions) :
    (execute call a s).queue = s.queue ∧ (execute call a s).action = s.action := by
  unfold execute actionSyscall
  rw [ite_self]
  dsimp only
  by_cases htype : (s.action a).type = 2
  · rw [if_pos htype]
    exact hcall _ s
  · rw [if_neg htype]
    exact ⟨rfl, rfl⟩

/-- Executing the first action leaves it on the queue. -/
theorem actionDoNext_holds
    (hcall : ∀ f s, (call f s).queue = s.queue ∧ (call f s).action = s.action)
    (hqueue : queue ≠ 0) (h : s.Holds queue l) :
    (actionDoNext call queue s).1 = l.headD 0 ∧ (actionDoNext call queue s).2.Holds queue l
      ∧ (l = [] → (actionDoNext call queue s).2.called = s.called) := by
  rw [actionDoNext, if_neg hqueue]
  by_cases hnull : s.queue queue = 0
  · rw [if_pos (show (s.setCpsr (irqDisable s.cpsr)).queue queue = 0 from hnull), ← h.head]
    exact ⟨hnull.symm, h, fun _ => rfl⟩
  · rw [if_neg (show (s.setCpsr (irqDisable s.cpsr)).queue queue ≠ 0 from hnull), ← h.head]
    obtain ⟨hq, ha⟩ := execute_keeps hcall ((s.setCpsr (irqDisable s.cpsr)).queue queue)
      (s.setCpsr (irqDisable s.cpsr))
    refine ⟨rfl, ?_, fun hl => absurd (h.eq_nil_iff.mp hl) hnull⟩
    show IsList (fun a => ((execute call _ _).action a).next) 0 ((execute call _ _).queue queue) l
    rw [hq, ha]
    exact h

/-- **A run** only ever adds to the queue. -/
theorem actionRun_eq (hcall : ∀ f s, (call f s).queue = s.queue ∧ (call f s).action = s.action)
    (hqueue : queue ≠ 0) : ∀ (ops : List ActionOp) {l : List Nat} {s : Actions},
      s.Holds queue l → (l ++ added ops).Nodup → 0 ∉ added ops → l.length + ops.length ≤ fuel →
      ∃ s', actionRun call fuel queue ops s = some (outcomes l ops, s')
        ∧ s'.Holds queue (l ++ added ops)
        ∧ (executed (outcomes l ops) = [] → s'.called = s.called)
  | [], l, s, h, _, _, _ => ⟨s, rfl, by rwa [added, List.append_nil], fun _ => rfl⟩
  | .add action type address :: ops, l, s, h, hnd, hnull, hfuel => by
      -- a new action is linked behind the last one of the list
      have hnew : action ∉ l := by
        intro ha
        exact (List.disjoint_of_nodup_append hnd) ha (List.mem_cons_self ..)
      have h0 : action ≠ 0 := fun h0 => hnull (h0 ▸ List.mem_cons_self ..)
      rw [List.length_cons] at hfuel
      obtain ⟨s₁, hstep, hholds, hcalled⟩ := actionStep_add call type address hqueue h
        hnd.of_append_left hnew h0 (by omega : l.length ≤ fuel)
      have happ : l ++ action :: added ops = l ++ [action] ++ added ops := by simp
      obtain ⟨s', hrun, hholds', hcalled'⟩ := actionRun_eq hcall hqueue ops hholds
        (happ ▸ hnd) (fun hm => hnull (List.mem_cons_of_mem _ hm)) (by
          rw [List.length_append, List.length_singleton]
          omega)
      refine ⟨s', ?_, ?_, ?_⟩
      · rw [actionRun, hstep]
        show (actionRun call fuel queue ops s₁).bind _ = _
        rw [hrun]
        rfl
      · rw [added, happ]
        exact hholds'
      · intro hnone
        exact (hcalled' hnone).trans hcalled
  | .doNext :: ops, l, s, h, hnd, hnull, hfuel => by
      rw [List.length_cons] at hfuel
      -- the action stays on the list after it was executed
      obtain ⟨hout, hholds, hcalled⟩ := actionDoNext_holds hcall hqueue h
      obtain ⟨s', hrun, hholds', hcalled'⟩ := actionRun_eq hcall hqueue ops hholds hnd hnull
        (by omega)
      refine ⟨s', ?_, hholds', ?_⟩
      · show (actionRun call fuel queue ops (actionDoNext call queue s).2).bind _ = _
        rw [hrun, outcomes, ← hout]
        rfl
      · intro hnone
        cases l with
        | nil => exact (hcalled' hnone).trans (hcalled rfl)
        | cons a l =>
            have ha : a ≠ 0 := h.ne_null a (List.mem_cons_self ..)
            rw [outcomes, List.headD_cons, executed, if_neg ha] at hnone
            exact absurd hnone (List.cons_ne_nil _ _)

end

/-! ## When it is a FIFO queue -/

theorem executed_append : ∀ (outs outs' : List (Option Nat)),
    executed (outs ++ outs') = executed outs ++ executed outs'
  | [], _ => rfl
  | none :: outs, outs' => executed_append outs outs'
  | some a :: outs, outs' => by
      have ih := executed_append outs outs'
      by_cases ha : a = 0
      · rw [List.cons_append, executed, executed, if_pos ha, if_pos ha, ih]
      · rw [List.cons_append, executed, executed, if_neg ha, if_neg ha, ih, List.cons_append]

/-- What an execution returns is the first of all actions added before. -/
theorem outcomes_doNext : ∀ {ops : List ActionOp} {l : List Nat} {i : Nat},
    ops[i]? = some .doNext →
    (outcomes l ops)[i]? = some (some ((l ++ added (ops.take i)).headD 0))
  | [], _, _, h => by simp at h
  | .add action type address :: ops, l, 0, h => by simp at h
  | .add action type address :: ops, l, i + 1, h => by
      have happ : l ++ action :: added (ops.take i) = l ++ [action] ++ added (ops.take i) := by simp
      rw [List.take_succ_cons, added, happ]
      exact outcomes_doNext (l := l ++ [action]) h
  | .doNext :: ops, l, 0, _ => by
      rw [List.take_zero, added, List.append_nil]
      rfl
  | .doNext :: ops, l, i + 1, h => by
      show (outcomes l ops)[i]? = some (some ((l ++ added (ops.take i)).headD 0))
      exact outcomes_doNext h

/-- Nothing is executed just when each execution finds the queue empty. -/
theorem executed_eq_nil_iff : ∀ {ops : List ActionOp} {l : List Nat}, 0 ∉ l ++ added ops →
    (executed (outcomes l ops) = [] ↔
      ∀ i, ops[i]? = some .doNext → l ++ added (ops.take i) = [])
  | [], _, _ => iff_of_true rfl fun i h => by simp at h
  | .add action type address :: ops, l, hnull => by
      have happ : ∀ l', l ++ action :: l' = l ++ [action] ++ l' := by simp
      rw [added, happ] at hnull
      rw [outcomes, executed, executed_eq_nil_iff hnull]
      constructor
      · intro h i hi
        cases i with
        | zero => simp at hi
        | succ i =>
            rw [List.take_succ_cons, added, happ]
            exact h i hi
      · intro h i hi
        rw [← happ]
        exact h (i + 1) hi
  | .doNext :: ops, l, hnull => by
      rw [added] at hnull
      cases l with
      | nil =>
          rw [outcomes, List.headD_nil, executed, if_pos rfl, executed_eq_nil_iff hnull]
          constructor
          · intro h i hi
            cases i with
            | zero => rfl
            | succ i => exact h i hi
          · exact fun h i hi => h (i + 1) hi
      | cons a l =>
          have ha : a ≠ 0 := fun ha => hnull (ha ▸ List.mem_cons_self ..)
          rw [outcomes, List.headD_cons, executed, if_neg ha]
          refine iff_of_false (List.cons_ne_nil _ _) fun h => ?_
          exact absurd (h 0 rfl) (by simp)

/-- **When deferred actions form a FIFO queue.** Over a run on a queue that starts empty,
with new actions added, the code behaves as one just when no action is taken once there is
one: the first action added is executed again and again. -/
theorem deferredActions_fifo_iff {call : Nat → Actions → Actions}
    (hcall : ∀ f s, (call f s).queue = s.queue ∧ (call f s).action = s.action)
    {queue : Nat} (hqueue : queue ≠ 0) {s : Actions} (hempty : s.queue queue = 0)
    {ops : List ActionOp} (hnew : (added ops).Nodup) (hnull : 0 ∉ added ops)
    {fuel : Nat} (hfuel : ops.length ≤ fuel) :
    ∃ outs s', actionRun call fuel queue ops s = some (outs, s')
      ∧ (IsFifo queue ops outs s s' ↔ NeverTaken ops) := by
  obtain ⟨s', hrun, hholds, hcalled⟩ := actionRun_eq hcall hqueue ops (l := []) hempty hnew hnull
    (by simpa using hfuel)
  rw [List.nil_append] at hholds
  have hnext := actionGetNext_eq hqueue hholds
  refine ⟨_, s', hrun, ?_⟩
  have htaken : executed (outcomes [] ops) = [] ↔ NeverTaken ops := executed_eq_nil_iff hnull
  constructor
  · intro h
    rw [← htaken]
    -- a later action is not the first one, which is what the queue still shows
    have holdest := h.oldest
    rw [hnext] at holdest
    cases hadded : added ops with
    | nil =>
        have hprefix := h.inOrder
        rw [hadded] at hprefix
        exact List.prefix_nil.mp hprefix
    | cons a rest =>
        rw [hadded] at holdest hnew hnull
        cases hlen : (executed (outcomes [] ops)).length with
        | zero => exact List.length_eq_zero_iff.mp hlen
        | succ k =>
            rw [hlen, List.headD_cons, List.drop_succ_cons] at holdest
            cases hdrop : rest.drop k with
            | nil =>
                rw [hdrop, List.headD_nil] at holdest
                exact absurd (holdest ▸ List.mem_cons_self ..) hnull
            | cons b later =>
                rw [hdrop, List.headD_cons] at holdest
                have hb : b ∈ rest := List.mem_of_mem_drop (hdrop ▸ List.mem_cons_self ..)
                exact absurd (holdest ▸ hb) (List.nodup_cons.mp hnew).1
  · intro h
    have hnone := htaken.mpr h
    refine ⟨?_, ?_, ?_, ?_⟩
    · rw [hnone]
      exact List.nil_prefix
    · rw [hcalled hnone, hnone]
      exact (List.append_nil _).symm
    · rw [hnext, hnone]
      rfl
    · intro i hi
      have hbefore : executed ((outcomes [] ops).take i) = [] := by
        have happ := executed_append ((outcomes [] ops).take i) ((outcomes [] ops).drop i)
        rw [List.take_append_drop, hnone] at happ
        exact (List.append_eq_nil_iff.mp happ.symm).1
      rw [outcomes_doNext hi, List.nil_append, h i hi, hbefore]
      exact iff_of_true rfl rfl

/-- A queue pointer at 4 that holds NULL, with interrupts on. -/
def Actions.empty : Actions where
  cpsr := 0
  queue := fun _ => 0
  action := fun _ => ⟨0, 0, 0⟩
  called := []

theorem deferredActions_fifo_iff_twoAdded :
    ∃ outs s', actionRun (fun _ s => s) 4 4 [.doNext, .add 8 2 100, .add 16 2 200] Actions.empty
        = some (outs, s')
      ∧ (IsFifo 4 [.doNext, .add 8 2 100, .add 16 2 200] outs Actions.empty s'
        ↔ NeverTaken [.doNext, .add 8 2 100, .add 16 2 200]) :=
  deferredActions_fifo_iff (fun _ _ => ⟨rfl, rfl⟩) (by decide) rfl (by decide) (by decide)
    (by decide)

/-- One action added is executed twice, and two calls return it. -/
theorem deferredAction_executedTwice :
    ∃ s', actionRun (fun _ s => s) 4 4 [.add 8 2 100, .doNext, .doNext] Actions.empty
        = some ([none, some 8, some 8], s')
      ∧ s'.called = [100, 100]
      ∧ ¬ IsFifo 4 [.add 8 2 100, .doNext, .doNext] [none, some 8, some 8] Actions.empty s' := by
  refine ⟨_, rfl, rfl, ?_⟩
  intro h
  exact absurd h.inOrder (by decide)

end OSExt.Scheduling
