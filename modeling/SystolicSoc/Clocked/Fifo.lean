import SystolicSoc.Clocked.Basic
import Mathlib.Data.List.Basic

/-!
# First-in first-out buffers and handshakes

A buffer as a component of a synchronous design: status and data outputs, and a clock edge that
takes at most one item in and one out.  An implementation is whatever has these ports and carries
the proofs that they speak about the list of the items held, so a design is verified for all
implementations at once.

* `Fifo` : a buffer whose outputs are those of its registers; `Fifo.balance` : **an edge appends
  what is pushed and removes what is popped.**
* `FallThroughFifo` : a buffer in which an item pushed while it is empty can be popped at once.
* `listFifo`, `listFallThroughFifo` : the implementations whose registers are the list.
* `HoldsBeat`, `handedOver` : the handshake rule of a valid/ready channel, and what it hands over.
* `Clocked.log_balance` : a machine whose edges balance a list of items held has, over a whole run,
  given out what it has taken in, in order, except what it still holds.
-/

namespace SystolicSoc

variable {α : Type} {depth : ℕ}

/-- The items after a push; a push into a full buffer is ignored. -/
def offer (depth : ℕ) (push : Bool) (data : α) (q : List α) : List α :=
  if push && !decide (q.length = depth) then q ++ [data] else q

/-- A buffer of `depth` items. -/
structure Fifo (α : Type) (depth : ℕ) where
  State : Type
  reset : State
  full : State → Bool
  empty : State → Bool
  dataO : State → α
  next : (push : Bool) → (data : α) → (pop : Bool) → State → State
  /-- The items held, the oldest first. -/
  contents : State → List α
  contents_reset : contents reset = []
  full_eq : ∀ s, full s = decide ((contents s).length = depth)
  empty_eq : ∀ s, empty s = (contents s).isEmpty
  dataO_eq : ∀ s x q, contents s = x :: q → dataO s = x
  contents_next : ∀ push data pop s, contents (next push data pop s) =
    if pop && !empty s then (offer depth push data (contents s)).tail
    else offer depth push data (contents s)

/-- A buffer of `depth` items in fall-through mode: the outputs see an item pushed while the buffer
is empty. -/
structure FallThroughFifo (α : Type) (depth : ℕ) where
  State : Type
  reset : State
  full : State → Bool
  empty : (push : Bool) → State → Bool
  dataO : (push : Bool) → (data : α) → State → α
  next : (push : Bool) → (data : α) → (pop : Bool) → State → State
  /-- The items held, the oldest first. -/
  contents : State → List α
  contents_reset : contents reset = []
  full_eq : ∀ s, full s = decide ((contents s).length = depth)
  empty_eq : ∀ push s, empty push s = ((contents s).isEmpty && !push)
  dataO_eq : ∀ push data s x q, contents s ++ (if push then [data] else []) = x :: q →
    dataO push data s = x
  contents_next : ∀ push data pop s, contents (next push data pop s) =
    if pop && !empty push s then (offer depth push data (contents s)).tail
    else offer depth push data (contents s)

/-- The buffer whose registers are the list of its items. -/
def listFifo [Inhabited α] (depth : ℕ) : Fifo α depth where
  State := List α
  reset := []
  full q := decide (q.length = depth)
  empty q := q.isEmpty
  dataO q := q.headD default
  next push data pop q :=
    if pop && !q.isEmpty then (offer depth push data q).tail else offer depth push data q
  contents := id
  contents_reset := rfl
  full_eq _ := rfl
  empty_eq _ := rfl
  dataO_eq s x q h := by
    rw [show s = x :: q from h]
    rfl
  contents_next _ _ _ _ := rfl

/-- The fall-through buffer whose registers are the list of its items. -/
def listFallThroughFifo [Inhabited α] (depth : ℕ) : FallThroughFifo α depth where
  State := List α
  reset := []
  full q := decide (q.length = depth)
  empty push q := q.isEmpty && !push
  dataO push data q := (q ++ if push then [data] else []).headD default
  next push data pop q :=
    if pop && !(q.isEmpty && !push) then (offer depth push data q).tail
    else offer depth push data q
  contents := id
  contents_reset := rfl
  full_eq _ := rfl
  empty_eq _ _ := rfl
  dataO_eq push data s x q h := by
    rw [show s ++ (if push then [data] else []) = x :: q from h]
    rfl
  contents_next _ _ _ _ := rfl

theorem length_offer_le (push : Bool) (data : α) {q : List α} (h : q.length ≤ depth) :
    (offer depth push data q).length ≤ depth := by
  unfold offer
  split_ifs with hpush
  · simp only [Bool.and_eq_true, Bool.not_eq_true', decide_eq_false_iff_not] at hpush
    rw [List.length_append, List.length_singleton]
    omega
  · exact h

theorem length_edge_le (push pop : Bool) (data : α) {q : List α} (h : q.length ≤ depth) :
    (if pop then (offer depth push data q).tail else offer depth push data q).length ≤ depth := by
  have hoffer := length_offer_le push data h
  split_ifs
  · rw [List.length_tail]
    omega
  · exact hoffer

namespace Fifo

variable (F : Fifo α depth)

/-- The item taken in. -/
def pushed (push : Bool) (data : α) (s : F.State) : Option α :=
  if push && !F.full s then some data else none

/-- The item given out. -/
def popped (pop : Bool) (s : F.State) : Option α :=
  if pop && !F.empty s then some (F.dataO s) else none

/-- A design that pushes only while there is room loses no item. -/
theorem pushed_eq {F : Fifo α depth} {push : Bool} {s : F.State}
    (h : push = true → F.full s = false) (data : α) :
    F.pushed push data s = if push then some data else none := by
  rw [pushed]
  cases push
  · rfl
  · rw [h rfl]
    rfl

/-- A design that pops only what there is gets an item for every pop. -/
theorem popped_eq {F : Fifo α depth} {pop : Bool} {s : F.State}
    (h : pop = true → F.empty s = false) :
    F.popped pop s = if pop then some (F.dataO s) else none := by
  rw [popped]
  cases pop
  · rfl
  · rw [h rfl]
    rfl

theorem offer_eq (push : Bool) (data : α) (s : F.State) :
    offer depth push data (F.contents s) = F.contents s ++ (F.pushed push data s).toList := by
  rw [offer, pushed, F.full_eq]
  split_ifs <;> simp

theorem contents_of_not_empty {s : F.State} (h : F.empty s = false) :
    F.contents s = F.dataO s :: (F.contents s).tail := by
  rw [F.empty_eq] at h
  cases hq : F.contents s with
  | nil => simp [hq] at h
  | cons x q => rw [F.dataO_eq s x q hq, List.tail_cons]

/-- **Balance**: an edge appends the item pushed and removes the one popped. -/
theorem balance (push : Bool) (data : α) (pop : Bool) (s : F.State) :
    F.contents s ++ (F.pushed push data s).toList =
      (F.popped pop s).toList ++ F.contents (F.next push data pop s) := by
  rw [F.contents_next, F.offer_eq, popped]
  cases hpop : pop && !F.empty s with
  | false => rfl
  | true =>
    have hq := F.contents_of_not_empty (s := s) (by simp_all)
    rw [if_pos rfl, if_pos rfl, Option.toList_some, List.singleton_append]
    conv_lhs => rw [hq]
    conv_rhs => rw [hq]
    rfl

theorem dataO_next {s : F.State} (h : F.empty s = false) (push : Bool) (data : α) :
    F.empty (F.next push data false s) = false ∧
      F.dataO (F.next push data false s) = F.dataO s := by
  have hq := F.contents_of_not_empty h
  have hnext : F.contents (F.next push data false s) =
      F.dataO s :: ((F.contents s).tail ++ (F.pushed push data s).toList) := by
    rw [F.contents_next, Bool.false_and, if_neg Bool.false_ne_true, F.offer_eq]
    conv_lhs => rw [hq]
    rfl
  refine ⟨?_, F.dataO_eq _ _ _ hnext⟩
  rw [F.empty_eq, hnext, List.isEmpty_cons]

theorem full_next {s : F.State} (hle : (F.contents s).length ≤ depth) (h : F.full s = false)
    (data : α) (pop : Bool) : F.full (F.next false data pop s) = false := by
  rw [F.full_eq, decide_eq_false_iff_not] at h ⊢
  have hoffer : offer depth false data (F.contents s) = F.contents s := rfl
  rw [F.contents_next, hoffer]
  split_ifs
  · rw [List.length_tail]
    omega
  · exact h

theorem length_next_le {push : Bool} {data : α} {pop : Bool} {s : F.State}
    (h : (F.contents s).length ≤ depth) :
    (F.contents (F.next push data pop s)).length ≤ depth := by
  rw [F.contents_next]
  exact length_edge_le push _ data h

end Fifo

theorem FallThroughFifo.length_next_le (F : FallThroughFifo α depth) {push : Bool} {data : α}
    {pop : Bool} {s : F.State} (h : (F.contents s).length ≤ depth) :
    (F.contents (F.next push data pop s)).length ≤ depth := by
  rw [F.contents_next]
  exact length_edge_le push _ data h

theorem FallThroughFifo.balance (F : FallThroughFifo α depth) (push : Bool) (data : α) (pop : Bool)
    {s : F.State} (hpush : push = true → F.full s = false)
    (hpop : pop = true → F.empty push s = false) :
    F.contents s ++ (if push then [data] else []) =
      (if pop then [F.dataO push data s] else []) ++ F.contents (F.next push data pop s) := by
  have hoffer : offer depth push data (F.contents s) =
      F.contents s ++ if push then [data] else [] := by
    cases push
    · simp [offer]
    · have hroom := hpush rfl
      rw [F.full_eq] at hroom
      simp [offer, hroom]
  rw [F.contents_next, hoffer]
  cases pop
  · rfl
  · have hempty := hpop rfl
    simp only [hempty, Bool.not_false, Bool.and_self, if_true]
    -- what is seen at the output is the first of the items held and the one pushed
    cases hq : F.contents s ++ if push then [data] else [] with
    | nil =>
      rw [F.empty_eq] at hempty
      cases push <;> simp_all
    | cons x q => rw [F.dataO_eq push data s x q hq]; rfl

/-- **The handshake rule**: a beat that is offered and not taken is offered again, unchanged. -/
def HoldsBeat {β : Type*} (valid ready : ℕ → Bool) (payload : ℕ → β) : Prop :=
  ∀ t, valid t = true → ready t = false → valid (t + 1) = true ∧ payload (t + 1) = payload t

namespace Clocked

variable {I S α β : Type*} {A : Clocked I S}

/-- **The balance rule**: what a machine held and what it was asked for is what it gave out and
holds, where the request `a` asks for the items `f a`. -/
theorem log_balance_flatMap {held : S → List β} {e : I → S → Option α} {f : α → List β}
    {e' : I → S → Option β} {P : S → Prop} (hP : ∀ i s, P s → P (A.edge i s))
    (h : ∀ i s, P s →
      held s ++ (e i s).toList.flatMap f = (e' i s).toList ++ held (A.edge i s)) {s : S}
    (hs : P s) (ι : ℕ → I) (n : ℕ) :
    held s ++ (A.log e s ι n).flatMap f = A.log e' s ι n ++ held (A.runFrom s ι n) := by
  have hrun := A.runFrom_invariant (ι := ι) hs fun k hk => hP (ι k) _ hk
  induction n with
  | zero => simp
  | succ n ih =>
    rw [log_succ, log_succ, runFrom_succ, List.flatMap_append, ← List.append_assoc, ih,
      List.append_assoc, h (ι n) _ (hrun n), List.append_assoc]

theorem log_balance {held : S → List α} {e e' : I → S → Option α}
    (h : ∀ i s, held s ++ (e i s).toList = (e' i s).toList ++ held (A.edge i s)) (s : S)
    (ι : ℕ → I) (n : ℕ) :
    held s ++ A.log e s ι n = A.log e' s ι n ++ held (A.runFrom s ι n) := by
  have hstep : ∀ i s, True →
      held s ++ (e i s).toList.flatMap (fun a => [a]) = (e' i s).toList ++ held (A.edge i s) :=
    fun i s _ => by simpa using h i s
  simpa using A.log_balance_flatMap (fun _ _ h => h) hstep trivial ι n

end Clocked

end SystolicSoc
