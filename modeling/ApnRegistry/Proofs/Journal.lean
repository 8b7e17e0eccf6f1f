import ApnRegistry.Registry.State

/-!
# Journals

What a call sends to the store cannot be read off the rows it leaves behind. A `Journal` is a store
that keeps every batch it is sent, and otherwise does what the store inside it does.

A call can be carried out on either. `Action.Sends P` says that on the journal it comes to the same
result and leaves the same state as on the store, and that all its batches meet `P`, also when it
fails. There is one rule for each way to build a call.
-/

namespace ApnRegistry

/-- A store and the batches that it was sent, the latest one last. -/
structure Journal (σ : Type) where
  store : σ
  sent : List Batch

instance {σ : Type} [RowStore σ] : RowStore (Journal σ) where
  get id j := ((RowStore.get id j.store).1, { j with store := (RowStore.get id j.store).2 })
  query q order j :=
    ((RowStore.query q order j.store).1, { j with store := (RowStore.query q order j.store).2 })
  apply batch j :=
    ((RowStore.apply batch j.store).1, ⟨(RowStore.apply batch j.store).2, j.sent ++ [batch]⟩)

namespace Registry

variable {σ α β : Type} {s : State σ} {P : Batch → Prop}

/-- The state with a journal of its store, which was sent the given batches so far. -/
def State.journaled (s : State σ) (sent : List Batch) : State (Journal σ) where
  store := ⟨s.store, sent⟩
  enforced := s.enforced
  preferences := s.preferences
  board := s.board

namespace Action

/-- Carried out on a journal, the first call does what the second one does on the store, and the
batches that it sends meet `P`. -/
def Sends (P : Batch → Prop) (a : Action (Journal σ) α) (b : Action σ α) (s : State σ) : Prop :=
  ∀ before, ∃ sent, (∀ batch ∈ sent, P batch) ∧
    a.perform (s.journaled before) = ((b.perform s).1, (b.perform s).2.journaled (before ++ sent))

theorem Sends.bind {a : Action (Journal σ) α} {b : Action σ α} {f : α → Action (Journal σ) β}
    {g : α → Action σ β} (h : Sends P a b s)
    (hf : ∀ x s', b.perform s = (.ok x, s') → Sends P (f x) (g x) s') :
    Sends P (a >>= f) (b >>= g) s := by
  intro before
  obtain ⟨sent, hP, ha⟩ := h before
  rw [perform_bind, perform_bind, ha]
  rcases hb : b.perform s with ⟨e | x, s'⟩
  · exact ⟨sent, hP, rfl⟩
  · obtain ⟨more, hmore, hx⟩ := hf x s' hb (before ++ sent)
    refine ⟨sent ++ more, fun batch hm => ?_, ?_⟩
    · rcases List.mem_append.mp hm with hm | hm
      · exact hP batch hm
      · exact hmore batch hm
    · rw [← List.append_assoc]
      exact hx

/-- A call that sends nothing. -/
theorem Sends.silent {a : Action (Journal σ) α} {b : Action σ α}
    (h : ∀ before, a.perform (s.journaled before) =
      ((b.perform s).1, (b.perform s).2.journaled before)) : Sends P a b s := by
  intro before
  refine ⟨[], fun _ hm => absurd hm List.not_mem_nil, ?_⟩
  rw [List.append_nil]
  exact h before

theorem sends_pure (x : α) : Sends P (pure x) (pure x) s := .silent fun _ => rfl

theorem sends_decided (result : Except Error α) : Sends P (decided result) (decided result) s :=
  .silent fun _ => rfl

theorem sends_publish (n : Notice) : Sends P (publish n) (publish n) s := .silent fun _ => rfl

theorem sends_authorize {setup : Setup} {caller : Caller} {scope : Scope} {verb : Verb} :
    Sends P (authorize setup caller scope verb) (authorize setup caller scope verb) s :=
  .silent fun _ => rfl

theorem sends_modify {f : State (Journal σ) → State (Journal σ)} {g : State σ → State σ}
    (h : ∀ before, f (s.journaled before) = (g s).journaled before) :
    Sends P (modify f) (modify g) s :=
  .silent fun before => congrArg (Prod.mk _) (h before)

theorem Sends.outcomeOf {a : Action (Journal σ) α} {b : Action σ α} (h : Sends P a b s) :
    Sends P (outcomeOf a) (outcomeOf b) s := by
  intro before
  obtain ⟨sent, hP, ha⟩ := h before
  refine ⟨sent, hP, ?_⟩
  rw [perform_outcomeOf, perform_outcomeOf, ha]

variable [RowStore σ]

theorem sends_rows (q : Predicate) (order : Order) : Sends P (rows q order) (rows q order) s :=
  .silent fun _ => rfl

/-- A batch is sent. -/
theorem sends_write {batch : Batch} (h : P batch) : Sends P (write batch) (write batch) s := by
  intro before
  refine ⟨[batch], fun other hm => ?_, rfl⟩
  rw [List.mem_singleton.mp hm]
  exact h

end Action

end Registry

end ApnRegistry
