import ApnRegistry.Proofs.AllOrNothing
import ApnRegistry.Registry.State

/-!
# Discreet calls

As long as a call posts no notice it is *discreet* (`Action.Discreet`): it may have changed something, but
then it tells so by its result, which is not an idle one. A call is *forthright* (`Action.Forthright`) if
whoever looks at the board afterwards knows whether it changed anything. A discreet call becomes
forthright by a notice for every result that is not idle.

Results:
* `Action.Discreet.bind`: discreet calls one after the other.
* `Action.Discreet.announced`: a discreet call, and then an announcement.
* `Registry.discreet_rows`, `Registry.discreet_write`: readings and batches, on any store that does all or
  nothing.
-/

namespace ApnRegistry

theorem NoticeBoard.lt_length_post (b : NoticeBoard) (n : Notice) :
    b.posted.length < (b.post n).posted.length := by
  simp [post]

namespace Registry

variable {σ γ α β : Type} {content : σ → γ} {s s' s'' : State σ}

/-! ## Calls -/

/-- The registry remembers the same, its board aside. -/
structure State.Same (content : σ → γ) (s s' : State σ) : Prop where
  store : content s'.store = content s.store
  preferences : s'.preferences = s.preferences
  enforced : s'.enforced = s.enforced

theorem State.Same.refl (content : σ → γ) (s : State σ) : State.Same content s s := ⟨rfl, rfl, rfl⟩

theorem State.Same.trans (h : State.Same content s s') (h' : State.Same content s' s'') :
    State.Same content s s'' :=
  ⟨h'.store.trans h.store, h'.preferences.trans h.preferences, h'.enforced.trans h.enforced⟩

namespace Action

/-- The call announces nothing. It changes nothing if it fails, or if its result is an idle one. -/
structure Discreet (content : σ → γ) (idle : α → Prop) (a : Action σ α) : Prop where
  board : ∀ s result s', a.perform s = (result, s') → s'.board = s.board
  failed : ∀ s e s', a.perform s = (.error e, s') → State.Same content s s'
  idle : ∀ s x s', a.perform s = (.ok x, s') → idle x → State.Same content s s'

/-- The call announces nothing if it fails, and changes nothing if it announces nothing. -/
structure Forthright (content : σ → γ) (a : Action σ α) : Prop where
  failed : ∀ s e s', a.perform s = (.error e, s') → s'.board = s.board
  silent : ∀ s result s', a.perform s = (result, s') → s'.board = s.board → State.Same content s s'

/-- The call succeeds and announces something. -/
def Announces (a : Action σ α) : Prop :=
  ∀ s, ∃ x s', a.perform s = (.ok x, s') ∧ s.board.posted.length < s'.board.posted.length

variable {a : Action σ α} {f : α → Action σ β} {idle idle' : α → Prop} {idleAfter : β → Prop}

/-- A call on top of another one ends where that one fails, or goes on where it ends. -/
theorem perform_bind_cases (a : Action σ α) (f : α → Action σ β) (s : State σ) :
    (∃ e s', a.perform s = (.error e, s') ∧ (a >>= f).perform s = (.error e, s')) ∨
      ∃ x s', a.perform s = (.ok x, s') ∧ (a >>= f).perform s = (f x).perform s' := by
  rw [perform_bind]
  rcases a.perform s with ⟨e | x, s'⟩
  · exact Or.inl ⟨e, s', rfl, rfl⟩
  · exact Or.inr ⟨x, s', rfl, rfl⟩

/-- A call is discreet if it leaves the board, and all the rest unless its result is not idle. -/
theorem discreet_iff : Discreet content idle a ↔ ∀ s result s', a.perform s = (result, s') →
    s'.board = s.board ∧ ((∀ x, result = .ok x → idle x) → State.Same content s s') := by
  constructor
  · intro h s result s' hp
    refine ⟨h.board s result s' hp, fun hi => ?_⟩
    cases result with
    | error e => exact h.failed s e s' hp
    | ok x => exact h.idle s x s' hp (hi x rfl)
  · intro h
    refine ⟨fun s result s' hp => (h s result s' hp).1, fun s e s' hp => ?_, fun s x s' hp hx => ?_⟩
    · exact (h s _ s' hp).2 nofun
    · exact (h s _ s' hp).2 fun y hy => Except.ok.inj hy ▸ hx

/-- A call that leaves the state as it is. -/
theorem Discreet.of_unchanged (h : ∀ s, (a.perform s).2 = s) : Discreet content idle a := by
  refine discreet_iff.mpr fun s result s' hp => ?_
  obtain rfl : s = s' := by rw [← h s, hp]
  exact ⟨rfl, fun _ => .refl content s⟩

theorem Discreet.mono (h : Discreet content idle a) (hi : ∀ x, idle' x → idle x) :
    Discreet content idle' a where
  board := h.board
  failed := h.failed
  idle := fun s x s' hp hx => h.idle s x s' hp (hi x hx)

/-- **Discreet calls one after the other.** A result that is not idle may only be handed on, as one that
is not idle either. -/
theorem Discreet.bind (h : Discreet content idle a)
    (hf : ∀ x, idle x → Discreet content idleAfter (f x))
    (hdone : ∀ x, ¬idle x → ∃ y, f x = pure y ∧ ¬idleAfter y) :
    Discreet content idleAfter (a >>= f) := by
  refine discreet_iff.mpr fun s result s' hp => ?_
  rcases perform_bind_cases a f s with ⟨e, s₁, ha, hb⟩ | ⟨x, s₁, ha, hb⟩ <;> rw [hb] at hp
  · cases hp
    exact ⟨h.board s _ _ ha, fun _ => h.failed s _ _ ha⟩
  · by_cases hx : idle x
    · obtain ⟨hboard, hsame⟩ := discreet_iff.mp (hf x hx) s₁ result s' hp
      exact ⟨hboard.trans (h.board s _ s₁ ha), fun hi => (h.idle s x s₁ ha hx).trans (hsame hi)⟩
    · obtain ⟨y, hy, hnot⟩ := hdone x hx
      rw [hy] at hp
      cases hp
      exact ⟨h.board s _ _ ha, fun hi => absurd (hi y rfl) hnot⟩

/-- A reading, and then a discreet call. -/
theorem Discreet.reading (h : Discreet content (fun _ => True) a)
    (hf : ∀ x, Discreet content idleAfter (f x)) : Discreet content idleAfter (a >>= f) :=
  h.bind (fun x _ => hf x) fun _ hx => absurd trivial hx

/-- A result that is worked out from that of a discreet call. -/
theorem Discreet.returning {g : α → β} (h : Discreet content (fun x => idleAfter (g x)) a) :
    Discreet content idleAfter (a >>= fun x => pure (g x)) :=
  h.bind (fun _ _ => .of_unchanged fun _ => rfl) fun x hx => ⟨g x, rfl, hx⟩

/-- A decision, and then a discreet call. -/
theorem discreet_decided {result : Except Error α}
    (hf : ∀ x, result = .ok x → Discreet content idleAfter (f x)) :
    Discreet content idleAfter (decided result >>= f) := by
  cases result with
  | error e => exact .of_unchanged fun _ => rfl
  | ok x => exact hf x rfl

/-- The outcome of a call that changes nothing when it fails is idle if it is a failure. -/
theorem Discreet.outcomeOf (h : Discreet content (fun _ => False) a) :
    Discreet content (fun outcome => ∃ e, outcome = .error e) (outcomeOf a) := by
  refine discreet_iff.mpr fun s result s' hp => ?_
  rw [perform_outcomeOf] at hp
  cases hp
  refine ⟨h.board s _ _ rfl, fun hi => ?_⟩
  obtain ⟨e, he⟩ := hi _ rfl
  exact h.failed s e _ (Prod.ext he rfl)

theorem Discreet.forthright (h : Discreet content (fun _ => True) a) : Forthright content a where
  failed := fun s _ s' hp => h.board s _ s' hp
  silent := fun s result s' hp _ => (discreet_iff.mp h s result s' hp).2 fun _ _ => trivial

/-- A call that succeeds, and announces something unless it changes nothing. -/
theorem Forthright.of_perform (h : ∀ s, ∃ x s', a.perform s = (.ok x, s') ∧
    (s.board.posted.length < s'.board.posted.length ∨ State.Same content s s')) :
    Forthright content a := by
  constructor
  · intro s e s' hp
    obtain ⟨x, s₁, ha, -⟩ := h s
    rw [ha] at hp
    cases hp
  · intro s result s' hp hboard
    obtain ⟨x, s₁, ha, hlt | hsame⟩ := h s
    · rw [ha] at hp
      cases hp
      rw [hboard] at hlt
      exact absurd hlt (Nat.lt_irrefl _)
    · rw [ha] at hp
      cases hp
      exact hsame

theorem Announces.forthright (h : Announces a) : Forthright content a :=
  .of_perform fun s => (h s).imp fun _ hx => hx.imp fun _ hs => ⟨hs.1, Or.inl hs.2⟩

/-- **A discreet call, and then an announcement** unless its result is idle. -/
theorem Discreet.announced (h : Discreet content idle a)
    (hf : ∀ x, idle x → Forthright content (f x)) (hdone : ∀ x, ¬idle x → Announces (f x)) :
    Forthright content (a >>= f) := by
  have hforth (x : α) : Forthright content (f x) := by
    by_cases hx : idle x
    · exact hf x hx
    · exact (hdone x hx).forthright
  constructor
  · intro s e s' hp
    rcases perform_bind_cases a f s with ⟨e', s₁, ha, hb⟩ | ⟨x, s₁, ha, hb⟩ <;> rw [hb] at hp
    · cases hp
      exact h.board s _ _ ha
    · exact ((hforth x).failed s₁ e s' hp).trans (h.board s _ s₁ ha)
  · intro s result s' hp hboard
    rcases perform_bind_cases a f s with ⟨e', s₁, ha, hb⟩ | ⟨x, s₁, ha, hb⟩ <;> rw [hb] at hp
    · cases hp
      exact h.failed s _ _ ha
    · have hsame := h.board s _ s₁ ha
      by_cases hx : idle x
      · exact (h.idle s x s₁ ha hx).trans
          ((hf x hx).silent s₁ result s' hp (hboard.trans hsame.symm))
      · obtain ⟨y, s₂, hy, hlt⟩ := hdone x hx s₁
        rw [hy] at hp
        cases hp
        rw [hboard, hsame] at hlt
        exact absurd hlt (Nat.lt_irrefl _)

/-- A reading, and then a forthright call. -/
theorem Discreet.leading (h : Discreet content (fun _ => True) a)
    (hf : ∀ x, Forthright content (f x)) : Forthright content (a >>= f) :=
  h.announced (fun x _ => hf x) fun _ hx => absurd trivial hx

/-- A discreet call, and then a notice unless its result is idle. -/
theorem Discreet.publishing {c : α → Prop} [DecidablePred c] {g : α → β} {n : Notice}
    (h : Discreet content (fun x => ¬c x) a) :
    Forthright content (a >>= fun x => if c x then publish n >>= fun _ => pure (g x) else pure (g x)) := by
  refine h.announced (fun x hx => ?_) fun x hx => ?_
  · rw [if_neg hx]
    exact (Discreet.of_unchanged fun _ => rfl).forthright
  · rw [if_pos (Decidable.not_not.mp hx)]
    exact fun s => ⟨g x, _, rfl, s.board.lt_length_post n⟩

theorem Forthright.map (h : Forthright content a) (g : α → β) : Forthright content (g <$> a) := by
  have hp {s s' : State σ} {result : Except Error β} (hm : (g <$> a).perform s = (result, s')) :
      a.perform s = ((a.perform s).1, s') ∧ result = (a.perform s).1.map g := by
    rw [perform_map] at hm
    obtain ⟨rfl, rfl⟩ := Prod.mk.inj hm
    exact ⟨rfl, rfl⟩
  constructor
  · intro s e s' hm
    obtain ⟨ha, hr⟩ := hp hm
    cases h₁ : (a.perform s).1 with
    | error e' =>
      rw [h₁] at ha
      exact h.failed s e' s' ha
    | ok x =>
      rw [h₁] at hr
      cases hr
  · intro s result s' hm hboard
    exact h.silent s _ s' (hp hm).1 hboard

end Action

open Registry.Action

/-! ## Calls on the store -/

section Store

variable {setup : Setup} {caller : Caller} {target : Target} {verb : Verb} {scope : Scope}
  {q : Predicate} {order : Order} {id : RowId} {batch : Batch}

theorem discreet_authorize :
    Discreet content (fun _ => True) (authorize setup caller scope verb : Action σ Partition) :=
  .of_unchanged fun s => by rw [perform_authorize]

theorem discreet_authorizeRows :
    Discreet content (fun _ => True) (authorizeRows setup caller target verb : Action σ Partition) :=
  .of_unchanged fun s => by rw [perform_authorizeRows]

theorem discreet_onStore {f : σ → Except Error α × σ} {idle : α → Prop}
    (hfailed : ∀ st e, (f st).1 = .error e → content (f st).2 = content st)
    (hidle : ∀ st x, (f st).1 = .ok x → idle x → content (f st).2 = content st) :
    Discreet content idle (onStore f) := by
  constructor
  · intro s result s' hp
    cases hp
    rfl
  · intro s e s' hp
    obtain ⟨hf, rfl⟩ := Prod.mk.inj hp
    exact ⟨hfailed s.store e hf, rfl, rfl⟩
  · intro s x s' hp hx
    obtain ⟨hf, rfl⟩ := Prod.mk.inj hp
    exact ⟨hidle s.store x hf hx, rfl, rfl⟩

variable [RowStore σ] (hc : AllOrNothing content)

include hc

theorem discreet_fetch : Discreet content (fun _ => True) (fetch id : Action σ _) :=
  discreet_onStore (fun st _ _ => hc.get id st) fun st _ _ _ => hc.get id st

theorem discreet_rows : Discreet content (fun _ => True) (rows q order : Action σ _) :=
  discreet_onStore (fun st _ _ => hc.query q order st) fun st _ _ _ => hc.query q order st

/-- A batch is discreet if it is empty wherever its outcome is idle. -/
theorem discreet_write {idle : Batch.Outcome → Prop}
    (h : ∀ outcome, outcome.inserted.length = batch.countP Change.isInsert → idle outcome →
      batch = []) : Discreet content idle (write batch : Action σ _) := by
  refine discreet_onStore (fun st e he => hc.failed batch st e he) fun st outcome ho hidle => ?_
  rw [h outcome (hc.inserted batch st outcome ho) hidle]
  exact hc.empty st

end Store

end Registry

end ApnRegistry
