import ClassLinking.Linker

/-!
# Outcomes of steps

Every operation of the linker is a step that either answers or fails, and that keeps what it had
changed in both cases.  So a statement about a step has two halves: what holds of the answer and the
state after it, and what holds of the failure and the state it leaves behind.

`Outcome x s Q E` puts the two halves together.  It says that the step `x`, taken in the state `s`,
answers so that `Q` holds or fails so that `E` holds.  The rules below follow the way a step is
written: each of them is an equivalence, so `simp` walks through a step from its first line to its
last and leaves what has to be shown at the ends.
-/

namespace ClassLinking

variable {ε σ α β : Type}

/-- What holds after a step: `Q` of its answer, or `E` of its failure. -/
def Outcome (x : EStateM ε σ α) (s : σ) (Q : α → σ → Prop) (E : ε → σ → Prop) : Prop :=
  match x s with
  | .ok a t => Q a t
  | .error e t => E e t

section Rules

variable {x : EStateM ε σ α} {s : σ} {Q : α → σ → Prop} {E : ε → σ → Prop}

theorem outcome_of_ok {a : α} {t : σ} (h : x s = .ok a t) : Outcome x s Q E ↔ Q a t := by
  unfold Outcome
  rw [h]

theorem outcome_of_error {e : ε} {t : σ} (h : x s = .error e t) : Outcome x s Q E ↔ E e t := by
  unfold Outcome
  rw [h]

/-- What holds after every outcome holds after an answer. -/
theorem Outcome.of_ok (h : Outcome x s Q E) {a : α} {t : σ} (hx : x s = .ok a t) : Q a t :=
  (outcome_of_ok hx).mp h

/-- What holds after every outcome holds after a failure. -/
theorem Outcome.of_error (h : Outcome x s Q E) {e : ε} {t : σ} (hx : x s = .error e t) : E e t :=
  (outcome_of_error hx).mp h

/-- A statement about a step may be weakened at both ends. -/
theorem Outcome.imp {Q' : α → σ → Prop} {E' : ε → σ → Prop} (h : Outcome x s Q E)
    (hQ : ∀ a t, Q a t → Q' a t) (hE : ∀ e t, E e t → E' e t) : Outcome x s Q' E' := by
  unfold Outcome at *
  split
  · rename_i hx
    rw [hx] at h
    exact hQ _ _ h
  · rename_i hx
    rw [hx] at h
    exact hE _ _ h

/-- Two statements about a step may be put together. -/
theorem Outcome.and {Q' : α → σ → Prop} {E' : ε → σ → Prop} (h : Outcome x s Q E)
    (h' : Outcome x s Q' E') :
    Outcome x s (fun a t => Q a t ∧ Q' a t) (fun e t => E e t ∧ E' e t) := by
  unfold Outcome at *
  split
  · rename_i hx
    rw [hx] at h h'
    exact ⟨h, h'⟩
  · rename_i hx
    rw [hx] at h h'
    exact ⟨h, h'⟩

/-- What a step yields may be kept in mind. -/
theorem Outcome.eqn (h : Outcome x s Q E) :
    Outcome x s (fun a t => x s = .ok a t ∧ Q a t) (fun e t => x s = .error e t ∧ E e t) := by
  unfold Outcome at *
  split
  · rename_i hx
    rw [hx] at h
    exact ⟨hx, h⟩
  · rename_i hx
    rw [hx] at h
    exact ⟨hx, h⟩

/-- A step that never fails answers. -/
theorem Outcome.exists_ok (h : Outcome x s Q (fun _ _ => False)) :
    ∃ a t, x s = .ok a t ∧ Q a t := by
  unfold Outcome at h
  split at h
  · rename_i a t hx
    exact ⟨a, t, hx, h⟩
  · exact h.elim

/-- What happens to a step can be found out by taking it. -/
instance [∀ a t, Decidable (Q a t)] [∀ e t, Decidable (E e t)] : Decidable (Outcome x s Q E) :=
  match h : x s with
  | .ok a t => decidable_of_iff (Q a t) (outcome_of_ok h).symm
  | .error e t => decidable_of_iff (E e t) (outcome_of_error h).symm

@[simp] theorem outcome_pure (a : α) : Outcome (pure a) s Q E ↔ Q a s := Iff.rfl

@[simp] theorem outcome_throw (e : ε) : Outcome (throw e) s Q E ↔ E e s := Iff.rfl

/-- The second step starts where the first answers. -/
theorem bind_of_ok {a : α} {t : σ} (h : x s = .ok a t) (f : α → EStateM ε σ β) :
    (x >>= f) s = f a t := by
  show EStateM.bind x f s = f a t
  unfold EStateM.bind
  rw [h]

/-- There is no second step where the first fails. -/
theorem bind_of_error {e : ε} {t : σ} (h : x s = .error e t) (f : α → EStateM ε σ β) :
    (x >>= f) s = .error e t := by
  show EStateM.bind x f s = .error e t
  unfold EStateM.bind
  rw [h]

/-- Two steps answer if each of them does. -/
theorem bind_eq_ok_iff {f : α → EStateM ε σ β} {b : β} {u : σ} :
    (x >>= f) s = .ok b u ↔ ∃ a t, x s = .ok a t ∧ f a t = .ok b u := by
  constructor
  · intro h
    cases hx : x s with
    | ok a t => exact ⟨a, t, rfl, (bind_of_ok hx f).symm.trans h⟩
    | error e t =>
      rw [bind_of_error hx] at h
      cases h
  · rintro ⟨a, t, hx, hf⟩
    rw [bind_of_ok hx, hf]

/-- One step after another: the second starts where the first answers. -/
@[simp] theorem outcome_bind (f : α → EStateM ε σ β) {Q : β → σ → Prop} :
    Outcome (x >>= f) s Q E ↔ Outcome x s (fun a t => Outcome (f a) t Q E) E := by
  show (match EStateM.bind x f s with | .ok a t => Q a t | .error e t => E e t) ↔ _
  unfold EStateM.bind Outcome
  cases x s <;> rfl

@[simp] theorem outcome_map (f : α → β) {Q : β → σ → Prop} :
    Outcome (f <$> x) s Q E ↔ Outcome x s (fun a t => Q (f a) t) E := by
  show (match EStateM.map f x s with | .ok a t => Q a t | .error e t => E e t) ↔ _
  unfold EStateM.map Outcome
  cases x s <;> rfl

@[simp] theorem outcome_get {Q : σ → σ → Prop} :
    Outcome (get : EStateM ε σ σ) s Q E ↔ Q s s := Iff.rfl

@[simp] theorem outcome_modify (f : σ → σ) {Q : PUnit → σ → Prop} :
    Outcome (modify f : EStateM ε σ PUnit) s Q E ↔ Q ⟨⟩ (f s) := Iff.rfl

/-- A choice between two steps. -/
@[simp] theorem outcome_ite {c : Prop} [Decidable c] {y : EStateM ε σ α} :
    Outcome (if c then x else y) s Q E ↔
      (c → Outcome x s Q E) ∧ (¬ c → Outcome y s Q E) := by
  by_cases h : c
  · simp [h]
  · simp [h]

end Rules

/-! ## Steps of the linker -/

section Linker

variable {l : Linker} {E : LinkError → Linker → Prop}

@[simp] theorem outcome_ofExcept {α : Type} (r : Except LinkError α) {Q : α → Linker → Prop} :
    Outcome (LinkM.ofExcept r) l Q E ↔
      (∀ a, r = .ok a → Q a l) ∧ (∀ e, r = .error e → E e l) := by
  cases r with
  | ok a => simp [LinkM.ofExcept]
  | error e => simp [LinkM.ofExcept]

/-- A failure that is turned into an answer. -/
@[simp] theorem outcome_attempt {α : Type} {x : LinkM α}
    {Q : Except LinkError α → Linker → Prop} :
    Outcome (LinkM.attempt x) l Q E ↔
      Outcome x l (fun a => Q (.ok a)) (fun e => Q (.error e)) := by
  unfold Outcome LinkM.attempt
  cases x l <;> rfl

@[simp] theorem outcome_trace (wanted : Bool) (d : Diagnostic) {Q : Unit → Linker → Prop} :
    Outcome (LinkM.trace wanted d) l Q E ↔ Q () (if wanted then l.record [d] else l) := by
  unfold LinkM.trace
  cases wanted <;> simp

end Linker
end ClassLinking
