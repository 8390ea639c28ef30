/-!
Operations that may fail, and what failing does to the state. An operation is atomic if a
failure leaves the state as it was. One after the other, two atomic operations are atomic
again when the first has changed nothing yet, or when the second cannot fail any more. What both
of them keep is kept.
-/

namespace Fish

variable {ε σ α β : Type}

theorem bind_of_ok {op : EStateM ε σ α} {s t : σ} {a : α} (h : op s = .ok a t)
    (next : α → EStateM ε σ β) : (op >>= next) s = next a t := by
  change EStateM.bind op next s = next a t
  rw [EStateM.bind, h]

theorem bind_of_error {op : EStateM ε σ α} {s t : σ} {e : ε} (h : op s = .error e t)
    (next : α → EStateM ε σ β) : (op >>= next) s = .error e t := by
  change EStateM.bind op next s = .error e t
  rw [EStateM.bind, h]

theorem ok_of_bind_ok {op : EStateM ε σ α} {next : α → EStateM ε σ β} {s u : σ} {b : β}
    (h : (op >>= next) s = .ok b u) : ∃ a t, op s = .ok a t ∧ next a t = .ok b u := by
  cases hop : op s with
  | ok a t =>
    rw [bind_of_ok hop] at h
    exact ⟨a, t, rfl, h⟩
  | error e t =>
    rw [bind_of_error hop] at h
    cases h

/-- A failure of the operation leaves the state as it was. -/
def Atomic (op : EStateM ε σ α) : Prop :=
  ∀ s e t, op s = .error e t → t = s

/-- A success of the operation leaves the state as it was. -/
def Looking (op : EStateM ε σ α) : Prop :=
  ∀ s a t, op s = .ok a t → t = s

/-- The operation succeeds in every state. -/
def Total (op : EStateM ε σ α) : Prop :=
  ∀ s, ∃ a t, op s = .ok a t

theorem total_pure (a : α) : Total (pure a : EStateM ε σ α) :=
  fun s => ⟨a, s, rfl⟩

theorem total_modify (f : σ → σ) : Total (modify f : EStateM ε σ PUnit) :=
  fun s => ⟨(), f s, rfl⟩

theorem Total.bind {op : EStateM ε σ α} {next : α → EStateM ε σ β}
    (h : Total op) (hnext : ∀ a, Total (next a)) : Total (op >>= next) := by
  intro s
  obtain ⟨a, t, ht⟩ := h s
  obtain ⟨b, u, hu⟩ := hnext a t
  exact ⟨b, u, (bind_of_ok ht next).trans hu⟩

theorem Total.atomic {op : EStateM ε σ α} (h : Total op) : Atomic op := by
  intro s e t herror
  obtain ⟨a, u, hok⟩ := h s
  rw [hok] at herror
  cases herror

theorem atomic_throw (e : ε) : Atomic (throw e : EStateM ε σ α) := by
  intro s e' t h
  cases h
  rfl

/-- The second operation may do anything as long as it cannot fail where the first
has succeeded. -/
theorem Atomic.bind_succeeds {op : EStateM ε σ α} {next : α → EStateM ε σ β}
    (h : Atomic op) (hnext : ∀ s a t, op s = .ok a t → ∃ b u, next a t = .ok b u) :
    Atomic (op >>= next) := by
  intro s e t herror
  cases hop : op s with
  | ok a u =>
    obtain ⟨b, v, hok⟩ := hnext s a u hop
    rw [bind_of_ok hop, hok] at herror
    cases herror
  | error e' u =>
    rw [bind_of_error hop] at herror
    cases herror
    exact h s e t hop

theorem Atomic.bind_total {op : EStateM ε σ α} {next : α → EStateM ε σ β}
    (h : Atomic op) (hnext : ∀ a, Total (next a)) : Atomic (op >>= next) :=
  h.bind_succeeds fun _ a t _ => hnext a t

/-- What has only been looked at need not be put back. -/
theorem Atomic.bind_looking {op : EStateM ε σ α} {next : α → EStateM ε σ β}
    (h : Atomic op) (hlook : Looking op) (hnext : ∀ a, Atomic (next a)) :
    Atomic (op >>= next) := by
  intro s e t herror
  cases hop : op s with
  | ok a u =>
    rw [bind_of_ok hop, hlook s a u hop] at herror
    exact hnext a s e t herror
  | error e' u =>
    rw [bind_of_error hop] at herror
    cases herror
    exact h s e t hop

theorem modify_apply (f : σ → σ) (s : σ) :
    (modify f : EStateM ε σ PUnit) s = .ok () (f s) := rfl

/-- A success leads from a state of which `P` holds to another one. -/
def Keeps (P : σ → Prop) (op : EStateM ε σ α) : Prop :=
  ∀ s a t, op s = .ok a t → P s → P t

theorem keeps_pure {P : σ → Prop} (a : α) : Keeps P (pure a : EStateM ε σ α) := by
  intro s b t h hs
  cases h
  exact hs

theorem Keeps.bind {P : σ → Prop} {op : EStateM ε σ α} {next : α → EStateM ε σ β}
    (h : Keeps P op) (hnext : ∀ a, Keeps P (next a)) : Keeps P (op >>= next) := by
  intro s b u hok hs
  obtain ⟨a, t, hfirst, hrest⟩ := ok_of_bind_ok hok
  exact hnext a t b u hrest (h s a t hfirst hs)

theorem keeps_modify {P : σ → Prop} {f : σ → σ} (h : ∀ s, P s → P (f s)) :
    Keeps P (modify f : EStateM ε σ PUnit) := by
  intro s a t hok hs
  cases hok
  exact h s hs

/-- The error with which the operation fails, if it does. -/
def failure? (op : EStateM ε σ α) (s : σ) : Option ε :=
  match op s with
  | .ok _ _ => none
  | .error e _ => some e

theorem failure?_of_ok {op : EStateM ε σ α} {s t : σ} {a : α} (h : op s = .ok a t) :
    failure? op s = none := by
  rw [failure?, h]

theorem failure?_of_error {op : EStateM ε σ α} {s t : σ} {e : ε} (h : op s = .error e t) :
    failure? op s = some e := by
  rw [failure?, h]

theorem failure?_throw (e : ε) (s : σ) : failure? (throw e : EStateM ε σ α) s = some e := rfl

theorem Total.failure? {op : EStateM ε σ α} (h : Total op) (s : σ) : failure? op s = none := by
  obtain ⟨a, t, hok⟩ := h s
  exact failure?_of_ok hok

/-- All that an atomic operation leaves when it fails is the error. -/
theorem Atomic.error_iff {op : EStateM ε σ α} (h : Atomic op) {s t : σ} {e : ε} :
    op s = .error e t ↔ t = s ∧ failure? op s = some e := by
  constructor
  · intro herror
    exact ⟨h s e t herror, failure?_of_error herror⟩
  · rintro ⟨rfl, hfailure⟩
    cases hop : op t with
    | ok a u =>
      rw [failure?_of_ok hop] at hfailure
      cases hfailure
    | error e' u =>
      rw [failure?_of_error hop] at hfailure
      rw [h t e' u hop, Option.some.inj hfailure]

theorem failure?_bind_of_ok {op : EStateM ε σ α} {s t : σ} {a : α} (h : op s = .ok a t)
    (next : α → EStateM ε σ β) : failure? (op >>= next) s = failure? (next a) t := by
  rw [failure?, bind_of_ok h, failure?]

theorem failure?_bind_of_error {op : EStateM ε σ α} {s t : σ} {e : ε} (h : op s = .error e t)
    (next : α → EStateM ε σ β) : failure? (op >>= next) s = some e :=
  failure?_of_error (bind_of_error h next)

/-- Where the second operation cannot fail, only the first can. -/
theorem failure?_bind_total (op : EStateM ε σ α) {next : α → EStateM ε σ β}
    (hnext : ∀ a, Total (next a)) (s : σ) : failure? (op >>= next) s = failure? op s := by
  cases hop : op s with
  | ok a t =>
    obtain ⟨b, u, hok⟩ := hnext a t
    rw [failure?_of_ok hop, failure?_bind_of_ok hop, failure?_of_ok hok]
  | error e t => rw [failure?_of_error hop, failure?_bind_of_error hop]

end Fish
