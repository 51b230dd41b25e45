import Mathlib.Algebra.Group.Nat.Defs
import Mathlib.Tactic.Lemma
import UtxoWire.Codec

/-!
# Outcomes

What can be said of a step that may fail once its outcome is known, for the steps that all readers
and writers are made of.

* `bind_eq_ok`, `bind_eq_error`, `map_eq_ok`, `mapError_eq_ok` — taking a chain of steps apart.
* `require_eq_ok`, `Mode.check_eq_ok` — what a check that passed says.
* `FailsOnly` — a step fails for errors of one kind, shown for each way of putting steps together.
* `WireError.RunsOut` — the failures that more bytes may cure: a number without its last byte, or a
  stretch of bytes shorter than the format asks for.
* `WireError.IsOverflow` — the failure that a number does not fit into 64 bits.
-/

namespace UtxoWire

variable {ε ε' α β : Type}

/-! ## Chains of steps -/

@[simp] lemma ok_bind (a : α) (f : α → Except ε β) : (Except.ok a >>= f) = f a := rfl

@[simp] lemma error_bind (e : ε) (f : α → Except ε β) :
    (Except.error e >>= f) = .error e := rfl

@[simp] lemma pure_eq_ok (a : α) : (pure a : Except ε α) = .ok a := rfl

/-- A chain succeeds exactly when its first step does and the rest succeeds after it. -/
lemma bind_eq_ok {x : Except ε α} {f : α → Except ε β} {b : β} :
    (x >>= f) = .ok b ↔ ∃ a, x = .ok a ∧ f a = .ok b := by
  cases x with
  | error e => simp
  | ok a => simp

lemma bind_eq_error {x : Except ε α} {f : α → Except ε β} {e : ε} :
    (x >>= f) = .error e ↔ x = .error e ∨ ∃ a, x = .ok a ∧ f a = .error e := by
  cases x with
  | error e => simp
  | ok a => simp

lemma check_bind_eq_ok {check : Except ε Unit} {f : Unit → Except ε β} {b : β} :
    (check >>= f) = .ok b ↔ check = .ok () ∧ f () = .ok b := by
  rw [bind_eq_ok]
  exact ⟨fun ⟨(), h⟩ => h, fun h => ⟨(), h⟩⟩

lemma map_eq_ok {x : Except ε α} {f : α → β} {b : β} :
    x.map f = .ok b ↔ ∃ a, x = .ok a ∧ f a = b := by
  cases x with
  | error e => simp [Except.map]
  | ok a => simp [Except.map]

lemma map_eq_error {x : Except ε α} {f : α → β} {e : ε} :
    x.map f = .error e ↔ x = .error e := by
  cases x with
  | error e => simp [Except.map]
  | ok a => simp [Except.map]

/-- Rewording a failure does not touch a success. -/
lemma mapError_eq_ok {x : Except ε α} {f : ε → ε'} {a : α} :
    x.mapError f = .ok a ↔ x = .ok a := by
  cases x with
  | error e => exact ⟨nofun, nofun⟩
  | ok b =>
      show Except.ok b = Except.ok a ↔ _
      simp

lemma mapError_eq_error {x : Except ε α} {f : ε → ε'} {e : ε'} :
    x.mapError f = .error e ↔ ∃ cause, x = .error cause ∧ f cause = e := by
  cases x with
  | error cause =>
      show Except.error (f cause) = Except.error e ↔ _
      simp
  | ok a => exact ⟨nofun, fun ⟨_, h, _⟩ => nomatch h⟩

/-! ## Checks -/

lemma require_eq_ok {condition : Prop} [Decidable condition] {error : WireError} :
    require condition error = .ok () ↔ condition := by
  unfold require
  split <;> simp_all

lemma require_eq_error {condition : Prop} [Decidable condition] {error e : WireError} :
    require condition error = .error e ↔ ¬ condition ∧ error = e := by
  unfold require
  split <;> simp_all

lemma requireAtLeast_eq_ok {min length : Nat} : requireAtLeast min length = .ok () ↔ min ≤ length :=
  require_eq_ok

/-- A check passes under validation exactly when its rule does, and always passes otherwise. -/
lemma Mode.check_eq_ok {mode : Mode} {rule : Except WireError Unit} :
    mode.check rule = .ok () ↔ mode = .validated → rule = .ok () := by
  cases mode <;> simp [Mode.check]

/-! ## Kinds of failure -/

/-- The step fails for errors of this kind only. -/
def FailsOnly (kind : WireError → Prop) (step : Except WireError α) : Prop :=
  ∀ e, step = .error e → kind e

namespace FailsOnly

variable {kind kind' : WireError → Prop}

lemma ok (a : α) : FailsOnly kind (Except.ok a) := by
  intro e h
  cases h

lemma error {e : WireError} (h : kind e) :
    FailsOnly kind (Except.error e : Except WireError α) := by
  intro e' he
  cases he
  exact h

lemma mono {step : Except WireError α} (h : FailsOnly kind step) (hkind : ∀ e, kind e → kind' e) :
    FailsOnly kind' step :=
  fun e he => hkind e (h e he)

lemma ite {condition : Prop} [Decidable condition] {x y : Except WireError α}
    (hx : FailsOnly kind x) (hy : FailsOnly kind y) :
    FailsOnly kind (if condition then x else y) := by
  split
  · exact hx
  · exact hy

lemma require {condition : Prop} [Decidable condition] {error : WireError} (h : kind error) :
    FailsOnly kind (require condition error) := by
  intro e he
  obtain ⟨-, rfl⟩ := require_eq_error.mp he
  exact h

lemma bind {x : Except WireError α} {f : α → Except WireError β} (hx : FailsOnly kind x)
    (hf : ∀ a, FailsOnly kind (f a)) : FailsOnly kind (x >>= f) := by
  intro e h
  rcases bind_eq_error.mp h with h | ⟨a, -, h⟩
  · exact hx e h
  · exact hf a e h

lemma check {mode : Mode} {rule : Except WireError Unit} (h : FailsOnly kind rule) :
    FailsOnly kind (mode.check rule) := by
  cases mode with
  | structural => exact .ok ()
  | validated => exact h

end FailsOnly

/-! ## Running out of bytes -/

/-- The failure comes of too few bytes: a number that ends early, or a stretch of bytes that is
shorter than the format asks for. -/
def WireError.RunsOut (error : WireError) : Prop :=
  (∃ needed available, error.rootCause = .bufferTooShort needed available) ∨
    ∃ bound required actual, error.rootCause = .invalidLength bound required actual

/-! ## Overflow -/

/-- What went wrong, under the names it is wrapped in, is a number that does not fit into 64 bits. -/
def WireError.IsOverflow (error : WireError) : Prop :=
  ∃ context, error.rootCause = .integerOverflow context

end UtxoWire
