import UtxoWire.Proofs.Validator

/-!
# Validators run together

Validators that are run together are called item by item, and the first failure ends the run for all
of them.  None of them notices: what each remembers is what it would remember if it were run alone,
and the run fails where the first of them would fail alone.

* `Validator.calledOn` — a validator after it has been called on items.
* **`Validator.runFrom_append`** — while all validators accept, the run goes on with each of them as
  it would be on its own.
* `Validator.FailsFirstAt` — the item that a validator fails on when it is run alone.
* `Validator.FirstToFail` — the validator of several that fails first.
* **`Validator.validate_composed`** — what running validators together says, in terms of running
  each alone.
-/

namespace UtxoWire.Validator

variable {α : Type} {v : Validator α} {validators : List (Validator α)} {items : List α}
  {index place : Nat} {e e' : WireError}

/-! ## Runs in parts -/

/-- The validator as it is after it has been called on items, the first of them at place `index`. -/
def calledOn (v : Validator α) (index : Nat) (seen : List α) : Validator α :=
  { v with state := remembered v.check v.state index seen }

/-- **Validators that accept items go on as each would alone.**  What follows is looked at by each
of them as it is after its own calls. -/
theorem runFrom_append {seen : List α} (rest : List α)
    (h : ∀ v ∈ validators, Passes v.check v.state index seen) :
    runFrom index (seen ++ rest) validators
      = runFrom (index + seen.length) rest (validators.map (calledOn · index seen)) := by
  induction seen generalizing index validators with
  | nil =>
      have hmap : validators.map (calledOn · index []) = validators := List.map_id _
      rw [hmap]
      rfl
  | cons item seen ih =>
      have heach := callEach_eq_ok.mpr ⟨fun v hv => (h v hv).1, rfl⟩
      have hplace : index + (item :: seen).length = index + 1 + seen.length := by
        rw [List.length_cons]
        omega
      rw [List.cons_append, runFrom, heach, hplace]
      simp only
      rw [ih (List.forall_mem_map.mpr fun v hv => (h v hv).2), List.map_map]
      rfl

/-- A run that fails does not look at what follows. -/
lemma runFrom_append_of_error (rest : List α) (h : runFrom index items validators = .error e) :
    runFrom index (items ++ rest) validators = .error e := by
  induction items generalizing index validators with
  | nil => cases h
  | cons item items ih =>
      rw [runFrom] at h
      rw [List.cons_append, runFrom]
      cases heach : callEach validators index item with
      | error e' =>
          rw [heach] at h
          exact h
      | ok called =>
          rw [heach] at h
          exact ih h

/-- The first validator that is called refuses the first item. -/
lemma runFrom_of_refusal {item : α} (h : (v.call index item).1 = .error e) :
    runFrom index (item :: items) (v :: validators) = .error e := by
  rw [runFrom, callEach]
  rcases hcall : v.call index item with ⟨verdict, called⟩
  rw [hcall] at h
  cases h
  rfl

lemma validate_take_of_le {n m : Nat} (h : validate (items.take n) [v] = .ok ()) (hm : m ≤ n) :
    validate (items.take m) [v] = .ok () := by
  obtain ⟨rest, hrest⟩ : items.take m <+: items.take n := List.take_prefix_take_left hm
  rw [← hrest, validate_singleton_eq_ok, passes_append] at h
  exact validate_singleton_eq_ok.mpr h.1

/-! ## The first failure of one validator -/

/-- Run alone, the validator accepts the items in front of the one at `place`, and fails on that
one. -/
structure FailsFirstAt (v : Validator α) (items : List α) (place : Nat) (e : WireError) : Prop where
  accepts : validate (items.take place) [v] = .ok ()
  fails : validate (items.take (place + 1)) [v] = .error e

namespace FailsFirstAt

lemma of_refusal {seen rest : List α} {item : α} (h : Passes v.check v.state 0 seen)
    (hrefuse : v.verdictAfter 0 seen item = .error e) :
    v.FailsFirstAt (seen ++ item :: rest) seen.length e := by
  refine ⟨?_, ?_⟩
  · rw [List.take_left]
    exact validate_singleton_eq_ok.mpr h
  · rw [List.take_length_add_append, List.take_succ_cons, List.take_zero, validate,
      runFrom_append _ (List.forall_mem_singleton.mpr h)]
    exact runFrom_of_refusal hrefuse

/-- What is accepted ends in front of the first failure. -/
lemma le_of_accepts (h : v.FailsFirstAt items place e) {n : Nat}
    (haccepts : validate (items.take n) [v] = .ok ()) : n ≤ place := by
  by_contra hlt
  have hprefix := validate_take_of_le haccepts (Nat.succ_le_of_lt (Nat.lt_of_not_le hlt))
  rw [h.fails] at hprefix
  cases hprefix

/-- There is one first failure only. -/
lemma unique {place' : Nat} (h : v.FailsFirstAt items place e)
    (h' : v.FailsFirstAt items place' e') : place = place' ∧ e = e' := by
  obtain rfl := Nat.le_antisymm (h'.le_of_accepts h.accepts) (h.le_of_accepts h'.accepts)
  exact ⟨rfl, Except.error.inj (h.fails.symm.trans h'.fails)⟩

end FailsFirstAt

/-- A validator that is run alone fails for what it says of the first item that it fails on. -/
lemma validate_singleton_eq_error :
    validate items [v] = .error e ↔ ∃ place, v.FailsFirstAt items place e := by
  constructor
  · intro h
    obtain ⟨seen, item, rest, rfl, hpasses, hrefuse⟩ := refusal_of_validate_singleton h
    exact ⟨seen.length, .of_refusal hpasses hrefuse⟩
  · rintro ⟨place, h⟩
    have hrun := runFrom_append_of_error (items.drop (place + 1)) h.fails
    rwa [List.take_append_drop] at hrun

/-! ## The first failure of several -/

/-- Of the validators `before ++ v :: after` it is `v` that fails first: run alone, none of the
others fails on an earlier item, and those in front of `v` not on the same one either. -/
structure FirstToFail (before : List (Validator α)) (v : Validator α) (after : List (Validator α))
    (items : List α) (place : Nat) (e : WireError) : Prop where
  fails : v.FailsFirstAt items place e
  before_later : ∀ w ∈ before, ∀ place' e', w.FailsFirstAt items place' e' → place < place'
  after_no_earlier : ∀ w ∈ after, ∀ place' e', w.FailsFirstAt items place' e' → place ≤ place'

namespace FirstToFail

variable {before after before' after' : List (Validator α)} {v' : Validator α} {place' : Nat}

/-- Two validators cannot both be the first to fail, one listed in front of the other. -/
lemma not_both (h : FirstToFail before v after items place e)
    (h' : FirstToFail before' v' after' items place' e') (hafter : v' ∈ after)
    (hbefore : v ∈ before') : False := by
  have hle : place ≤ place' := h.after_no_earlier v' hafter _ _ h'.fails
  have hlt : place' < place := h'.before_later v hbefore _ _ h.fails
  exact Nat.not_lt_of_le hle hlt

lemma error_unique (h : FirstToFail before v after items place e)
    (h' : FirstToFail before' v' after' items place' e')
    (hsplit : before ++ v :: after = before' ++ v' :: after') : e = e' := by
  -- they are the same validator, or one of them is listed in front of the other
  rcases List.append_eq_append_iff.mp hsplit with
    ⟨_ | ⟨w, between⟩, rfl, hrest⟩ | ⟨_ | ⟨w, between⟩, rfl, hrest⟩
  · cases hrest
    exact (h.fails.unique h'.fails).2
  · cases hrest
    exact (h.not_both h' List.mem_append_cons_self List.mem_append_cons_self).elim
  · cases hrest
    exact (h.fails.unique h'.fails).2
  · cases hrest
    exact (h'.not_both h List.mem_append_cons_self List.mem_append_cons_self).elim

end FirstToFail

/-- A run fails at the first of all the first failures. -/
lemma firstToFail_of_validate_eq_error (h : validate items validators = .error e) :
    ∃ before v after place, validators = before ++ v :: after ∧
      FirstToFail before v after items place e := by
  obtain ⟨seen, item, rest, before, v, after, rfl, rfl, hpasses, haccept, hrefuse⟩ :=
    refusal_of_runFrom_eq_error h
  refine ⟨before, v, after, seen.length, rfl,
    .of_refusal (hpasses v List.mem_append_cons_self) hrefuse, ?_, ?_⟩
  · intro w hw place' e' hfails
    -- those in front have accepted the item itself
    have hitem : Passes w.check w.state 0 (seen ++ [item]) :=
      passes_append.mpr ⟨hpasses w (List.mem_append_left _ hw), haccept w hw, trivial⟩
    refine Nat.lt_of_succ_le (hfails.le_of_accepts ?_)
    rw [← Nat.add_one, List.take_length_add_append]
    exact validate_singleton_eq_ok.mpr hitem
  · intro w hw place' e' hfails
    refine hfails.le_of_accepts ?_
    rw [List.take_left]
    exact validate_singleton_eq_ok.mpr
      (hpasses w (List.mem_append_right _ (List.mem_cons_of_mem _ hw)))

/-- **Validators run together as each would alone.**  They accept the items exactly when each of
them, run alone, does.  Otherwise the answer is what one of them would say alone: the one that, run
alone, would fail on the earliest item, and of several that would fail on the same item the one
listed first.  Hence in which order they are listed does not matter for what they accept. -/
theorem validate_composed (items : List α) (validators : List (Validator α)) :
    (validate items validators = .ok () ↔ ∀ v ∈ validators, validate items [v] = .ok ()) ∧
    (∀ e, validate items validators = .error e ↔
      ∃ before v after place, validators = before ++ v :: after ∧ validate items [v] = .error e ∧
        FirstToFail before v after items place e) ∧
    ∀ validators', validators.Perm validators' →
      (validate items validators = .ok () ↔ validate items validators' = .ok ()) := by
  have hok : ∀ validators : List (Validator α), validate items validators = .ok () ↔
      ∀ v ∈ validators, validate items [v] = .ok () := by
    intro validators
    rw [validate_eq_ok]
    exact forall₂_congr fun v _ => validate_singleton_eq_ok.symm
  refine ⟨hok validators, fun e => ⟨fun h => ?_, ?_⟩, fun validators' hperm => ?_⟩
  · obtain ⟨before, v, after, place, rfl, hfirst⟩ := firstToFail_of_validate_eq_error h
    exact ⟨before, v, after, place, rfl, validate_singleton_eq_error.mpr ⟨place, hfirst.fails⟩,
      hfirst⟩
  · rintro ⟨before, v, after, place, rfl, hv, hfirst⟩
    cases hrun : validate items (before ++ v :: after) with
    | ok _ =>
        have halone := (hok _).mp hrun v List.mem_append_cons_self
        rw [hv] at halone
        cases halone
    | error e' =>
        obtain ⟨before', v', after', place', hsplit, hfirst'⟩ :=
          firstToFail_of_validate_eq_error hrun
        rw [hfirst.error_unique hfirst' hsplit]
  · rw [hok, hok]
    exact forall_congr' fun v => by rw [hperm.mem_iff]

/-- Three deposits of which the second takes the sum above the supply and the third is of nothing.
The check of amounts is listed first and fails later. -/
theorem validate_composed_deposits :
    let outputs := [5, 7, 0].map fun amount => Output.singleDeposit { address := default, amount }
    validate outputs [Output.depositAmounts 10] = .error (.invalidDepositAmount 2 0) ∧
    validate outputs [Output.depositSum 10] = .error (.supplySumExceeded 12 10) ∧
    validate outputs [Output.depositAmounts 10, Output.depositSum 10]
      = .error (.supplySumExceeded 12 10) := by
  intro outputs
  have hsum : validate outputs [Output.depositSum 10] = .error (.supplySumExceeded 12 10) := rfl
  refine ⟨rfl, hsum, ((validate_composed outputs _).2.1 _).mpr
    ⟨[Output.depositAmounts 10], Output.depositSum 10, [], 1, rfl, hsum, ⟨rfl, rfl⟩, ?_, nofun⟩⟩
  intro w hw place e hfails
  obtain rfl := List.mem_singleton.mp hw
  exact hfails.le_of_accepts rfl

end UtxoWire.Validator
