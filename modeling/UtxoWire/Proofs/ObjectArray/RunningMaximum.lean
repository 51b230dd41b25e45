import UtxoWire.ObjectArray.Rules
import UtxoWire.Proofs.Validator.Calls

/-!
# The running maximum

The check of the order of elements remembers a single element, and one that it refuses does not take
its place.  Even so it decides something about all elements that it has looked at, refused ones
included: what it remembers is the greatest of them, with the place of the first call on it.

* `FirstGreatest` — the greatest element of some calls, and the place of the first call with it.
* `OrderCheck.validator` — the check as a validator of elements, so that what is known of sequences
  of calls applies to it.
* **`OrderCheck.afterCalls_cases`** — the check remembers the greatest element.
* **`OrderCheck.checkAll_runningMaximum`** — what the check says of every call, and what it accepts.
-/

namespace UtxoWire

/-- The element `greatest` is the greatest of some calls, and the first call with it was at the
place `first`. -/
def FirstGreatest (calls : List (Nat × Bytes)) (first : Nat) (greatest : Bytes) : Prop :=
  ∃ before after, calls = before ++ (first, greatest) :: after ∧
    (∀ call ∈ before, call.2 < greatest) ∧ ∀ call ∈ after, call.2 ≤ greatest

namespace FirstGreatest

variable {calls : List (Nat × Bytes)} {first first' index : Nat} {greatest greatest' next : Bytes}

lemma single (index : Nat) (next : Bytes) : FirstGreatest [(index, next)] index next :=
  ⟨[], [], rfl, List.forall_mem_nil _, List.forall_mem_nil _⟩

lemma mem (h : FirstGreatest calls first greatest) : (first, greatest) ∈ calls := by
  obtain ⟨before, after, rfl, -, -⟩ := h
  simp

lemma le (h : FirstGreatest calls first greatest) : ∀ call ∈ calls, call.2 ≤ greatest := by
  obtain ⟨before, after, rfl, hbefore, hafter⟩ := h
  refine List.forall_mem_append.mpr ⟨fun call hcall => ?_, List.forall_mem_cons.mpr ⟨?_, hafter⟩⟩
  · exact Std.le_of_lt (hbefore call hcall)
  · exact List.le_refl _

/-- To be above all elements is to be above the greatest. -/
lemma forall_lt_iff (h : FirstGreatest calls first greatest) :
    (∀ call ∈ calls, call.2 < next) ↔ greatest < next :=
  ⟨fun hlt => hlt _ h.mem, fun hlt call hcall => List.lt_of_le_of_lt (h.le call hcall) hlt⟩

lemma concat_of_lt (h : FirstGreatest calls first greatest) (hlt : greatest < next) :
    FirstGreatest (calls ++ [(index, next)]) index next :=
  ⟨calls, [], rfl, h.forall_lt_iff.mpr hlt, List.forall_mem_nil _⟩

lemma concat_of_le (h : FirstGreatest calls first greatest) (hle : next ≤ greatest) :
    FirstGreatest (calls ++ [(index, next)]) first greatest := by
  obtain ⟨before, after, rfl, hbefore, hafter⟩ := h
  refine ⟨before, after ++ [(index, next)], by simp, hbefore, ?_⟩
  exact List.forall_mem_append.mpr ⟨hafter, List.forall_mem_singleton.mpr hle⟩

/-- The first call with the greatest element is found from the front. -/
lemma find?_eq (h : FirstGreatest calls first greatest) :
    calls.find? (fun call => call.2 = greatest) = some (first, greatest) := by
  obtain ⟨before, after, rfl, hbefore, -⟩ := h
  have hnone : before.find? (fun call => call.2 = greatest) = none := by
    refine List.find?_eq_none.mpr fun call hcall heq => ?_
    have hlt := hbefore call hcall
    rw [of_decide_eq_true heq] at hlt
    exact List.lt_irrefl _ hlt
  rw [List.find?_append, hnone, Option.none_or]
  exact List.find?_cons_of_pos (decide_eq_true rfl)

lemma unique (h : FirstGreatest calls first greatest) (h' : FirstGreatest calls first' greatest') :
    first = first' ∧ greatest = greatest' := by
  obtain rfl : greatest = greatest' := List.le_antisymm (h'.le _ h.mem) (h.le _ h'.mem)
  have hsame := h.find?_eq.symm.trans h'.find?_eq
  cases hsame
  exact ⟨rfl, rfl⟩

end FirstGreatest

namespace OrderCheck

variable {name : String} {calls : List (Nat × Bytes)} {first index : Nat} {greatest next : Bytes}

/-! ## The check as a validator -/

/-- The check as a validator of elements. -/
def validator (order : OrderCheck) : Validator Bytes :=
  ⟨OrderCheck, order, check⟩

lemma checkAll_eq (order : OrderCheck) (calls : List (Nat × Bytes)) :
    order.checkAll calls = order.validator.verdicts calls := by
  induction calls generalizing order with
  | nil => rfl
  | cons call calls ih => exact congrArg (_ :: ·) (ih _)

/-- The elements that were accepted, in the order of the calls. -/
def accepted (order : OrderCheck) (calls : List (Nat × Bytes)) : List Bytes :=
  (calls.zip (order.checkAll calls)).filterMap fun
    | ((_, element), .ok ()) => some element
    | (_, .error _) => none

lemma accepted_eq (order : OrderCheck) (calls : List (Nat × Bytes)) :
    order.accepted calls = order.validator.accepted calls := by
  rw [accepted, checkAll_eq, Validator.accepted]
  refine List.filterMap_congr fun call _ => ?_
  rcases call with ⟨⟨_, _⟩, _ | _⟩
  all_goals rfl

/-! ## What is remembered -/

/-- What the check remembers of calls. -/
def afterCalls (name : String) (calls : List (Nat × Bytes)) : OrderCheck :=
  (start name).validator.stateAfter calls

lemma check_of_lt (h : greatest < next) :
    check ⟨name, some (first, greatest)⟩ index next = (.ok (), ⟨name, some (index, next)⟩) :=
  if_pos h

lemma check_of_not_lt (h : ¬ greatest < next) :
    check ⟨name, some (first, greatest)⟩ index next
      = (.error (.lexicalOrderViolation name first index), ⟨name, some (first, greatest)⟩) :=
  if_neg h

lemma afterCalls_concat : afterCalls name (calls ++ [(index, next)])
    = (check (afterCalls name calls) index next).2 :=
  Validator.stateAfter_concat _ _ _ _

/-- **The check remembers the greatest element** of all calls, whatever became of these, with the
place of the first call with it. -/
theorem afterCalls_cases (name : String) (calls : List (Nat × Bytes)) :
    (calls = [] ∧ afterCalls name calls = start name) ∨
      ∃ first greatest, FirstGreatest calls first greatest ∧
        afterCalls name calls = ⟨name, some (first, greatest)⟩ := by
  induction calls using List.reverseRecOn with
  | nil => exact .inl ⟨rfl, rfl⟩
  | append_singleton calls call ih =>
      obtain ⟨index, next⟩ := call
      right
      rw [afterCalls_concat]
      rcases ih with ⟨rfl, hstart⟩ | ⟨first, greatest, hgreatest, hafter⟩
      · rw [hstart]
        exact ⟨index, next, .single index next, rfl⟩
      · rw [hafter]
        by_cases hlt : greatest < next
        · exact ⟨index, next, hgreatest.concat_of_lt hlt, congrArg Prod.snd (check_of_lt hlt)⟩
        · -- an element that is refused is no greater than the one that stays
          exact ⟨first, greatest, hgreatest.concat_of_le hlt,
            congrArg Prod.snd (check_of_not_lt hlt)⟩

/-! ## The verdict on a call -/

lemma verdictAfterCalls_eq : (start name).validator.verdictAfterCalls calls index next
    = (check (afterCalls name calls) index next).1 := rfl

lemma verdictAfterCalls_eq_ok :
    (start name).validator.verdictAfterCalls calls index next = .ok () ↔
      ∀ call ∈ calls, call.2 < next := by
  rw [verdictAfterCalls_eq]
  rcases afterCalls_cases name calls with ⟨rfl, hstart⟩ | ⟨first, greatest, hgreatest, hafter⟩
  · rw [hstart]
    exact iff_of_true rfl (List.forall_mem_nil _)
  · rw [hafter, hgreatest.forall_lt_iff]
    by_cases hlt : greatest < next
    · exact iff_of_true (congrArg Prod.fst (check_of_lt hlt)) hlt
    · rw [check_of_not_lt hlt]
      exact iff_of_false nofun hlt

lemma verdictAfterCalls_eq_error {e : WireError} :
    (start name).validator.verdictAfterCalls calls index next = .error e ↔
      ∃ first greatest, FirstGreatest calls first greatest ∧ next ≤ greatest ∧
        e = .lexicalOrderViolation name first index := by
  rw [verdictAfterCalls_eq]
  rcases afterCalls_cases name calls with ⟨rfl, hstart⟩ | ⟨first, greatest, hgreatest, hafter⟩
  · rw [hstart]
    refine iff_of_false nofun ?_
    rintro ⟨first, greatest, hgreatest, -⟩
    exact absurd hgreatest.mem List.not_mem_nil
  · rw [hafter]
    by_cases hlt : greatest < next
    · rw [check_of_lt hlt]
      refine iff_of_false nofun ?_
      rintro ⟨first', greatest', hgreatest', hle, -⟩
      obtain ⟨-, rfl⟩ := hgreatest.unique hgreatest'
      exact hle hlt
    · rw [check_of_not_lt hlt]
      constructor
      · intro h
        cases h
        exact ⟨first, greatest, hgreatest, hlt, rfl⟩
      · rintro ⟨first', greatest', hgreatest', -, rfl⟩
        obtain ⟨rfl, -⟩ := hgreatest.unique hgreatest'
        rfl

/-! ## What is accepted -/

lemma accepted_concat : (start name).accepted (calls ++ [(index, next)])
    = (start name).accepted calls ++
      match (start name).validator.verdictAfterCalls calls index next with
      | .ok () => [next]
      | .error _ => [] := by
  rw [accepted_eq, accepted_eq]
  exact Validator.accepted_concat _ calls index next

/-- Each accepted element was above all before it, accepted or not, so the accepted ones ascend. -/
lemma accepted_ascending (name : String) (calls : List (Nat × Bytes)) :
    ((start name).accepted calls).Pairwise (· < ·) ∧
      ∀ element ∈ (start name).accepted calls, ∃ call ∈ calls, call.2 = element := by
  induction calls using List.reverseRecOn with
  | nil => exact ⟨.nil, List.forall_mem_nil _⟩
  | append_singleton calls call ih =>
      obtain ⟨index, next⟩ := call
      obtain ⟨hascending, hcalls⟩ := ih
      have hearlier : ∀ element ∈ (start name).accepted calls,
          ∃ call ∈ calls ++ [(index, next)], call.2 = element := by
        intro element helement
        obtain ⟨call, hcall, rfl⟩ := hcalls element helement
        exact ⟨call, List.mem_append_left _ hcall, rfl⟩
      rw [accepted_concat]
      cases hverdict : (start name).validator.verdictAfterCalls calls index next with
      | error e =>
          dsimp only
          rw [List.append_nil]
          exact ⟨hascending, hearlier⟩
      | ok _ =>
          have habove := verdictAfterCalls_eq_ok.mp hverdict
          refine ⟨List.pairwise_append.mpr ⟨hascending, List.pairwise_singleton _ _, ?_⟩, ?_⟩
          · intro element helement other hother
            obtain rfl := List.mem_singleton.mp hother
            obtain ⟨call, hcall, rfl⟩ := hcalls element helement
            exact habove call hcall
          · exact List.forall_mem_append.mpr ⟨hearlier, List.forall_mem_singleton.mpr
              ⟨(index, next), by simp, rfl⟩⟩

/-- **The check compares with the running maximum.**  Called with any elements at any places, going
on after failures, it accepts an element exactly when it is above all elements that it has looked at
before, accepted or refused.  A refusal names the array, the place of the first call with the
greatest element so far, and the place of the call itself.  The accepted elements therefore ascend
strictly, and no two of them are the same. -/
theorem checkAll_runningMaximum (name : String) :
    (∀ earlier index next later, ∃ verdict rest,
      (start name).checkAll (earlier ++ (index, next) :: later)
        = (start name).checkAll earlier ++ verdict :: rest ∧
      ((start name).checkAll earlier).length = earlier.length ∧
      (verdict = .ok () ↔ ∀ call ∈ earlier, call.2 < next) ∧
      ∀ e, verdict = .error e ↔
        ∃ first greatest, FirstGreatest earlier first greatest ∧ next ≤ greatest ∧
          e = .lexicalOrderViolation name first index) ∧
    ∀ calls, ((start name).accepted calls).Pairwise (· < ·) ∧
      ((start name).accepted calls).Nodup := by
  refine ⟨fun earlier index next later => ?_, fun calls => ?_⟩
  · simp only [checkAll_eq]
    exact ⟨_, _, Validator.verdicts_append_cons _ earlier later index next,
      Validator.length_verdicts _ _, verdictAfterCalls_eq_ok, fun _ => verdictAfterCalls_eq_error⟩
  · have hascending := (accepted_ascending name calls).1
    refine ⟨hascending, hascending.imp fun hlt heq => ?_⟩
    rw [heq] at hlt
    exact List.lt_irrefl _ hlt

/-- An element that comes again, after a smaller one was refused, is held against its first call;
its extension is accepted. -/
theorem checkAll_runningMaximum_repeated :
    let earlier := [(4, [2, 0]), (7, [2])]
    (∃ rest, (start "inputs").checkAll (earlier ++ [(1, [2, 0])])
      = (start "inputs").checkAll earlier ++
        .error (.lexicalOrderViolation "inputs" 4 1) :: rest) ∧
    ∃ rest, (start "inputs").checkAll (earlier ++ [(3, [2, 0, 0])])
      = (start "inputs").checkAll earlier ++ .ok () :: rest := by
  intro earlier
  obtain ⟨hcalls, -⟩ := checkAll_runningMaximum "inputs"
  have hgreatest : FirstGreatest earlier 4 [2, 0] :=
    ⟨[], [(7, [2])], rfl, List.forall_mem_nil _, by decide⟩
  constructor
  · obtain ⟨verdict, rest, hverdicts, -, -, herror⟩ := hcalls earlier 1 [2, 0] []
    rw [(herror _).mpr ⟨4, [2, 0], hgreatest, by decide, rfl⟩] at hverdicts
    exact ⟨rest, hverdicts⟩
  · obtain ⟨verdict, rest, hverdicts, -, hok, -⟩ := hcalls earlier 3 [2, 0, 0] []
    rw [hok.mpr (by decide)] at hverdicts
    exact ⟨rest, hverdicts⟩

end OrderCheck

end UtxoWire
