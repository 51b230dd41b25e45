import Mathlib.Data.List.Induction
import UtxoWire.Proofs.Validator

/-!
# Calling a validator

A validator may be called with any items at any places, and go on being called after it has failed.
Run over a list it is called with the places in turn and dropped at the first failure; here nothing
of that is asked.  What a call says depends on the calls before it through what is remembered of
them, so that for each validator there is one thing to be found out: what that is.

* `Validator.stateAfter`, `Validator.accepted` — what is remembered of calls, and the items that
  were accepted.
* **`Validator.verdicts_append_cons`** — the verdict on one call of many.
* `UnlockBlock.references_stateAfter` — the check of references remembers the kinds of the blocks it
  accepted.
* `UnlockBlock.RefersBack` — the block at a place is no reference, or one to an earlier signature;
  `UnlockBlock.FirstAstray` — it is the first for which that is not so.
* **`UnlockBlock.references_verdicts`** — what the check of references says of every call, and of
  blocks that it is run over.
-/

namespace UtxoWire

variable {α : Type}

namespace Validator

variable (v : Validator α)

/-- What a validator remembers after calls, whatever became of these. -/
def stateAfter (calls : List (Nat × α)) : v.State :=
  calls.foldl (fun state call => (v.check state call.1 call.2).2) v.state

/-- What a validator says of a call after others, whatever became of these. -/
def verdictAfterCalls (earlier : List (Nat × α)) (index : Nat) (item : α) :
    Except WireError Unit :=
  (v.check (v.stateAfter earlier) index item).1

/-- The validator as it is after calls. -/
def afterCalls (calls : List (Nat × α)) : Validator α :=
  { v with state := v.stateAfter calls }

/-- The items that were accepted, in the order of the calls. -/
def accepted (calls : List (Nat × α)) : List α :=
  (calls.zip (v.verdicts calls)).filterMap fun
    | ((_, item), .ok ()) => some item
    | (_, .error _) => none

lemma stateAfter_concat (calls : List (Nat × α)) (index : Nat) (item : α) :
    v.stateAfter (calls ++ [(index, item)]) = (v.check (v.stateAfter calls) index item).2 :=
  List.foldl_concat _ _ _ _

@[simp] lemma length_verdicts (calls : List (Nat × α)) :
    (v.verdicts calls).length = calls.length := by
  induction calls generalizing v with
  | nil => rfl
  | cons call calls ih => exact congrArg (· + 1) (ih _)

lemma verdicts_append (earlier later : List (Nat × α)) :
    v.verdicts (earlier ++ later)
      = v.verdicts earlier ++ (v.afterCalls earlier).verdicts later := by
  induction earlier generalizing v with
  | nil => rfl
  | cons call earlier ih => exact congrArg (_ :: ·) (ih _)

/-- **One call of many.**  The verdict on it is that of a validator that remembers the calls before
it, and those on the later calls are of one that remembers it as well. -/
theorem verdicts_append_cons (earlier later : List (Nat × α)) (index : Nat) (item : α) :
    v.verdicts (earlier ++ (index, item) :: later) = v.verdicts earlier ++
      v.verdictAfterCalls earlier index item ::
        (v.afterCalls (earlier ++ [(index, item)])).verdicts later := by
  rw [verdicts_append, afterCalls, afterCalls, stateAfter_concat]
  rfl

/-- A call that changes nothing of what is remembered might as well not have been made. -/
lemma afterCalls_concat_of_unchanged {calls : List (Nat × α)} {index : Nat} {item : α}
    (h : (v.check (v.stateAfter calls) index item).2 = v.stateAfter calls) :
    v.afterCalls (calls ++ [(index, item)]) = v.afterCalls calls := by
  rw [afterCalls, afterCalls, stateAfter_concat, h]

/-- What is picked of calls by their verdicts grows at the end with each call. -/
lemma filterMap_zip_verdicts_concat {β : Type} (pick : (Nat × α) × Except WireError Unit → Option β)
    (calls : List (Nat × α)) (index : Nat) (item : α) :
    ((calls ++ [(index, item)]).zip (v.verdicts (calls ++ [(index, item)]))).filterMap pick
      = (calls.zip (v.verdicts calls)).filterMap pick ++
        (pick ((index, item), v.verdictAfterCalls calls index item)).toList := by
  rw [verdicts_append_cons, List.zip_append (v.length_verdicts calls).symm, List.filterMap_append]
  cases hpick : pick ((index, item), v.verdictAfterCalls calls index item) with
  | none => exact congrArg _ (List.filterMap_cons_none hpick)
  | some b => exact congrArg _ (List.filterMap_cons_some hpick)

lemma accepted_concat (calls : List (Nat × α)) (index : Nat) (item : α) :
    v.accepted (calls ++ [(index, item)]) = v.accepted calls ++
      match v.verdictAfterCalls calls index item with
      | .ok () => [item]
      | .error _ => [] := by
  rw [accepted, filterMap_zip_verdicts_concat, ← accepted]
  cases v.verdictAfterCalls calls index item with
  | ok _ => rfl
  | error e => rfl

/-- **What every call keeps holds of all verdicts.**  As long as the calls keep what is remembered
in order, each of them has a verdict that being in order allows. -/
theorem forall_mem_verdicts (inOrder : v.State → Prop) (allowed : Except WireError Unit → Prop)
    (hstep : ∀ state index item, inOrder state →
      allowed (v.check state index item).1 ∧ inOrder (v.check state index item).2)
    {state : v.State} (h : inOrder state) (calls : List (Nat × α)) :
    ∀ verdict ∈ ({ v with state } : Validator α).verdicts calls, allowed verdict := by
  induction calls generalizing state with
  | nil => exact List.forall_mem_nil _
  | cons call calls ih =>
      obtain ⟨hverdict, hrest⟩ := hstep state call.1 call.2 h
      exact List.forall_mem_cons.mpr ⟨hverdict, ih hrest⟩

end Validator

/-! ## References -/

namespace UnlockBlock

/-- The block is no reference, or one to a place below `k` at which there is a signature block among
these. -/
def RefersBack (blocks : List UnlockBlock) (k : Nat) : UnlockBlock → Prop
  | .signature _ => True
  | .reference block => block.reference.toNat < k ∧
      ∃ target, blocks[block.reference.toNat]? = some (.signature target)

lemma referenceCheck_eq_ok {blocks : List UnlockBlock} {k : Nat} {block : UnlockBlock} :
    (referenceCheck (blocks.map isSignature) k block).1 = .ok () ↔ RefersBack blocks k block := by
  cases block with
  | signature block => exact iff_of_true rfl trivial
  | reference block =>
      rw [referenceCheck_reference, RefersBack, ← getElem?_map_isSignature]
      split
      · next h => exact iff_of_true rfl h
      · next h => exact iff_of_false nofun h

/-- The kind of a block that is accepted is remembered. -/
lemma referenceCheck_of_eq_ok {kinds : List Bool} {k : Nat} {block : UnlockBlock}
    (h : (referenceCheck kinds k block).1 = .ok ()) :
    (referenceCheck kinds k block).2 = kinds ++ [block.isSignature] := by
  cases block with
  | signature block => rfl
  | reference block =>
      rw [referenceCheck_reference] at h ⊢
      split
      · rfl
      · next hnot =>
        rw [if_neg hnot] at h
        cases h

/-- A block that is refused is a reference, and leaves no trace. -/
lemma referenceCheck_of_eq_error {kinds : List Bool} {k : Nat} {block : UnlockBlock}
    {e : WireError} (h : (referenceCheck kinds k block).1 = .error e) :
    (∃ target, block = .reference ⟨target⟩ ∧ e = .invalidUnlockReference k target) ∧
      (referenceCheck kinds k block).2 = kinds := by
  cases block with
  | signature block => cases h
  | reference block =>
      rw [referenceCheck_reference] at h ⊢
      split
      · next hback =>
        rw [if_pos hback] at h
        cases h
      · next hnot =>
        rw [if_neg hnot] at h
        cases h
        exact ⟨⟨block.reference, rfl, rfl⟩, rfl⟩

/-- **The check of references remembers the kinds of the blocks it accepted**, in their order. -/
theorem references_stateAfter (calls : List (Nat × UnlockBlock)) :
    references.stateAfter calls = (references.accepted calls).map isSignature := by
  induction calls using List.reverseRecOn with
  | nil => rfl
  | append_singleton calls call ih =>
      -- what was accepted before the last call decides over it, so the calls are taken from the end
      obtain ⟨k, block⟩ := call
      rw [Validator.stateAfter_concat, Validator.accepted_concat, List.map_append, ← ih]
      cases hverdict : references.verdictAfterCalls calls k block with
      | ok _ => exact referenceCheck_of_eq_ok hverdict
      | error e => exact (referenceCheck_of_eq_error hverdict).2.trans (List.append_nil _).symm

lemma verdictAfterCalls_eq_ok {earlier : List (Nat × UnlockBlock)} {k : Nat}
    {block : UnlockBlock} : references.verdictAfterCalls earlier k block = .ok () ↔
      RefersBack (references.accepted earlier) k block := by
  rw [Validator.verdictAfterCalls, references_stateAfter]
  exact referenceCheck_eq_ok

/-! ### Blocks that are run over -/

/-- What has been accepted is remembered, and where. -/
lemma remembered_referenceCheck {kinds : List Bool} {k : Nat} {blocks : List UnlockBlock}
    (h : Validator.Passes referenceCheck kinds k blocks) :
    Validator.remembered referenceCheck kinds k blocks = kinds ++ blocks.map isSignature := by
  induction blocks generalizing kinds k with
  | nil => exact (List.append_nil _).symm
  | cons block blocks ih =>
      have hkinds := referenceCheck_of_eq_ok h.1
      rw [Validator.remembered, ih h.2, hkinds, List.append_assoc]
      rfl

lemma validate_references_iff_refersBack {blocks : List UnlockBlock} :
    validate blocks [references] = .ok () ↔
      ∀ i block, blocks[i]? = some block → RefersBack blocks i block := by
  rw [validate_references]
  constructor
  · intro h i block hi
    cases block with
    | signature block => trivial
    | reference block => exact h i block hi
  · exact fun h i block hi => h i _ hi

/-- What a reference is held against are the blocks in front of its place. -/
lemma refersBack_append {seen rest : List UnlockBlock} {k : Nat} (hk : k ≤ seen.length)
    {block : UnlockBlock} : RefersBack (seen ++ rest) k block ↔ RefersBack seen k block := by
  cases block with
  | signature block => exact Iff.rfl
  | reference block =>
      refine and_congr_right fun hlt => ?_
      rw [List.getElem?_append_left (Nat.lt_of_lt_of_le hlt hk)]

/-- The block at place `i` is the first that is a reference to something else than an earlier
signature. -/
structure FirstAstray (blocks : List UnlockBlock) (i : Nat) (target : UInt16) : Prop where
  reference : blocks[i]? = some (.reference ⟨target⟩)
  astray : ¬ RefersBack blocks i (.reference ⟨target⟩)
  before : ∀ j < i, ∀ block, blocks[j]? = some block → RefersBack blocks j block

lemma FirstAstray.unique {blocks : List UnlockBlock} {i i' : Nat} {target target' : UInt16}
    (h : FirstAstray blocks i target) (h' : FirstAstray blocks i' target') :
    i = i' ∧ target = target' := by
  rcases Nat.lt_trichotomy i i' with hlt | rfl | hlt
  · exact absurd (h'.before i hlt _ h.reference) h.astray
  · have hblock := h.reference.symm.trans h'.reference
    cases hblock
    exact ⟨rfl, rfl⟩
  · exact absurd (h.before i' hlt _ h'.reference) h'.astray

lemma firstAstray_of_validate {blocks : List UnlockBlock} {e : WireError}
    (h : validate blocks [references] = .error e) :
    ∃ i target, FirstAstray blocks i target ∧ e = .invalidUnlockReference i target := by
  obtain ⟨seen, item, rest, rfl, hseen, hrefuse⟩ := Validator.refusal_of_validate_singleton h
  have hbefore := validate_references_iff_refersBack.mp
    (Validator.validate_singleton_eq_ok.mpr hseen)
  have hitem : (referenceCheck (seen.map isSignature) seen.length item).1 = .error e := by
    have hkinds : Validator.remembered references.check references.state 0 seen
        = seen.map isSignature := remembered_referenceCheck hseen
    rwa [Validator.verdictAfter, hkinds, Nat.zero_add] at hrefuse
  obtain ⟨target, rfl, rfl⟩ := (referenceCheck_of_eq_error hitem).1
  refine ⟨seen.length, target, ⟨by simp, ?_, fun j hj block hblock => ?_⟩, rfl⟩
  · rw [refersBack_append (Nat.le_refl _), ← referenceCheck_eq_ok, hitem]
    intro haccepted
    cases haccepted
  · rw [List.getElem?_append_left hj] at hblock
    exact (refersBack_append (Nat.le_of_lt hj)).mpr (hbefore j block hblock)

/-- **The check of references remembers the kinds of the blocks it accepted, and nothing else.**
Called with any blocks at any places, going on after failures, it accepts a call exactly when the
block is a signature, or refers to a place below that of the call at which there is a signature, the
places being those of the blocks accepted so far.  A refusal tells the place of the call and the
target, and all later verdicts are as if the call had not been made.  Run over blocks it therefore
accepts them when each of them refers back to a signature, and otherwise it tells the first that
does not. -/
theorem references_verdicts :
    (∀ calls, references.stateAfter calls = (references.accepted calls).map isSignature) ∧
    (∀ earlier k block later, ∃ verdict rest,
      references.verdicts (earlier ++ (k, block) :: later)
        = references.verdicts earlier ++ verdict :: rest ∧
      (verdict = .ok () ↔ RefersBack (references.accepted earlier) k block) ∧
      ∀ e, verdict = .error e →
        (∃ target, block = .reference ⟨target⟩ ∧ e = .invalidUnlockReference k target) ∧
        references.verdicts (earlier ++ later) = references.verdicts earlier ++ rest) ∧
    ∀ blocks,
      (validate blocks [references] = .ok () ↔
        ∀ i block, blocks[i]? = some block → RefersBack blocks i block) ∧
      ∀ e, validate blocks [references] = .error e ↔
        ∃ i target, FirstAstray blocks i target ∧ e = .invalidUnlockReference i target := by
  refine ⟨references_stateAfter, fun earlier k block later => ?_,
    fun blocks => ⟨validate_references_iff_refersBack, fun e => ⟨firstAstray_of_validate, ?_⟩⟩⟩
  · refine ⟨_, _, references.verdicts_append_cons earlier later k block,
      verdictAfterCalls_eq_ok, fun e he => ?_⟩
    obtain ⟨hreference, hstate⟩ := referenceCheck_of_eq_error he
    refine ⟨hreference, ?_⟩
    rw [Validator.verdicts_append, Validator.afterCalls_concat_of_unchanged _ hstate]
  · rintro ⟨i, target, hfirst, rfl⟩
    cases hrun : validate blocks [references] with
    | ok _ =>
        exact absurd (validate_references_iff_refersBack.mp hrun i _ hfirst.reference) hfirst.astray
    | error e =>
        obtain ⟨i', target', hfirst', rfl⟩ := firstAstray_of_validate hrun
        obtain ⟨rfl, rfl⟩ := hfirst.unique hfirst'
        rfl

/-- A reference that is refused at place 5, then a signature, then the reference at place 5 again,
with an accepted block to refer to; and a run in which a reference names another. -/
theorem references_verdicts_retried :
    let signature := UnlockBlock.signature default
    let reference := UnlockBlock.reference ⟨0⟩
    (references.verdicts [(5, reference), (0, signature), (5, reference)]
        = .error (.invalidUnlockReference 5 0) ::
          references.verdicts [(0, signature), (5, reference)] ∧
      references.verdicts [(0, signature), (5, reference)] = [.ok (), .ok ()]) ∧
    validate [signature, reference, .reference ⟨1⟩] [references]
      = .error (.invalidUnlockReference 2 1) := by
  dsimp only
  obtain ⟨-, hcalls, hruns⟩ := references_verdicts
  refine ⟨⟨?_, rfl⟩, ((hruns _).2 _).mpr ⟨2, 1, ⟨rfl, ?_, ?_⟩, rfl⟩⟩
  · obtain ⟨verdict, rest, hverdicts, hok, herror⟩ :=
      hcalls [] 5 (.reference ⟨0⟩) [(0, .signature default), (5, .reference ⟨0⟩)]
    cases verdict with
    | ok _ =>
        obtain ⟨-, target, hnone⟩ := hok.mp rfl
        cases hnone
    | error e =>
        obtain ⟨⟨target, htarget, rfl⟩, hrest⟩ := herror e rfl
        cases htarget
        exact hverdicts.trans (congrArg (_ :: ·) hrest.symm)
  · rintro ⟨-, target, hsignature⟩
    cases hsignature
  · intro j hj block hblock
    obtain _ | _ | j := j
    · cases hblock
      trivial
    · cases hblock
      exact ⟨by decide, default, rfl⟩
    · omega

end UnlockBlock

end UtxoWire
