import Mathlib.Data.List.Nodup
import UtxoWire.Proofs.Address
import UtxoWire.Proofs.Signature
import UtxoWire.Transaction.Signed

/-!
# What validators accept

Validators are run together, item by item, and remember things as they go.  What they accept can be
said of each of them alone and of the items as a whole.

* `Validator.Passes` — one validator, alone, accepts all the items.
* **`Validator.runFrom_eq_ok`** — a run of several accepts exactly when each of them does alone.
* **`Validator.refusal_of_runFrom_eq_error`** — a run fails at the first refusal of one of them.
* **`Validator.validate_failsOnly`** — what a run can fail for, given what its validators can.
* `Validator.uniqueCheck_passes` — no key twice.
* `UnlockBlock.referenceCheck_passes` — every reference names an earlier signature block.
-/

namespace UtxoWire

variable {α : Type}

namespace Validator

/-- The check accepts all the items, the first of them at place `index`, when this much is
remembered. -/
def Passes {σ : Type} (check : σ → (index : Nat) → α → Except WireError Unit × σ) :
    σ → (index : Nat) → List α → Prop
  | _, _, [] => True
  | state, index, item :: items =>
    (check state index item).1 = .ok () ∧ Passes check (check state index item).2 (index + 1) items

lemma call_eq (validator : Validator α) (index : Nat) (item : α) :
    validator.call index item = ((validator.check validator.state index item).1,
      { validator with state := (validator.check validator.state index item).2 }) := rfl

/-- All validators accept an item exactly when none refuses it, and then each of them has been
called. -/
lemma callEach_eq_ok {validators validators' : List (Validator α)} {index : Nat} {item : α} :
    callEach validators index item = .ok validators' ↔
      (∀ v ∈ validators, (v.call index item).1 = .ok ()) ∧
        validators' = validators.map fun v => (v.call index item).2 := by
  induction validators generalizing validators' with
  | nil => simp [callEach, eq_comm]
  | cons validator validators ih =>
      rw [callEach]
      rcases hcall : validator.call index item with ⟨e | ⟨⟩, called⟩
      · simp [hcall]
      · cases heach : callEach validators index item with
        | error e =>
            simp only [reduceCtorEq, false_iff, not_and]
            intro hall
            have := ih.mpr ⟨fun v hv => hall v (List.mem_cons_of_mem _ hv), rfl⟩
            rw [heach] at this
            cases this
        | ok rest =>
            obtain ⟨hall, rfl⟩ := ih.mp heach
            simp only [Except.ok.injEq, List.forall_mem_cons, hcall, List.map_cons, true_and]
            exact ⟨fun h => ⟨hall, h.symm⟩, fun h => h.2.symm⟩

/-- When the validators do not all accept an item, one of them refuses it and those in front of it
accept. -/
lemma refusal_of_callEach_eq_error {validators : List (Validator α)} {index : Nat} {item : α}
    {e : WireError} (h : callEach validators index item = .error e) :
    ∃ before v after, validators = before ++ v :: after ∧
      (∀ w ∈ before, (w.call index item).1 = .ok ()) ∧ (v.call index item).1 = .error e := by
  induction validators with
  | nil => cases h
  | cons validator validators ih =>
      rw [callEach] at h
      rcases hcall : validator.call index item with ⟨e' | ⟨⟩, called⟩
      · rw [hcall] at h
        cases h
        exact ⟨[], validator, validators, rfl, List.forall_mem_nil _, by rw [hcall]⟩
      · cases heach : callEach validators index item with
        | error e' =>
            rw [hcall, heach] at h
            cases h
            obtain ⟨before, v, after, rfl, haccept, hrefuse⟩ := ih heach
            refine ⟨validator :: before, v, after, rfl, ?_, hrefuse⟩
            exact List.forall_mem_cons.mpr ⟨by rw [hcall], haccept⟩
        | ok rest =>
            rw [hcall, heach] at h
            cases h

/-- **Validators accept together what each of them accepts alone.** -/
theorem runFrom_eq_ok {index : Nat} {items : List α} {validators : List (Validator α)} :
    runFrom index items validators = .ok () ↔
      ∀ v ∈ validators, Passes v.check v.state index items := by
  induction items generalizing index validators with
  | nil => simp [runFrom, Passes]
  | cons item items ih =>
      rw [runFrom]
      cases heach : callEach validators index item with
      | error e =>
          simp only [reduceCtorEq, false_iff]
          intro hall
          have := callEach_eq_ok.mpr ⟨fun v hv => (hall v hv).1, rfl⟩
          rw [heach] at this
          cases this
      | ok called =>
          obtain ⟨hall, rfl⟩ := callEach_eq_ok.mp heach
          simp only [ih, List.forall_mem_map, call_eq]
          exact forall₂_congr fun v hv => ⟨fun h => ⟨hall v hv, h⟩, fun h => h.2⟩

lemma validate_eq_ok {items : List α} {validators : List (Validator α)} :
    validate items validators = .ok () ↔ ∀ v ∈ validators, Passes v.check v.state 0 items :=
  runFrom_eq_ok

lemma validate_singleton_eq_ok {items : List α} {v : Validator α} :
    validate items [v] = .ok () ↔ Passes v.check v.state 0 items := by
  rw [validate_eq_ok, List.forall_mem_singleton]

/-- Validators do not depend on one another: each might as well be run on its own. -/
lemma validate_cons_eq_ok {items : List α} {v w : Validator α} {validators : List (Validator α)} :
    validate items (v :: w :: validators) = .ok () ↔
      validate items [v] = .ok () ∧ validate items (w :: validators) = .ok () := by
  rw [validate_singleton_eq_ok, validate_eq_ok, validate_eq_ok, List.forall_mem_cons]

/-- What a check remembers after it has been called on items, the first of them at place `index`. -/
def remembered {σ : Type} (check : σ → (index : Nat) → α → Except WireError Unit × σ) :
    σ → (index : Nat) → List α → σ
  | state, _, [] => state
  | state, index, item :: items => remembered check (check state index item).2 (index + 1) items

/-- What a validator says of an item that it is called on after other items. -/
def verdictAfter (validator : Validator α) (index : Nat) (seen : List α) (item : α) :
    Except WireError Unit :=
  (validator.check (remembered validator.check validator.state index seen) (index + seen.length)
    item).1

/-- **A run fails at the first refusal.**  All validators accept the items before it, and on the item
itself those in front of the one that refuses accept. -/
theorem refusal_of_runFrom_eq_error {index : Nat} {items : List α}
    {validators : List (Validator α)} {e : WireError}
    (h : runFrom index items validators = .error e) :
    ∃ seen item rest before v after, items = seen ++ item :: rest ∧
      validators = before ++ v :: after ∧
      (∀ w ∈ validators, Passes w.check w.state index seen) ∧
      (∀ w ∈ before, w.verdictAfter index seen item = .ok ()) ∧
      v.verdictAfter index seen item = .error e := by
  induction items generalizing index validators with
  | nil => cases h
  | cons first items ih =>
      rw [runFrom] at h
      cases heach : callEach validators index first with
      | error e' =>
          rw [heach] at h
          cases h
          obtain ⟨before, v, after, hsplit, haccept, hrefuse⟩ := refusal_of_callEach_eq_error heach
          exact ⟨[], first, items, before, v, after, rfl, hsplit, fun _ _ => trivial, haccept,
            hrefuse⟩
      | ok called =>
          obtain ⟨hall, rfl⟩ := callEach_eq_ok.mp heach
          rw [heach] at h
          obtain ⟨seen, item, rest, before, v, after, rfl, hsplit, hpasses, haccept, hrefuse⟩ := ih h
          -- a call changes what a validator remembers, not what it checks
          obtain ⟨before, after, rfl, rfl, hafter⟩ := List.map_eq_append_iff.mp hsplit
          obtain ⟨v, after, rfl, rfl, rfl⟩ := List.map_eq_cons_iff.mp hafter
          have hplace : index + (first :: seen).length = index + 1 + seen.length := by
            rw [List.length_cons]
            omega
          refine ⟨first :: seen, item, rest, before, v, after, rfl, rfl,
            fun w hw => ⟨hall w hw, ?_⟩, fun w hw => ?_, ?_⟩
          · exact hpasses _ (List.mem_map_of_mem hw)
          · rw [verdictAfter, hplace]
            exact haccept _ (List.mem_map_of_mem hw)
          · rw [verdictAfter, hplace]
            exact hrefuse

/-- A validator that is run alone fails on the first item that it refuses. -/
lemma refusal_of_validate_singleton {items : List α} {v : Validator α} {e : WireError}
    (h : validate items [v] = .error e) :
    ∃ seen item rest, items = seen ++ item :: rest ∧ Passes v.check v.state 0 seen ∧
      v.verdictAfter 0 seen item = .error e := by
  obtain ⟨seen, item, rest, before, w, after, rfl, hsplit, hpasses, -, hrefuse⟩ :=
    refusal_of_runFrom_eq_error h
  have hw : w ∈ [v] := hsplit ▸ List.mem_append_cons_self
  obtain rfl := List.mem_singleton.mp hw
  exact ⟨seen, item, rest, rfl, hpasses w hw, hrefuse⟩

/-- A failure of a run is the failure of one of the validators on one of the items, whatever it
remembers by then. -/
theorem check_of_runFrom_eq_error {index : Nat} {items : List α} {validators : List (Validator α)}
    {e : WireError} (h : runFrom index items validators = .error e) :
    ∃ v ∈ validators, ∃ state i, ∃ item ∈ items, (v.check state i item).1 = .error e := by
  obtain ⟨seen, item, rest, before, v, after, rfl, rfl, -, -, hrefuse⟩ :=
    refusal_of_runFrom_eq_error h
  exact ⟨v, List.mem_append_cons_self, _, _, item, List.mem_append_cons_self, hrefuse⟩

lemma passes_append {σ : Type} {check : σ → (index : Nat) → α → Except WireError Unit × σ}
    {state : σ} {index : Nat} {seen rest : List α} :
    Passes check state index (seen ++ rest) ↔ Passes check state index seen ∧
      Passes check (remembered check state index seen) (index + seen.length) rest := by
  induction seen generalizing state index with
  | nil => simp [Passes, remembered]
  | cons item seen ih =>
      have hplace : index + (item :: seen).length = index + 1 + seen.length := by
        rw [List.length_cons]
        omega
      rw [List.cons_append, Passes, Passes, remembered, ih, hplace, and_assoc]

/-- **A run fails for what its validators fail for**, and a validator that accepts all the items on
its own is none that fails. -/
theorem validate_failsOnly {kind : WireError → Prop} {items : List α}
    {validators : List (Validator α)}
    (h : ∀ v ∈ validators, Passes v.check v.state 0 items ∨
      ∀ state i, ∀ item ∈ items, FailsOnly kind (v.check state i item).1) :
    FailsOnly kind (validate items validators) := by
  intro e he
  obtain ⟨seen, item, rest, before, v, after, rfl, rfl, -, -, hrefuse⟩ :=
    refusal_of_runFrom_eq_error he
  rcases h v List.mem_append_cons_self with hpasses | hfails
  · -- it has been called on the same items before, so it would have accepted this one
    have haccept : v.verdictAfter 0 seen item = .ok () := (passes_append.mp hpasses).2.1
    rw [haccept] at hrefuse
    cases hrefuse
  · exact hfails _ _ item List.mem_append_cons_self e hrefuse

/-! ## No key twice -/

/-- The check for repeated keys, on what has been seen so far. -/
def uniqueCheck (key : α → Except WireError (Option Bytes)) (duplicate : Nat → Nat → WireError) :
    Seen → (index : Nat) → α → Except WireError Unit × Seen :=
  (unique key duplicate).check

variable {key : α → Except WireError (Option Bytes)} {duplicate : Nat → Nat → WireError}

lemma uniqueCheck_apply (seen : Seen) (index : Nat) (item : α) :
    uniqueCheck key duplicate seen index item = match key item with
      | .error error => (.error error, seen)
      | .ok none => (.ok (), seen)
      | .ok (some key) =>
        match seen.place? key with
        | some first => (.error (duplicate index first), seen)
        | none => (.ok (), (key, index) :: seen) := rfl

lemma place?_cons_eq_none {seen : Seen} {key key' : Bytes} {index : Nat} :
    Seen.place? ((key, index) :: seen) key' = none ↔ key' ≠ key ∧ seen.place? key' = none := by
  rw [Seen.place?, Seen.place?, List.lookup_cons]
  by_cases h : key' = key
  · simp [h]
  · simp [h, beq_false_of_ne h]

/-- The check for repeated keys accepts items that have no failing key, none with the same key as an
earlier one, and none with a key seen before. -/
theorem uniqueCheck_passes {seen : Seen} {index : Nat} {items : List α} :
    Passes (uniqueCheck key duplicate) seen index items ↔
      (∀ item ∈ items, ∃ k, key item = .ok k) ∧
        items.Pairwise (fun a b => ∀ k, key a = .ok (some k) → key b ≠ .ok (some k)) ∧
        ∀ item ∈ items, ∀ k, key item = .ok (some k) → seen.place? k = none := by
  induction items generalizing seen index with
  | nil => simp [Passes]
  | cons item items ih =>
      simp only [Passes, uniqueCheck_apply, List.forall_mem_cons, List.pairwise_cons]
      cases hkey : key item with
      | error e => simp
      | ok k =>
          cases k with
          | none => simp [ih]
          | some k =>
              cases hplace : seen.place? k with
              | some first => simp [hplace]
              | none =>
                  simp only [ih, place?_cons_eq_none, hplace, true_and, Except.ok.injEq,
                    Option.some.injEq, exists_eq', forall_eq']
                  constructor
                  · rintro ⟨hkeys, hpairs, hseen⟩
                    exact ⟨hkeys, ⟨fun b hb hk => (hseen b hb k hk).1 rfl, hpairs⟩,
                      fun b hb k' hk => (hseen b hb k' hk).2⟩
                  · rintro ⟨hkeys, ⟨hnew, hpairs⟩, hseen⟩
                    exact ⟨hkeys, hpairs, fun b hb k' hk =>
                      ⟨fun h => hnew b hb (h ▸ hk), hseen b hb k' hk⟩⟩

/-- The check for repeated keys fails for a key that cannot be found, or for a repetition. -/
lemma uniqueCheck_eq_error {seen : Seen} {index : Nat} {item : α} {e : WireError}
    (h : (uniqueCheck key duplicate seen index item).1 = .error e) :
    key item = .error e ∨ ∃ first, e = duplicate index first := by
  rw [uniqueCheck_apply] at h
  cases hkey : key item with
  | error e' =>
      rw [hkey] at h
      cases h
      exact .inl rfl
  | ok k =>
      cases k with
      | none => simp [hkey] at h
      | some k =>
          cases hplace : seen.place? k with
          | none => simp [hkey, hplace] at h
          | some first =>
              simp only [hkey, hplace, Except.error.injEq] at h
              exact .inr ⟨first, h.symm⟩

lemma unique_failsOnly {kind : WireError → Prop} {seen : Seen} {index : Nat} {item : α}
    (hkey : FailsOnly kind (key item)) (hduplicate : ∀ first, kind (duplicate index first)) :
    FailsOnly kind (uniqueCheck key duplicate seen index item).1 := by
  intro e he
  rcases uniqueCheck_eq_error he with h | ⟨first, rfl⟩
  · exact hkey e h
  · exact hduplicate first

lemma validate_unique_failsOnly {kind : WireError → Prop} {items : List α}
    (hkey : ∀ item ∈ items, FailsOnly kind (key item))
    (hduplicate : ∀ index first, kind (duplicate index first)) :
    FailsOnly kind (validate items [unique key duplicate]) := by
  refine validate_failsOnly fun v hv => .inr fun seen index item hitem => ?_
  obtain rfl := List.mem_singleton.mp hv
  exact unique_failsOnly (hkey item hitem) (hduplicate index)

lemma validate_unique {items : List α} :
    validate items [unique key duplicate] = .ok () ↔
      (∀ item ∈ items, ∃ k, key item = .ok k) ∧
        items.Pairwise fun a b => ∀ k, key a = .ok (some k) → key b ≠ .ok (some k) := by
  have hrun : validate items [unique key duplicate] = .ok () ↔
      Passes (uniqueCheck key duplicate) [] 0 items :=
    validate_singleton_eq_ok
  rw [hrun, uniqueCheck_passes]
  simp [Seen.place?]

/-- Where no key fails, repeated keys are all that is refused. -/
lemma duplicate_of_uniqueCheck {seen : Seen} {index : Nat} {item : α} {key : α → Bytes}
    {e : WireError}
    (h : (uniqueCheck (fun item => .ok (some (key item))) duplicate seen index item).1 = .error e) :
    ∃ first, e = duplicate index first := by
  rcases uniqueCheck_eq_error h with hkey | hduplicate
  · cases hkey
  · exact hduplicate

lemma duplicate_of_validate_unique {items : List α} {key : α → Bytes} {e : WireError}
    (h : validate items [unique (fun item => .ok (some (key item))) duplicate] = .error e) :
    ∃ index first, e = duplicate index first := by
  obtain ⟨v, hv, seen, index, item, -, hrefuse⟩ := check_of_runFrom_eq_error h
  rw [List.mem_singleton] at hv
  subst hv
  exact ⟨index, duplicate_of_uniqueCheck hrefuse⟩

end Validator

/-! ## Inputs and outputs -/

lemma Input.validate_uniqueReferences {inputs : List Input} :
    validate inputs [uniqueReferences] = .ok () ↔ (inputs.map reference).Nodup := by
  rw [uniqueReferences, Validator.validate_unique, List.Nodup, List.pairwise_map]
  simp [eq_comm]

lemma Output.validate_uniqueAddresses {outputs : List Output} :
    validate outputs [uniqueAddresses] = .ok () ↔ (outputs.map address).Nodup := by
  rw [uniqueAddresses, Validator.validate_unique, List.Nodup, List.pairwise_map]
  simp [eq_comm, Address.encode_injective.eq_iff]

/-! ## Unlock blocks -/

namespace UnlockBlock

/-- The signature that a block holds, if it holds one. -/
def signature? : UnlockBlock → Option Signature
  | .signature block => some block.signature
  | .reference _ => none

/-- The check of references, on the kinds of the blocks accepted so far. -/
def referenceCheck : List Bool → (index : Nat) → UnlockBlock → Except WireError Unit × List Bool :=
  references.check

lemma referenceCheck_signature (kinds : List Bool) (index : Nat) (block : SignatureUnlockBlock) :
    referenceCheck kinds index (.signature block) = (.ok (), kinds ++ [true]) := rfl

lemma referenceCheck_reference (kinds : List Bool) (index : Nat) (block : ReferenceUnlockBlock) :
    referenceCheck kinds index (.reference block) =
      if block.reference.toNat < index ∧ kinds[block.reference.toNat]? = some true then
        (.ok (), kinds ++ [false])
      else (.error (.invalidUnlockReference index block.reference), kinds) := rfl

lemma referenceCheck_failsOnly {kind : WireError → Prop}
    (hkind : ∀ index reference, kind (.invalidUnlockReference index reference)) (kinds : List Bool)
    (index : Nat) (block : UnlockBlock) : FailsOnly kind (referenceCheck kinds index block).1 := by
  cases block with
  | signature block => exact .ok ()
  | reference block =>
      rw [referenceCheck_reference]
      split
      · exact .ok ()
      · exact .error (hkind _ _)

lemma getElem?_map_isSignature {blocks : List UnlockBlock} {i : Nat} :
    (blocks.map isSignature)[i]? = some true ↔ ∃ block, blocks[i]? = some (.signature block) := by
  rw [List.getElem?_map, Option.map_eq_some_iff]
  constructor
  · rintro ⟨block, hi, hkind⟩
    cases block with
    | signature block => exact ⟨block, hi⟩
    | reference block => cases hkind
  · rintro ⟨block, hi⟩
    exact ⟨_, hi, rfl⟩

/-- The check of references accepts blocks of which each reference names an earlier place with a
signature block, the places counted from the blocks before. -/
theorem referenceCheck_passes {kinds : List Bool} {blocks : List UnlockBlock} :
    Validator.Passes referenceCheck kinds kinds.length blocks ↔
      ∀ i block, blocks[i]? = some (.reference block) →
        block.reference.toNat < kinds.length + i ∧
          (kinds ++ blocks.map isSignature)[block.reference.toNat]? = some true := by
  induction blocks generalizing kinds with
  | nil => simp [Validator.Passes]
  | cons block blocks ih =>
      have hrest : ∀ kind, Validator.Passes referenceCheck (kinds ++ [kind]) (kinds.length + 1)
          blocks ↔ ∀ i block, blocks[i]? = some (.reference block) →
            block.reference.toNat < kinds.length + (i + 1) ∧
              (kinds ++ kind :: blocks.map isSignature)[block.reference.toNat]? = some true := by
        intro kind
        have h := @ih (kinds ++ [kind])
        rw [List.length_append, List.length_singleton] at h
        simpa only [List.append_assoc, List.singleton_append, Nat.add_assoc, Nat.add_comm 1] using h
      rw [Validator.Passes, ← Nat.and_forall_add_one]
      cases block with
      | signature block =>
          simp [referenceCheck_signature, hrest, isSignature]
      | reference block =>
          simp only [List.getElem?_cons_zero, Option.some.injEq, UnlockBlock.reference.injEq,
            forall_eq', List.getElem?_cons_succ, Nat.add_zero, List.map_cons]
          by_cases hearlier : block.reference.toNat < kinds.length
          · rw [referenceCheck_reference, List.getElem?_append_left hearlier]
            split
            · next h => simp only [hrest, h, isSignature, true_and, and_self]
            · next h => simp [h]
          · simp [referenceCheck_reference, hearlier]

lemma validate_references {blocks : List UnlockBlock} :
    validate blocks [references] = .ok () ↔
      ∀ (i : Nat) (block : ReferenceUnlockBlock), blocks[i]? = some (.reference block) →
        block.reference.toNat < i ∧
          ∃ target, blocks[block.reference.toNat]? = some (.signature target) := by
  have hrun : validate blocks [references] = .ok () ↔ Validator.Passes referenceCheck [] 0 blocks :=
    Validator.validate_singleton_eq_ok
  have hpasses := @referenceCheck_passes [] blocks
  simp only [List.length_nil, Nat.zero_add, List.nil_append, getElem?_map_isSignature] at hpasses
  rw [hrun, hpasses]

/-- What two blocks with the same signature have in common. -/
def signatureKey : UnlockBlock → Except WireError (Option Bytes)
  | .signature block => block.signature.encode.map some
  | .reference _ => .ok none

lemma signatureKey_eq_ok {block : UnlockBlock} {bytes : Bytes} :
    block.signatureKey = .ok (some bytes) ↔
      ∃ s, block.signature? = some s ∧ s.encode = .ok bytes := by
  cases block <;> simp [signatureKey, signature?, map_eq_ok]

lemma exists_signatureKey {block : UnlockBlock} :
    (∃ k, block.signatureKey = .ok k) ↔
      ∀ s, block.signature? = some s → ∃ bytes, s.encode = .ok bytes := by
  cases block <;> simp [signatureKey, signature?, map_eq_ok]

/-- No signature is carried twice, among blocks whose signatures have wire forms. -/
theorem validate_uniqueSignatures {blocks : List UnlockBlock} :
    validate blocks [uniqueSignatures] = .ok () ↔
      (∀ block ∈ blocks, ∀ s, block.signature? = some s → ∃ bytes, s.encode = .ok bytes) ∧
        (blocks.filterMap signature?).Nodup := by
  have hunique : uniqueSignatures = .unique signatureKey .duplicateSignature := rfl
  rw [hunique, Validator.validate_unique]
  simp only [exists_signatureKey]
  refine and_congr_right fun hencode => ?_
  rw [List.Nodup, List.pairwise_filterMap]
  refine List.Pairwise.iff_of_mem fun {a b} ha hb => ?_
  simp only [signatureKey_eq_ok, ne_eq]
  constructor
  · rintro hkeys s hs _ ht rfl
    obtain ⟨bytes, he⟩ := hencode a ha s hs
    exact hkeys bytes ⟨s, hs, he⟩ ⟨s, ht, he⟩
  · rintro hne bytes ⟨s, hs, he⟩ ⟨t, ht, he'⟩
    exact hne s hs t ht (Signature.encode_injective he he')

lemma signatureKey_failsOnly {kind : WireError → Prop} (hkind : kind WotsSignature.unimplemented)
    (block : UnlockBlock) : FailsOnly kind block.signatureKey := by
  intro e he
  cases block with
  | signature block =>
      obtain ⟨signature⟩ := block
      cases signature with
      | wots signature =>
          cases he
          exact hkind
      | ed25519 signature => cases he
  | reference block => cases he

/-- What is asked of the unlock blocks of a transaction with this many inputs. -/
structure Unlocks (inputs : Nat) (blocks : List UnlockBlock) : Prop where
  length_eq : blocks.length = inputs
  reference_lt : ∀ (i : Nat) (block : ReferenceUnlockBlock),
    blocks[i]? = some (.reference block) → block.reference.toNat < i ∧
      ∃ target, blocks[block.reference.toNat]? = some (.signature target)
  nodup : (blocks.filterMap signature?).Nodup

end UnlockBlock

/-- The check of unlock blocks passes exactly when the blocks unlock the inputs and their signatures
have wire forms. -/
theorem checkUnlockBlocks_eq_ok {inputs : List Input} {blocks : List UnlockBlock} :
    checkUnlockBlocks inputs blocks = .ok () ↔
      UnlockBlock.Unlocks inputs.length blocks ∧
        ∀ block ∈ blocks, ∀ s, block.signature? = some s → ∃ bytes, s.encode = .ok bytes := by
  rw [checkUnlockBlocks, check_bind_eq_ok, require_eq_ok, Validator.validate_cons_eq_ok,
    UnlockBlock.validate_references, UnlockBlock.validate_uniqueSignatures]
  constructor
  · rintro ⟨hlen, hrefs, hencode, hnodup⟩
    exact ⟨⟨hlen, hrefs, hnodup⟩, hencode⟩
  · rintro ⟨⟨hlen, hrefs, hnodup⟩, hencode⟩
    exact ⟨hlen, hrefs, hencode, hnodup⟩

/-- The check of unlock blocks fails for the three rules it is made of, or over a signature that it
cannot find the key of. -/
lemma checkUnlockBlocks_failsOnly {kind : WireError → Prop} {inputs : List Input}
    {blocks : List UnlockBlock} (hcount : ∀ n m, kind (.unlockBlockCountMismatch n m))
    (hreference : ∀ index reference, kind (.invalidUnlockReference index reference))
    (hduplicate : ∀ index first, kind (.duplicateSignature index first))
    (hkey : ∀ block ∈ blocks, FailsOnly kind block.signatureKey) :
    FailsOnly kind (checkUnlockBlocks inputs blocks) := by
  refine .bind (.require (hcount _ _)) fun _ => Validator.validate_failsOnly fun v hv =>
    .inr fun state i block hblock => ?_
  rcases List.mem_pair.mp hv with rfl | rfl
  · exact UnlockBlock.referenceCheck_failsOnly hreference state i block
  · exact Validator.unique_failsOnly (hkey block hblock) (hduplicate i)

end UtxoWire
