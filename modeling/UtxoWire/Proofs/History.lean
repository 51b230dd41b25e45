import UtxoWire.Proofs.Family

/-!
# Reading over an existing object

An object is read by changing one that is there already, field by field.  Still no reading leaves a
mark other than what it read: one that fails leaves the object as it was, and one that succeeds
leaves nothing of what was there before.  Whatever was read over an object, and however often that
failed, it is what the last success alone would have made of an empty one.

* `Update.Replaces` — an update that does not look at the value it changes.
* `Update.applyAll` — updates of one value, one after the other, going on after failures.
* **`Update.applyAll_eq`** — a run of updates that replace leaves what the last success made.
* `Variant` — the variants of all families, each with the objects it is about.
* **`Variant.decodeInto_historyFree`** — every variant is read so, on its own and in its family.
-/

namespace UtxoWire

variable {σ τ α : Type}

namespace Update

/-! ## One update -/

/-- What becomes of a value: it is replaced, or it stays. -/
def settle (outcome : Except WireError (σ × α)) (value : σ) : Except WireError α × σ :=
  match outcome with
  | .ok (new, result) => (.ok result, new)
  | .error error => (.error error, value)

/-- The update does not look at the value it finds, among the values of a kind: it replaces all of
them by the same one of that kind, or it fails with the same error and they all stay. -/
def Replaces (kind : σ → Prop) (update : Update σ α) : Prop :=
  ∃ outcome, (∀ new result, outcome = .ok (new, result) → kind new) ∧
    ∀ value, kind value → update.apply value = settle outcome value

lemma Follows.replaces {update : Update σ Nat} {reader : Reader σ} {data : Bytes}
    (h : update.Follows reader data 0) : update.Replaces fun _ => True := by
  refine ⟨reader data, fun _ _ _ => trivial, fun value _ => ?_⟩
  rw [h value]
  cases reader data with
  | error e => rfl
  | ok p => simp [settle]

/-- An update of a part replaces the part, and the whole around it. -/
lemma Replaces.inside {update : Update τ α} {whole : Update σ α} {wrap : τ → σ}
    (h : update.Replaces fun _ => True)
    (hwhole : ∀ part, whole.apply (wrap part) = update.inside wrap part) :
    whole.Replaces fun value => ∃ part, value = wrap part := by
  rcases h with ⟨outcome, -, h⟩
  refine ⟨outcome.map fun p => (wrap p.1, p.2), ?_, ?_⟩
  · intro new result hnew
    rcases map_eq_ok.mp hnew with ⟨p, -, hp⟩
    cases hp
    exact ⟨p.1, rfl⟩
  · rintro _ ⟨part, rfl⟩
    rw [hwhole, Update.inside, h part trivial]
    cases outcome with
    | error e => rfl
    | ok p => rfl

/-! ## Runs of updates -/

/-- Updates carried out on one value, one after the other, going on after failures: what each of
them yields, and the value at the end. -/
def applyAll : List (Update σ α) → σ → List (Except WireError α) × σ
  | [], value => ([], value)
  | update :: updates, value =>
    let (outcome, value) := update.apply value
    let (outcomes, value) := applyAll updates value
    (outcome :: outcomes, value)

/-- The value that an update makes of a fresh one, if it succeeds. -/
def made (fresh : σ) (update : Update σ α) : Option σ :=
  match update.apply fresh with
  | (.ok _, new) => some new
  | (.error _, _) => none

/-- **The last success decides.**  Each update yields what it yields on a fresh value.  In the end
the value is what the last update that succeeded makes of a fresh one, or the first value if none
did. -/
theorem applyAll_eq {kind : σ → Prop} {fresh value : σ} {updates : List (Update σ α)}
    (hfresh : kind fresh) (hvalue : kind value) (h : ∀ update ∈ updates, update.Replaces kind) :
    applyAll updates value = (updates.map fun update => (update.apply fresh).1,
      (updates.filterMap (made fresh)).getLast?.getD value) := by
  -- on the updates, from whatever value the ones before have left
  induction updates generalizing value with
  | nil => rfl
  | cons update updates ih =>
      rcases List.forall_mem_cons.mp h with ⟨⟨outcome, hkind, hupdate⟩, hrest⟩
      cases outcome with
      | error e =>
          have hnone : made fresh update = none := by simp [made, hupdate fresh hfresh, settle]
          simp [applyAll, hupdate value hvalue, hupdate fresh hfresh, settle, hnone,
            ih hvalue hrest]
      | ok p =>
          rcases p with ⟨new, result⟩
          have hsome : made fresh update = some new := by
            simp [made, hupdate fresh hfresh, settle]
          simp [applyAll, hupdate value hvalue, hupdate fresh hfresh, settle, hsome,
            ih (hkind new result rfl) hrest, List.getLast?_cons]

/-- Updates of the values of a kind that leave no mark other than what they make.  There may be one
for each of many calls. -/
structure HistoryFree {ι : Type} (update : ι → Update σ α) (kind : σ → Prop) (fresh : σ) :
    Prop where
  /-- The value stays of its kind. -/
  kind_apply : ∀ call value, kind value → kind ((update call).apply value).2
  /-- A failure leaves the value as it was. -/
  eq_of_error : ∀ call value e, kind value → ((update call).apply value).1 = .error e →
    ((update call).apply value).2 = value
  /-- What a call yields, and what a success makes, does not depend on the value. -/
  outcome_eq : ∀ call value other, kind value → kind other →
    ((update call).apply value).1 = ((update call).apply other).1
  made_eq : ∀ call value other result, kind value → kind other →
    ((update call).apply value).1 = .ok result →
      ((update call).apply value).2 = ((update call).apply other).2
  /-- After any calls the value is what the last success alone makes of a fresh one. -/
  applyAll_eq : ∀ (calls : List ι) (value : σ), kind value →
    applyAll (calls.map update) value = (calls.map fun call => ((update call).apply fresh).1,
      (calls.filterMap fun call => made fresh (update call)).getLast?.getD value)

theorem HistoryFree.of_replaces {ι : Type} {update : ι → Update σ α} {kind : σ → Prop} {fresh : σ}
    (hfresh : kind fresh) (h : ∀ call, (update call).Replaces kind) :
    HistoryFree update kind fresh where
  kind_apply call value hvalue := by
    rcases h call with ⟨_ | p, hkind, hupdate⟩
    · simpa [hupdate value hvalue, settle] using hvalue
    · simpa [hupdate value hvalue, settle] using hkind p.1 p.2 rfl
  eq_of_error call value e hvalue herror := by
    rcases h call with ⟨_ | p, -, hupdate⟩
    · simp [hupdate value hvalue, settle]
    · simp [hupdate value hvalue, settle] at herror
  outcome_eq call value other hvalue hother := by
    rcases h call with ⟨_ | p, -, hupdate⟩ <;>
      simp [hupdate value hvalue, hupdate other hother, settle]
  made_eq call value other result hvalue hother hok := by
    rcases h call with ⟨_ | p, -, hupdate⟩
    · simp [hupdate value hvalue, settle] at hok
    · simp [hupdate value hvalue, hupdate other hother, settle]
  applyAll_eq calls value hvalue := by
    have hrun : ∀ u ∈ calls.map update, u.Replaces kind := List.forall_mem_map.mpr fun c _ => h c
    rw [Update.applyAll_eq hfresh hvalue hrun, List.map_map, List.filterMap_map]
    rfl

end Update

/-! ## All variants -/

/-- The variants of all families. -/
inductive Variant
  | ed25519Address
  | utxoInput
  | singleDeposit
  | wotsSignature
  | ed25519Signature
  | signatureUnlockBlock
  | referenceUnlockBlock
  | unsignedTransaction
  | signedTransaction
deriving DecidableEq

/-- One reading of an object over another. -/
structure Reading where
  mode : Mode
  data : Bytes
  params : ProtocolParameters := {}

namespace Variant

def family : Variant → Family
  | .ed25519Address => .address
  | .utxoInput => .input
  | .singleDeposit => .output
  | .wotsSignature | .ed25519Signature => .signature
  | .signatureUnlockBlock | .referenceUnlockBlock => .unlockBlock
  | .unsignedTransaction | .signedTransaction => .transaction

/-- The objects of a variant on their own. -/
def Object : Variant → Type
  | .ed25519Address => Ed25519Address
  | .utxoInput => UtxoInput
  | .singleDeposit => SingleDeposit
  | .wotsSignature => WotsSignature
  | .ed25519Signature => Ed25519Signature
  | .signatureUnlockBlock => SignatureUnlockBlock
  | .referenceUnlockBlock => ReferenceUnlockBlock
  | .unsignedTransaction => UnsignedTransaction
  | .signedTransaction => SignedTransaction

/-- The empty object of a variant. -/
def fresh : (variant : Variant) → variant.Object
  | .ed25519Address => (default : Ed25519Address)
  | .utxoInput => (default : UtxoInput)
  | .singleDeposit => (default : SingleDeposit)
  | .wotsSignature => (default : WotsSignature)
  | .ed25519Signature => (default : Ed25519Signature)
  | .signatureUnlockBlock => (default : SignatureUnlockBlock)
  | .referenceUnlockBlock => (default : ReferenceUnlockBlock)
  | .unsignedTransaction => (default : UnsignedTransaction)
  | .signedTransaction => (default : SignedTransaction)

/-- The object as one of its family. -/
def wrap : (variant : Variant) → variant.Object → variant.family.Object
  | .ed25519Address => Address.ed25519
  | .utxoInput => Input.utxo
  | .singleDeposit => Output.singleDeposit
  | .wotsSignature => Signature.wots
  | .ed25519Signature => Signature.ed25519
  | .signatureUnlockBlock => UnlockBlock.signature
  | .referenceUnlockBlock => UnlockBlock.reference
  | .unsignedTransaction => Transaction.unsigned
  | .signedTransaction => Transaction.signed

/-- Reads an object over one of the same variant. -/
def decodeInto (r : Reading) : (variant : Variant) → Update variant.Object Nat
  | .ed25519Address => Ed25519Address.decodeInto r.mode r.data
  | .utxoInput => UtxoInput.decodeInto r.mode r.data
  | .singleDeposit => SingleDeposit.decodeInto r.mode r.data
  | .wotsSignature => WotsSignature.decodeInto r.mode r.data
  | .ed25519Signature => Ed25519Signature.decodeInto r.mode r.data
  | .signatureUnlockBlock => SignatureUnlockBlock.decodeInto r.mode r.data
  | .referenceUnlockBlock => ReferenceUnlockBlock.decodeInto r.mode r.data
  | .unsignedTransaction => UnsignedTransaction.decodeInto r.params r.mode r.data
  | .signedTransaction => SignedTransaction.decodeInto r.params r.mode r.data

/-- Reads an object over one of the same family, which keeps its variant. -/
def decodeIntoFamily (r : Reading) (variant : Variant) : Update variant.family.Object Nat :=
  (variant.family.codec r.params).decodeInto r.mode r.data

lemma decodeInto_replaces (r : Reading) (variant : Variant) :
    (variant.decodeInto r).Replaces fun _ => True := by
  cases variant with
  | ed25519Address => exact (Ed25519Address.decodeInto_follows r.data).replaces
  | utxoInput => exact (UtxoInput.decodeInto_follows r.data).replaces
  | singleDeposit => exact (SingleDeposit.decodeInto_follows r.data).replaces
  | wotsSignature => exact (WotsSignature.decodeInto_follows r.mode r.data).replaces
  | ed25519Signature => exact (Ed25519Signature.decodeInto_follows r.data).replaces
  | signatureUnlockBlock => exact (SignatureUnlockBlock.decodeInto_follows r.data).replaces
  | referenceUnlockBlock => exact (ReferenceUnlockBlock.decodeInto_follows r.data).replaces
  | unsignedTransaction => exact (UnsignedTransaction.decodeInto_follows r.data).replaces
  | signedTransaction => exact (SignedTransaction.decodeInto_follows r.data).replaces

/-- A family reads over an object what the variant of the object reads over what it holds. -/
lemma decodeIntoFamily_apply (r : Reading) (variant : Variant) (object : variant.Object) :
    (variant.decodeIntoFamily r).apply (variant.wrap object)
      = (variant.decodeInto r).inside variant.wrap object := by
  cases variant <;> rfl

/-- **Readings over one object have no history.**  Whatever the variant, its first object, and the
bytes, modes and parameters of the readings: a failure leaves the object as it was, a success yields
a count and makes an object that do not depend on the one before, and after any readings the object
is what the last success alone makes of an empty one.  The same holds of the object within its
family, where it keeps its variant. -/
theorem decodeInto_historyFree (variant : Variant) :
    Update.HistoryFree (fun r => variant.decodeInto r) (fun _ => True) variant.fresh ∧
      Update.HistoryFree (fun r => variant.decodeIntoFamily r)
        (fun object => ∃ part, object = variant.wrap part) (variant.wrap variant.fresh) := by
  constructor
  · exact .of_replaces trivial fun r => variant.decodeInto_replaces r
  · refine .of_replaces ⟨variant.fresh, rfl⟩ fun r => ?_
    exact (variant.decodeInto_replaces r).inside (variant.decodeIntoFamily_apply r)

/-- The second reading is one byte short, and the first one stands. -/
example : Update.applyAll [ReferenceUnlockBlock.decodeInto .validated [1, 5, 0],
    ReferenceUnlockBlock.decodeInto .validated [1, 6]] ⟨9⟩
      = ([.ok 3, .error (.invalidLength .min 3 2)], ⟨5⟩) := rfl

end Variant

end UtxoWire
