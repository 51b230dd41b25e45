import UtxoWire.Proofs.Transaction.Encodable
import UtxoWire.Proofs.Validator.Calls

/-!
# Repetitions

The checks that no key comes twice remember a key with the place it was first seen at.  They may be
called with any items at any places, and go on being called after a refusal; still what they
remember of a key is the place of the very first call with it, so that a repetition is always
reported against that one.

* `Validator.FirstSeenAt` — the first of some calls on an item with a mark was at this place.
* `Validator.ReportsRepetitions` — a validator tells items apart by their marks, and names the first
  with the same mark.
* **`Validator.unique_reportsRepetitions`** — the check that no key comes twice does so with keys.
* `Validator.ReportsRepetitions.of_code` — and with whatever keys stand for.
* **`uniqueness_reportsRepetitions`** — the checks of inputs, outputs and unlock blocks, and what
  they tell these apart by.
-/

namespace UtxoWire

variable {α β : Type}

namespace Validator

/-! ## Marks -/

section

variable (mark : α → Except WireError (Option β)) (m : β)

/-- None of the calls was on an item with the mark. -/
def Unseen (calls : List (Nat × α)) : Prop :=
  ∀ call ∈ calls, mark call.2 ≠ .ok (some m)

/-- The first of the calls on an item with the mark was at the place `first`. -/
def FirstSeenAt (calls : List (Nat × α)) (first : Nat) : Prop :=
  ∃ before item after, calls = before ++ (first, item) :: after ∧ mark item = .ok (some m) ∧
    Unseen mark m before

/-- The place of a call on an item with the mark. -/
def placeOf? [DecidableEq β] (call : Nat × α) : Option Nat :=
  if mark call.2 = .ok (some m) then some call.1 else none

end

/-- Called with any items at any places, going on after failures, the validator tells items apart by
their marks.  An item with a mark that has not come before is accepted; one with a mark that has is
refused, with its own place and the place of the first call with that mark.  An item without a mark
is accepted, and one whose mark cannot be found fails for that; neither leaves a trace. -/
def ReportsRepetitions (v : Validator α) (mark : α → Except WireError (Option β))
    (duplicate : (index duplicateOf : Nat) → WireError) : Prop :=
  ∀ earlier index item later, ∃ verdict rest,
    v.verdicts (earlier ++ (index, item) :: later) = v.verdicts earlier ++ verdict :: rest ∧
    match mark item with
    | .ok (some m) =>
        (Unseen mark m earlier ∧ verdict = .ok ()) ∨
          ∃ first, FirstSeenAt mark m earlier first ∧ verdict = .error (duplicate index first)
    | .ok none => verdict = .ok () ∧ v.verdicts (earlier ++ later) = v.verdicts earlier ++ rest
    | .error e => verdict = .error e ∧ v.verdicts (earlier ++ later) = v.verdicts earlier ++ rest

section

variable [DecidableEq β] {mark : α → Except WireError (Option β)} {m : β} {calls : List (Nat × α)}

lemma placeOf?_eq_some {call : Nat × α} {place : Nat} :
    placeOf? mark m call = some place ↔ mark call.2 = .ok (some m) ∧ call.1 = place := by
  rw [placeOf?, Option.ite_none_right_eq_some, Option.some.injEq]

lemma placeOf?_eq_none {call : Nat × α} :
    placeOf? mark m call = none ↔ mark call.2 ≠ .ok (some m) := by
  simp [placeOf?]

lemma findSome?_eq_none_iff_unseen :
    calls.findSome? (placeOf? mark m) = none ↔ Unseen mark m calls := by
  simp only [List.findSome?_eq_none_iff, placeOf?_eq_none, Unseen]

lemma firstSeenAt_of_findSome? {first : Nat} (h : calls.findSome? (placeOf? mark m) = some first) :
    FirstSeenAt mark m calls first := by
  obtain ⟨before, ⟨place, item⟩, after, rfl, hplace, hbefore⟩ := List.findSome?_eq_some_iff.mp h
  obtain ⟨hmark, rfl⟩ := placeOf?_eq_some.mp hplace
  exact ⟨before, item, after, rfl, hmark,
    fun call hcall => placeOf?_eq_none.mp (hbefore call hcall)⟩

end

/-! ## The check that no key comes twice -/

section

variable {key : α → Except WireError (Option Bytes)} {duplicate : Nat → Nat → WireError}
  {seen : Seen} {index : Nat} {item : α} {k : Bytes}

lemma uniqueCheck_of_error {e : WireError} (h : key item = .error e) :
    uniqueCheck key duplicate seen index item = (.error e, seen) := by
  rw [uniqueCheck_apply, h]

lemma uniqueCheck_of_none (h : key item = .ok none) :
    uniqueCheck key duplicate seen index item = (.ok (), seen) := by
  rw [uniqueCheck_apply, h]

lemma uniqueCheck_of_seen {first : Nat} (h : key item = .ok (some k))
    (hplace : seen.place? k = some first) :
    uniqueCheck key duplicate seen index item = (.error (duplicate index first), seen) := by
  simp only [uniqueCheck_apply, h, hplace]

lemma uniqueCheck_of_unseen (h : key item = .ok (some k)) (hplace : seen.place? k = none) :
    uniqueCheck key duplicate seen index item = (.ok (), (k, index) :: seen) := by
  simp only [uniqueCheck_apply, h, hplace]

/-- One call: what is remembered of a key is what was remembered before it, or else the place of the
call if its item has the key. -/
lemma place?_uniqueCheck :
    Seen.place? (uniqueCheck key duplicate seen index item).2 k
      = (seen.place? k).or (placeOf? key k (index, item)) := by
  by_cases hk : key item = .ok (some k)
  · have hhere : placeOf? key k (index, item) = some index := placeOf?_eq_some.mpr ⟨hk, rfl⟩
    rw [hhere]
    cases hplace : seen.place? k with
    | some first => rw [uniqueCheck_of_seen hk hplace, hplace, Option.some_or]
    | none => simp [uniqueCheck_of_unseen hk hplace, Seen.place?]
  · have helsewhere : placeOf? key k (index, item) = none := placeOf?_eq_none.mpr hk
    rw [helsewhere, Option.or_none]
    cases hitem : key item with
    | error e => rw [uniqueCheck_of_error hitem]
    | ok other =>
        cases other with
        | none => rw [uniqueCheck_of_none hitem]
        | some k' =>
            have hne : k ≠ k' := fun h => hk (h ▸ hitem)
            cases hplace : seen.place? k' with
            | some first => rw [uniqueCheck_of_seen hitem hplace]
            | none =>
                rw [uniqueCheck_of_unseen hitem hplace, Seen.place?, Seen.place?,
                  List.lookup_cons, beq_false_of_ne hne]

/-- What the check that no key comes twice remembers of calls. -/
def seenAfter (key : α → Except WireError (Option Bytes)) (duplicate : Nat → Nat → WireError)
    (calls : List (Nat × α)) : Seen :=
  (unique key duplicate).stateAfter calls

/-- **Of every key the place of the first call with it is remembered**, whatever became of the
calls. -/
theorem place?_seenAfter (calls : List (Nat × α)) (k : Bytes) :
    (seenAfter key duplicate calls).place? k = calls.findSome? (placeOf? key k) := by
  induction calls using List.reverseRecOn with
  | nil => rfl
  | append_singleton calls call ih =>
      -- the last call adds to what the calls before it have left
      have hstep : seenAfter key duplicate (calls ++ [call])
          = (uniqueCheck key duplicate (seenAfter key duplicate calls) call.1 call.2).2 :=
        stateAfter_concat _ _ _ _
      rw [hstep, place?_uniqueCheck, ih, List.findSome?_append, List.findSome?_singleton]

lemma unique_verdictAfterCalls (earlier : List (Nat × α)) (index : Nat) (item : α) :
    (unique key duplicate).verdictAfterCalls earlier index item
      = (uniqueCheck key duplicate (seenAfter key duplicate earlier) index item).1 := rfl

/-- After a call that adds nothing to what has been seen the verdicts are as if it had not been
made. -/
lemma unique_verdicts_of_unchanged {earlier : List (Nat × α)}
    (h : (uniqueCheck key duplicate (seenAfter key duplicate earlier) index item).2
      = seenAfter key duplicate earlier) (later : List (Nat × α)) :
    (unique key duplicate).verdicts (earlier ++ later)
      = (unique key duplicate).verdicts earlier ++
        ((unique key duplicate).afterCalls (earlier ++ [(index, item)])).verdicts later := by
  rw [verdicts_append, afterCalls_concat_of_unchanged _ h]

/-- **The check that no key comes twice reports every repetition against the first item with the
key.** -/
theorem unique_reportsRepetitions (key : α → Except WireError (Option Bytes))
    (duplicate : Nat → Nat → WireError) :
    (unique key duplicate).ReportsRepetitions key duplicate := by
  intro earlier index item later
  refine ⟨_, _, verdicts_append_cons _ earlier later index item, ?_⟩
  rw [unique_verdictAfterCalls]
  cases hkey : key item with
  | error e =>
      have hcheck : uniqueCheck key duplicate (seenAfter key duplicate earlier) index item
          = (.error e, seenAfter key duplicate earlier) := uniqueCheck_of_error hkey
      exact ⟨congrArg Prod.fst hcheck,
        unique_verdicts_of_unchanged (congrArg Prod.snd hcheck) later⟩
  | ok other =>
      cases other with
      | none =>
          have hcheck : uniqueCheck key duplicate (seenAfter key duplicate earlier) index item
              = (.ok (), seenAfter key duplicate earlier) := uniqueCheck_of_none hkey
          exact ⟨congrArg Prod.fst hcheck,
            unique_verdicts_of_unchanged (congrArg Prod.snd hcheck) later⟩
      | some k =>
          have hremembered : (seenAfter key duplicate earlier).place? k
              = earlier.findSome? (placeOf? key k) := place?_seenAfter earlier k
          cases hplace : earlier.findSome? (placeOf? key k) with
          | none =>
              rw [uniqueCheck_of_unseen hkey (hremembered.trans hplace)]
              exact .inl ⟨findSome?_eq_none_iff_unseen.mp hplace, rfl⟩
          | some first =>
              rw [uniqueCheck_of_seen hkey (hremembered.trans hplace)]
              exact .inr ⟨first, firstSeenAt_of_findSome? hplace, rfl⟩

/-- Keys may be replaced by what they stand for, if they stand for one thing only. -/
lemma ReportsRepetitions.of_code {v : Validator α} {mark : α → Except WireError (Option β)}
    (code : β → Bytes) (hcode : Function.Injective code) (h : v.ReportsRepetitions key duplicate)
    (hkey : ∀ item, key item = (mark item).map (Option.map code)) :
    v.ReportsRepetitions mark duplicate := by
  have hmark : ∀ item m, key item = .ok (some (code m)) ↔ mark item = .ok (some m) := by
    intro item m
    simp [hkey, map_eq_ok, hcode.eq_iff]
  have hunseen : ∀ m calls, Unseen key (code m) calls ↔ Unseen mark m calls := by
    intro m calls
    simp only [Unseen, ne_eq, hmark]
  intro earlier index item later
  obtain ⟨verdict, rest, hverdicts, hverdict⟩ := h earlier index item later
  refine ⟨verdict, rest, hverdicts, ?_⟩
  rw [hkey] at hverdict
  cases hitem : mark item with
  | error e =>
      rw [hitem] at hverdict
      exact hverdict
  | ok other =>
      rw [hitem] at hverdict
      cases other with
      | none => exact hverdict
      | some m =>
          rcases hverdict with ⟨hfresh, hok⟩ | ⟨first, ⟨before, item', after, rfl, hitem', hbefore⟩,
            herror⟩
          · exact .inl ⟨(hunseen m _).mp hfresh, hok⟩
          · exact .inr ⟨first, ⟨before, item', after, rfl, (hmark item' m).mp hitem',
              (hunseen m before).mp hbefore⟩, herror⟩

end

end Validator

/-! ## What items are told apart by -/

/-- The bytes that stand for a spent output. -/
def Input.code (spent : TransactionId × UInt16) : Bytes :=
  UtxoInput.reference ⟨spent.1, spent.2⟩

lemma Input.code_injective : Function.Injective code := by
  intro spent spent' h
  have hsame : outpoint (.utxo ⟨spent.1, spent.2⟩) = outpoint (.utxo ⟨spent'.1, spent'.2⟩) :=
    reference_eq_iff.mp h
  exact hsame

/-- The public key and the signature that a block carries.  A reference carries none, and a one-time
signature has no bytes to be told apart by. -/
def UnlockBlock.credentials :
    UnlockBlock → Except WireError (Option (FixedBytes 32 × FixedBytes 64))
  | .signature ⟨.ed25519 s⟩ => .ok (some (s.publicKey, s.signature))
  | .signature ⟨.wots _⟩ => .error WotsSignature.unimplemented
  | .reference _ => .ok none

/-- The bytes that stand for a public key and a signature. -/
def Ed25519Signature.code (credentials : FixedBytes 32 × FixedBytes 64) : Bytes :=
  Ed25519Signature.encode ⟨credentials.1, credentials.2⟩

lemma Ed25519Signature.code_injective : Function.Injective code := by
  rintro ⟨key, signature⟩ ⟨key', signature'⟩ h
  have hsame : Signature.ed25519 ⟨key, signature⟩ = .ed25519 ⟨key', signature'⟩ :=
    Signature.encode_injective (congrArg _ h) rfl
  cases hsame
  rfl

lemma UnlockBlock.signatureKey_eq (block : UnlockBlock) :
    block.signatureKey = block.credentials.map (Option.map Ed25519Signature.code) := by
  rcases block with ⟨⟨⟨⟩ | s⟩⟩ | ⟨target⟩
  all_goals rfl

lemma UnlockBlock.signatureKey_eq_iff {a b : UnlockBlock} :
    a.signatureKey = b.signatureKey ↔ a.credentials = b.credentials := by
  rw [signatureKey_eq, signatureKey_eq]
  refine ⟨fun h => ?_, fun h => congrArg _ h⟩
  have hinjective := Option.map_injective Ed25519Signature.code_injective
  cases ha : a.credentials with
  | error e =>
      rw [ha] at h
      exact (map_eq_error.mp h.symm).symm
  | ok c =>
      rw [ha] at h
      obtain ⟨d, hb, hd⟩ := map_eq_ok.mp h.symm
      rw [hb, hinjective hd]

/-! ## The three checks -/

/-- **A repetition is always reported against the first of its kind.**  Inputs are told apart by the
outputs that they spend, outputs by their addresses, and unlock blocks by the public keys and
signatures that they carry: reference blocks carry none and are passed over, and a one-time
signature is refused as such and forgotten.  The bytes that the checks remember are the same exactly
for what is the same in these respects. -/
theorem uniqueness_reportsRepetitions :
    (Input.uniqueReferences.ReportsRepetitions (fun input => .ok (some input.outpoint))
        .duplicateReference ∧
      ∀ a b : Input, a.reference = b.reference ↔ a.outpoint = b.outpoint) ∧
    (Output.uniqueAddresses.ReportsRepetitions (fun output => .ok (some output.address))
        .duplicateDeposit ∧
      ∀ a b : Output, a.address.encode = b.address.encode ↔ a.address = b.address) ∧
    (UnlockBlock.uniqueSignatures.ReportsRepetitions UnlockBlock.credentials .duplicateSignature ∧
      ∀ a b : UnlockBlock, a.signatureKey = b.signatureKey ↔ a.credentials = b.credentials) := by
  refine ⟨⟨?_, fun a b => Input.reference_eq_iff⟩,
    ⟨?_, fun a b => Address.encode_injective.eq_iff⟩,
    ⟨?_, fun a b => UnlockBlock.signatureKey_eq_iff⟩⟩
  · refine .of_code Input.code Input.code_injective
      (Validator.unique_reportsRepetitions _ _) fun input => ?_
    cases input
    rfl
  · exact .of_code Address.encode Address.encode_injective
      (Validator.unique_reportsRepetitions _ _) fun _ => rfl
  · exact .of_code Ed25519Signature.code Ed25519Signature.code_injective
      (Validator.unique_reportsRepetitions _ _) UnlockBlock.signatureKey_eq

/-- Between repetitions of one signature the calls on other blocks leave no trace. -/
example :
    let signature := UnlockBlock.signature default
    UnlockBlock.uniqueSignatures.verdicts [(7, signature), (1, .reference ⟨7⟩),
        (2, .signature ⟨.wots ⟨⟩⟩), (3, signature), (0, signature)]
      = [.ok (), .ok (), .error WotsSignature.unimplemented, .error (.duplicateSignature 3 7),
        .error (.duplicateSignature 0 7)] := by
  decide +kernel

end UtxoWire
