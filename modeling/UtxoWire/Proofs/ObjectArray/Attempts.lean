import Mathlib.Order.Bounds.Defs
import UtxoWire.Proofs.Normalisation

/-!
# How much reading an array takes

An array says at its front how many elements it has, and that number is read before any element is.
Whatever it says, no more elements are attempted than the bytes have room for, and one more: every
element that is read takes at least the bytes of the smallest one of its family, so that the bytes
run out before the number does.

The reader of arrays is one loop in whatever way its elements are read.  Reading them with success
and failure alone it is `ObjectArray.decode`; here they are read with the attempts counted.

* `ObjectArray.SettledAfter` — a reading comes out as it does because of its first so many elements.
* `Codec.counted`, `Update.Tallies` — attempts are counted, and how many there are.
* **`ObjectArray.counted_decodeElementsIn`** — elements are attempted until the reading is settled,
  and no further.
* `Codec.TakesAtLeast` — every object that is read takes at least so many bytes.
* `ObjectArray.SettledAfter.le_room` — there is room for all elements but the last one attempted.
* `Family.smallestSize` — how many bytes the smallest objects of a family have.
* **`Family.decode_array_attempts`** — what follows for arrays of every family.
-/

namespace UtxoWire

variable {α β : Type}

/-! ## Where a reading is settled -/

namespace ObjectArray

/-- What comes out of reading `count` elements is settled after so many of them: after all of them if
they can be read, and otherwise after the first with which the reading fails.  Here `read` says what
comes out of reading any number of them. -/
structure SettledAfter (read : Nat → Except WireError α) (count settled : Nat) : Prop where
  eq_of_ok : ∀ a, read count = .ok a → settled = count
  eq_of_error : ∀ e, read count = .error e → ∃ before < count, settled = before + 1 ∧
    (∃ a, read before = .ok a) ∧ read settled = .error e

namespace SettledAfter

variable {read : Nat → Except WireError α} {rest : Nat → Except WireError β} {count settled : Nat}
  {a : α} {e : WireError}

/-- Nothing is to be read. -/
lemma zero (hnone : read 0 = .ok a) : SettledAfter read 0 0 where
  eq_of_ok _ _ := rfl
  eq_of_error e h := by
    rw [hnone] at h
    cases h

/-- The first element fails. -/
lemma first (hnone : read 0 = .ok a) (hfirst : ∀ count, read (count + 1) = .error e) :
    SettledAfter read (count + 1) 1 where
  eq_of_ok _ h := by
    rw [hfirst] at h
    cases h
  eq_of_error _ h := by
    rw [hfirst] at h
    cases h
    exact ⟨0, Nat.succ_pos count, rfl, ⟨a, hnone⟩, hfirst 0⟩

/-- The first element can be read, and the others are settled by themselves. -/
lemma next {f : β → α} (hnext : ∀ count, read (count + 1) = (rest count).map f)
    (h : SettledAfter rest count settled) :
    SettledAfter read (count + 1) (settled + 1) where
  eq_of_ok _ hread := by
    rw [hnext] at hread
    obtain ⟨b, hb, -⟩ := map_eq_ok.mp hread
    rw [h.eq_of_ok b hb]
  eq_of_error e hread := by
    rw [hnext] at hread
    obtain ⟨before, hbefore, rfl, ⟨b, hb⟩, hlast⟩ := h.eq_of_error e (map_eq_error.mp hread)
    refine ⟨before + 1, Nat.succ_lt_succ hbefore, rfl, ⟨f b, ?_⟩, ?_⟩
    · rw [hnext, hb]
      rfl
    · rw [hnext, hlast]
      rfl

end SettledAfter

end ObjectArray

/-! ## Counting attempts -/

/-- Reads an object and counts the attempt, whether it succeeds or fails. -/
def Codec.counted (codec : Codec α) (mode : Mode) (data : Bytes) : Update Nat (α × Nat) := do
  modify (· + 1)
  codec.decode mode data

namespace Update

/-- The update comes out like this, and counts so many attempts on the way. -/
def Tallies (update : Update Nat α) (outcome : Except WireError α) (attempts : Nat) : Prop :=
  ∀ before, update.apply before = (outcome, before + attempts)

namespace Tallies

variable {update : Update Nat α} {step : Except WireError α} {next : α → Update Nat β}
  {outcome : Except WireError β} {attempts : Nat}

lemma pure (a : α) : Tallies (pure a) (.ok a) 0 :=
  fun _ => rfl

/-- A step that is no attempt. -/
lemma lift_ok {a : α} (hstep : step = .ok a) (hnext : (next a).Tallies outcome attempts) :
    Tallies (liftM step >>= next) outcome attempts := by
  subst hstep
  exact hnext

lemma lift_error {e : WireError} (hstep : step = .error e) :
    Tallies (liftM step >>= next) (.error e) 0 := by
  subst hstep
  exact fun _ => rfl

/-- A step that is one. -/
lemma counted {codec : Codec α} {mode : Mode} {data : Bytes} {next : α × Nat → Update Nat β}
    (h : Tallies (liftM (codec.decode mode data) >>= next) outcome attempts) :
    Tallies (codec.counted mode data >>= next) outcome (attempts + 1) := by
  intro before
  refine (h (before + 1)).trans ?_
  rw [Nat.add_assoc, Nat.add_comm 1]

/-- What is made of the outcome in the end takes no attempts. -/
lemma bind_pure (h : update.Tallies step attempts) (f : α → β) :
    Tallies (do return f (← update)) (step.map f) attempts := by
  intro before
  have happly := h before
  simp only [apply, ExceptT.run_bind, StateT.run_bind] at happly ⊢
  rw [happly]
  cases step with
  | error e => rfl
  | ok a => rfl

end Tallies

end Update

namespace ObjectArray

/-- One element takes one attempt, and with it the reading fails or goes on with the others. -/
lemma counted_step (codec : Codec α) (mode : Mode) (index : Nat) (order : Option OrderCheck)
    (data : Bytes) :
    (∃ e, ∀ count,
      decodeElementsIn (codec.decode mode) (count + 1) index order data = .error e ∧
      (decodeElementsIn (codec.counted mode) (count + 1) index order data).Tallies (.error e) 1) ∨
    ∃ object length order' rest, ∀ count,
      decodeElementsIn (codec.decode mode) (count + 1) index order data
        = (decodeElementsIn (codec.decode mode) count (index + 1) order' rest).map
          (fun p => (object :: p.1, length + p.2)) ∧
      ∀ outcome attempts,
        (decodeElementsIn (codec.counted mode) count (index + 1) order' rest).Tallies outcome
          attempts →
        (decodeElementsIn (codec.counted mode) (count + 1) index order data).Tallies
          (outcome.map fun p => (object :: p.1, length + p.2)) (attempts + 1) := by
  cases hobject : codec.decode mode data with
  | error e =>
      refine .inl ⟨e, fun count => ⟨?_, .counted (.lift_error hobject)⟩⟩
      rw [decodeElementsIn_succ, hobject, error_bind]
  | ok p =>
      obtain ⟨object, length⟩ := p
      cases horder : checkOrder order index length data with
      | error e =>
          refine .inl ⟨e, fun count => ⟨?_, .counted (.lift_ok hobject (.lift_error horder))⟩⟩
          simp only [decodeElementsIn_succ, hobject, ok_bind, horder, error_bind]
      | ok order' =>
          cases hrest : Bytes.skip length data with
          | error e =>
              refine .inl ⟨e, fun count => ⟨?_,
                .counted (.lift_ok hobject (.lift_ok horder (.lift_error hrest)))⟩⟩
              simp only [decodeElementsIn_succ, hobject, ok_bind, horder, hrest, error_bind]
          | ok rest =>
              refine .inr ⟨object, length, order', rest, fun count => ⟨?_, fun outcome attempts h =>
                .counted (.lift_ok hobject (.lift_ok horder (.lift_ok hrest (h.bind_pure _))))⟩⟩
              simp only [decodeElementsIn_succ, hobject, ok_bind, horder, hrest]
              rfl

/-- **Elements are attempted until the reading is settled, and no further.** -/
theorem counted_decodeElementsIn (codec : Codec α) (mode : Mode) (count index : Nat)
    (order : Option OrderCheck) (data : Bytes) :
    ∃ attempts, (decodeElementsIn (codec.counted mode) count index order data).Tallies
        (decodeElementsIn (codec.decode mode) count index order data) attempts ∧
      SettledAfter (fun count => decodeElementsIn (codec.decode mode) count index order data) count
        attempts := by
  induction count generalizing index order data with
  | zero => exact ⟨0, .pure _, .zero rfl⟩
  | succ count ih =>
      rcases counted_step codec mode index order data
        with ⟨e, hfails⟩ | ⟨object, length, order', rest, hnext⟩
      · refine ⟨1, ?_, .first rfl fun count => (hfails count).1⟩
        rw [(hfails count).1]
        exact (hfails count).2
      · obtain ⟨attempts, htallies, hsettled⟩ := ih (index + 1) order' rest
        refine ⟨attempts + 1, ?_, hsettled.next fun count => (hnext count).1⟩
        rw [(hnext count).1]
        exact (hnext count).2 _ attempts htallies

/-- A number that is refused is followed by no attempt, and any other by those at its elements. -/
lemma counted_decodeIn (codec : Codec α) (mode : Mode) (rules : Option ArrayRules) {data : Bytes}
    {count : UInt64} {length : Nat} (hcount : Varint.decode data = .ok (count, length)) :
    ∃ attempts, (decodeIn (codec.counted mode) mode rules data).Tallies
        (decode codec mode rules data) attempts ∧
      (∀ e, checkCount mode rules count length = .error e → attempts = 0) ∧
      (checkCount mode rules count length = .ok () → SettledAfter
        (fun count => decodeElementsIn (codec.decode mode) count 0
          (rules.bind ArrayRules.orderCheck?) (data.drop length)) count.toNat attempts) := by
  rw [decode_of_count hcount]
  cases hcheck : checkCount mode rules count length with
  | error e => exact ⟨0, .lift_ok hcount (.lift_error hcheck), fun _ _ => rfl, nofun⟩
  | ok _ =>
      have hrest := Bytes.skip_eq_ok (Varint.reader_steady.le_length hcount)
      obtain ⟨attempts, htallies, hsettled⟩ := counted_decodeElementsIn codec mode count.toNat 0
        (rules.bind ArrayRules.orderCheck?) (data.drop length)
      exact ⟨attempts, .lift_ok hcount (.lift_ok hcheck (.lift_ok hrest (htallies.bind_pure _))),
        nofun, fun _ => hsettled⟩

end ObjectArray

/-! ## Room for elements -/

/-- Every object that is read takes at least this many bytes, and no more than there are. -/
def Codec.TakesAtLeast (codec : Codec α) (mode : Mode) (size : Nat) : Prop :=
  ∀ ⦃data object length⦄, codec.decode mode data = .ok (object, length) →
    size ≤ length ∧ length ≤ data.length

namespace ObjectArray

variable {codec : Codec α} {mode : Mode} {size : Nat}

/-- Elements that are read are as many as asked for, and there was room for them. -/
lemma room_of_decodeElementsIn (htakes : codec.TakesAtLeast mode size) {count index : Nat}
    {order : Option OrderCheck} {data : Bytes} {objects : List α} {n : Nat}
    (h : decodeElementsIn (codec.decode mode) count index order data = .ok (objects, n)) :
    count * size ≤ data.length ∧ objects.length = count := by
  induction count generalizing index order data objects n with
  | zero =>
      cases h
      exact ⟨by simp, rfl⟩
  | succ count ih =>
      rw [decodeElementsIn_succ] at h
      obtain ⟨⟨object, length⟩, hobject, h⟩ := bind_eq_ok.mp h
      obtain ⟨order', -, h⟩ := bind_eq_ok.mp h
      obtain ⟨rest, hrest, h⟩ := bind_eq_ok.mp h
      obtain ⟨⟨objects', restLength⟩, helements, h⟩ := bind_eq_ok.mp h
      cases h
      obtain ⟨htake, hlength⟩ := htakes hobject
      obtain rfl := Except.ok.inj ((Bytes.skip_eq_ok hlength).symm.trans hrest)
      obtain ⟨hroom, hcount⟩ := ih helements
      rw [List.length_drop] at hroom
      rw [Nat.succ_mul, List.length_cons, hcount]
      exact ⟨by omega, rfl⟩

/-- Where the reading is settled, there is room for all elements but the last one. -/
lemma SettledAfter.le_room (hsize : 0 < size) (htakes : codec.TakesAtLeast mode size)
    {index : Nat} {order : Option OrderCheck} {data : Bytes} {count settled : Nat}
    (h : SettledAfter (fun count => decodeElementsIn (codec.decode mode) count index order data) count
      settled) : settled ≤ data.length / size + 1 := by
  cases hread : decodeElementsIn (codec.decode mode) count index order data with
  | ok p =>
      have hroom := (room_of_decodeElementsIn htakes hread).1
      rw [h.eq_of_ok p hread]
      exact Nat.le_succ_of_le ((Nat.le_div_iff_mul_le hsize).mpr hroom)
  | error e =>
      obtain ⟨before, -, rfl, ⟨p, hbefore⟩, -⟩ := h.eq_of_error e hread
      have hroom := (room_of_decodeElementsIn htakes hbefore).1
      exact Nat.succ_le_succ ((Nat.le_div_iff_mul_le hsize).mpr hroom)

/-- An array that is read has as many elements as it says, and there was room for them. -/
lemma room_of_decode (htakes : codec.TakesAtLeast mode size) {rules : Option ArrayRules}
    {data : Bytes} {count : UInt64} {length : Nat}
    (hcount : Varint.decode data = .ok (count, length)) {objects : List α} {n : Nat}
    (h : decode codec mode rules data = .ok (objects, n)) :
    count.toNat * size ≤ data.length - length ∧ objects.length = count.toNat := by
  rw [decode_of_count hcount] at h
  obtain ⟨-, h⟩ := check_bind_eq_ok.mp h
  obtain ⟨⟨objects', restLength⟩, helements, hobjects⟩ := map_eq_ok.mp h
  cases hobjects
  rw [← List.length_drop]
  exact room_of_decodeElementsIn htakes helements

end ObjectArray

/-! ## The smallest objects -/

lemma Address.length_encode (address : Address) : address.encode.length = 33 := by
  cases address with
  | ed25519 address =>
      rw [encode, Ed25519Address.encode, Varint.encode_of_lt (by decide), List.length_append,
        address.key.length_eq]
      rfl

lemma Input.length_encode (input : Input) : input.encode.length = 35 := by
  cases input with
  | utxo input =>
      rw [encode, UtxoInput.encode, Varint.encode_of_lt (by decide), UtxoInput.reference,
        List.length_append, List.length_append, input.transactionId.length_eq,
        length_toLittleEndian]
      rfl

lemma Output.length_encode (output : Output) : output.encode.length = 42 := by
  cases output with
  | singleDeposit deposit =>
      rw [encode, SingleDeposit.encode, Varint.encode_of_lt (by decide), List.length_append,
        List.length_append, deposit.address.length_encode, length_toLittleEndian]
      rfl

lemma Signature.length_of_encode {signature : Signature} {bytes : Bytes}
    (h : signature.encode = .ok bytes) : bytes.length = 97 := by
  cases signature with
  | wots signature => cases h
  | ed25519 signature =>
      cases h
      rw [Ed25519Signature.encode, Varint.encode_of_lt (by decide), List.length_append,
        List.length_append, signature.publicKey.length_eq, signature.signature.length_eq]
      rfl

lemma UnlockBlock.length_of_encode {block : UnlockBlock} {bytes : Bytes}
    (h : block.encode = .ok bytes) : 3 ≤ bytes.length := by
  cases block with
  | signature block =>
      obtain ⟨s, hs, hbytes⟩ := bind_eq_ok.mp h
      cases hbytes
      rw [List.length_append, Signature.length_of_encode hs]
      omega
  | reference block =>
      cases h
      rw [ReferenceUnlockBlock.encode, Varint.encode_of_lt (by decide), List.length_append,
        length_toLittleEndian]
      rfl

/-- The two arrays and the payload of a transaction take a byte each at least. -/
lemma UnsignedTransaction.length_content (tx : UnsignedTransaction) : 3 ≤ tx.content.length := by
  have hinputs := (Varint.spells_encodeNat tx.inputs.length).length_pos
  have houtputs := (Varint.spells_encodeNat tx.outputs.length).length_pos
  have hpayload := (Varint.spells_encodeNat (tx.payload.getD []).length).length_pos
  simp only [content, ObjectArray.written, encodePayload, List.length_append]
  omega

lemma Transaction.length_of_encode {mode : Mode} {tx : Transaction} {bytes : Bytes}
    (h : tx.encode mode = .ok bytes) : 4 ≤ bytes.length := by
  cases tx with
  | unsigned tx =>
      obtain ⟨-, rfl⟩ := UnsignedTransaction.encode_eq_ok.mp h
      have hcontent := tx.length_content
      rw [Varint.encode_of_lt (by decide), List.length_append, List.length_singleton]
      omega
  | signed tx =>
      obtain ⟨-, b, -, rfl⟩ := SignedTransaction.encode_eq_ok.mp h
      have hcontent := tx.transaction.length_content
      rw [Varint.encode_of_lt (by decide)]
      simp only [List.length_append, List.length_singleton]
      omega

namespace Family

/-- How many bytes the smallest objects of a family have: those of the one variant that there is, of
a reference to an earlier unlock block, of an empty unsigned transaction. -/
def smallestSize : Family → Nat
  | .address => 33
  | .input => 35
  | .output => 42
  | .signature => 97
  | .unlockBlock => 3
  | .transaction => 4

lemma smallestSize_pos (family : Family) : 0 < family.smallestSize := by
  cases family <;> decide

variable (params : ProtocolParameters) (mode : Mode)

lemma smallestSize_le_of_encode {family : Family} {x : family.Object} {bytes : Bytes}
    (h : (family.codec params).encode mode x = .ok bytes) :
    family.smallestSize ≤ bytes.length := by
  cases family with
  | address =>
      cases h
      exact (Address.length_encode x).ge
  | input =>
      cases h
      exact (Input.length_encode x).ge
  | output =>
      cases h
      exact (Output.length_encode x).ge
  | signature => exact (Signature.length_of_encode h).ge
  | unlockBlock => exact UnlockBlock.length_of_encode h
  | transaction => exact Transaction.length_of_encode h

lemma exists_encode_smallestSize (family : Family) :
    ∃ x bytes, (family.codec params).encode mode x = .ok bytes ∧
      bytes.length = family.smallestSize := by
  cases family with
  | address => exact ⟨(default : Address), _, rfl, Address.length_encode _⟩
  | input => exact ⟨Input.utxo default, _, rfl, Input.length_encode _⟩
  | output => exact ⟨Output.singleDeposit default, _, rfl, Output.length_encode _⟩
  | signature =>
      exact ⟨(default : Signature), _, rfl, @Signature.length_of_encode default _ rfl⟩
  | unlockBlock => exact ⟨UnlockBlock.reference default, _, rfl, by decide +kernel⟩
  | transaction =>
      refine ⟨Transaction.unsigned {}, _, UnsignedTransaction.encode_eq_ok.mpr ⟨?_, rfl⟩, ?_⟩
      · exact fun _ => rfl
      · decide +kernel

/-- Padding makes no object smaller than the smallest that is written. -/
lemma Form.smallestSize_le {family : Family} {x : family.Object} {bytes : Bytes}
    (h : Form params mode family x bytes) : family.smallestSize ≤ bytes.length := by
  cases mode with
  | structural =>
      obtain ⟨c, hc, -, hlen⟩ := form_normalises params family x bytes h
      exact (smallestSize_le_of_encode params .structural hc).trans hlen
  | validated => exact smallestSize_le_of_encode params .validated (h.encode .validated)

lemma takesAtLeast_smallestSize (family : Family) :
    (family.codec params).TakesAtLeast mode family.smallestSize := by
  intro data x n h
  obtain ⟨hn, hform⟩ := (reader_reads params mode family data x n).mp h
  have hsize := hform.smallestSize_le
  rw [List.length_take_of_le hn] at hsize
  exact ⟨hsize, hn⟩

/-- **The number at the front of an array never drives work beyond the bytes.**  Let `m` be the size
of the smallest objects of the family, and take the reader of arrays with its attempts at elements
counted.  Whatever the mode, the rules, and the number that the bytes start with, if `k` bytes
follow that number then at most `k / m + 1` elements are attempted before the reading ends, in
whatever way it does: none if the number is refused, and otherwise just as many as settle how the
reading comes out.  If it succeeds, there was room for as many of the smallest objects as the number
says, and there are as many elements. -/
theorem decode_array_attempts (params : ProtocolParameters) (family : Family) :
    (∀ mode, IsLeast {size | ∃ x bytes, (family.codec params).encode mode x = .ok bytes ∧
      bytes.length = size} family.smallestSize) ∧
    ∀ mode rules data,
      ObjectArray.decodeIn ((family.codec params).decode mode) mode rules data
        = ObjectArray.decode (family.codec params) mode rules data ∧
      ∀ count length, Varint.decode data = .ok (count, length) →
        (∃ attempts ≤ (data.length - length) / family.smallestSize + 1,
          (ObjectArray.decodeIn ((family.codec params).counted mode) mode rules data).apply 0
            = (ObjectArray.decode (family.codec params) mode rules data, attempts) ∧
          (∀ e, ObjectArray.checkCount mode rules count length = .error e → attempts = 0) ∧
          (ObjectArray.checkCount mode rules count length = .ok () → ObjectArray.SettledAfter
            (fun count => ObjectArray.decodeElementsIn ((family.codec params).decode mode) count 0
              (rules.bind ArrayRules.orderCheck?) (data.drop length)) count.toNat attempts)) ∧
        ∀ xs n, ObjectArray.decode (family.codec params) mode rules data = .ok (xs, n) →
          count.toNat * family.smallestSize ≤ data.length - length ∧ xs.length = count.toNat := by
  refine ⟨fun mode => ⟨exists_encode_smallestSize params mode family, ?_⟩, fun mode rules data =>
    ⟨rfl, fun count length hcount => ?_⟩⟩
  · rintro _ ⟨x, bytes, h, rfl⟩
    exact smallestSize_le_of_encode params mode h
  · have htakes := takesAtLeast_smallestSize params mode family
    refine ⟨?_, fun xs n h => ObjectArray.room_of_decode htakes hcount h⟩
    obtain ⟨attempts, htallies, hrefused, hsettled⟩ :=
      ObjectArray.counted_decodeIn (family.codec params) mode rules hcount
    have happly := htallies 0
    rw [Nat.zero_add] at happly
    refine ⟨attempts, ?_, happly, hrefused, hsettled⟩
    cases hcheck : ObjectArray.checkCount mode rules count length with
    | error e =>
        rw [hrefused e hcheck]
        exact Nat.zero_le _
    | ok _ =>
        rw [← List.length_drop]
        exact (hsettled hcheck).le_room family.smallestSize_pos htakes

/-- Two reference unlock blocks and a third cut short, where the number says that there are 2⁶³, and
an array of two. -/
theorem decode_array_attempts_unlockBlocks :
    let huge : Bytes := List.replicate 9 0x80 ++ [0x01, 1, 5, 0, 1, 6, 0, 1, 7]
    Varint.decode huge = .ok (0x8000000000000000, 10) ∧
    (∃ attempts ≤ 3, (ObjectArray.decodeIn ((codec {} .unlockBlock).counted .validated)
      .validated none huge).apply 0
        = (.error (.inEntity "ReferenceUnlockBlock" (.invalidLength .min 3 2)), attempts)) ∧
    2 * 3 ≤ ([2, 1, 5, 0, 1, 6, 0] : Bytes).length - 1 := by
  intro huge
  have hcount : Varint.decode huge = .ok (0x8000000000000000, 10) := by decide +kernel
  have hfails : ObjectArray.decode UnlockBlock.codec .validated none huge
      = .error (.inEntity "ReferenceUnlockBlock" (.invalidLength .min 3 2)) := by decide +kernel
  obtain ⟨-, harrays⟩ := decode_array_attempts {} .unlockBlock
  obtain ⟨attempts, hle, happly, -⟩ := ((harrays .validated none huge).2 _ _ hcount).1
  obtain ⟨hroom, -⟩ := ((harrays .validated none [2, 1, 5, 0, 1, 6, 0]).2 2 1 rfl).2
    [.reference ⟨5⟩, .reference ⟨6⟩] 7 rfl
  refine ⟨hcount, ⟨attempts, hle.trans (by decide), ?_⟩, hroom⟩
  exact happly.trans (congrArg (·, attempts) hfails)

end Family

end UtxoWire
