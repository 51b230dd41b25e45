import UtxoWire.Proofs.Transaction.Unsigned
import UtxoWire.Proofs.UnlockBlock
import UtxoWire.Transaction.Signed

/-!
# Signed transactions

The reader of signed transactions and the forms it takes.  The unsigned transaction inside is read
as the variant it has to be, so that without validation its discriminant may be any number.

* `decodeInto_follows` — the function that reads a transaction does what its reader does.
* **`reader_reads`** — the forms of a signed transaction: those of the transaction inside followed
  by those of the unlock blocks.
* `WellFormed` — what validation asks of a transaction on top of its structure.
-/

namespace UtxoWire.SignedTransaction

open Reader (Steady Reads)

variable {params : ProtocolParameters} {mode : Mode}

def transactionReader (params : ProtocolParameters) (mode : Mode) : Reader UnsignedTransaction :=
  ⟨readTransaction params mode⟩

lemma transactionReader_eq : transactionReader params mode
    = Reader.within UnsignedTransaction.typeName (UnsignedTransaction.reader params mode) := by
  ext data
  show readTransaction params mode data = _
  rw [readTransaction, (UnsignedTransaction.decodeInto_follows data).fill_eq]
  rfl

lemma transactionReader_steady : Steady (transactionReader params mode) := by
  rw [transactionReader_eq]
  exact UnsignedTransaction.reader_steady.within _

def blocksReader (params : ProtocolParameters) (mode : Mode) : Reader (List UnlockBlock) :=
  ObjectArray.reader UnlockBlock.codec mode
    (UnsignedTransaction.rulesIn mode params.unlockBlockRules)

lemma blocksReader_steady : Steady (blocksReader params mode) :=
  ObjectArray.reader_steady UnlockBlock.reader_steady _

def reader (params : ProtocolParameters) (mode : Mode) : Reader SignedTransaction := do
  Reader.discriminant mode .transaction discriminant
  let transaction ← transactionReader params mode
  let unlockBlocks ← blocksReader params mode
  mode.check (checkUnlockBlocks transaction.inputs unlockBlocks)
  return { transaction, unlockBlocks }

lemma decodeInto_follows (data : Bytes) :
    (decodeInto params mode data).Follows (reader params mode) data 0 := by
  unfold decodeInto reader
  simp only [ObjectArray.decode_eq UnlockBlock.reader_steady]
  refine .discriminant fun length => ?_
  refine .read (transactionReader params mode) fun transaction n htransaction => ?_
  refine .silent (Bytes.skip_eq_ok (transactionReader_steady.le_length htransaction)) ?_
  refine .read (blocksReader params mode) fun blocks m _ => ?_
  refine .step (f := fun _ => ()) (g := fun _ => 0) rfl fun _ _ => .done _ _ rfl fun _ => ?_
  rw [Nat.zero_add]
  rfl

lemma reader_steady : Steady (reader params mode) :=
  Reader.discriminant_steady.bind fun _ => transactionReader_steady.bind fun _ =>
    blocksReader_steady.bind fun _ => (Steady.lift _).bind fun _ => .pure _

/-- What follows the discriminant of a signed transaction. -/
def Content (params : ProtocolParameters) (mode : Mode) (tx : SignedTransaction)
    (bytes : Bytes) : Prop :=
  ∃ t b, bytes = t ++ b ∧
    Headed mode UnsignedTransaction.discriminant (tx.transaction.Content params mode) t ∧
    ObjectArray.Form (UnlockBlock.Form mode) mode
      (UnsignedTransaction.rulesIn mode params.unlockBlockRules) tx.unlockBlocks b ∧
    (mode = .validated → checkUnlockBlocks tx.transaction.inputs tx.unlockBlocks = .ok ())

/-- **The forms of a signed transaction**: a discriminant, the transaction inside with its own, and
the unlock blocks. -/
theorem reader_reads : Reads (reader params mode) fun tx =>
    Headed mode discriminant (tx.Content params mode) := by
  have htransaction : Reads (transactionReader params mode) fun tx =>
      Headed mode UnsignedTransaction.discriminant (tx.Content params mode) := by
    rw [transactionReader_eq]
    exact UnsignedTransaction.reader_reads.within _
  refine Reads.headed ((htransaction.bind fun _ =>
    (ObjectArray.reader_reads UnlockBlock.reader_reads _).bind fun _ =>
      Reads.lift_bind _ fun _ _ => Reads.pure _).congr fun tx bytes => ?_)
  constructor
  · rintro ⟨transaction, t, _, rfl, ht, blocks, b, _, rfl, hb, ⟨⟩, hcheck, rfl, rfl⟩
    exact ⟨t, b, by rw [List.append_nil], ht, hb, Mode.check_eq_ok.mp hcheck⟩
  · rintro ⟨t, b, rfl, ht, hb, hcheck⟩
    exact ⟨tx.transaction, t, b, rfl, ht, tx.unlockBlocks, b, [], (List.append_nil b).symm, hb, (),
      Mode.check_eq_ok.mpr hcheck, rfl, rfl⟩

/-! ## Writing -/

/-- The bytes are what is written for the unlock blocks, in any mode. -/
def WritesBlocks (blocks : List UnlockBlock) (bytes : Bytes) : Prop :=
  ∃ es, List.Forall₂ (fun block e => block.encode = .ok e) blocks es ∧
    bytes = Varint.encodeNat blocks.length ++ es.flatten

lemma encode_blocks_eq_ok {blocks : List UnlockBlock} {bytes : Bytes} :
    ObjectArray.encode UnlockBlock.codec mode blocks = .ok bytes ↔ WritesBlocks blocks bytes :=
  ObjectArray.encode_eq_ok

lemma WritesBlocks.encode_signature {blocks : List UnlockBlock} {bytes : Bytes}
    (h : WritesBlocks blocks bytes) :
    ∀ block ∈ blocks, ∀ s, block.signature? = some s → ∃ bytes, s.encode = .ok bytes := by
  obtain ⟨es, hes, -⟩ := h
  induction hes with
  | nil => exact List.forall_mem_nil _
  | @cons block e _ _ he _ ih =>
      refine List.forall_mem_cons.mpr ⟨fun s hs => ?_, ih⟩
      cases block with
      | signature block =>
          cases hs
          obtain ⟨c, hc, -⟩ := bind_eq_ok.mp he
          exact ⟨c, hc⟩
      | reference block => cases hs

/-- A signed transaction is written when its unlock blocks are and, under validation, when both
checks in front let it pass. -/
theorem encode_eq_ok {tx : SignedTransaction} {bytes : Bytes} :
    tx.encode mode = .ok bytes ↔
      (mode = .validated → checkUnlockBlocks tx.transaction.inputs tx.unlockBlocks = .ok () ∧
        tx.transaction.checkEncodable = .ok ()) ∧
      ∃ b, WritesBlocks tx.unlockBlocks b ∧ bytes = Varint.encode discriminant ++
        (Varint.encode UnsignedTransaction.discriminant ++ tx.transaction.content ++ b) := by
  rw [encode, check_bind_eq_ok, Mode.check_eq_ok]
  simp only [bind_eq_ok, mapError_eq_ok, UnsignedTransaction.encode_eq_ok, encode_blocks_eq_ok,
    pure_eq_ok, Except.ok.injEq]
  constructor
  · rintro ⟨hblocks, _, ⟨htransaction, rfl⟩, b, hb, rfl⟩
    exact ⟨fun hmode => ⟨hblocks hmode, htransaction hmode⟩, b, hb, by rw [List.append_assoc]⟩
  · rintro ⟨hchecks, b, hb, rfl⟩
    exact ⟨fun hmode => (hchecks hmode).1, _, ⟨fun hmode => (hchecks hmode).2, rfl⟩, b, hb,
      by rw [List.append_assoc]⟩

/-! ## Validation -/

/-- What validation asks of a signed transaction. -/
structure WellFormed (params : ProtocolParameters) (tx : SignedTransaction) : Prop where
  transaction : tx.transaction.WellFormed params
  unlocks : UnlockBlock.Unlocks tx.transaction.inputs.length tx.unlockBlocks

lemma blocksForm_validated_iff {blocks : List UnlockBlock} {bytes : Bytes} :
    ObjectArray.Form (UnlockBlock.Form .validated) .validated
        (UnsignedTransaction.rulesIn .validated params.unlockBlockRules) blocks bytes ↔
      WritesBlocks blocks bytes ∧ blocks.length < 2 ^ 64 ∧
        WithinBounds params.minInputs params.maxInputs blocks.length := by
  have hform : ∀ block e, UnlockBlock.Form .validated block e ↔
      UnlockBlock.codec.encode .validated block = .ok e :=
    fun _ _ => UnlockBlock.form_validated_iff
  rw [UnsignedTransaction.rulesIn, ObjectArray.form_validated_iff hform]
  constructor
  · rintro ⟨es, hes, rfl, hfits, hrules⟩
    exact ⟨⟨es, hes, rfl⟩, hfits, (hrules _ rfl).1⟩
  · rintro ⟨⟨es, hes, rfl⟩, hfits, hwithin⟩
    refine ⟨es, hes, rfl, hfits, ?_⟩
    rintro r ⟨⟩
    refine ⟨hwithin, fun h => ?_⟩
    cases h

/-- Under validation only a well-formed transaction is read, and from what is written of it. -/
theorem Content.wellFormed {tx : SignedTransaction} {bytes : Bytes}
    (h : tx.Content params .validated bytes) :
    tx.WellFormed params ∧ ∃ b, WritesBlocks tx.unlockBlocks b ∧
      bytes = Varint.encode UnsignedTransaction.discriminant ++ tx.transaction.content ++ b := by
  obtain ⟨t, b, rfl, ht, hb, hcheck⟩ := h
  obtain ⟨c, rfl, hc⟩ := headed_validated_iff.mp ht
  obtain ⟨htransaction, rfl⟩ := hc.wellFormed
  have hunlocks := (checkUnlockBlocks_eq_ok.mp (hcheck rfl)).1
  exact ⟨⟨htransaction, hunlocks⟩, b, (blocksForm_validated_iff.mp hb).1, rfl⟩

lemma WellFormed.check {tx : SignedTransaction} (h : tx.WellFormed params) {b : Bytes}
    (hb : WritesBlocks tx.unlockBlocks b) :
    checkUnlockBlocks tx.transaction.inputs tx.unlockBlocks = .ok () :=
  checkUnlockBlocks_eq_ok.mpr ⟨h.unlocks, hb.encode_signature⟩

/-- Under validation a well-formed transaction is read from what is written of it, as long as its
length is one of 64 bits. -/
theorem WellFormed.content {tx : SignedTransaction} (h : tx.WellFormed params) {b : Bytes}
    (hb : WritesBlocks tx.unlockBlocks b)
    (hlen : (tx.transaction.content ++ b).length < 2 ^ 64) :
    tx.Content params .validated
      (Varint.encode UnsignedTransaction.discriminant ++ tx.transaction.content ++ b) := by
  have hwritten : ObjectArray.encode UnlockBlock.codec .validated tx.unlockBlocks = .ok b :=
    encode_blocks_eq_ok.mpr hb
  have hblocks := ObjectArray.length_lt_of_encode (fun _ _ => UnlockBlock.ne_nil_of_encode) hwritten
  rw [List.length_append] at hlen
  have hwithin := h.transaction.inputs_within
  rw [← h.unlocks.length_eq] at hwithin
  exact ⟨_, b, rfl, headed_validated_iff.mpr ⟨_, rfl, h.transaction.content (by omega)⟩,
    blocksForm_validated_iff.mpr ⟨hb, by omega, hwithin⟩, fun _ => h.check hb⟩

end UtxoWire.SignedTransaction
