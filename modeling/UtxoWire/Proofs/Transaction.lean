import UtxoWire.Proofs.Transaction.Signed
import UtxoWire.Transaction

/-!
# Transactions

The reader of transactions of either kind, and the forms it takes.

* `Transaction.reader_steady`, `Transaction.reader_reads` — how transactions are read.
* **`Transaction.decode_validated_iff`** — validation accepts what is written of well-formed
  transactions, and nothing else.
-/

namespace UtxoWire.Transaction

open Reader (Steady Reads)

variable {params : ProtocolParameters} {mode : Mode}

def tag : Transaction → UInt64
  | .unsigned _ => UnsignedTransaction.discriminant
  | .signed _ => SignedTransaction.discriminant

/-- What follows the discriminant of a transaction. -/
def Content (params : ProtocolParameters) (mode : Mode) : Transaction → Bytes → Prop
  | .unsigned tx => tx.Content params mode
  | .signed tx => tx.Content params mode

def Form (params : ProtocolParameters) (mode : Mode) (tx : Transaction) : Bytes → Prop :=
  Tagged mode tx.tag (tx.Content params mode)

lemma body_unsigned (tx : UnsignedTransaction) : (codec params).body mode (.unsigned tx) =
    (do let new ← UnsignedTransaction.reader params mode; return .unsigned new) :=
  Codec.body_eq UnsignedTransaction.decodeInto_follows fun _ => rfl

lemma body_signed (tx : SignedTransaction) : (codec params).body mode (.signed tx) =
    (do let new ← SignedTransaction.reader params mode; return .signed new) :=
  Codec.body_eq SignedTransaction.decodeInto_follows fun _ => rfl

theorem reader_steady : Steady ((codec params).reader mode) := by
  refine Codec.reader_steady fun blank => ?_
  cases blank with
  | unsigned tx =>
      rw [body_unsigned]
      exact UnsignedTransaction.reader_steady.bind fun _ => .pure _
  | signed tx =>
      rw [body_signed]
      exact SignedTransaction.reader_steady.bind fun _ => .pure _

/-- An empty object is of the variant whose number it was found under. -/
lemma tag_of_blank {number : UInt64} {tx : Transaction} (h : blank number = .ok tx) :
    tx.tag = number := by
  unfold blank at h
  split at h
  · next hn => cases h; exact hn.symm
  · split at h
    · next hn => cases h; exact hn.symm
    · cases h

theorem reader_reads : Reads ((codec params).reader mode) (Form params mode) := by
  refine Codec.reader_reads tag_of_blank ?_ ?_
  · intro tx
    cases tx with
    | unsigned tx => exact ⟨.unsigned {}, rfl⟩
    | signed tx => exact ⟨.signed {}, rfl⟩
  · intro blank
    cases blank with
    | unsigned tx =>
        rw [body_unsigned]
        refine (UnsignedTransaction.reader_reads.map _).congr fun new bytes => ?_
        cases new with
        | unsigned new => simp [tag, Content]
        | signed new =>
            simp [tag, UnsignedTransaction.discriminant, SignedTransaction.discriminant]
    | signed tx =>
        rw [body_signed]
        refine (SignedTransaction.reader_reads.map _).congr fun new bytes => ?_
        cases new with
        | unsigned new =>
            simp [tag, UnsignedTransaction.discriminant, SignedTransaction.discriminant]
        | signed new => simp [tag, Content]

/-! ## Validation -/

/-- What validation asks of a transaction. -/
def WellFormed (params : ProtocolParameters) : Transaction → Prop
  | .unsigned tx => tx.WellFormed params
  | .signed tx => tx.WellFormed params

/-- Under validation only a well-formed transaction is read, and from what is written of it. -/
theorem Form.wellFormed {tx : Transaction} {bytes : Bytes} (h : tx.Form params .validated bytes) :
    tx.WellFormed params ∧ tx.encode .structural = .ok bytes := by
  obtain ⟨c, rfl, hc⟩ := tagged_validated_iff.mp h
  cases tx with
  | unsigned tx =>
      obtain ⟨hwell, rfl⟩ := UnsignedTransaction.Content.wellFormed hc
      exact ⟨hwell, UnsignedTransaction.encode_eq_ok.mpr ⟨nofun, rfl⟩⟩
  | signed tx =>
      obtain ⟨hwell, b, hb, rfl⟩ := SignedTransaction.Content.wellFormed hc
      exact ⟨hwell, SignedTransaction.encode_eq_ok.mpr ⟨nofun, b, hb, rfl⟩⟩

/-- A well-formed transaction that can be written is written under validation, too. -/
lemma WellFormed.encode_validated {tx : Transaction} (h : tx.WellFormed params) {bytes : Bytes}
    (hbytes : tx.encode .structural = .ok bytes) : tx.encode .validated = .ok bytes := by
  cases tx with
  | unsigned tx =>
      obtain ⟨-, rfl⟩ := UnsignedTransaction.encode_eq_ok.mp hbytes
      exact UnsignedTransaction.encode_eq_ok.mpr
        ⟨fun _ => UnsignedTransaction.WellFormed.checkEncodable h, rfl⟩
  | signed tx =>
      obtain ⟨-, b, hb, rfl⟩ := SignedTransaction.encode_eq_ok.mp hbytes
      exact SignedTransaction.encode_eq_ok.mpr ⟨fun _ => ⟨SignedTransaction.WellFormed.check h hb,
        UnsignedTransaction.WellFormed.checkEncodable h.transaction⟩, b, hb, rfl⟩

/-- What is written of a well-formed transaction is a form of it, as long as its length is one of
64 bits. -/
theorem WellFormed.form {tx : Transaction} (h : tx.WellFormed params) {bytes : Bytes}
    (hbytes : tx.encode .structural = .ok bytes) (hlen : bytes.length < 2 ^ 64) :
    tx.Form params .validated bytes := by
  refine tagged_validated_iff.mpr ?_
  cases tx with
  | unsigned tx =>
      obtain ⟨-, rfl⟩ := UnsignedTransaction.encode_eq_ok.mp hbytes
      rw [List.length_append] at hlen
      exact ⟨_, rfl, UnsignedTransaction.WellFormed.content h (by omega)⟩
  | signed tx =>
      obtain ⟨-, b, hb, rfl⟩ := SignedTransaction.encode_eq_ok.mp hbytes
      refine ⟨_, rfl, SignedTransaction.WellFormed.content h hb ?_⟩
      simp only [List.length_append] at hlen ⊢
      omega

/-- **Validation accepts what is written of well-formed transactions, and nothing else.**  From
bytes that fit into an address space a transaction is read, and with it a number of bytes, exactly
when the transaction is well-formed and these bytes are what is written of it. -/
theorem decode_validated_iff (params : ProtocolParameters) {data : Bytes}
    (hdata : data.length < 2 ^ 64) (tx : Transaction) (n : Nat) :
    (codec params).decode .validated data = .ok (tx, n) ↔
      ∃ bytes rest, data = bytes ++ rest ∧ n = bytes.length ∧
        tx.encode .structural = .ok bytes ∧ tx.WellFormed params := by
  have hreads : (codec params).decode .validated data = .ok (tx, n) ↔
      n ≤ data.length ∧ tx.Form params .validated (data.take n) := reader_reads data tx n
  rw [hreads]
  constructor
  · rintro ⟨hn, hform⟩
    obtain ⟨hwell, hencode⟩ := hform.wellFormed
    exact ⟨data.take n, data.drop n, (List.take_append_drop n data).symm,
      (List.length_take_of_le hn).symm, hencode, hwell⟩
  · rintro ⟨bytes, rest, rfl, rfl, hencode, hwell⟩
    rw [List.length_append] at hdata ⊢
    rw [List.take_left]
    exact ⟨Nat.le_add_right _ _, hwell.form hencode (by omega)⟩

/-- One input, one output, and a byte that follows them. -/
theorem decode_validated_single :
    let data : Bytes := 0 :: 1 :: 0 :: List.replicate 34 0
      ++ 1 :: 0 :: 1 :: List.replicate 32 0 ++ 5 :: List.replicate 7 0 ++ [0, 9]
    let tx : UnsignedTransaction :=
      { inputs := [.utxo default], outputs := [.singleDeposit ⟨default, 5⟩] }
    data.length < 2 ^ 64 ∧ (codec {}).decode .validated data = .ok (.unsigned tx, 81) := by
  intro data tx
  have hlen : data.length < 2 ^ 64 := by simp [data]
  have hzero : Varint.encode 0 = [0] := Varint.encode_of_lt (by decide)
  have hone : Varint.encode 1 = [1] := Varint.encode_of_lt (by decide)
  have hinput : (Input.utxo default).encode = 0 :: List.replicate 34 0 := by
    show Varint.encode 0 ++ _ = _
    rw [hzero]
    rfl
  have houtput : (Output.singleDeposit ⟨default, 5⟩).encode
      = 0 :: 1 :: List.replicate 32 0 ++ 5 :: List.replicate 7 0 := by
    show Varint.encode 0 ++ (Varint.encode 1 ++ _) ++ _ = _
    rw [hzero, hone]
    rfl
  have hencode : (Transaction.unsigned tx).encode .structural = .ok (data.take 81) := by
    refine UnsignedTransaction.encode_eq_ok.mpr ⟨nofun, ?_⟩
    show _ = Varint.encode 0 ++ ((Varint.encode 1 ++ ((Input.utxo default).encode ++ [])) ++
      ((Varint.encode 1 ++ ((Output.singleDeposit ⟨default, 5⟩).encode ++ [])) ++
        (Varint.encode 0 ++ [])))
    rw [hzero, hone, hinput, houtput]
    rfl
  have hwell : tx.WellFormed {} :=
    { payload_ne := nofun
      inputs_within := ⟨.inr (by decide), .inr (by decide)⟩
      outputs_within := ⟨.inr (by decide), .inr (by decide)⟩
      inputs_ascending := List.pairwise_singleton _ _
      outputs_ascending := List.pairwise_singleton _ _
      addresses_nodup := List.nodup_singleton _ }
  exact ⟨hlen, (decode_validated_iff {} hlen _ _).mpr ⟨_, [9], rfl, rfl, hencode, hwell⟩⟩

end UtxoWire.Transaction
