import UtxoWire.Proofs.Failures
import UtxoWire.Proofs.History

/-!
# Where reading fails

The names that a failure is wrapped in say where in a transaction it happened.  They follow the way
objects stand in one another, and what went wrong at the end of them is something that can go wrong
there: an unknown variant is one of a family that is looked for at that place, and a discriminant
other than the expected one is found where no discriminant picks the variant.

* `Variant.inside`, `Variant.IsPath` — what stands in what, and the ways inwards.
* `WireError.Fits` — what can be wrong at the end of a path.
* `WireError.Located` — what reading at a place can fail for, the names from there on included.
* `Reader.FailsFrom` — a reader fails for errors of one kind on bytes that start with a given
  number.  A variant is read so: whoever picked it has seen its number.
* `Codec.reader_located` — a family at a place, given what its variants fail for one step inwards.
* **`Transaction.decode_error_located`** — every failure of reading a transaction says where it
  happened.
-/

namespace UtxoWire

open Reader (FailsWith)

variable {α β : Type} {kind kind' : WireError → Prop} {mode : Mode}

/-! ## What stands in what -/

namespace Variant

/-- How a failure names the variant. -/
def name : Variant → String
  | .ed25519Address => "Ed25519Address"
  | .utxoInput => "UtxoInput"
  | .singleDeposit => "SigLockedSingleDeposit"
  | .wotsSignature => "WotsSignature"
  | .ed25519Signature => "Ed25519Signature"
  | .signatureUnlockBlock => "SignatureUnlockBlock"
  | .referenceUnlockBlock => "ReferenceUnlockBlock"
  | .unsignedTransaction => "UnsignedTransaction"
  | .signedTransaction => "SignedTransaction"

/-- What stands directly inside an object of a variant.  Outside all objects stand transactions. -/
def inside : Option Variant → List Variant
  | none => [.unsignedTransaction, .signedTransaction]
  | some .unsignedTransaction => [.utxoInput, .singleDeposit]
  | some .singleDeposit => [.ed25519Address]
  | some .signedTransaction => [.unsignedTransaction, .signatureUnlockBlock, .referenceUnlockBlock]
  | some .signatureUnlockBlock => [.ed25519Signature, .wotsSignature]
  | some _ => []

/-- The families of which an object is looked for directly inside, its variant picked by the
discriminant that is found.  The unsigned transaction inside a signed one is not picked. -/
def picked : Option Variant → List Family
  | none => [.transaction]
  | some .unsignedTransaction => [.input, .output]
  | some .singleDeposit => [.address]
  | some .signedTransaction => [.unlockBlock]
  | some .signatureUnlockBlock => [.signature]
  | some _ => []

/-- Each variant of the path stands directly inside the one before it, the first inside `outer`. -/
def IsPath : (outer : Option Variant) → List Variant → Prop
  | _, [] => True
  | outer, variant :: path => variant ∈ inside outer ∧ IsPath (some variant) path

end Variant

/-! ## What can be wrong at a place -/

namespace WireError

/-- What can be wrong at the end of a path, under no further name. -/
def Fits (mode : Mode) (path : List Variant) : WireError → Prop
  | .unknownType family _ => family ∈ Variant.picked path.getLast?
  | .unimplemented family _ =>
    (path.getLast? = some .singleDeposit ∧ family = .address) ∨
      (path.getLast? = some .wotsSignature ∧ family = .signature)
  | .typeMismatch family expected actual =>
    path = [.signedTransaction, .unsignedTransaction] ∧ mode = .validated ∧
      family = .transaction ∧ expected = UnsignedTransaction.discriminant ∧ actual ≠ expected
  | .inEntity .. => False
  | _ => True

/-- What reading at the end of a path can fail for: something that fits there, or a failure one step
further inwards, wrapped in the name of that step. -/
inductive Located (mode : Mode) : List Variant → WireError → Prop
  | here {path : List Variant} {e : WireError} (h : e.Fits mode path) : Located mode path e
  | inwards {path : List Variant} {variant : Variant} {cause : WireError}
      (hinside : variant ∈ Variant.inside path.getLast?)
      (h : Located mode (path ++ [variant]) cause) :
      Located mode path (.inEntity variant.name cause)

/-- A failure that is not over a discriminant fits everywhere. -/
lemma Plain.located {path : List Variant} {e : WireError} (h : e.Plain) : e.Located mode path := by
  refine .here ?_
  cases e with
  | unknownType _ _ => cases h
  | typeMismatch _ _ _ => cases h
  | unimplemented _ _ => cases h
  | inEntity _ _ => cases h
  | _ => trivial

/-- The names go on from the place inwards, and what is under them fits the end. -/
theorem Located.exists_path {path : List Variant} {e : WireError} (h : e.Located mode path) :
    ∃ rest, e.entities = rest.map Variant.name ∧ Variant.IsPath path.getLast? rest ∧
      e.rootCause.Fits mode (path ++ rest) := by
  induction h with
  | @here path e h =>
      refine ⟨[], ?_, trivial, ?_⟩
      · cases e with
        | inEntity _ _ => cases h
        | _ => rfl
      · rw [List.append_nil]
        cases e with
        | inEntity _ _ => cases h
        | _ => exact h
  | @inwards path variant cause hinside _ ih =>
      obtain ⟨rest, hnames, hpath, hfits⟩ := ih
      rw [List.getLast?_concat] at hpath
      rw [List.append_assoc, List.singleton_append] at hfits
      exact ⟨variant :: rest, congrArg (variant.name :: ·) hnames, ⟨hinside, hpath⟩, hfits⟩

end WireError

open WireError (Located)

/-! ## Readers of a picked variant -/

namespace Reader

/-- On bytes that start with this number the reader fails for errors of this kind only. -/
def FailsFrom (number : UInt64) (kind : WireError → Prop) (reader : Reader α) : Prop :=
  ∀ data length, Varint.decode data = .ok (number, length) → FailsOnly kind (reader data)

namespace FailsFrom

variable {number : UInt64} {reader : Reader α}

lemma mono (h : FailsFrom number kind reader) (hkind : ∀ e, kind e → kind' e) :
    FailsFrom number kind' reader :=
  fun data length hnumber => (h data length hnumber).mono hkind

lemma of_failsWith (h : FailsWith kind reader) : FailsFrom number kind reader :=
  fun data _ _ => h data

/-- What follows no longer reads from the number on. -/
lemma bind {next : α → Reader β} (h : FailsFrom number kind reader)
    (hnext : ∀ a, FailsWith kind (next a)) : FailsFrom number kind (reader >>= next) := by
  intro data length hnumber e he
  rcases Reader.bind_eq_error.mp he with he | ⟨a, n, -, he⟩
  · exact h data length hnumber e he
  · exact hnext a _ e he

/-- To ask for a number of bytes takes none of them. -/
lemma atLeast_bind (hplain : ∀ e, e.Plain → kind e) (n : Nat) (h : FailsFrom number kind reader) :
    FailsFrom number kind (do atLeast n; reader) := by
  intro data length hnumber e he
  rcases Reader.bind_eq_error.mp he with he | ⟨_, m, hatLeast, he⟩
  · exact hplain e (FailsWith.atLeast n data e he)
  · obtain ⟨_, -, hm⟩ := map_eq_ok.mp hatLeast
    cases hm
    rw [List.drop_zero] at he
    exact h data length hnumber e he

/-- The discriminant that the variant was picked by is the one it expects. -/
lemma discriminant {family : Family} :
    FailsFrom number WireError.Plain (discriminant mode family number) := by
  intro data length hnumber
  refine discriminant_failsOnly (fun _ h => h) fun actual _ hactual _ hne => ?_
  rw [hnumber] at hactual
  cases hactual
  exact absurd rfl hne

end FailsFrom

end Reader

open Reader (FailsFrom)

/-- **A family at the end of a path.**  It fails for what finding an empty object fails for, and for
what the variant of that object fails for one step inwards. -/
theorem Codec.reader_located {codec : Codec α} {path : List Variant}
    (hblank : ∀ number, FailsOnly (Located mode path) (codec.blank number))
    (hbody : ∀ number blank, codec.blank number = .ok blank →
      ∃ variant ∈ Variant.inside path.getLast?, codec.typeName blank = variant.name ∧
        FailsFrom number (Located mode (path ++ [variant])) (codec.body mode blank)) :
    FailsWith (Located mode path) (codec.reader mode) := by
  intro data e he
  change codec.decode mode data = .error e at he
  rw [decode] at he
  rcases bind_eq_error.mp he with he | ⟨⟨number, length⟩, hnumber, he⟩
  · exact (Varint.reader_failsWith data e he).located
  rcases bind_eq_error.mp he with he | ⟨blank, hread, he⟩
  · exact hblank number e he
  obtain ⟨cause, hcause, rfl⟩ := mapError_eq_error.mp he
  obtain ⟨variant, hinside, hname, hvariant⟩ := hbody number blank hread
  rw [hname]
  exact .inwards hinside (hvariant data length hnumber cause hcause)

/-! ## Objects other than transactions -/

section

variable {path : List Variant}

/-- A number that no variant has, where one of its family is looked for. -/
lemma WireError.Located.unknownType {outer : Option Variant} {family : Family} {number : UInt64}
    (hpath : path.getLast? = outer) (h : family ∈ Variant.picked outer) :
    Located mode path (.unknownType family number) := by
  rw [← hpath] at h
  exact .here h

lemma Ed25519Address.reader_failsFrom : FailsFrom discriminant WireError.Plain (reader mode) :=
  .atLeast_bind (fun _ h => h) _ <| FailsFrom.discriminant.bind fun _ =>
    (FailsWith.fixed _).bind fun _ => .pure _

lemma Address.reader_located (hpath : path.getLast? = some .singleDeposit) :
    FailsWith (Located mode path) (codec.reader mode) := by
  refine Codec.reader_located (fun number => ?_) fun number blank hblank => ?_
  · exact .ite (.error (.here (.inl ⟨hpath, rfl⟩)))
      (.ite (.ok _) (.error (.unknownType hpath (by decide))))
  · obtain rfl := tag_of_blank hblank
    cases blank with
    | ed25519 address =>
        refine ⟨.ed25519Address, by rw [hpath]; decide, rfl, ?_⟩
        rw [body_eq]
        exact (Ed25519Address.reader_failsFrom.mono fun _ h => h.located).bind fun _ => .pure _

lemma UtxoInput.reader_failsFrom : FailsFrom discriminant WireError.Plain (reader mode) :=
  .atLeast_bind (fun _ h => h) _ <| FailsFrom.discriminant.bind fun _ =>
    (FailsWith.atLeast _).bind fun _ => (FailsWith.fixed _).bind fun _ =>
      Reader.word16_failsWith.bind fun _ => .pure _

lemma Input.reader_located (hpath : path.getLast? = some .unsignedTransaction) :
    FailsWith (Located mode path) (codec.reader mode) := by
  refine Codec.reader_located (fun number => ?_) fun number blank hblank => ?_
  · exact .ite (.ok _) (.error (.unknownType hpath (by decide)))
  · obtain rfl := tag_of_blank hblank
    cases blank with
    | utxo input =>
        refine ⟨.utxoInput, by rw [hpath]; decide, rfl, ?_⟩
        rw [body_eq]
        exact (UtxoInput.reader_failsFrom.mono fun _ h => h.located).bind fun _ => .pure _

lemma SingleDeposit.reader_failsFrom (hpath : path.getLast? = some .singleDeposit) :
    FailsFrom discriminant (Located mode path) (reader mode) :=
  (FailsFrom.discriminant.mono fun _ h => h.located).bind fun _ =>
    (Address.reader_located hpath).bind fun _ =>
      (Reader.word64_failsWith.mono fun _ h => h.located).bind fun _ => .pure _

lemma Output.reader_located (hpath : path.getLast? = some .unsignedTransaction) :
    FailsWith (Located mode path) (codec.reader mode) := by
  refine Codec.reader_located (fun number => ?_) fun number blank hblank => ?_
  · exact .ite (.ok _) (.error (.unknownType hpath (by decide)))
  · obtain rfl := tag_of_blank hblank
    cases blank with
    | singleDeposit deposit =>
        refine ⟨.singleDeposit, by rw [hpath]; decide, rfl, ?_⟩
        rw [body_eq]
        exact (SingleDeposit.reader_failsFrom List.getLast?_concat).bind fun _ => .pure _

lemma Ed25519Signature.reader_failsFrom : FailsFrom discriminant WireError.Plain (reader mode) :=
  .atLeast_bind (fun _ h => h) _ <| FailsFrom.discriminant.bind fun _ =>
    (FailsWith.atLeast _).bind fun _ => (FailsWith.fixed _).bind fun _ =>
      (FailsWith.fixed _).bind fun _ => .pure _

/-- A signature of the one-time scheme is picked and then not read. -/
lemma WotsSignature.reader_located (hpath : path.getLast? = some .wotsSignature) :
    FailsWith (Located mode path) reader :=
  .lift (.error (.here (.inr ⟨hpath, rfl⟩)))

lemma Signature.reader_located (hpath : path.getLast? = some .signatureUnlockBlock) :
    FailsWith (Located mode path) (codec.reader mode) := by
  refine Codec.reader_located (fun number => ?_) fun number blank hblank => ?_
  · exact .ite (.ok _) (.ite (.ok _) (.error (.unknownType hpath (by decide))))
  · obtain rfl := tag_of_blank hblank
    cases blank with
    | wots signature =>
        refine ⟨.wotsSignature, by rw [hpath]; decide, rfl, .of_failsWith ?_⟩
        exact Codec.body_failsWith (body_wots signature)
          (WotsSignature.reader_located List.getLast?_concat)
    | ed25519 signature =>
        refine ⟨.ed25519Signature, by rw [hpath]; decide, rfl, ?_⟩
        rw [body_ed25519]
        exact (Ed25519Signature.reader_failsFrom.mono fun _ h => h.located).bind fun _ => .pure _

lemma SignatureUnlockBlock.reader_failsFrom (hpath : path.getLast? = some .signatureUnlockBlock) :
    FailsFrom discriminant (Located mode path) (reader mode) :=
  (FailsFrom.discriminant.mono fun _ h => h.located).bind fun _ =>
    (Signature.reader_located hpath).bind fun _ => .pure _

lemma ReferenceUnlockBlock.reader_failsFrom :
    FailsFrom discriminant WireError.Plain (reader mode) :=
  .atLeast_bind (fun _ h => h) _ <| FailsFrom.discriminant.bind fun _ =>
    Reader.word16_failsWith.bind fun _ => .pure _

lemma UnlockBlock.reader_located (hpath : path.getLast? = some .signedTransaction) :
    FailsWith (Located mode path) (codec.reader mode) := by
  refine Codec.reader_located (fun number => ?_) fun number blank hblank => ?_
  · exact .ite (.ok _) (.ite (.ok _) (.error (.unknownType hpath (by decide))))
  · obtain rfl := tag_of_blank hblank
    cases blank with
    | signature block =>
        refine ⟨.signatureUnlockBlock, by rw [hpath]; decide, rfl, ?_⟩
        rw [body_signature]
        exact (SignatureUnlockBlock.reader_failsFrom List.getLast?_concat).bind fun _ => .pure _
    | reference block =>
        refine ⟨.referenceUnlockBlock, by rw [hpath]; decide, rfl, ?_⟩
        rw [body_reference]
        exact (ReferenceUnlockBlock.reader_failsFrom.mono fun _ h => h.located).bind fun _ =>
          .pure _

end

/-! ## Transactions -/

namespace UnsignedTransaction

variable {params : ProtocolParameters} {path : List Variant}

/-- What follows the discriminant of an unsigned transaction is read alike, whether it stands on its
own or inside a signed one. -/
lemma parts_located (hpath : path.getLast? = some .unsignedTransaction) :
    FailsWith (Located mode path) (do
      let inputs ← inputsReader params mode
      let outputs ← outputsReader params mode
      let payload ← payloadReader mode
      return ({ inputs, outputs, payload } : UnsignedTransaction)) := by
  have hinputs : FailsWith (Located mode path) (inputsReader params mode) := by
    rw [inputsReader_eq]
    refine arrayReader_failsWith (fun _ h => h.located) (Input.reader_located hpath) fun _ => ?_
    exact Validator.validate_unique_failsOnly (fun _ _ => .ok _) fun _ _ => .here trivial
  have houtputs : FailsWith (Located mode path) (outputsReader params mode) := by
    rw [outputsReader_eq]
    refine arrayReader_failsWith (fun _ h => h.located) (Output.reader_located hpath) fun _ => ?_
    exact Validator.validate_unique_failsOnly (fun _ _ => .ok _) fun _ _ => .here trivial
  exact hinputs.bind fun _ => houtputs.bind fun _ =>
    (payloadReader_failsWith.mono fun _ h => h.located).bind fun _ => .pure _

lemma reader_failsFrom (hpath : path.getLast? = some .unsignedTransaction) :
    FailsFrom discriminant (Located mode path) (reader params mode) :=
  (FailsFrom.discriminant.mono fun _ h => h.located).bind fun _ => parts_located hpath

/-- Inside a signed transaction nobody has seen the discriminant before it is read. -/
lemma reader_located :
    FailsWith (Located mode [.signedTransaction, .unsignedTransaction]) (reader params mode) := by
  refine .bind (Reader.discriminant_failsWith (fun _ h => h.located) ?_) fun _ => parts_located rfl
  intro actual hmode hne
  exact .here ⟨rfl, hmode, rfl, rfl, hne⟩

end UnsignedTransaction

namespace SignedTransaction

variable {params : ProtocolParameters}

/-- Unlock blocks that have been read have keys to be told apart by. -/
lemma checkUnlockBlocks_located {path : List Variant} {inputs : List Input}
    {blocks : List UnlockBlock} {data : Bytes} {n : Nat}
    (h : blocksReader params .validated data = .ok (blocks, n)) :
    FailsOnly (Located mode path) (checkUnlockBlocks inputs blocks) := by
  refine checkUnlockBlocks_failsOnly (fun _ _ => .here trivial) (fun _ _ => .here trivial)
    (fun _ _ => .here trivial) fun block hblock => ?_
  have hencode := encode_signature_of_blocksReader h block hblock
  obtain ⟨key, hkey⟩ := UnlockBlock.exists_signatureKey.mpr hencode
  rw [hkey]
  exact .ok key

lemma reader_failsFrom :
    FailsFrom discriminant (Located mode [.signedTransaction]) (reader params mode) := by
  have htransaction : FailsWith (Located mode [.signedTransaction])
      (transactionReader params mode) := by
    rw [transactionReader_eq]
    exact UnsignedTransaction.reader_located.within fun _ h =>
      @Located.inwards mode [.signedTransaction] .unsignedTransaction _ (by decide) h
  have hblocks : FailsWith (Located mode [.signedTransaction]) (blocksReader params mode) :=
    ObjectArray.reader_failsWith (fun _ h => h.located) (UnlockBlock.reader_located rfl) _
  refine (FailsFrom.discriminant.mono fun _ h => h.located).bind fun _ =>
    htransaction.bind fun transaction => hblocks.bind_read fun data blocks n hread => ?_
  refine .bind (.lift ?_) fun _ => .pure _
  cases mode with
  | structural => exact .ok ()
  | validated => exact checkUnlockBlocks_located hread

end SignedTransaction

namespace Transaction

lemma reader_located {params : ProtocolParameters} :
    FailsWith (Located mode []) ((codec params).reader mode) := by
  refine Codec.reader_located (fun number => ?_) fun number blank hblank => ?_
  · exact .ite (.ok _) (.ite (.ok _) (.error (.unknownType rfl (by decide))))
  · obtain rfl := tag_of_blank hblank
    cases blank with
    | unsigned tx =>
        refine ⟨.unsignedTransaction, by decide, rfl, ?_⟩
        rw [body_unsigned]
        exact (UnsignedTransaction.reader_failsFrom rfl).bind fun _ => .pure _
    | signed tx =>
        refine ⟨.signedTransaction, by decide, rfl, ?_⟩
        rw [body_signed]
        exact SignedTransaction.reader_failsFrom.bind fun _ => .pure _

/-- **Every failure of reading a transaction says where it happened.**  Whatever the bytes, the mode
and the parameters, the names that the failure is wrapped in are those of objects each of which
stands directly inside the one before.  What is under them is no further name.  An unknown number
is one of a family that is looked for at the end of the path; a variant without a wire form is an
address in a deposit, or a signature of the one-time scheme; and a discriminant that is not the
expected one is that of the unsigned transaction inside a signed one, under validation. -/
theorem decode_error_located (params : ProtocolParameters) (mode : Mode) (data : Bytes)
    (e : WireError) (h : (codec params).decode mode data = .error e) :
    ∃ path : List Variant, e.entities = path.map Variant.name ∧ Variant.IsPath none path ∧
      (∀ entity cause, e.rootCause ≠ .inEntity entity cause) ∧
      (∀ family number, e.rootCause = .unknownType family number →
        family ∈ Variant.picked path.getLast?) ∧
      (∀ family variant, e.rootCause = .unimplemented family variant →
        (path.getLast? = some .singleDeposit ∧ family = .address) ∨
          (path.getLast? = some .wotsSignature ∧ family = .signature)) ∧
      ∀ family expected actual, e.rootCause = .typeMismatch family expected actual →
        path = [.signedTransaction, .unsignedTransaction] ∧ mode = .validated ∧
          family = .transaction ∧ expected = UnsignedTransaction.discriminant ∧
          actual ≠ expected := by
  have hlocated : e.Located mode [] := reader_located data e h
  obtain ⟨path, hnames, hpath, hfits⟩ := hlocated.exists_path
  rw [List.nil_append] at hfits
  refine ⟨path, hnames, hpath, e.rootCause_ne_inEntity, ?_, ?_, ?_⟩
  · intro family number hroot
    rwa [hroot] at hfits
  · intro family variant hroot
    rwa [hroot] at hfits
  · intro family expected actual hroot
    rwa [hroot] at hfits

/-- An unknown address in the first output of an unsigned transaction, and a signed transaction in
which another signed one stands for the unsigned one. -/
theorem decode_error_located_nested :
    (∃ e path, (codec {}).decode .structural [0, 0, 1, 0, 9] = .error e ∧
      e.entities = path.map Variant.name ∧ e.entities = ["UnsignedTransaction",
        "SigLockedSingleDeposit"] ∧ Variant.IsPath none path ∧
      Family.address ∈ Variant.picked path.getLast?) ∧
    ∃ e, (codec {}).decode .validated [1, 1] = .error e ∧
      e.entities = [Variant.signedTransaction, Variant.unsignedTransaction].map Variant.name := by
  have haddress : (codec {}).decode .structural [0, 0, 1, 0, 9]
      = .error (.inEntity "UnsignedTransaction" (.inEntity "SigLockedSingleDeposit"
        (.unknownType .address 9))) := by decide +kernel
  have hmismatch : (codec {}).decode .validated [1, 1]
      = .error (.inEntity "SignedTransaction" (.inEntity "UnsignedTransaction"
        (.typeMismatch .transaction 0 1))) := by decide +kernel
  obtain ⟨path, hnames, hpath, -, hunknown, -, -⟩ := decode_error_located _ _ _ _ haddress
  obtain ⟨path', hnames', -, -, -, -, htype⟩ := decode_error_located _ _ _ _ hmismatch
  refine ⟨⟨_, path, haddress, hnames, rfl, hpath, hunknown .address 9 rfl⟩, _, hmismatch, ?_⟩
  rw [hnames', (htype _ _ _ rfl).1]

end Transaction

end UtxoWire
