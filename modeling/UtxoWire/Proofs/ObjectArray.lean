import Mathlib.Data.List.Chain
import Mathlib.Data.List.Forall2
import UtxoWire.ObjectArray.Codec
import UtxoWire.Proofs.Codec

/-!
# Arrays

The forms of an array are a number in front of the forms of as many elements.  Where the rules ask
for order the check looks at the bytes the elements took, not at the elements, so that a form of an
array is described by the forms of its elements in turn.

* `Ascending` — what is left to be asked of the elements that follow, once an order check has seen
  those before.
* **`reader_reads`** — the forms of an array, for any reader of its elements.
* `reader_steady` — an array is read steadily if its elements are.
* `encode_eq_ok` — what is written.
-/

namespace UtxoWire

open Reader (Steady Reads)

/-! ## Rules -/

/-- The number lies within the bounds, of which 0 is none. -/
def WithinBounds (min max : UInt64) (count : Nat) : Prop :=
  (min = 0 ∨ min.toNat ≤ count) ∧ (max = 0 ∨ count ≤ max.toNat)

lemma ArrayRules.checkBounds_eq_ok {rules : ArrayRules} {count : UInt64} :
    rules.checkBounds count = .ok () ↔ WithinBounds rules.min rules.max count.toNat := by
  simp only [checkBounds, check_bind_eq_ok, require_eq_ok, WithinBounds, UInt64.le_iff_toNat_le]

lemma ArrayRules.checkBounds_eq_error {rules : ArrayRules} {count : UInt64}
    (h : ¬ WithinBounds rules.min rules.max count.toNat) :
    ∃ bound limit, rules.checkBounds count
      = .error (.countOutOfBounds rules.name bound limit count) := by
  cases hcheck : rules.checkBounds count with
  | ok _ => exact absurd (checkBounds_eq_ok.mp hcheck) h
  | error e =>
      rcases bind_eq_error.mp hcheck with hmin | ⟨_, -, hmax⟩
      · obtain ⟨-, rfl⟩ := require_eq_error.mp hmin
        exact ⟨.min, _, rfl⟩
      · obtain ⟨-, rfl⟩ := require_eq_error.mp hmax
        exact ⟨.max, _, rfl⟩

namespace ObjectArray

variable {α : Type} {codec : Codec α} {mode : Mode}

/-- Lets an order check, if there is one, look at the wire form of an element. -/
def advance (order : Option OrderCheck) (index : Nat) (element : Bytes) :
    Except WireError (Option OrderCheck) :=
  match order with
  | none => .ok none
  | some order =>
    match order.check index element with
    | (.ok (), order) => .ok (some order)
    | (.error error, _) => .error error

/-- The wire forms ascend strictly, from the one that the order check remembers on. -/
def Ascending (order : Option OrderCheck) (elements : List Bytes) : Prop :=
  ∀ check, order = some check →
    ((check.previous.map Prod.snd).toList ++ elements).IsChain (· < ·)

lemma ascending_nil (order : Option OrderCheck) : Ascending order [] := by
  intro check _
  cases check.previous <;> simp

/-- Elements ascend when the check accepts the first and the others ascend from there. -/
lemma ascending_cons {order : Option OrderCheck} {index : Nat} {element : Bytes}
    {elements : List Bytes} :
    Ascending order (element :: elements) ↔
      ∃ order', advance order index element = .ok order' ∧ Ascending order' elements := by
  cases order with
  | none => simp [Ascending, advance]
  | some check =>
      cases hprevious : check.previous with
      | none => simp [Ascending, advance, OrderCheck.check, hprevious]
      | some last =>
          by_cases hlt : last.2 < element
          · simp [Ascending, advance, OrderCheck.check, hprevious, hlt]
          · simp [Ascending, advance, OrderCheck.check, hprevious, hlt]

/-- An order check fails for a violation of the order. -/
lemma advance_failsOnly {kind : WireError → Prop}
    (hkind : ∀ array previous current, kind (.lexicalOrderViolation array previous current))
    (order : Option OrderCheck) (index : Nat) (element : Bytes) :
    FailsOnly kind (advance order index element) := by
  cases order with
  | none => exact .ok none
  | some check =>
      rcases check with ⟨name, _ | ⟨place, previous⟩⟩
      · exact .ok _
      · by_cases hlt : previous < element
        · simp only [advance, OrderCheck.check, hlt, if_true]
          exact .ok _
        · simp only [advance, OrderCheck.check, hlt, if_false]
          exact .error (hkind _ _ _)

/-- For a check that has seen nothing, every element is below every later one. -/
lemma ascending_start {rules : Option ArrayRules} {elements : List Bytes} :
    Ascending (rules.bind ArrayRules.orderCheck?) elements ↔
      ∀ r, rules = some r → r.lexicalOrder = true → elements.Pairwise (· < ·) := by
  cases rules with
  | none => simp [Ascending]
  | some r =>
      by_cases horder : r.lexicalOrder = true
      · simp [Ascending, ArrayRules.orderCheck?, OrderCheck.start, horder,
          List.isChain_iff_pairwise]
      · simp [Ascending, ArrayRules.orderCheck?, horder]

/-! ## Reading -/

/-- The reader of the elements of an array, under an order check. -/
def elements (codec : Codec α) (mode : Mode) : (count index : Nat) → Option OrderCheck →
    Reader (List α)
  | 0, _, _ => pure []
  | count + 1, index, order => do
    let (object, bytes) ← Reader.withBytes (codec.reader mode)
    let order ← advance order index bytes
    let objects ← elements codec mode count (index + 1) order
    return object :: objects

def reader (codec : Codec α) (mode : Mode) (rules : Option ArrayRules) : Reader (List α) := do
  let count ← Reader.number fun count length =>
    mode.check (Varint.requireMinimal "array count" count length)
  (rules.elim (.ok ()) fun rules => rules.checkBounds count : Except WireError Unit)
  elements codec mode count.toNat 0 (rules.bind ArrayRules.orderCheck?)

lemma checkOrder_eq {data : Bytes} {length : Nat} (h : length ≤ data.length)
    (order : Option OrderCheck) (index : Nat) :
    checkOrder order index length data = advance order index (data.take length) := by
  cases order with
  | none => rfl
  | some check =>
      rw [checkOrder, Bytes.first_eq_ok h]
      rfl

lemma decodeElementsIn_succ (count index : Nat) (order : Option OrderCheck) (data : Bytes) :
    decodeElementsIn (codec.decode mode) (count + 1) index order data = do
      let (object, length) ← codec.decode mode data
      let order ← checkOrder order index length data
      let rest ← Bytes.skip length data
      let (objects, restLength) ←
        decodeElementsIn (codec.decode mode) count (index + 1) order rest
      return (object :: objects, length + restLength) := rfl

/-- The slices the elements are cut out with are never too long. -/
lemma decodeElementsIn_eq (hcodec : Steady (codec.reader mode)) (count index : Nat)
    (order : Option OrderCheck) (data : Bytes) :
    decodeElementsIn (codec.decode mode) count index order data
      = elements codec mode count index order data := by
  induction count generalizing index order data with
  | zero => rfl
  | succ count ih =>
      have hread : Reader.withBytes (codec.reader mode) data
          = (codec.decode mode data).map fun p => ((p.1, data.take p.2), p.2) := rfl
      rw [decodeElementsIn_succ, elements]
      cases hd : codec.decode mode data with
      | error e =>
          rw [hd] at hread
          rw [Reader.bind_of_error hread, error_bind]
      | ok p =>
          have hlen : p.2 ≤ data.length := hcodec.le_length hd
          rw [hd] at hread
          rw [Reader.bind_of_ok hread, ok_bind]
          dsimp only
          rw [checkOrder_eq hlen, Reader.bind_apply, Reader.lift_apply]
          cases advance order index (data.take p.2) with
          | error e => rfl
          | ok order =>
              simp only [Except.map, ok_bind, Bytes.skip_eq_ok hlen, ih, List.drop_zero,
                Reader.bind_apply]
              cases elements codec mode count (index + 1) order (data.drop p.2) with
              | error e => rfl
              | ok q => simp [Reader.pure_apply]

lemma decode_unfold (rules : Option ArrayRules) (data : Bytes) :
    decode codec mode rules data = do
      let (count, length) ← Varint.decode data
      checkCount mode rules count length
      let rest ← Bytes.skip length data
      let (objects, restLength) ← decodeElementsIn (codec.decode mode) count.toNat 0
        (rules.bind ArrayRules.orderCheck?) rest
      return (objects, length + restLength) := rfl

/-- Once the number of elements is read it is held against the rules, and the elements are read from
what follows it. -/
lemma decode_of_count {rules : Option ArrayRules} {data : Bytes} {count : UInt64} {length : Nat}
    (hcount : Varint.decode data = .ok (count, length)) :
    decode codec mode rules data = checkCount mode rules count length >>= fun _ =>
      (decodeElementsIn (codec.decode mode) count.toNat 0 (rules.bind ArrayRules.orderCheck?)
        (data.drop length)).map fun p => (p.1, length + p.2) := by
  have hrest := Bytes.skip_eq_ok (Varint.reader_steady.le_length hcount)
  simp only [decode_unfold, hcount, ok_bind, hrest]
  rfl

lemma decode_eq (hcodec : Steady (codec.reader mode)) (rules : Option ArrayRules) (data : Bytes) :
    decode codec mode rules data = reader codec mode rules data := by
  rw [reader, Reader.bind_apply, Reader.number_apply]
  cases hd : Varint.decode data with
  | error e =>
      rw [decode_unfold, hd]
      rfl
  | ok p =>
      obtain ⟨count, length⟩ := p
      simp only [decode_of_count hd, checkCount, ok_bind, decodeElementsIn_eq hcodec]
      cases mode.check (Varint.requireMinimal "array count" count length) with
      | error e => rfl
      | ok _ =>
          simp only [ok_bind, pure_eq_ok, Reader.bind_apply, Reader.lift_apply]
          cases rules.elim (.ok ()) fun rules => rules.checkBounds count with
          | error e => rfl
          | ok _ =>
              simp only [Except.map, ok_bind, List.drop_zero]
              cases elements codec mode count.toNat 0 (rules.bind ArrayRules.orderCheck?)
                (data.drop length) with
              | error e => rfl
              | ok q => simp

lemma elements_steady (hcodec : Steady (codec.reader mode)) (count index : Nat)
    (order : Option OrderCheck) : Steady (elements codec mode count index order) := by
  induction count generalizing index order with
  | zero => exact .pure []
  | succ count ih =>
      exact hcodec.withBytes.bind fun p => (Steady.lift _).bind fun order =>
        (ih (index + 1) order).bind fun _ => .pure _

theorem reader_steady (hcodec : Steady (codec.reader mode)) (rules : Option ArrayRules) :
    Steady (reader codec mode rules) :=
  (Reader.number_steady _).bind fun _ => (Steady.lift _).bind fun _ => elements_steady hcodec _ _ _

/-! ## Forms -/

/-- The forms of an array: the number of its elements, in a form that the mode allows, and a form of
each element. -/
def Form (form : α → Bytes → Prop) (mode : Mode) (rules : Option ArrayRules) (objects : List α)
    (bytes : Bytes) : Prop :=
  ∃ count prefixed elements, bytes = prefixed ++ elements.flatten ∧
    Varint.Form mode count prefixed ∧ objects.length = count.toNat ∧
    List.Forall₂ form objects elements ∧
    ∀ r, rules = some r → WithinBounds r.min r.max objects.length ∧
      (r.lexicalOrder = true → elements.Pairwise (· < ·))

/-- The elements are read one after the other, each from a form of its own. -/
lemma elements_reads {form : α → Bytes → Prop} (hcodec : Reads (codec.reader mode) form)
    (count index : Nat) (order : Option OrderCheck) :
    Reads (elements codec mode count index order) fun objects bytes =>
      ∃ es, bytes = es.flatten ∧ objects.length = count ∧ List.Forall₂ form objects es ∧
        Ascending order es := by
  induction count generalizing index order with
  | zero =>
      refine (Reads.pure []).congr fun objects bytes => ?_
      constructor
      · rintro ⟨rfl, rfl⟩
        exact ⟨[], rfl, rfl, .nil, ascending_nil order⟩
      · rintro ⟨es, rfl, hlen, hform, -⟩
        obtain rfl := List.eq_nil_of_length_eq_zero hlen
        cases hform
        exact ⟨rfl, rfl⟩
  | succ count ih =>
      refine (hcodec.withBytes.bind fun p => Reads.lift_bind _ fun order _ =>
        (ih (index + 1) order).map _).congr fun objects bytes => ?_
      constructor
      · rintro ⟨⟨object, e⟩, _, _, rfl, ⟨he, rfl⟩, order', ho, objects, rfl, hrest⟩
        obtain ⟨es, rfl, rfl, hes, hasc⟩ := hrest
        exact ⟨e :: es, rfl, rfl, .cons he hes, ascending_cons.mpr ⟨order', ho, hasc⟩⟩
      · rintro ⟨es, rfl, hlen, hform, hasc⟩
        cases hform with
        | nil => cases hlen
        | @cons object e objects es he hes =>
            obtain ⟨order', ho, hasc⟩ := ascending_cons.mp hasc
            exact ⟨(object, e), e, _, rfl, ⟨he, rfl⟩, order', ho, objects, rfl, es, rfl,
              Nat.succ.inj hlen, hes, hasc⟩

/-- **The forms of an array are what its reader takes**, whatever the forms of its elements are. -/
theorem reader_reads {form : α → Bytes → Prop} (hcodec : Reads (codec.reader mode) form)
    (rules : Option ArrayRules) :
    Reads (reader codec mode rules) (Form form mode rules) := by
  refine ((Reader.number_reads _).bind fun count => Reads.lift_bind _ fun _ _ =>
    elements_reads hcodec count.toNat 0 _).congr fun objects bytes => ?_
  simp only [Mode.check_eq_ok, Varint.requireMinimal_eq_ok, ascending_start]
  constructor
  · rintro ⟨count, c, _, rfl, hc, _, hbounds, es, rfl, hlen, hes, hasc⟩
    refine ⟨count, c, es, rfl, hc, hlen, hes, ?_⟩
    rintro r rfl
    rw [hlen]
    exact ⟨ArrayRules.checkBounds_eq_ok.mp hbounds, hasc r rfl⟩
  · rintro ⟨count, c, es, rfl, hc, hlen, hes, hrules⟩
    refine ⟨count, c, _, rfl, hc, (), ?_, es, rfl, hlen, hes, fun r hr => (hrules r hr).2⟩
    cases rules with
    | none => rfl
    | some r =>
        rw [hlen] at hrules
        exact ArrayRules.checkBounds_eq_ok.mpr (hrules r rfl).1

/-- The number of elements is held against the bounds; then the elements are read. -/
lemma reader_encodeNat_append (rules : Option ArrayRules) {count : Nat} (hcount : count < 2 ^ 64)
    (rest : Bytes) :
    reader codec mode rules (Varint.encodeNat count ++ rest) = do
      rules.elim (.ok ()) fun rules => rules.checkBounds (UInt64.ofNat count)
      let (objects, length) ← elements codec mode count 0 (rules.bind ArrayRules.orderCheck?) rest
      return (objects, (Varint.encodeNat count).length + length) := by
  have hvalue : (UInt64.ofNat count).toNat = count := UInt64.toNat_ofNat_of_lt' hcount
  have hform := Varint.Form.encode mode (UInt64.ofNat count)
  rw [Varint.encode, hvalue] at hform
  have hread := (Reader.number_reads fun count length =>
    mode.check (Varint.requireMinimal "array count" count length)).apply_append
      ⟨hform.1, hform.2.1, Mode.check_eq_ok.mpr fun hmode =>
        Varint.requireMinimal_eq_ok.mpr (hform.2.2 hmode)⟩ rest
  rw [reader, Reader.bind_of_ok hread, List.drop_left, Reader.bind_apply, Reader.lift_apply, hvalue]
  cases rules.elim (.ok ()) fun rules => rules.checkBounds (UInt64.ofNat count) with
  | error e => rfl
  | ok _ =>
      simp only [Except.map, ok_bind, List.drop_zero]
      cases elements codec mode count 0 (rules.bind ArrayRules.orderCheck?) rest with
      | error e => rfl
      | ok p => simp

/-- A number of elements out of bounds is refused before any element is read. -/
lemma reader_countOutOfBounds {rules : ArrayRules} {count : Nat} (hcount : count < 2 ^ 64)
    (h : ¬ WithinBounds rules.min rules.max count) (rest : Bytes) :
    ∃ bound limit, reader codec mode (some rules) (Varint.encodeNat count ++ rest)
      = .error (.countOutOfBounds rules.name bound limit (UInt64.ofNat count)) := by
  have hvalue : (UInt64.ofNat count).toNat = count := UInt64.toNat_ofNat_of_lt' hcount
  obtain ⟨bound, limit, hbounds⟩ := ArrayRules.checkBounds_eq_error (hvalue.symm ▸ h)
  refine ⟨bound, limit, ?_⟩
  rw [reader_encodeNat_append _ hcount, Option.elim_some, hbounds, error_bind]

/-! ## Writing -/

/-- An element that has a wire form is written, and the others are written behind it. -/
lemma appendElements_cons_of_ok {object : α} {e : Bytes} (h : codec.encode mode object = .ok e)
    (objects : List α) (buffer : Bytes) :
    (appendElements codec mode (object :: objects)).apply buffer
      = (appendElements codec mode objects).apply (buffer ++ e) := by
  have helement : encodeElement codec mode object = .ok e := mapError_eq_ok.mpr h
  rw [appendElements, Update.apply_lift_bind helement, Update.apply_modify_bind]

/-- At an element that has none the writing ends, with the failure under the element's name. -/
lemma appendElements_cons_of_error {object : α} {cause : WireError}
    (h : codec.encode mode object = .error cause) (objects : List α) (buffer : Bytes) :
    (appendElements codec mode (object :: objects)).apply buffer
      = (.error (.inEntity (codec.typeName object) cause), buffer) := by
  rw [appendElements, encodeElement, h]
  rfl

lemma appendElements_apply {objects : List α} {buffer buffer' : Bytes} :
    (appendElements codec mode objects).apply buffer = (.ok (), buffer') ↔
      ∃ es, List.Forall₂ (fun object e => codec.encode mode object = .ok e) objects es ∧
        buffer' = buffer ++ es.flatten := by
  induction objects generalizing buffer with
  | nil =>
      simp only [List.forall₂_nil_left_iff, exists_eq_left, List.flatten_nil, List.append_nil]
      constructor
      · intro h
        cases h
        rfl
      · rintro rfl
        rfl
  | cons object objects ih =>
      cases hobject : codec.encode mode object with
      | error cause =>
          rw [appendElements_cons_of_error hobject]
          constructor
          · intro h
            cases h
          · rintro ⟨_, hes, -⟩
            cases hes with
            | cons h _ =>
                rw [hobject] at h
                cases h
      | ok e =>
          rw [appendElements_cons_of_ok hobject, ih]
          constructor
          · rintro ⟨es, hes, rfl⟩
            exact ⟨e :: es, .cons hobject hes, by simp⟩
          · rintro ⟨_, hes, rfl⟩
            cases hes with
            | @cons _ e' _ es h hes =>
                rw [hobject] at h
                cases h
                exact ⟨es, hes, by simp⟩

/-- An array is written as the number of its elements followed by their wire forms, and when each
element has one. -/
theorem encode_eq_ok {objects : List α} {bytes : Bytes} :
    encode codec mode objects = .ok bytes ↔
      ∃ es, List.Forall₂ (fun object e => codec.encode mode object = .ok e) objects es ∧
        bytes = Varint.encodeNat objects.length ++ es.flatten := by
  rw [← appendElements_apply]
  rw [encode, append, Update.fill, Update.apply_modify_bind, List.nil_append]
  rcases (appendElements codec mode objects).apply (Varint.encodeNat objects.length)
    with ⟨e | ⟨⟩, buffer⟩
  · simp
  · simp

/-- Under validation an array is read from what is written of it, if its elements are. -/
theorem Form.encode {form : α → Bytes → Prop} {rules : Option ArrayRules} {objects : List α}
    {bytes : Bytes} (hform : ∀ a e, form a e → codec.encode mode a = .ok e)
    (h : Form form .validated rules objects bytes) : encode codec mode objects = .ok bytes := by
  obtain ⟨count, c, es, rfl, hc, hlen, hes, -⟩ := h
  refine encode_eq_ok.mpr ⟨es, hes.imp hform, ?_⟩
  rw [Varint.form_validated_iff.mp hc, Varint.encode, hlen]

/-- **Under validation an array has one form**, the one that is written, as long as its elements
have one form and their number is one of 64 bits. -/
theorem form_validated_iff {form : α → Bytes → Prop} {rules : Option ArrayRules} {objects : List α}
    {bytes : Bytes} (hform : ∀ a e, form a e ↔ codec.encode mode a = .ok e) :
    Form form .validated rules objects bytes ↔
      ∃ es, List.Forall₂ (fun object e => codec.encode mode object = .ok e) objects es ∧
        bytes = Varint.encodeNat objects.length ++ es.flatten ∧ objects.length < 2 ^ 64 ∧
        ∀ r, rules = some r → WithinBounds r.min r.max objects.length ∧
          (r.lexicalOrder = true → es.Pairwise (· < ·)) := by
  have hform' : form = fun object e => codec.encode mode object = .ok e :=
    funext fun a => funext fun e => propext (hform a e)
  constructor
  · rintro ⟨count, c, es, rfl, hc, hlen, hes, hrules⟩
    rw [hform'] at hes
    refine ⟨es, hes, ?_, ?_, hrules⟩
    · rw [hlen, Varint.form_validated_iff.mp hc, Varint.encode]
    · rw [hlen]
      exact count.toNat_lt
  · rintro ⟨es, hes, rfl, hfits, hrules⟩
    have hcount : (UInt64.ofNat objects.length).toNat = objects.length := by
      rw [UInt64.toNat_ofNat', Nat.mod_eq_of_lt hfits]
    refine ⟨UInt64.ofNat objects.length, _, es, rfl, ?_, hcount.symm, ?_, hrules⟩
    · rw [Varint.form_validated_iff, Varint.encode, hcount]
    · rw [hform']
      exact hes

/-- What is written for an array whose elements always have a wire form. -/
def written (f : α → Bytes) (objects : List α) : Bytes :=
  Varint.encodeNat objects.length ++ (objects.map f).flatten

lemma forall₂_encode_iff {f : α → Bytes} (hf : ∀ a, codec.encode mode a = .ok (f a))
    {objects : List α} {es : List Bytes} :
    List.Forall₂ (fun object e => codec.encode mode object = .ok e) objects es ↔
      es = objects.map f := by
  simp only [hf, Except.ok.injEq]
  rw [← List.forall₂_map_left_iff, List.forall₂_eq_eq_eq, eq_comm]

lemma encode_written {f : α → Bytes} (hf : ∀ a, codec.encode mode a = .ok (f a))
    (objects : List α) : encode codec mode objects = .ok (written f objects) :=
  encode_eq_ok.mpr ⟨objects.map f, (forall₂_encode_iff hf).mpr rfl, rfl⟩

lemma form_validated_written {f : α → Bytes} {form : α → Bytes → Prop} {rules : ArrayRules}
    {objects : List α} {bytes : Bytes} (hf : ∀ a, codec.encode mode a = .ok (f a))
    (hform : ∀ a e, form a e ↔ e = f a) :
    Form form .validated (some rules) objects bytes ↔
      bytes = written f objects ∧ objects.length < 2 ^ 64 ∧
        WithinBounds rules.min rules.max objects.length ∧
        (rules.lexicalOrder = true → (objects.map f).Pairwise (· < ·)) := by
  have hencode : ∀ a e, form a e ↔ codec.encode mode a = .ok e := by
    intro a e
    rw [hform, hf, Except.ok.injEq, eq_comm]
  rw [form_validated_iff hencode]
  simp only [forall₂_encode_iff hf, exists_eq_left, Option.some.injEq, forall_eq']
  rfl

/-- What is so of every form is so of the forms of elements. -/
lemma forall_mem_of_forall₂ {form : α → Bytes → Prop} {p : Bytes → Prop}
    (h : ∀ a e, form a e → p e) {objects : List α} {es : List Bytes}
    (hes : List.Forall₂ form objects es) : ∀ e ∈ es, p e := by
  have hforms := hes.flip.imp fun e a he => And.intro (h a e he) he
  exact ((List.forall₂_and_left _ _).mp hforms).1

/-- Elements of a least size take up at least that for each of them. -/
lemma length_mul_le_flatten {size : Nat} {es : List Bytes} (hsize : ∀ e ∈ es, size ≤ e.length) :
    es.length * size ≤ es.flatten.length := by
  induction es with
  | nil => exact Nat.le_of_eq (Nat.zero_mul size)
  | cons e es ih =>
      obtain ⟨he, hes⟩ := List.forall_mem_cons.mp hsize
      have hrest := ih hes
      rw [List.length_cons, List.flatten_cons, List.length_append, Nat.succ_mul]
      omega

lemma length_le_flatten {es : List Bytes} (hne : ∀ e ∈ es, e ≠ []) :
    es.length ≤ es.flatten.length := by
  have hsize : ∀ e ∈ es, 1 ≤ e.length := fun e he => List.length_pos_of_ne_nil (hne e he)
  simpa only [Nat.mul_one] using length_mul_le_flatten hsize

/-- An array has more bytes than elements, unless elements may be written as nothing. -/
lemma length_lt_of_encode {objects : List α} {bytes : Bytes}
    (hne : ∀ a e, codec.encode mode a = .ok e → e ≠ [])
    (h : encode codec mode objects = .ok bytes) : objects.length < bytes.length := by
  obtain ⟨es, hes, rfl⟩ := encode_eq_ok.mp h
  have hall : ∀ e ∈ es, e ≠ [] := forall_mem_of_forall₂ hne hes
  have hcount := (Varint.spells_encodeNat objects.length).length_pos
  have hflatten := length_le_flatten hall
  have hlen := hes.length_eq
  rw [List.length_append]
  omega

lemma length_lt_written {f : α → Bytes} (hne : ∀ a, f a ≠ []) (objects : List α) :
    objects.length < (written f objects).length := by
  have hcount := (Varint.spells_encodeNat objects.length).length_pos
  have hflatten : (objects.map f).length ≤ (objects.map f).flatten.length :=
    length_le_flatten (List.forall_mem_map.mpr fun a _ => hne a)
  rw [List.length_map] at hflatten
  rw [written, List.length_append]
  omega

end ObjectArray

end UtxoWire
