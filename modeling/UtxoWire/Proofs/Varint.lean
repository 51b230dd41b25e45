import UtxoWire.Proofs.Reader

/-!
# Numbers on the wire

What the reader of variable-length numbers accepts, and the one form that is shortest.

* `Spells` — the grammar of numbers: groups of seven bits, all but the last marked as not the last.
* `decode_eq_ok` — the reader accepts the byte strings that start with at most ten groups that
  spell a 64-bit number.
* `encodeNat_unique` — of all byte strings that spell a number, the one that is written is the
  shortest, and the only one of its length.
* `Form` — the forms that a mode allows; under validation there is one (`form_validated_iff`).
* `reader_steady` — the reader looks at no byte after the number.
-/

namespace UtxoWire.Varint

/-- The bytes spell the number: its groups of seven bits, least significant first, and the high bit
on all bytes but the last.  Groups above the number may be zero, so a number is spelled in many
ways. -/
inductive Spells : Bytes → Nat → Prop
  | last {b : UInt8} : b < 0x80 → Spells [b] b.toNat
  | more {b : UInt8} {rest : Bytes} {n : Nat} :
      ¬ b < 0x80 → Spells rest n → Spells (b :: rest) (b.toNat - 128 + 128 * n)

lemma lt_iff {b : UInt8} : b < 0x80 ↔ b.toNat < 128 := UInt8.lt_iff_toNat_lt

lemma Spells.length_pos {bytes : Bytes} {n : Nat} (h : Spells bytes n) : 0 < bytes.length := by
  cases h <;> simp

/-! ## Reading -/

/-- A group put in front of the groups below it adds to their number. -/
lemma toNat_or_place {value : UInt64} (group : UInt8) {shift : Nat} (hs : shift < 64)
    (hv : value.toNat < 2 ^ shift) (hg : 2 ^ shift * group.toNat < 2 ^ 64) :
    (value ||| group.toUInt64 <<< UInt64.ofNat shift).toNat
      = value.toNat + 2 ^ shift * group.toNat := by
  have hshift : (UInt64.ofNat shift).toNat % 64 = shift := by
    rw [UInt64.toNat_ofNat']
    omega
  rw [UInt64.toNat_or, UInt64.toNat_shiftLeft, hshift, UInt8.toNat_toUInt64,
    Nat.shiftLeft_eq, Nat.mul_comm, Nat.mod_eq_of_lt hg, Nat.or_comm,
    ← Nat.two_pow_add_eq_or_of_lt hv, Nat.add_comm]

lemma toNat_group {b : UInt8} (hb : ¬ b < 0x80) : (b &&& 0x7f).toNat = b.toNat - 128 := by
  have hge : 128 ≤ b.toNat := Nat.le_of_not_lt (mt lt_iff.mpr hb)
  have hlt := b.toNat_lt
  have hand : (b &&& 0x7f).toNat = b.toNat % 2 ^ 7 := by
    rw [UInt8.toNat_and]
    exact Nat.and_two_pow_sub_one_eq_mod _ 7
  omega

/-- One group more stays below the place of the next, and the first nine groups below bit 63. -/
lemma place_lt {index below : Nat} (group : Nat) (hi : index < 9) (hb : below < 2 ^ (7 * index))
    (hg : group < 128) :
    below + 2 ^ (7 * index) * group < 2 ^ (7 * (index + 1)) ∧
      2 ^ (7 * (index + 1)) ≤ 2 ^ 63 := by
  constructor
  · calc below + 2 ^ (7 * index) * group
        < 2 ^ (7 * index) * (group + 1) := by rw [Nat.mul_add_one]; omega
      _ ≤ 2 ^ (7 * index) * 2 ^ 7 := Nat.mul_le_mul_left _ (by omega)
      _ = 2 ^ (7 * (index + 1)) := by rw [← Nat.pow_add, Nat.mul_add_one]
  · exact Nat.pow_le_pow_right (by decide) (by omega)

lemma decodeGroups_maxSize (available : Nat) (value : UInt64) (bytes : Bytes) (v : UInt64)
    (n : Nat) :
    decodeGroups available maxSize value bytes ≠ .ok (v, n) := by
  cases bytes <;> simp [decodeGroups]

/-- A byte without the high bit ends the number. -/
lemma prefix_spells_last {b : UInt8} {rest s : Bytes} {m : Nat} (hb : b < 0x80) :
    s <+: b :: rest ∧ Spells s m ↔ s = [b] ∧ m = b.toNat := by
  constructor
  · rintro ⟨hs, hm⟩
    cases hm with
    | last _ =>
        obtain ⟨rfl, -⟩ := List.cons_prefix_cons.mp hs
        exact ⟨rfl, rfl⟩
    | more hc _ =>
        obtain ⟨rfl, -⟩ := List.cons_prefix_cons.mp hs
        exact absurd hb hc
  · rintro ⟨rfl, rfl⟩
    exact ⟨List.cons_prefix_cons.mpr ⟨rfl, List.nil_prefix⟩, .last hb⟩

/-- After a byte with the high bit the number goes on. -/
lemma prefix_spells_more {b : UInt8} {rest s : Bytes} {m : Nat} (hb : ¬ b < 0x80) :
    s <+: b :: rest ∧ Spells s m ↔
      ∃ s' m', s = b :: s' ∧ m = b.toNat - 128 + 128 * m' ∧ s' <+: rest ∧ Spells s' m' := by
  constructor
  · rintro ⟨hs, hm⟩
    cases hm with
    | last hc =>
        obtain ⟨rfl, -⟩ := List.cons_prefix_cons.mp hs
        exact absurd hc hb
    | more _ hm' =>
        obtain ⟨rfl, hs'⟩ := List.cons_prefix_cons.mp hs
        exact ⟨_, _, rfl, rfl, hs', hm'⟩
  · rintro ⟨s', m', rfl, rfl, hs', hm'⟩
    exact ⟨List.cons_prefix_cons.mpr ⟨rfl, hs'⟩, .more hb hm'⟩

lemma decodeGroups_last {available index n : Nat} {value v : UInt64} {b : UInt8} {rest : Bytes}
    (hi : index < maxSize) (hv : value.toNat < 2 ^ (7 * index)) (hb : b < 0x80) :
    decodeGroups available index value (b :: rest) = .ok (v, n) ↔
      n = index + 1 ∧ v.toNat = value.toNat + 2 ^ (7 * index) * b.toNat := by
  have hb' : b.toNat < 128 := lt_iff.mp hb
  have hmax : maxSize = 10 := rfl
  rw [decodeGroups, if_neg (by omega), if_pos hb]
  split
  case isTrue hover =>
    obtain ⟨h9, h1⟩ := hover
    have h1' : 1 < b.toNat := UInt8.lt_iff_toNat_lt.mp h1
    have hv' := v.toNat_lt
    obtain rfl : index = 9 := by omega
    constructor
    · intro h
      cases h
    · rintro ⟨-, h⟩
      omega
  case isFalse hfits =>
    have hplace : 2 ^ (7 * index) * b.toNat < 2 ^ 64 := by
      by_cases h9 : index = 9
      · have h1 : b.toNat ≤ 1 :=
          Nat.le_of_not_lt fun h => hfits ⟨by omega, UInt8.lt_iff_toNat_lt.mpr h⟩
        subst h9
        omega
      · have := place_lt b.toNat (by omega) hv hb'
        omega
    have hsum := toNat_or_place b (by omega) hv hplace
    rw [placeGroup, if_pos (by omega), ok_bind, pure_eq_ok, Except.ok.injEq, Prod.mk.injEq,
      ← hsum, UInt64.toNat_inj, eq_comm (a := n), eq_comm (a := v), and_comm]

/-- What is read from a group on, once the groups before it are known. -/
theorem decodeGroups_eq_ok {available index n : Nat} {value v : UInt64} {bytes : Bytes}
    (hi : index < maxSize) (hv : value.toNat < 2 ^ (7 * index)) :
    decodeGroups available index value bytes = .ok (v, n) ↔
      ∃ s m, (s <+: bytes ∧ Spells s m) ∧ n = index + s.length ∧ n ≤ maxSize ∧
        v.toNat = value.toNat + 2 ^ (7 * index) * m := by
  induction bytes generalizing index value with
  | nil =>
      constructor
      · intro h
        cases h
      · rintro ⟨s, m, ⟨hs, hm⟩, -⟩
        rw [List.prefix_nil] at hs
        subst hs
        cases hm
  | cons b rest ih =>
      have hmax : maxSize = 10 := rfl
      by_cases hb : b < 0x80
      · rw [decodeGroups_last hi hv hb]
        simp only [prefix_spells_last hb]
        constructor
        · rintro ⟨rfl, h⟩
          exact ⟨[b], _, ⟨rfl, rfl⟩, rfl, hi, h⟩
        · rintro ⟨s, m, ⟨rfl, rfl⟩, hn, -, h⟩
          exact ⟨hn, h⟩
      · have hgroup := toNat_group hb
        have hlt := b.toNat_lt
        rw [decodeGroups, if_neg (by omega), if_neg hb, placeGroup, if_pos (by omega), ok_bind]
        simp only [prefix_spells_more hb]
        by_cases h9 : index = 9
        · -- the tenth byte asks for an eleventh
          subst h9
          constructor
          · intro h
            exact absurd h (decodeGroups_maxSize available _ rest v n)
          · rintro ⟨s, m, ⟨s', m', rfl, -, -, hm'⟩, rfl, hn, -⟩
            have := hm'.length_pos
            simp only [List.length_cons] at hn
            omega
        · obtain ⟨hbelow, h63⟩ := place_lt (b &&& 0x7f).toNat (by omega) hv (by omega)
          have hsum := toNat_or_place (b &&& 0x7f) (by omega) hv (by omega)
          rw [← hsum] at hbelow
          have hnext : ∀ m', 2 ^ (7 * index) * (b.toNat - 128 + 128 * m')
              = 2 ^ (7 * index) * (b.toNat - 128) + 2 ^ (7 * (index + 1)) * m' := by
            intro m'
            rw [Nat.mul_add, ← Nat.mul_assoc, Nat.mul_add_one 7 index, Nat.pow_add]
          rw [ih (by omega) hbelow, hsum, hgroup]
          constructor
          · rintro ⟨s', m', ⟨hs', hm'⟩, rfl, hn, h⟩
            refine ⟨b :: s', _, ⟨s', m', rfl, rfl, hs', hm'⟩, ?_, hn, ?_⟩
            · rw [List.length_cons]
              omega
            · rw [hnext, h, Nat.add_assoc]
          · rintro ⟨_, _, ⟨s', m', rfl, rfl, hs', hm'⟩, rfl, hn, h⟩
            refine ⟨s', m', ⟨hs', hm'⟩, ?_, hn, ?_⟩
            · rw [List.length_cons]
              omega
            · rw [h, hnext, Nat.add_assoc]

/-- **What the reader of numbers accepts.**  The bytes start with at most ten groups that spell the
number; the reader takes these. -/
theorem decode_eq_ok {data : Bytes} {v : UInt64} {n : Nat} :
    decode data = .ok (v, n) ↔ n ≤ data.length ∧ n ≤ maxSize ∧ Spells (data.take n) v.toNat := by
  rw [decode, decodeGroups_eq_ok (by decide) (by simp)]
  constructor
  · rintro ⟨s, m, ⟨hs, hm⟩, rfl, hn, h⟩
    have hv : v.toNat = m := by simpa using h
    rw [Nat.zero_add] at hn ⊢
    refine ⟨hs.length_le, hn, ?_⟩
    rw [hv, ← List.prefix_iff_eq_take.mp hs]
    exact hm
  · rintro ⟨hlen, hn, hm⟩
    refine ⟨data.take n, v.toNat, ⟨List.take_prefix n data, hm⟩, ?_, hn, by simp⟩
    rw [List.length_take_of_le hlen, Nat.zero_add]

/-- The reader looks at no byte after the number, or after the place where it stops fitting. -/
lemma decodeGroups_append {available available' index : Nat} {value : UInt64} {bytes : Bytes}
    (rest : Bytes) (h : ∀ e, decodeGroups available index value bytes = .error e → ¬ e.RunsOut) :
    decodeGroups available' index value (bytes ++ rest)
      = decodeGroups available index value bytes := by
  induction bytes generalizing index value with
  | nil => exact absurd (.inl ⟨_, _, rfl⟩) (h _ rfl)
  | cons b tail ih =>
      rw [List.cons_append]
      rw [decodeGroups] at h ⊢
      rw [decodeGroups]
      split
      · rfl
      · next hi =>
        split
        · rfl
        · next hb =>
          rw [if_neg hi, if_neg hb] at h
          cases hplace : placeGroup (b &&& 0x7f) (7 * index) with
          | error e => rfl
          | ok group =>
              rw [hplace] at h
              exact ih h

def reader : Reader UInt64 := ⟨decode⟩

lemma reader_apply (data : Bytes) : reader data = decode data := rfl

lemma reader_steady : Reader.Steady reader where
  le_length h := (decode_eq_ok.mp h).1
  ok_append {data _ _} h rest := by
    rw [reader_apply] at h ⊢
    rw [← h]
    exact decodeGroups_append rest fun e he => by rw [decode, he] at h; cases h
  error_append {data e} h hout rest := by
    rw [reader_apply] at h ⊢
    rw [← h]
    exact decodeGroups_append rest fun e' he => by rw [decode, he] at h; cases h; exact hout

/-! ## Writing -/

theorem spells_encodeNat (n : Nat) : Spells (encodeNat n) n := by
  induction n using encodeNat.induct with
  | case1 n hn =>
      rw [encodeNat, if_pos hn]
      have hb : (UInt8.ofNat n).toNat = n := by
        rw [UInt8.toNat_ofNat']
        omega
      have h := Spells.last (b := UInt8.ofNat n) (lt_iff.mpr (by rw [hb]; exact hn))
      rwa [hb] at h
  | case2 n hn ih =>
      rw [encodeNat, if_neg hn]
      have hb : (UInt8.ofNat (n % 128 + 128)).toNat = n % 128 + 128 := by
        rw [UInt8.toNat_ofNat']
        omega
      have hhigh : ¬ UInt8.ofNat (n % 128 + 128) < 0x80 := by
        rw [lt_iff, hb]
        omega
      have h := Spells.more hhigh ih
      rw [hb] at h
      have hsum : n % 128 + 128 - 128 + 128 * (n / 128) = n := by omega
      rwa [hsum] at h

/-- Nothing that spells a number is shorter than what is written. -/
lemma Spells.length_encodeNat_le {bytes : Bytes} {n : Nat} (h : Spells bytes n) :
    (encodeNat n).length ≤ bytes.length := by
  induction h with
  | @last b hb =>
      rw [encodeNat, if_pos (lt_iff.mp hb)]
      exact Nat.le_refl 1
  | @more b rest n hb hrest ih =>
      have hlt := b.toNat_lt
      have hpos := hrest.length_pos
      rw [encodeNat]
      split
      · simp
      · have hdiv : (b.toNat - 128 + 128 * n) / 128 = n := by omega
        rw [hdiv, List.length_cons, List.length_cons]
        omega

/-- **The shortest form is unique.**  What spells a number in as few bytes as are written is what is
written. -/
theorem encodeNat_unique {bytes : Bytes} {n : Nat} (h : Spells bytes n)
    (hlen : bytes.length = (encodeNat n).length) : bytes = encodeNat n := by
  induction h with
  | @last b hb =>
      rw [encodeNat, if_pos (lt_iff.mp hb), UInt8.ofNat_toNat]
  | @more b rest n hb hrest ih =>
      have hge : 128 ≤ b.toNat := Nat.le_of_not_lt (mt lt_iff.mpr hb)
      have hlt := b.toNat_lt
      have hpos := hrest.length_pos
      rw [encodeNat] at hlen ⊢
      split at hlen
      case isTrue hsmall =>
        simp only [List.length_cons, List.length_nil] at hlen
        omega
      case isFalse hlarge =>
        have hdiv : (b.toNat - 128 + 128 * n) / 128 = n := by omega
        have hmod : (b.toNat - 128 + 128 * n) % 128 + 128 = b.toNat := by omega
        rw [if_neg hlarge]
        simp only [hdiv, hmod, List.length_cons, UInt8.ofNat_toNat] at hlen ⊢
        rw [← ih (by omega)]

/-- The number of bytes written follows from the number of bits: one for every seven begun. -/
lemma length_encodeNat (n : Nat) :
    (encodeNat n).length = max 1 (((if n = 0 then 0 else n.log2 + 1) + 6) / 7) := by
  induction n using encodeNat.induct with
  | case1 n hn =>
      rw [encodeNat, if_pos hn, List.length_singleton]
      split
      · rfl
      · next h0 =>
        have := (Nat.log2_lt h0).mpr (show n < 2 ^ 7 from hn)
        omega
  | case2 n hn ih =>
      have h0 : n / 128 ≠ 0 := by omega
      obtain ⟨hlo, hhi⟩ := (Nat.log2_eq_iff h0).mp rfl
      have hlog : n.log2 = (n / 128).log2 + 7 := by
        refine (Nat.log2_eq_iff (by omega)).mpr ⟨?_, ?_⟩
        · rw [Nat.pow_add]
          omega
        · rw [Nat.add_right_comm, Nat.pow_add]
          omega
      rw [encodeNat, if_neg hn, List.length_cons, ih, if_neg h0, if_neg (by omega), hlog]
      omega

lemma size_eq (value : UInt64) : size value = (encode value).length := by
  have h0 : value = 0 ↔ value.toNat = 0 := by
    rw [← UInt64.toNat_inj]
    rfl
  simp only [size, bitLength, encode, length_encodeNat, h0]

lemma size_le_maxSize (value : UInt64) : size value ≤ maxSize := by
  have hmax : maxSize = 10 := rfl
  have hbits : bitLength value ≤ 64 := by
    unfold bitLength
    split
    · omega
    · next h0 =>
      have h0' : value.toNat ≠ 0 := fun h => h0 (UInt64.toNat_inj.mp h)
      have := (Nat.log2_lt h0').mpr value.toNat_lt
      omega
  unfold size
  omega

lemma encode_of_lt {value : UInt64} (h : value.toNat < 128) :
    encode value = [UInt8.ofNat value.toNat] := by
  rw [encode, encodeNat, if_pos h]

lemma encode_ne_nil (value : UInt64) : encode value ≠ [] :=
  List.ne_nil_of_length_pos (spells_encodeNat value.toNat).length_pos

/-! ## Forms -/

/-- The forms of a number that a mode allows: under validation, only those of the fewest bytes. -/
def Form (mode : Mode) (value : UInt64) (bytes : Bytes) : Prop :=
  bytes.length ≤ maxSize ∧ Spells bytes value.toNat ∧
    (mode = .validated → bytes.length = size value)

lemma Form.encode (mode : Mode) (value : UInt64) : Form mode value (encode value) := by
  refine ⟨?_, spells_encodeNat _, fun _ => (size_eq value).symm⟩
  rw [← size_eq]
  exact size_le_maxSize value

/-- **Under validation a number has one form**, the one that is written. -/
theorem form_validated_iff {value : UInt64} {bytes : Bytes} :
    Form .validated value bytes ↔ bytes = Varint.encode value := by
  constructor
  · rintro ⟨-, hs, hlen⟩
    exact encodeNat_unique hs ((hlen rfl).trans (size_eq value))
  · rintro rfl
    exact Form.encode .validated value

lemma Form.length_pos {mode : Mode} {value : UInt64} {bytes : Bytes} (h : Form mode value bytes) :
    0 < bytes.length :=
  h.2.1.length_pos

/-- A form starts with its number, in whatever mode it is looked at. -/
lemma Form.decode_append {mode : Mode} {value : UInt64} {bytes : Bytes}
    (h : Form mode value bytes) (rest : Bytes) :
    decode (bytes ++ rest) = .ok (value, bytes.length) := by
  refine reader_steady.ok_append (decode_eq_ok.mpr ⟨Nat.le_refl _, h.1, ?_⟩) rest
  rw [List.take_length]
  exact h.2.1

lemma requireMinimal_eq_ok {context : String} {value : UInt64} {length : Nat} :
    requireMinimal context value length = .ok () ↔ length = size value :=
  require_eq_ok

end UtxoWire.Varint

namespace UtxoWire.Reader

/-- A number, held against a rule on its value and on how many bytes it took. -/
def number (rule : UInt64 → Nat → Except WireError Unit) : Reader UInt64 := do
  let (value, bytes) ← withBytes Varint.reader
  rule value bytes.length
  return value

lemma number_apply (rule : UInt64 → Nat → Except WireError Unit) (data : Bytes) :
    number rule data = do
      let (value, n) ← Varint.decode data
      rule value n
      return (value, n) := by
  cases h : Varint.decode data with
  | error e =>
      have h' : withBytes Varint.reader data = .error e := by
        rw [withBytes_apply, Varint.reader_apply, h]
        rfl
      exact bind_of_error h'
  | ok p =>
      have hlen := List.length_take_of_le (Varint.reader_steady.le_length h)
      have h' : withBytes Varint.reader data = .ok ((p.1, data.take p.2), p.2) := by
        rw [withBytes_apply, Varint.reader_apply, h]
        rfl
      rw [number, bind_of_ok h', bind_apply, lift_apply]
      simp only [hlen]
      cases hr : rule p.1 p.2 with
      | error e => simp [hr, Except.map]
      | ok _ => simp [hr, Except.map, pure_apply]

lemma number_steady (rule : UInt64 → Nat → Except WireError Unit) : Steady (number rule) :=
  Varint.reader_steady.withBytes.bind fun p =>
    (Steady.lift (rule p.1 p.2.length)).bind fun _ => .pure p.1

lemma number_reads (rule : UInt64 → Nat → Except WireError Unit) :
    Reads (number rule) fun value bytes =>
      bytes.length ≤ Varint.maxSize ∧ Varint.Spells bytes value.toNat ∧
        rule value bytes.length = .ok () := by
  intro data value n
  rw [number_apply]
  simp only [UtxoWire.bind_eq_ok, Varint.decode_eq_ok, Prod.exists, pure_eq_ok, Except.ok.injEq,
    Prod.mk.injEq]
  constructor
  · rintro ⟨v, k, ⟨hk, hmax, hs⟩, _, hr, rfl, rfl⟩
    rw [List.length_take_of_le hk]
    exact ⟨hk, hmax, hs, hr⟩
  · rintro ⟨hn, hmax, hs, hr⟩
    rw [List.length_take_of_le hn] at hmax hr
    exact ⟨value, n, ⟨hn, hmax, hs⟩, (), hr, rfl, rfl⟩

end UtxoWire.Reader
