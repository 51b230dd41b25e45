import Mathlib.Algebra.BigOperators.Fin
import UtxoWire.Proofs.Varint

/-!
# The number that groups add up to

The reader of numbers puts groups of seven bits into a 64-bit word, one above the other.  Nothing is
lost at the top: as long as the groups fit, the word holds their exact sum, and where they do not fit
the reader says so.  What it says depends on the place of the first byte without the high bit alone,
and on that byte if it is the tenth.

* `EndsAt` — the first byte without the high bit is at this place.
* `groupSum` — the sum of groups, as a number without bound.
* `spells_of_endsAt` — up to that place the bytes spell the sum of their groups.
* `decodeGroups_skip` — bytes with the high bit are passed over, up to ten of them.
* **`decode_outcome`** — the outcome of reading any bytes.
-/

namespace UtxoWire.Varint

/-- The first byte without the high bit is `last`, at place `k`. -/
structure EndsAt (data : Bytes) (k : Nat) (last : UInt8) : Prop where
  getElem?_eq : data[k]? = some last
  lt : last < 0x80
  more : ∀ b ∈ data.take k, 0x80 ≤ b

/-- The sum of the first groups, each of seven bits, the least significant first. -/
def groupSum (data : Bytes) (count : Nat) : Nat :=
  ∑ i ∈ Finset.range count, (data.getD i 0).toNat % 128 * 128 ^ i

/-! ## The sum -/

lemma groupSum_cons (b : UInt8) (data : Bytes) (count : Nat) :
    groupSum (b :: data) (count + 1) = b.toNat % 128 + 128 * groupSum data count := by
  simp only [groupSum, Finset.sum_range_succ', List.getD_cons_succ, List.getD_cons_zero,
    Nat.pow_zero, Nat.mul_one, Finset.mul_sum, Nat.pow_succ']
  rw [Nat.add_comm]
  refine congrArg _ (Finset.sum_congr rfl fun i _ => ?_)
  rw [Nat.mul_left_comm]

lemma groupSum_succ (data : Bytes) (count : Nat) :
    groupSum data (count + 1)
      = groupSum data count + (data.getD count 0).toNat % 128 * 128 ^ count :=
  Finset.sum_range_succ _ count

lemma groupSum_lt (data : Bytes) (count : Nat) : groupSum data count < 128 ^ count := by
  induction count with
  | zero => exact Nat.one_pos
  | succ count ih =>
      have hgroup : (data.getD count 0).toNat % 128 < 128 := Nat.mod_lt _ (by decide)
      rw [groupSum_succ]
      calc groupSum data count + (data.getD count 0).toNat % 128 * 128 ^ count
          < 128 ^ count + (data.getD count 0).toNat % 128 * 128 ^ count := by omega
        _ = ((data.getD count 0).toNat % 128 + 1) * 128 ^ count := by
            rw [Nat.succ_mul, Nat.add_comm]
        _ ≤ 128 * 128 ^ count := Nat.mul_le_mul_right _ hgroup
        _ = 128 ^ (count + 1) := Nat.pow_succ'.symm

namespace EndsAt

variable {data : Bytes} {b last : UInt8} {k : Nat}

lemma lt_length (h : EndsAt data k last) : k < data.length :=
  (List.getElem?_eq_some_iff.mp h.getElem?_eq).1

lemma cons_zero (h : EndsAt (b :: data) 0 last) : b = last :=
  Option.some.inj h.getElem?_eq

lemma cons_succ (h : EndsAt (b :: data) (k + 1) last) : 0x80 ≤ b ∧ EndsAt data k last := by
  obtain ⟨hb, hmore⟩ := List.forall_mem_cons.mp h.more
  exact ⟨hb, h.getElem?_eq, h.lt, hmore⟩

lemma eq_append (h : EndsAt data k last) : data = data.take k ++ last :: data.drop (k + 1) := by
  obtain ⟨hk, hlast⟩ := List.getElem?_eq_some_iff.mp h.getElem?_eq
  rw [← hlast, List.getElem_cons_drop, List.take_append_drop]

end EndsAt

/-- **The bytes up to the first without the high bit spell the sum of their groups.** -/
theorem spells_of_endsAt {data : Bytes} {k : Nat} {last : UInt8} (h : EndsAt data k last) :
    Spells (data.take (k + 1)) (groupSum data (k + 1)) := by
  induction data generalizing k with
  | nil => exact absurd h.lt_length (Nat.not_lt_zero k)
  | cons b data ih =>
      rw [List.take_succ_cons, groupSum_cons]
      cases k with
      | zero =>
          obtain rfl := h.cons_zero
          have hsmall : b.toNat % 128 = b.toNat := Nat.mod_eq_of_lt (lt_iff.mp h.lt)
          rw [List.take_zero, hsmall]
          exact .last h.lt
      | succ k =>
          obtain ⟨hb, hrest⟩ := h.cons_succ
          have hge : 128 ≤ b.toNat := UInt8.le_iff_toNat_le.mp hb
          have hlt := b.toNat_lt
          have hgroup : b.toNat % 128 = b.toNat - 128 := by omega
          rw [hgroup]
          exact .more (UInt8.not_lt.mpr hb) (ih hrest)

/-- The groups of a number of up to nine bytes fit, and so do those of ten if the tenth is the top
bit alone. -/
lemma groupSum_lt_of_fits {data : Bytes} {k : Nat} {last : UInt8} (h : EndsAt data k last)
    (hfits : k ≤ 8 ∨ k = 9 ∧ last ≤ 1) : groupSum data (k + 1) < 2 ^ 64 := by
  rcases hfits with hk | ⟨rfl, htop⟩
  · calc groupSum data (k + 1)
        < 128 ^ (k + 1) := groupSum_lt data (k + 1)
      _ ≤ 128 ^ 9 := Nat.pow_le_pow_right (by decide) (by omega)
      _ ≤ 2 ^ 64 := by decide
  · have hnine := groupSum_lt data 9
    have htop' : last.toNat ≤ 1 := UInt8.le_iff_toNat_le.mp htop
    rw [groupSum_succ, List.getD_eq_getElem?_getD, h.getElem?_eq, Option.getD_some]
    omega

/-! ## Reading -/

section Reading

variable {available : Nat} {value : UInt64} {rest : Bytes}

/-- Bytes with the high bit are passed over, as long as there are no more than ten. -/
lemma decodeGroups_skip {more : Bytes} (hmore : ∀ b ∈ more, 0x80 ≤ b) (available : Nat)
    {index : Nat} (hmax : index + more.length ≤ maxSize) (value : UInt64) (rest : Bytes) :
    ∃ value', decodeGroups available index value (more ++ rest)
      = decodeGroups available (index + more.length) value' rest := by
  induction more generalizing index value with
  | nil => exact ⟨value, rfl⟩
  | cons b more ih =>
      have hten : maxSize = 10 := rfl
      obtain ⟨hb, hmore⟩ := List.forall_mem_cons.mp hmore
      rw [List.length_cons] at hmax ⊢
      rw [List.cons_append, decodeGroups, if_neg (by omega), if_neg (UInt8.not_lt.mpr hb),
        placeGroup, if_pos (by omega), ok_bind]
      have hmax' : index + 1 + more.length ≤ maxSize := by omega
      obtain ⟨value', hvalue'⟩ := ih hmore hmax' _
      exact ⟨value', by rw [hvalue', Nat.add_assoc, Nat.add_comm 1]⟩

lemma decode_skip {more : Bytes} (hmore : ∀ b ∈ more, 0x80 ≤ b) (hmax : more.length ≤ maxSize)
    (rest : Bytes) :
    ∃ value', decode (more ++ rest)
      = decodeGroups (more ++ rest).length more.length value' rest := by
  rw [← Nat.zero_add more.length] at hmax
  have hskip := decodeGroups_skip hmore (more ++ rest).length hmax 0 rest
  rwa [Nat.zero_add] at hskip

/-- The tenth byte of a number holds its top bit and nothing else. -/
lemma decodeGroups_tenth {b : UInt8} (hb : b < 0x80) (hbig : 1 < b) :
    decodeGroups available 9 value (b :: rest) = .error (.integerOverflow "decoding varint") := by
  rw [decodeGroups, if_neg (by decide), if_pos hb, if_pos ⟨rfl, hbig⟩]

/-- There is no eleventh byte. -/
lemma decodeGroups_eleventh (hrest : rest ≠ []) :
    decodeGroups available 10 value rest = .error (.integerOverflow "decoding varint") := by
  cases rest with
  | nil => exact absurd rfl hrest
  | cons b rest => rw [decodeGroups, if_pos (show 10 = maxSize from rfl)]

end Reading

/-- **The outcome of reading any bytes.**  If the first byte without the high bit is among the first
nine, or it is the tenth and no more than 1, the number is the exact sum of the groups up to it.  If
it is the tenth and more than that, or there are ten bytes with the high bit and one more, the number
does not fit into 64 bits.  If there are at most ten bytes, all of them with the high bit, at least
one more is missing. -/
theorem decode_outcome (data : Bytes) :
    (∀ k last, EndsAt data k last →
      (k ≤ 8 ∨ k = 9 ∧ last ≤ 1 → ∃ value, decode data = .ok (value, k + 1) ∧
        value.toNat = ∑ i ∈ Finset.range (k + 1), (data.getD i 0).toNat % 128 * 128 ^ i) ∧
      (k = 9 ∧ 1 < last → decode data = .error (.integerOverflow "decoding varint"))) ∧
    (10 < data.length → (∀ b ∈ data.take 10, 0x80 ≤ b) →
      decode data = .error (.integerOverflow "decoding varint")) ∧
    (data.length ≤ 10 → (∀ b ∈ data, 0x80 ≤ b) →
      decode data = .error (.bufferTooShort (data.length + 1) data.length)) := by
  refine ⟨fun k last h => ⟨fun hfits => ?_, ?_⟩, fun hlength hmore => ?_, fun hlength hmore => ?_⟩
  · have hvalue : (UInt64.ofNat (groupSum data (k + 1))).toNat = groupSum data (k + 1) :=
      UInt64.toNat_ofNat_of_lt' (groupSum_lt_of_fits h hfits)
    refine ⟨_, decode_eq_ok.mpr ⟨h.lt_length, ?_, ?_⟩, hvalue⟩
    · have hten : maxSize = 10 := rfl
      omega
    · rw [hvalue]
      exact spells_of_endsAt h
  · rintro ⟨rfl, hbig⟩
    have htake : (data.take 9).length = 9 := List.length_take_of_le (Nat.le_of_lt h.lt_length)
    obtain ⟨value', hskip⟩ := decode_skip h.more (by rw [htake]; decide) (last :: data.drop 10)
    rw [← h.eq_append, htake] at hskip
    exact hskip.trans (decodeGroups_tenth h.lt hbig)
  · have htake : (data.take 10).length = 10 := List.length_take_of_le (Nat.le_of_lt hlength)
    have hdrop : data.drop 10 ≠ [] := mt List.drop_eq_nil_iff.mp (Nat.not_le_of_lt hlength)
    obtain ⟨value', hskip⟩ := decode_skip hmore (by rw [htake]; decide) (data.drop 10)
    rw [List.take_append_drop, htake] at hskip
    exact hskip.trans (decodeGroups_eleventh hdrop)
  · obtain ⟨value', hskip⟩ := decode_skip hmore hlength []
    rw [List.append_nil] at hskip
    exact hskip

/-- On both sides of the two bounds: the greatest number and one that is greater, and ten bytes with
the high bit with and without an eleventh. -/
theorem decode_outcome_edges :
    decode (List.replicate 9 0xFF ++ [1]) = .ok (0xFFFFFFFFFFFFFFFF, 10) ∧
    decode (List.replicate 9 0xFF ++ [2]) = .error (.integerOverflow "decoding varint") ∧
    decode (List.replicate 11 0xFF) = .error (.integerOverflow "decoding varint") ∧
    decode (List.replicate 10 0xFF) = .error (.bufferTooShort 11 10) := by
  have hhigh : ∀ n, ∀ b ∈ List.replicate n 0xFF, (0x80 : UInt8) ≤ b := by
    intro n b hb
    rw [List.eq_of_mem_replicate hb]
    decide
  have hends : ∀ last < 0x80, EndsAt (List.replicate 9 0xFF ++ [last]) 9 last :=
    fun last hlast => ⟨rfl, hlast, hhigh 9⟩
  obtain ⟨hnine, -⟩ := decode_outcome (List.replicate 9 0xFF ++ [1])
  obtain ⟨hnine', -⟩ := decode_outcome (List.replicate 9 0xFF ++ [2])
  obtain ⟨-, heleven, -⟩ := decode_outcome (List.replicate 11 0xFF)
  obtain ⟨-, -, hten⟩ := decode_outcome (List.replicate 10 0xFF)
  refine ⟨?_, (hnine' 9 2 (hends 2 (by decide))).2 ⟨rfl, by decide⟩,
    heleven (by decide) (hhigh 10), hten (by decide) (hhigh 10)⟩
  obtain ⟨value, hvalue, hsum⟩ := (hnine 9 1 (hends 1 (by decide))).1 (.inr ⟨rfl, by decide⟩)
  obtain rfl : value = 0xFFFFFFFFFFFFFFFF := UInt64.toNat_inj.mp (hsum.trans (by decide))
  exact hvalue

end UtxoWire.Varint
