import UtxoWire.Proofs.Varint

/-!
# Numbers written and read back

A number is written by a loop that moves it down seven bits at a time, its length is worked out from
the number of its bits, and it is read by putting the groups together again.  The three agree: what
is written is the shortest form, it is as long as it should be, and of all forms that the reader
accepts it is the one that passes as shortest.

* `put_eq` — the loop writes the shortest form behind what is there.
* **`put_readBack`** — what is written is read back, and is told from other forms by its length.
-/

namespace UtxoWire.Varint

/-! ## One group -/

/-- Setting the high bit of a byte. -/
lemma toNat_or_high (b : UInt8) : (b ||| 0x80).toNat = b.toNat % 128 + 128 := by
  have hlow : b.toNat % 128 ||| 128 = b.toNat % 128 + 128 := by
    have hadd := Nat.two_pow_add_eq_or_of_lt (Nat.mod_lt b.toNat (by decide : 2 ^ 7 > 0)) 1
    rw [Nat.or_comm, Nat.add_comm]
    exact hadd.symm
  have hhigh : b.toNat ||| 128 = b.toNat % 128 ||| 128 := by
    by_cases hsmall : b.toNat < 128
    · rw [Nat.mod_eq_of_lt hsmall]
    · -- a bit that is set already makes no difference
      have hlt := b.toNat_lt
      have hsplit : b.toNat = b.toNat % 128 ||| 128 := by omega
      calc b.toNat ||| 128
          = b.toNat % 128 ||| 128 ||| 128 := by rw [← hsplit]
        _ = b.toNat % 128 ||| 128 := by rw [Nat.or_assoc, Nat.or_self]
  rw [UInt8.toNat_or]
  exact hhigh.trans hlow

lemma toUInt8_or_high (value : UInt64) :
    value.toUInt8 ||| 0x80 = UInt8.ofNat (value.toNat % 128 + 128) := by
  rw [← UInt8.toNat_inj, toNat_or_high, UInt8.toNat_ofNat', UInt64.toNat_toUInt8]
  omega

/-- A number of more than one group starts with its lowest one. -/
lemma encode_of_not_lt {value : UInt64} (h : ¬ value < 0x80) :
    encode value = (value.toUInt8 ||| 0x80) :: encode (value >>> 7) := by
  have hlarge : ¬ value.toNat < 128 := h
  rw [encode, encodeNat, if_neg hlarge, toUInt8_or_high, encode, toNat_shiftRight_seven]

/-! ## Numbers -/

/-- **The loop writes the shortest form behind what is there**, and counts its bytes. -/
theorem put_eq (value : UInt64) (buffer : Bytes) :
    put value buffer = (size value, buffer ++ encode value) := by
  induction value, buffer using put.induct with
  | case1 value buffer hsmall =>
      have hbyte : encode value = [value.toUInt8] := encode_of_lt hsmall
      rw [put, if_pos hsmall, size_eq, hbyte]
      rfl
  | case2 value buffer hlarge _ _ _ ih =>
      rw [put, if_neg hlarge, ih, size_eq, size_eq, encode_of_not_lt hlarge]
      simp

/-- **A number that is written is read back, and no other form of it passes as shortest.**  Behind
whatever is there the same bytes are added, as many as the length of the number says, from one to
ten; whatever follows, they are read as the number.  All bytes from which the number is read take up
at least as many, and the check of the shortest form accepts them exactly when they are those that
are written. -/
theorem put_readBack (value : UInt64) :
    ∃ form : Bytes, form.length = size value ∧ 1 ≤ size value ∧ size value ≤ 10 ∧
      (∀ buffer, put value buffer = (size value, buffer ++ form)) ∧
      (∀ rest, decode (form ++ rest) = .ok (value, size value)) ∧
      ∀ data n, decode data = .ok (value, n) → size value ≤ n ∧
        ∀ context, requireMinimal context value n = .ok () ↔ data.take n = form := by
  have hform := Form.encode .validated value
  refine ⟨encode value, (size_eq value).symm, ?_, size_le_maxSize value, put_eq value,
    fun rest => ?_, fun data n hread => ?_⟩
  · rw [size_eq]
    exact hform.length_pos
  · rw [size_eq]
    exact hform.decode_append rest
  · obtain ⟨hn, -, hspells⟩ := decode_eq_ok.mp hread
    have hlength : (data.take n).length = n := List.length_take_of_le hn
    refine ⟨?_, fun context => requireMinimal_eq_ok.trans ⟨fun hminimal => ?_, fun hsame => ?_⟩⟩
    · rw [size_eq, ← hlength]
      exact hspells.length_encodeNat_le
    · refine encodeNat_unique hspells ?_
      rw [hlength, hminimal, size_eq]
      rfl
    · rw [size_eq, ← hsame, hlength]

/-- The number 300 written behind a byte, and read from a form with a byte too many. -/
theorem put_readBack_padded :
    put 300 [7] = (2, [7, 0xAC, 0x02]) ∧
      decode [0xAC, 0x82, 0x00, 9] = .ok (300, 3) ∧
      ∀ context, requireMinimal context 300 3 ≠ .ok () := by
  obtain ⟨form, -, -, -, hput, -, hread⟩ := put_readBack 300
  have hwritten : put 300 [7] = (2, [7, 0xAC, 0x02]) := by decide +kernel
  have hpadded : decode [0xAC, 0x82, 0x00, 9] = .ok (300, 3) := rfl
  have hform : [7, 0xAC, 0x02] = [7] ++ form :=
    congrArg Prod.snd (hwritten.symm.trans (hput [7]))
  refine ⟨hwritten, hpadded, fun context hminimal => ?_⟩
  rw [← ((hread _ _ hpadded).2 context).mp hminimal] at hform
  cases hform

end UtxoWire.Varint
