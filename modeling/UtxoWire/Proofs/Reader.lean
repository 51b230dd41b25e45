import UtxoWire.Proofs.Outcome

/-!
# Readers

A reader looks at some bytes and takes a number of them from the front.  The functions that read
objects are written with checked slices, one step after the other; here the same steps are put
together from readers that cannot slice wrongly, because each goes on where the one before it
stopped.  What holds of the parts then holds of the whole, and is shown once for every way of
putting parts together.

* `Reader`, with its monad — one reader after the other.
* `atLeast`, `fixed`, `peek`, `within`, `withBytes` — the parts other than numbers of variable
  length.
* `word16`, `word64` — the numbers that stand in fields.
* **`Steady`** — a reader takes no more bytes than there are, and its outcome, unless it ran out of
  bytes, stays the same when bytes are appended.
* **`Reads`** — a reader succeeds exactly on the byte strings that start with one of the forms it
  reads, and takes just that form.
-/

namespace UtxoWire

/-- What looks at some bytes and yields a value together with how many bytes it took from the
front. -/
structure Reader (α : Type) where
  run : Bytes → Except WireError (α × Nat)

namespace Reader

variable {α β : Type}

instance : CoeFun (Reader α) fun _ => Bytes → Except WireError (α × Nat) :=
  ⟨Reader.run⟩

instance : Monad Reader where
  pure a := ⟨fun _ => .ok (a, 0)⟩
  bind first next := ⟨fun data => do
    let (a, n) ← first data
    let (b, m) ← next a (data.drop n)
    return (b, n + m)⟩

/-- A step that takes no bytes and does not look at them. -/
instance : MonadLift (Except WireError) Reader where
  monadLift step := ⟨fun _ => step.map (·, 0)⟩

/-- Refuses fewer than `n` bytes, and takes none. -/
def atLeast (n : Nat) : Reader Unit :=
  ⟨fun data => (requireAtLeast n data.length).map (·, 0)⟩

/-- The next `n` bytes. -/
def fixed (n : Nat) : Reader (FixedBytes n) :=
  ⟨fun data =>
    if h : n ≤ data.length then .ok (⟨data.take n, List.length_take_of_le h⟩, n)
    else .error (.invalidLength .min n data.length)⟩

/-- Reads without taking what was read. -/
def peek (reader : Reader α) : Reader α :=
  ⟨fun data => (reader data).map fun p => (p.1, 0)⟩

/-- Wraps a failure with the name of the object being read. -/
def within (entity : String) (reader : Reader α) : Reader α :=
  ⟨fun data => (reader data).mapError (.inEntity entity)⟩

/-- What was read together with the bytes it took. -/
def withBytes (reader : Reader α) : Reader (α × Bytes) :=
  ⟨fun data => (reader data).map fun p => ((p.1, data.take p.2), p.2)⟩

/-! ## Outcomes -/

@[ext]
lemma ext {reader reader' : Reader α} (h : ∀ data, reader data = reader' data) :
    reader = reader' :=
  congrArg mk (funext h)

lemma pure_apply (a : α) (data : Bytes) : (pure a : Reader α) data = .ok (a, 0) := rfl

lemma bind_apply (first : Reader α) (next : α → Reader β) (data : Bytes) :
    (first >>= next) data
      = first data >>= fun p => (next p.1 (data.drop p.2)).map fun q => (q.1, p.2 + q.2) := by
  show (do let (a, n) ← first data; let (b, m) ← next a (data.drop n); return (b, n + m)) = _
  refine congrArg _ (funext fun p => ?_)
  show (next p.1 (data.drop p.2) >>= fun q => return (q.1, p.2 + q.2)) = _
  cases next p.1 (data.drop p.2) with
  | error e => rfl
  | ok q => rfl

lemma lift_apply (step : Except WireError α) (data : Bytes) :
    (liftM step : Reader α) data = step.map (·, 0) := rfl

lemma fixed_apply (n : Nat) (data : Bytes) :
    fixed n data = if h : n ≤ data.length then .ok (⟨data.take n, List.length_take_of_le h⟩, n)
      else .error (.invalidLength .min n data.length) := rfl

lemma fixed_eq_ok {n : Nat} {data : Bytes} (h : n ≤ data.length) :
    fixed n data = .ok (⟨data.take n, List.length_take_of_le h⟩, n) := by
  rw [fixed_apply, dif_pos h]

lemma withBytes_apply (reader : Reader α) (data : Bytes) :
    withBytes reader data = (reader data).map fun p => ((p.1, data.take p.2), p.2) := rfl

lemma bind_eq_ok {first : Reader α} {next : α → Reader β} {data : Bytes} {b : β} {k : Nat} :
    (first >>= next) data = .ok (b, k) ↔
      ∃ a n m, first data = .ok (a, n) ∧ next a (data.drop n) = .ok (b, m) ∧ k = n + m := by
  simp only [bind_apply, UtxoWire.bind_eq_ok, map_eq_ok, Prod.exists, Prod.mk.injEq]
  constructor
  · rintro ⟨a, n, h₁, _, m, h₂, rfl, rfl⟩
    exact ⟨a, n, m, h₁, h₂, rfl⟩
  · rintro ⟨a, n, m, h₁, h₂, rfl⟩
    exact ⟨a, n, h₁, b, m, h₂, rfl, rfl⟩

lemma bind_eq_error {first : Reader α} {next : α → Reader β} {data : Bytes} {e : WireError} :
    (first >>= next) data = .error e ↔
      first data = .error e ∨
        ∃ a n, first data = .ok (a, n) ∧ next a (data.drop n) = .error e := by
  simp only [bind_apply, UtxoWire.bind_eq_error, map_eq_error, Prod.exists]

lemma bind_of_ok {first : Reader α} {next : α → Reader β} {data : Bytes} {a : α} {n : Nat}
    (h : first data = .ok (a, n)) :
    (first >>= next) data = (next a (data.drop n)).map fun q => (q.1, n + q.2) := by
  rw [bind_apply, h, ok_bind]

lemma bind_of_ok_zero {first : Reader α} {next : α → Reader β} {data : Bytes} {a : α}
    (h : first data = .ok (a, 0)) : (first >>= next) data = next a data := by
  rw [bind_of_ok h, List.drop_zero]
  cases next a data with
  | error e => rfl
  | ok q => simp [Except.map]

lemma bind_of_error {first : Reader α} {next : α → Reader β} {data : Bytes} {e : WireError}
    (h : first data = .error e) : (first >>= next) data = .error e := by
  rw [bind_apply, h, error_bind]

/-- A value held against a check after it was read. -/
lemma check_apply (reader : Reader α) (check : α → Except WireError Unit) (data : Bytes) :
    (do let a ← reader; check a; return a : Reader α) data = do
      let (a, n) ← reader data
      check a
      return (a, n) := by
  rw [bind_apply]
  cases reader data with
  | error e => rfl
  | ok p =>
      obtain ⟨a, n⟩ := p
      rw [ok_bind, ok_bind, bind_apply, lift_apply]
      dsimp only
      cases check a with
      | error e => rfl
      | ok _ => rfl

instance : LawfulMonad Reader := LawfulMonad.mk' _
  (fun reader => by
    ext data
    show (reader >>= fun a => pure (id a)) data = reader data
    cases h : reader data with
    | error e => exact bind_of_error h
    | ok p =>
        rw [bind_of_ok h]
        rfl)
  (fun a next => by
    ext data
    exact bind_of_ok_zero (pure_apply a data))
  (fun reader next after => by
    ext data
    cases h : reader data with
    | error e => rw [bind_of_error (bind_of_error h), bind_of_error h]
    | ok p =>
        simp only [bind_apply, h, ok_bind]
        cases next p.1 (data.drop p.2) with
        | error e => rfl
        | ok q =>
            simp only [Except.map, ok_bind, List.drop_drop]
            cases after q.1 (data.drop (p.2 + q.2)) with
            | error e => rfl
            | ok s => simp only [Nat.add_assoc])

/-! ## Steadiness

A reader sees all the bytes there are, also those it does not take.  A steady one makes nothing of
them: as long as it does not run out of bytes, what follows has no bearing on it.
-/

/-- **The outcome does not depend on what follows.**  The reader takes no more bytes than there are;
a success stays the same when bytes are appended, and so does a failure that did not come of too few
bytes. -/
structure Steady (reader : Reader α) : Prop where
  le_length : ∀ {data a n}, reader data = .ok (a, n) → n ≤ data.length
  ok_append : ∀ {data a n}, reader data = .ok (a, n) → ∀ rest, reader (data ++ rest) = .ok (a, n)
  error_append : ∀ {data e}, reader data = .error e → ¬ e.RunsOut →
    ∀ rest, reader (data ++ rest) = .error e

namespace Steady

lemma pure (a : α) : Steady (pure a) where
  le_length h := by cases h; exact Nat.zero_le _
  ok_append h _ := h
  error_append h := by cases h

lemma bind {first : Reader α} {next : α → Reader β} (hfirst : Steady first)
    (hnext : ∀ a, Steady (next a)) : Steady (first >>= next) where
  le_length h := by
    obtain ⟨a, n, m, h₁, h₂, rfl⟩ := bind_eq_ok.mp h
    have hn := hfirst.le_length h₁
    have hm := (hnext a).le_length h₂
    rw [List.length_drop] at hm
    omega
  ok_append h rest := by
    obtain ⟨a, n, m, h₁, h₂, rfl⟩ := bind_eq_ok.mp h
    refine bind_eq_ok.mpr ⟨a, n, m, hfirst.ok_append h₁ rest, ?_, rfl⟩
    rw [List.drop_append_of_le_length (hfirst.le_length h₁)]
    exact (hnext a).ok_append h₂ rest
  error_append h hout rest := by
    rcases bind_eq_error.mp h with h₁ | ⟨a, n, h₁, h₂⟩
    · exact bind_eq_error.mpr (.inl (hfirst.error_append h₁ hout rest))
    · refine bind_eq_error.mpr (.inr ⟨a, n, hfirst.ok_append h₁ rest, ?_⟩)
      rw [List.drop_append_of_le_length (hfirst.le_length h₁)]
      exact (hnext a).error_append h₂ hout rest

lemma lift (step : Except WireError α) : Steady (liftM step : Reader α) where
  le_length h := by
    obtain ⟨a, -, h⟩ := map_eq_ok.mp h
    cases h
    exact Nat.zero_le _
  ok_append h _ := h
  error_append h _ _ := h

lemma atLeast (n : Nat) : Steady (atLeast n) where
  le_length h := by
    obtain ⟨_, -, h⟩ := map_eq_ok.mp h
    cases h
    exact Nat.zero_le _
  ok_append h rest := by
    obtain ⟨_, h, h'⟩ := map_eq_ok.mp h
    refine map_eq_ok.mpr ⟨(), requireAtLeast_eq_ok.mpr ?_, h'⟩
    rw [List.length_append]
    exact Nat.le_add_right_of_le (requireAtLeast_eq_ok.mp h)
  error_append h hout := by
    refine absurd ?_ hout
    have h := map_eq_error.mp h
    unfold requireAtLeast require at h
    split at h <;> cases h
    exact .inr ⟨_, _, _, rfl⟩

lemma fixed (n : Nat) : Steady (fixed n) where
  le_length {data _ _} h := by
    rw [fixed_apply] at h
    split at h
    case isTrue hn => cases h; exact hn
    case isFalse => cases h
  ok_append {data _ _} h rest := by
    rw [fixed_apply] at h ⊢
    split at h
    case isTrue hn =>
      cases h
      have hle : n ≤ (data ++ rest).length := by
        rw [List.length_append]
        exact Nat.le_add_right_of_le hn
      simp only [dif_pos hle, List.take_append_of_le_length hn]
    case isFalse => cases h
  error_append h hout := by
    rw [fixed_apply] at h
    split at h <;> cases h
    exact absurd (.inr ⟨_, _, _, rfl⟩) hout

lemma peek {reader : Reader α} (hr : Steady reader) : Steady (peek reader) where
  le_length h := by
    obtain ⟨_, -, h⟩ := map_eq_ok.mp h
    cases h
    exact Nat.zero_le _
  ok_append h rest := by
    obtain ⟨p, h, h'⟩ := map_eq_ok.mp h
    exact map_eq_ok.mpr ⟨p, hr.ok_append h rest, h'⟩
  error_append h hout rest := map_eq_error.mpr (hr.error_append (map_eq_error.mp h) hout rest)

lemma within {reader : Reader α} (entity : String) (hr : Steady reader) :
    Steady (within entity reader) where
  le_length h := hr.le_length (mapError_eq_ok.mp h)
  ok_append h rest := mapError_eq_ok.mpr (hr.ok_append (mapError_eq_ok.mp h) rest)
  error_append h hout rest := by
    obtain ⟨cause, hc, rfl⟩ := mapError_eq_error.mp h
    exact mapError_eq_error.mpr ⟨cause, hr.error_append hc hout rest, rfl⟩

lemma withBytes {reader : Reader α} (hr : Steady reader) : Steady (withBytes reader) where
  le_length h := by
    obtain ⟨⟨a, n⟩, hp, h⟩ := map_eq_ok.mp h
    cases h
    exact hr.le_length hp
  ok_append h rest := by
    obtain ⟨p, hp, h⟩ := map_eq_ok.mp h
    cases h
    refine map_eq_ok.mpr ⟨p, hr.ok_append hp rest, ?_⟩
    simp only [List.take_append_of_le_length (hr.le_length hp)]
  error_append h hout rest := map_eq_error.mpr (hr.error_append (map_eq_error.mp h) hout rest)

/-- A reader that is cut short of what it takes runs out of bytes. -/
lemma take_runsOut {reader : Reader α} (hr : Steady reader) {data : Bytes} {a : α} {n k : Nat}
    (h : reader data = .ok (a, n)) (hk : k < n) :
    ∃ e, reader (data.take k) = .error e ∧ e.RunsOut := by
  have hdata : data.take k ++ data.drop k = data := List.take_append_drop k data
  cases hcut : reader (data.take k) with
  | ok p =>
      -- a success would have taken fewer bytes of the whole, too
      have hlen := hr.le_length hcut
      have hwhole := hr.ok_append hcut (data.drop k)
      rw [hdata, h] at hwhole
      cases hwhole
      rw [List.length_take] at hlen
      omega
  | error e =>
      refine ⟨e, rfl, Classical.byContradiction fun hout => ?_⟩
      have hwhole := hr.error_append hcut hout (data.drop k)
      rw [hdata, h] at hwhole
      cases hwhole

end Steady

/-! ## Forms

What a reader accepts is described by the forms of each value: the byte strings that spell it.  The
reader succeeds where its bytes start with a form, and takes the form and nothing else.
-/

/-- **The reader takes the forms and nothing else.**  It yields `a` from the first `n` bytes exactly
when there are as many and they are a form of `a`. -/
def Reads (reader : Reader α) (form : α → Bytes → Prop) : Prop :=
  ∀ data a n, reader data = .ok (a, n) ↔ n ≤ data.length ∧ form a (data.take n)

namespace Reads

variable {reader : Reader α} {form : α → Bytes → Prop}

lemma congr {form' : α → Bytes → Prop} (hr : Reads reader form)
    (h : ∀ a bytes, form a bytes ↔ form' a bytes) : Reads reader form' := by
  intro data a n
  rw [hr data a n, h]

/-- A form is read back, whatever follows it. -/
lemma apply_append (hr : Reads reader form) {a : α} {bytes : Bytes} (h : form a bytes)
    (rest : Bytes) : reader (bytes ++ rest) = .ok (a, bytes.length) := by
  refine (hr _ _ _).mpr ⟨?_, ?_⟩
  · rw [List.length_append]
    exact Nat.le_add_right ..
  · rwa [List.take_left]

lemma pure (a : α) : Reads (pure a) fun x bytes => x = a ∧ bytes = [] := by
  intro data x n
  constructor
  · intro h
    cases h
    simp
  · rintro ⟨hn, rfl, h⟩
    have hn' : n = 0 := by
      have := congrArg List.length h
      rw [List.length_take_of_le hn] at this
      exact this
    rw [hn']
    rfl

/-- Two readers in turn read a form of the first followed by a form of the second. -/
lemma bind {next : α → Reader β} {form' : α → β → Bytes → Prop} (hr : Reads reader form)
    (hnext : ∀ a, Reads (next a) (form' a)) :
    Reads (reader >>= next) fun b bytes =>
      ∃ a s t, bytes = s ++ t ∧ form a s ∧ form' a b t := by
  intro data b k
  rw [bind_eq_ok]
  constructor
  · rintro ⟨a, n, m, h₁, h₂, rfl⟩
    obtain ⟨hn, ha⟩ := (hr _ _ _).mp h₁
    obtain ⟨hm, hb⟩ := (hnext a _ _ _).mp h₂
    rw [List.length_drop] at hm
    exact ⟨by omega, a, _, _, List.take_add, ha, hb⟩
  · rintro ⟨hk, a, s, t, hst, ha, hb⟩
    have hlen : k = s.length + t.length := by
      have := congrArg List.length hst
      rwa [List.length_take_of_le hk, List.length_append] at this
    have hs : data.take s.length = s := by
      have := congrArg (List.take s.length) hst
      rwa [List.take_take, List.take_left, Nat.min_eq_left (by omega)] at this
    have ht : (data.drop s.length).take t.length = t := by
      have := congrArg (List.drop s.length) hst
      rwa [List.drop_take, List.drop_left, hlen, Nat.add_sub_cancel_left] at this
    refine ⟨a, s.length, t.length, (hr _ _ _).mpr ⟨by omega, ?_⟩,
      (hnext a _ _ _).mpr ⟨?_, ?_⟩, hlen⟩
    · rwa [hs]
    · rw [List.length_drop]
      omega
    · rwa [ht]

lemma map (hr : Reads reader form) (f : α → β) :
    Reads (reader >>= fun a => Pure.pure (f a)) fun b bytes => ∃ a, b = f a ∧ form a bytes := by
  refine (hr.bind fun a => pure (f a)).congr fun b bytes => ?_
  constructor
  · rintro ⟨a, s, t, rfl, ha, rfl, rfl⟩
    exact ⟨a, rfl, by rwa [List.append_nil]⟩
  · rintro ⟨a, rfl, ha⟩
    exact ⟨a, bytes, [], (List.append_nil _).symm, ha, rfl, rfl⟩

/-- A step that takes no bytes only narrows down what follows. -/
lemma lift_bind {next : α → Reader β} {form' : α → β → Bytes → Prop} (step : Except WireError α)
    (hnext : ∀ a, step = .ok a → Reads (next a) (form' a)) :
    Reads (liftM step >>= next) fun b bytes => ∃ a, step = .ok a ∧ form' a b bytes := by
  intro data b k
  rw [bind_eq_ok]
  simp only [lift_apply, map_eq_ok, Prod.mk.injEq]
  constructor
  · rintro ⟨a, n, m, ⟨_, hs, rfl, rfl⟩, h, rfl⟩
    obtain ⟨hk, hb⟩ := (hnext _ hs _ _ _).mp h
    rw [List.drop_zero] at hk hb
    exact ⟨by omega, _, hs, by rwa [Nat.zero_add]⟩
  · rintro ⟨hk, a, hs, hb⟩
    exact ⟨a, 0, k, ⟨a, hs, rfl, rfl⟩, (hnext _ hs _ _ _).mpr ⟨hk, hb⟩, (Nat.zero_add k).symm⟩

lemma bind_check (hr : Reads reader form) (check : α → Except WireError Unit) :
    Reads (do let a ← reader; check a; return a) fun a bytes =>
      form a bytes ∧ check a = .ok () := by
  refine (hr.bind fun a => lift_bind (check a) fun _ _ => pure a).congr fun a bytes => ?_
  constructor
  · rintro ⟨a', s, t, rfl, ha, ⟨⟩, hc, rfl, rfl⟩
    exact ⟨by rwa [List.append_nil], hc⟩
  · rintro ⟨ha, hc⟩
    exact ⟨a, bytes, [], (List.append_nil _).symm, ha, (), hc, rfl, rfl⟩

/-- To ask for a number of bytes first changes nothing if every form has as many. -/
lemma atLeast_bind {n : Nat} (hr : Reads reader form)
    (hform : ∀ a bytes, form a bytes → n ≤ bytes.length) :
    Reads (do atLeast n; reader) form := by
  intro data a k
  rw [bind_eq_ok]
  constructor
  · rintro ⟨_, _, m, h₁, h₂, rfl⟩
    obtain ⟨_, -, h₁⟩ := map_eq_ok.mp h₁
    cases h₁
    rw [Nat.zero_add]
    exact (hr _ _ _).mp h₂
  · rintro ⟨hk, ha⟩
    have hn := hform _ _ ha
    rw [List.length_take_of_le hk] at hn
    exact ⟨(), 0, k, map_eq_ok.mpr ⟨(), requireAtLeast_eq_ok.mpr (Nat.le_trans hn hk), rfl⟩,
      (hr _ _ _).mpr ⟨hk, ha⟩, (Nat.zero_add k).symm⟩

lemma fixed (n : Nat) : Reads (fixed n) fun a bytes => bytes = a.bytes := by
  intro data a k
  rw [fixed_apply]
  split
  case isTrue hn =>
    constructor
    · intro h
      cases h
      exact ⟨hn, rfl⟩
    · rintro ⟨hk, h⟩
      have hkn : k = n := by
        rw [← List.length_take_of_le hk, h, a.length_eq]
      subst hkn
      exact congrArg (fun x => Except.ok (x, k)) (FixedBytes.eq_of_bytes_eq h)
  case isFalse hn =>
    constructor
    · intro h
      cases h
    · rintro ⟨hk, h⟩
      have hkn : k = n := by
        rw [← List.length_take_of_le hk, h, a.length_eq]
      exact absurd (hkn ▸ hk) hn

lemma within (entity : String) (hr : Reads reader form) : Reads (within entity reader) form := by
  intro data a n
  rw [← hr data a n]
  exact mapError_eq_ok

lemma withBytes (hr : Reads reader form) :
    Reads (withBytes reader) fun p bytes => form p.1 bytes ∧ p.2 = bytes := by
  intro data p n
  rw [withBytes_apply]
  simp only [map_eq_ok, Prod.exists]
  constructor
  · rintro ⟨a, k, h, h'⟩
    cases h'
    obtain ⟨hn, ha⟩ := (hr _ _ _).mp h
    exact ⟨hn, ha, rfl⟩
  · rintro ⟨hn, ha, hp⟩
    exact ⟨p.1, n, (hr _ _ _).mpr ⟨hn, ha⟩, by rw [← hp]⟩

end Reads

end Reader

/-! ## Whole numbers in fields -/

lemma ofLittleEndian_lt (bytes : Bytes) : ofLittleEndian bytes < 256 ^ bytes.length := by
  induction bytes with
  | nil => exact Nat.one_pos
  | cons b rest ih =>
      have hb := b.toNat_lt
      rw [ofLittleEndian, List.length_cons, Nat.pow_succ]
      omega

lemma ofLittleEndian_toLittleEndian {width n : Nat} (h : n < 256 ^ width) :
    ofLittleEndian (toLittleEndian width n) = n := by
  induction width generalizing n with
  | zero =>
      rw [Nat.pow_zero] at h
      rw [toLittleEndian, ofLittleEndian]
      omega
  | succ width ih =>
      rw [Nat.pow_succ] at h
      rw [toLittleEndian, ofLittleEndian, ih (by omega), UInt8.toNat_ofNat']
      omega

namespace Reader

def word16 : Reader UInt16 := do
  let field ← fixed 2
  return UInt16.ofNat (ofLittleEndian field.bytes)

def word64 : Reader UInt64 := do
  let field ← fixed 8
  return UInt64.ofNat (ofLittleEndian field.bytes)

lemma word16_steady : Steady word16 :=
  (Steady.fixed 2).bind fun _ => .pure _

lemma word64_steady : Steady word64 :=
  (Steady.fixed 8).bind fun _ => .pure _

lemma word16_reads : Reads word16 fun value bytes => bytes = toLittleEndian 2 value.toNat := by
  refine ((Reads.fixed 2).map _).congr fun value bytes => ?_
  constructor
  · rintro ⟨field, rfl, rfl⟩
    have hlt : ofLittleEndian field.bytes < 2 ^ 16 := by
      have hlt := ofLittleEndian_lt field.bytes
      rw [field.length_eq] at hlt
      exact hlt
    have h := toLittleEndian_ofLittleEndian field.bytes
    rw [field.length_eq] at h
    rw [UInt16.toNat_ofNat', Nat.mod_eq_of_lt hlt, h]
  · rintro rfl
    refine ⟨⟨toLittleEndian 2 value.toNat, length_toLittleEndian ..⟩, ?_, rfl⟩
    rw [ofLittleEndian_toLittleEndian value.toNat_lt, UInt16.ofNat_toNat]

lemma word64_reads : Reads word64 fun value bytes => bytes = toLittleEndian 8 value.toNat := by
  refine ((Reads.fixed 8).map _).congr fun value bytes => ?_
  constructor
  · rintro ⟨field, rfl, rfl⟩
    have hlt : ofLittleEndian field.bytes < 2 ^ 64 := by
      have hlt := ofLittleEndian_lt field.bytes
      rw [field.length_eq] at hlt
      exact hlt
    have h := toLittleEndian_ofLittleEndian field.bytes
    rw [field.length_eq] at h
    rw [UInt64.toNat_ofNat', Nat.mod_eq_of_lt hlt, h]
  · rintro rfl
    refine ⟨⟨toLittleEndian 8 value.toNat, length_toLittleEndian ..⟩, ?_, rfl⟩
    rw [ofLittleEndian_toLittleEndian value.toNat_lt, UInt64.ofNat_toNat]

end Reader

end UtxoWire
