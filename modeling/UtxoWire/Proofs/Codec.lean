import UtxoWire.Proofs.Varint

/-!
# Codecs as readers

The functions that read objects change a given object step by step and slice their bytes as they go.
Here each of them is compared with a reader: it fails where the reader fails and then leaves the
object alone, and where the reader succeeds the object becomes what was read.  The comparison walks
through both side by side, one lemma for each kind of step.

* `Update.Follows` — an update does what a reader does.
* `Codec.reader`, `Codec.body` — the reader of a family, and that of one variant.
* `Codec.reader_steady` — a family is read steadily if each variant is.
* **`Codec.reader_reads`** — the forms of an object are its discriminant, in a form that the mode
  allows, followed by what the variant makes of the rest.
-/

namespace UtxoWire

variable {σ τ α β : Type}

namespace Update

lemma apply_lift_bind {step : Except WireError α} {a : α} {next : α → Update σ β} (h : step = .ok a)
    (value : σ) : (liftM step >>= next : Update σ β).apply value = (next a).apply value := by
  subst h
  rfl

lemma apply_modify_bind (change : σ → σ) (next : Unit → Update σ α) (value : σ) :
    (modify change >>= next : Update σ α).apply value = (next ()).apply (change value) := rfl

/-- The update does what the reader does on the bytes, `taken` bytes having been taken before: where
the reader succeeds the value is replaced by what was read, and where it fails the value stays. -/
def Follows (update : Update σ Nat) (reader : Reader σ) (data : Bytes) (taken : Nat) : Prop :=
  ∀ value, update.apply value =
    match reader data with
    | .ok (new, n) => (.ok (taken + n), new)
    | .error e => (.error e, value)

namespace Follows

variable {next : α → Update σ Nat} {reader : Reader σ} {data : Bytes} {taken : Nat}

lemma step {first : Reader β} {rest : β → Reader σ} {step : Except WireError α} {f : α → β}
    {g : α → Nat} (hfirst : first data = step.map fun a => (f a, g a))
    (hnext : ∀ a, step = .ok a → (next a).Follows (rest (f a)) (data.drop (g a)) (taken + g a)) :
    Follows (liftM step >>= next) (first >>= rest) data taken := by
  intro value
  cases hs : step with
  | error e =>
      rw [hs] at hfirst
      rw [Reader.bind_of_error hfirst]
      rfl
  | ok a =>
      rw [hs] at hfirst
      rw [Reader.bind_of_ok hfirst]
      refine (hnext a hs value).trans ?_
      cases rest (f a) (data.drop (g a)) with
      | error e => rfl
      | ok q => simp [Except.map, Nat.add_assoc]

lemma atLeast {n : Nat} {next : Unit → Update σ Nat} {rest : Unit → Reader σ}
    (hnext : n ≤ data.length → (next ()).Follows (rest ()) data taken) :
    Follows (liftM (requireAtLeast n data.length) >>= next) (Reader.atLeast n >>= rest) data
      taken :=
  .step (f := id) (g := fun _ => 0) rfl fun _ hs => hnext (requireAtLeast_eq_ok.mp hs)

lemma read (first : Reader β) {next : β × Nat → Update σ Nat} {rest : β → Reader σ}
    (hnext : ∀ b n, first data = .ok (b, n) →
      (next (b, n)).Follows (rest b) (data.drop n) (taken + n)) :
    Follows (liftM (first data) >>= next) (first >>= rest) data taken := by
  refine .step (f := Prod.fst) (g := Prod.snd) ?_ fun p hp => hnext p.1 p.2 hp
  cases first data <;> rfl

lemma silent {step : Except WireError α} {a : α} (hs : step = .ok a)
    (hnext : (next a).Follows reader data taken) :
    Follows (liftM step >>= next) reader data taken := by
  subst hs
  exact hnext

/-- The length check and the slice of a fixed number of bytes. -/
lemma fixed {n : Nat} {next : FixedBytes n → Update σ Nat} {rest : FixedBytes n → Reader σ}
    (hnext : ∀ x, (next x).Follows (rest x) (data.drop n) (taken + n)) :
    Follows (liftM (requireAtLeast n data.length) >>= fun _ => liftM (Bytes.first n data) >>= next)
      (Reader.fixed n >>= rest) data taken := by
  by_cases hn : n ≤ data.length
  · refine .silent (requireAtLeast_eq_ok.mpr hn) ?_
    refine .step (f := id) (g := fun _ => n) ?_ fun x _ => ?_
    · rw [Reader.fixed_eq_ok hn, Bytes.first_eq_ok hn]
      rfl
    · exact hnext x
  · intro value
    have hr : Reader.fixed n data = .error (.invalidLength .min n data.length) := by
      rw [Reader.fixed_apply, dif_neg hn]
    have hs : requireAtLeast n data.length = .error (.invalidLength .min n data.length) := by
      rw [requireAtLeast, require, if_neg hn]
    rw [Reader.bind_of_error hr, hs]
    rfl

/-- The end of an update, where nothing fails any more and the value is replaced. -/
lemma done {update : Update σ Nat} (new : σ) (n : Nat) (hread : reader data = .ok (new, n))
    (h : ∀ value, update.apply value = (.ok (taken + n), new)) :
    Follows update reader data taken := by
  intro value
  rw [hread]
  exact h value

/-- An update fills a fresh value with what the reader reads. -/
lemma fill_eq {update : Update σ Nat} (h : update.Follows reader data 0) (fresh : σ) :
    update.fill fresh = reader data := by
  rw [fill, h fresh]
  cases reader data with
  | error e => rfl
  | ok p => simp

end Follows

end Update

/-! ## Discriminants -/

/-- The forms of a discriminant: without validation, those of any number. -/
def DiscriminantForm (mode : Mode) (expected : UInt64) (bytes : Bytes) : Prop :=
  ∃ actual, Varint.Form mode actual bytes ∧ (mode = .validated → actual = expected)

namespace Reader

/-- The discriminant of an object.  Under validation it has to be the expected one, in its shortest
form. -/
def discriminant (mode : Mode) (family : Family) (expected : UInt64) : Reader Unit := do
  let _ ← number fun actual length => mode.check do
    require (actual = expected) (.typeMismatch family expected actual)
    Varint.requireMinimal "discriminant" actual length
  return ()

variable {mode : Mode} {family : Family} {expected : UInt64}

lemma discriminant_steady : Steady (discriminant mode family expected) :=
  (number_steady _).bind fun _ => .pure ()

/-- The discriminant is taken in the same way by the function that also slices it off. -/
lemma discriminant_apply (data : Bytes) :
    discriminant mode family expected data
      = (readDiscriminant mode family expected data).map fun p => ((), p.2) := by
  rw [discriminant, bind_apply, number_apply, readDiscriminant]
  cases h : Varint.decode data with
  | error e => rfl
  | ok p =>
      rw [ok_bind, ok_bind]
      dsimp only
      cases mode.check _ with
      | error e => rfl
      | ok _ =>
          rw [ok_bind, ok_bind, Bytes.skip_eq_ok (Varint.reader_steady.le_length h)]
          rfl

lemma readDiscriminant_eq_ok {data body : Bytes} {length : Nat}
    (h : readDiscriminant mode family expected data = .ok (body, length)) :
    body = data.drop length := by
  simp only [readDiscriminant, UtxoWire.bind_eq_ok, pure_eq_ok, Except.ok.injEq, Prod.mk.injEq,
    Prod.exists] at h
  obtain ⟨_, n, hd, _, -, _, hs, rfl, rfl⟩ := h
  rw [Bytes.skip_eq_ok (Varint.reader_steady.le_length hd)] at hs
  cases hs
  rfl

/-- What follows a discriminant is read from the bytes it was sliced off. -/
lemma discriminant_bind_apply (next : Reader α) (data : Bytes) :
    (do discriminant mode family expected; next : Reader α) data
      = readDiscriminant mode family expected data >>= fun p =>
          (next p.1).map fun q => (q.1, p.2 + q.2) := by
  rw [bind_apply, discriminant_apply]
  cases h : readDiscriminant mode family expected data with
  | error e => rfl
  | ok p =>
      rw [ok_bind, readDiscriminant_eq_ok h]
      rfl

lemma discriminant_reads : Reads (discriminant mode family expected) fun _ =>
    DiscriminantForm mode expected := by
  refine ((number_reads _).map fun _ => ()).congr fun _ bytes => ?_
  simp only [true_and]
  refine exists_congr fun actual => ?_
  simp only [Mode.check_eq_ok, check_bind_eq_ok, require_eq_ok, Varint.requireMinimal_eq_ok,
    Varint.Form, imp_and]
  constructor
  · rintro ⟨hmax, hs, htype, hlen⟩
    exact ⟨⟨hmax, hs, hlen⟩, htype⟩
  · rintro ⟨⟨hmax, hs, hlen⟩, htype⟩
    exact ⟨hmax, hs, htype, hlen⟩

end Reader

lemma Update.Follows.discriminant {mode : Mode} {family : Family} {expected : UInt64}
    {next : Bytes × Nat → Update σ Nat} {rest : Unit → Reader σ} {data : Bytes} {taken : Nat}
    (hnext : ∀ length,
      (next (data.drop length, length)).Follows (rest ()) (data.drop length) (taken + length)) :
    Follows (liftM (readDiscriminant mode family expected data) >>= next)
      (Reader.discriminant mode family expected >>= rest) data taken := by
  refine .step (Reader.discriminant_apply data) fun p hp => ?_
  obtain ⟨body, length⟩ := p
  rw [Reader.readDiscriminant_eq_ok hp]
  exact hnext length

/-! ## Families -/

namespace Codec

variable (codec : Codec α) (mode : Mode)

def reader : Reader α :=
  ⟨codec.decode mode⟩

/-- The reader of the variant that an empty object is of. -/
def body (blank : α) : Reader α :=
  ⟨fun data => (codec.decodeInto mode data).fill blank⟩

variable {codec mode}

/-- A family looks at the discriminant, takes the empty object of the variant, and reads that
variant from the discriminant on. -/
lemma reader_eq : codec.reader mode = (do
    let number ← Reader.peek Varint.reader
    let blank ← codec.blank number
    Reader.within (codec.typeName blank) (codec.body mode blank)) := by
  ext data
  have hpeek : Reader.peek Varint.reader data = (Varint.decode data).map fun p => (p.1, 0) := rfl
  show codec.decode mode data = _
  rw [decode]
  cases h : Varint.decode data with
  | error e =>
      rw [h] at hpeek
      rw [Reader.bind_of_error hpeek, error_bind]
  | ok p =>
      rw [h] at hpeek
      rw [Reader.bind_of_ok_zero hpeek, ok_bind]
      have hlift : (liftM (codec.blank p.1) : Reader α) data
          = (codec.blank p.1).map fun blank => (blank, 0) := rfl
      dsimp only
      cases hb : codec.blank p.1 with
      | error e =>
          rw [hb] at hlift
          rw [Reader.bind_of_error hlift, error_bind]
      | ok blank =>
          rw [hb] at hlift
          rw [Reader.bind_of_ok_zero hlift, ok_bind]
          rfl

/-- A variant is read by the reader of what it holds. -/
lemma body_eq {update : Bytes → Update σ Nat} {reader : Reader σ} {wrap : σ → α} {part : σ}
    (hupdate : ∀ data, (update data).Follows reader data 0)
    (hinside : ∀ data, (codec.decodeInto mode data).apply (wrap part)
      = (update data).inside wrap part) :
    codec.body mode (wrap part) = (do let new ← reader; return wrap new) := by
  ext data
  show (codec.decodeInto mode data).fill (wrap part) = _
  rw [Update.fill, hinside, Update.inside, hupdate data part, Reader.bind_apply]
  cases reader data with
  | error e => rfl
  | ok p => simp [Except.map, Reader.pure_apply]

theorem reader_steady (hbody : ∀ blank, Reader.Steady (codec.body mode blank)) :
    Reader.Steady (codec.reader mode) := by
  rw [reader_eq]
  exact Varint.reader_steady.peek.bind fun number =>
    (Reader.Steady.lift _).bind fun blank => (hbody blank).within _

/-- A family succeeds where the variant that the discriminant names does. -/
lemma reader_eq_ok {data : Bytes} {a : α} {n : Nat} :
    codec.reader mode data = .ok (a, n) ↔
      ∃ number length blank, Varint.decode data = .ok (number, length) ∧
        codec.blank number = .ok blank ∧ codec.body mode blank data = .ok (a, n) := by
  show codec.decode mode data = .ok (a, n) ↔ _
  simp only [decode, UtxoWire.bind_eq_ok, Prod.exists, mapError_eq_ok]
  constructor
  · rintro ⟨number, length, hd, blank, hb, h⟩
    exact ⟨number, length, blank, hd, hb, h⟩
  · rintro ⟨number, length, blank, hd, hb, h⟩
    exact ⟨number, length, hd, blank, hb, h⟩

end Codec

/-- To take all the bytes is to take as many as there are. -/
lemma Codec.decodeExact_eq_ok {codec : Codec α} {mode : Mode} {data : Bytes} {a : α} :
    codec.decodeExact mode data = .ok a ↔ codec.decode mode data = .ok (a, data.length) := by
  simp only [decodeExact, requireAll, bind_eq_ok, Prod.exists, pure_eq_ok, Except.ok.injEq]
  constructor
  · rintro ⟨a, n, h, ⟨⟩, hn, rfl⟩
    rw [h, require_eq_ok.mp hn]
  · intro h
    exact ⟨a, data.length, h, (), require_eq_ok.mpr rfl, rfl⟩

/-- An object that has to take all the bytes fails as it would otherwise, or for what is left. -/
lemma Codec.decodeExact_eq_error {codec : Codec α} {mode : Mode} {data : Bytes} {e : WireError} :
    codec.decodeExact mode data = .error e ↔ codec.decode mode data = .error e ∨
      ∃ a n, codec.decode mode data = .ok (a, n) ∧ n ≠ data.length ∧
        e = .trailingBytes n (data.length - n) := by
  simp only [decodeExact, requireAll, bind_eq_error, require_eq_error, Prod.exists, pure_eq_ok,
    reduceCtorEq, and_false, exists_false, or_false]
  refine or_congr_right (exists_congr fun a => exists_congr fun n => and_congr_right fun _ => ?_)
  exact and_congr_right fun _ => eq_comm

/-- The forms of a variant on its own: a discriminant followed by the content.  Without validation
any number may stand in its place. -/
def Headed (mode : Mode) (expected : UInt64) (content : Bytes → Prop) (bytes : Bytes) : Prop :=
  ∃ p c, bytes = p ++ c ∧ DiscriminantForm mode expected p ∧ content c

/-- The forms of an object that its family reads: the discriminant of its variant, in a form that
the mode allows, followed by the content. -/
def Tagged (mode : Mode) (tag : UInt64) (content : Bytes → Prop) (bytes : Bytes) : Prop :=
  ∃ p c, bytes = p ++ c ∧ Varint.Form mode tag p ∧ content c

lemma headed_validated_iff {expected : UInt64} {content : Bytes → Prop} {bytes : Bytes} :
    Headed .validated expected content bytes ↔
      ∃ c, bytes = Varint.encode expected ++ c ∧ content c := by
  constructor
  · rintro ⟨p, c, rfl, ⟨actual, hp, hactual⟩, hc⟩
    exact ⟨c, by rw [Varint.form_validated_iff.mp hp, hactual rfl], hc⟩
  · rintro ⟨c, rfl, hc⟩
    exact ⟨_, c, rfl, ⟨expected, Varint.form_validated_iff.mpr rfl, fun _ => rfl⟩, hc⟩

lemma tagged_validated_iff {tag : UInt64} {content : Bytes → Prop} {bytes : Bytes} :
    Tagged .validated tag content bytes ↔ ∃ c, bytes = Varint.encode tag ++ c ∧ content c := by
  constructor
  · rintro ⟨p, c, rfl, hp, hc⟩
    exact ⟨c, by rw [Varint.form_validated_iff.mp hp], hc⟩
  · rintro ⟨c, rfl, hc⟩
    exact ⟨_, c, rfl, Varint.form_validated_iff.mpr rfl, hc⟩

lemma Reader.Reads.headed {mode : Mode} {family : Family} {expected : UInt64} {reader : Reader α}
    {content : α → Bytes → Prop} (hr : Reads reader content) :
    Reads (do discriminant mode family expected; reader) fun a =>
      Headed mode expected (content a) := by
  refine (discriminant_reads.bind fun _ => hr).congr fun a bytes => ?_
  exact ⟨fun ⟨_, p, c, h⟩ => ⟨p, c, h⟩, fun ⟨p, c, h⟩ => ⟨(), p, c, h⟩⟩

lemma Headed.length_lt {mode : Mode} {expected : UInt64} {content : Bytes → Prop} {bytes : Bytes}
    {n : Nat} (h : Headed mode expected content bytes) (hcontent : ∀ c, content c → n ≤ c.length) :
    n < bytes.length := by
  obtain ⟨p, c, rfl, ⟨_, hp, -⟩, hc⟩ := h
  have := hp.length_pos
  have := hcontent c hc
  rw [List.length_append]
  omega

lemma Headed.length_pos {mode : Mode} {expected : UInt64} {content : Bytes → Prop} {bytes : Bytes}
    (h : Headed mode expected content bytes) : 0 < bytes.length :=
  h.length_lt fun _ _ => Nat.zero_le _

lemma Tagged.length_pos {mode : Mode} {tag : UInt64} {content : Bytes → Prop} {bytes : Bytes}
    (h : Tagged mode tag content bytes) : 0 < bytes.length := by
  obtain ⟨p, c, rfl, hp, -⟩ := h
  have := hp.length_pos
  rw [List.length_append]
  omega

namespace Codec

variable {codec : Codec α} {mode : Mode}

/-- **The forms of a family.**  If the empty objects have the discriminants they are found under, and
each variant reads a discriminant followed by its content, then the family reads the discriminant
of the object followed by its content.  Without validation a variant does not look at its
discriminant, but then the family has. -/
theorem reader_reads {tag : α → UInt64} {content : α → Bytes → Prop}
    (htag : ∀ {number blank}, codec.blank number = .ok blank → tag blank = number)
    (hknown : ∀ a, ∃ blank, codec.blank (tag a) = .ok blank)
    (hbody : ∀ blank, Reader.Reads (codec.body mode blank) fun a bytes =>
      tag a = tag blank ∧ Headed mode (tag a) (content a) bytes) :
    Reader.Reads (codec.reader mode) fun a => Tagged mode (tag a) (content a) := by
  intro data a n
  rw [reader_eq_ok]
  constructor
  · rintro ⟨number, length, blank, hd, hb, h⟩
    obtain ⟨hn, hsame, p, c, hpc, ⟨number', hp, -⟩, hc⟩ := (hbody blank _ _ _).mp h
    have hdata : data = p ++ (c ++ data.drop n) := by
      rw [← List.append_assoc, ← hpc, List.take_append_drop]
    rw [hdata, hp.decode_append] at hd
    cases hd
    rw [← htag hb, ← hsame] at hp
    exact ⟨hn, p, c, hpc, hp, hc⟩
  · rintro ⟨hn, p, c, hpc, hp, hc⟩
    obtain ⟨blank, hb⟩ := hknown a
    have hdata : data = p ++ (c ++ data.drop n) := by
      rw [← List.append_assoc, ← hpc, List.take_append_drop]
    refine ⟨tag a, p.length, blank, ?_, hb, (hbody blank _ _ _).mpr ⟨hn, (htag hb).symm, ?_⟩⟩
    · rw [hdata, hp.decode_append]
    · exact ⟨p, c, hpc, ⟨tag a, hp, fun _ => rfl⟩, hc⟩

end Codec

end UtxoWire
