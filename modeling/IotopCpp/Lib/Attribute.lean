import IotopCpp.Lib.Bytes

/-!
# Padded type–length–value attributes

The attribute layout used by netlink messages: a 16-bit length that counts the
four header bytes and the payload, a 16-bit type, the payload, and padding up to
the next multiple of four.

* `align4` — the padded length.
* `Attribute` — an attribute that fits its own length field.
* `Attribute.encode`, `Attribute.encodeAll` — its bytes, and those of a sequence.
* `Attribute.At`, `Attribute.AllAt` — an attribute, or a sequence of them, lies
  at an offset of a buffer; `AllAt.head`, `AllAt.tail` walk a sequence.
* `Attribute.offsets` — where the attributes of a sequence start.
* `Attribute.Start` — where attributes start in a buffer that holds any bytes, by the
  lengths it declares; `AllAt.exists_of_start` and `AllAt.exists_start` say that for a
  sequence these are the places of its attributes.
* `Attribute.decode`, `Attribute.decodeAll` — the attributes a run of bytes is made of.
-/

open LittleEndian

/-- `n` rounded up to a multiple of four. -/
def align4 (n : ℕ) : ℕ := (n + 3) / 4 * 4

theorem le_align4 (n : ℕ) : n ≤ align4 n := by unfold align4; omega

theorem align4_mod (n : ℕ) : align4 n % 4 = 0 := by unfold align4; omega

/-- One attribute, with the padding bytes that follow its payload. -/
structure Attribute where
  type : ℕ
  payload : Bytes
  pad : Bytes
  type_lt : type < 2 ^ 16
  len_lt : 4 + payload.length < 2 ^ 16
  pad_length : pad.length = align4 (4 + payload.length) - (4 + payload.length)

namespace Attribute

/-- The value of the length field. -/
def len (a : Attribute) : ℕ := 4 + a.payload.length

/-- The bytes the attribute takes up, padding included. -/
def size (a : Attribute) : ℕ := align4 a.len

def encode (a : Attribute) : Bytes := natLE 2 a.len ++ natLE 2 a.type ++ a.payload ++ a.pad

def encodeAll (as : List Attribute) : Bytes := as.flatMap encode

/-- Where the attributes of a sequence that starts at `p` start. -/
def offsets : ℕ → List Attribute → List ℕ
  | _, [] => []
  | p, a :: as => p :: offsets (p + a.size) as

@[simp] theorem offsets_cons (p : ℕ) (a : Attribute) (as : List Attribute) :
    offsets p (a :: as) = p :: offsets (p + a.size) as := rfl

@[simp] theorem encodeAll_nil : encodeAll [] = [] := rfl

@[simp] theorem encodeAll_cons (a : Attribute) (as : List Attribute) :
    encodeAll (a :: as) = a.encode ++ encodeAll as := rfl

theorem four_le_size (a : Attribute) : 4 ≤ a.size := by
  have := le_align4 a.len
  unfold size len at *
  omega

@[simp] theorem length_encode (a : Attribute) : a.encode.length = a.size := by
  have := le_align4 a.len
  have := a.pad_length
  simp only [encode, size, List.length_append, length_natLE]
  unfold len at *
  omega

theorem length_encodeAll_cons (a : Attribute) (as : List Attribute) :
    (encodeAll (a :: as)).length = a.size + (encodeAll as).length := by
  rw [encodeAll_cons, List.length_append, length_encode]

theorem length_encodeAll_mod (as : List Attribute) : (encodeAll as).length % 4 = 0 := by
  induction as with
  | nil => rfl
  | cons a as ih =>
    have hsize : a.size % 4 = 0 := align4_mod a.len
    rw [length_encodeAll_cons]
    omega

/-- The attribute `a` lies at offset `p` of `mem`. -/
def At (mem : Bytes) (p : ℕ) (a : Attribute) : Prop :=
  ∃ A B, mem = A ++ (a.encode ++ B) ∧ A.length = p

/-- The attributes `as` lie one after another from offset `p` of `mem`. -/
def AllAt (mem : Bytes) (p : ℕ) (as : List Attribute) : Prop :=
  ∃ A B, mem = A ++ (encodeAll as ++ B) ∧ A.length = p

theorem AllAt.head {mem : Bytes} {p : ℕ} {a : Attribute} {as : List Attribute}
    (h : AllAt mem p (a :: as)) : At mem p a := by
  obtain ⟨A, B, hmem, hA⟩ := h
  exact ⟨A, encodeAll as ++ B, by simpa using hmem, hA⟩

theorem AllAt.tail {mem : Bytes} {p : ℕ} {a : Attribute} {as : List Attribute}
    (h : AllAt mem p (a :: as)) : AllAt mem (p + a.size) as := by
  obtain ⟨A, B, hmem, hA⟩ := h
  exact ⟨A ++ a.encode, B, by simpa using hmem, by simp [hA]⟩

/-- The payload of an attribute that is itself a sequence of attributes. -/
theorem At.nested {mem : Bytes} {p : ℕ} {a : Attribute} {as : List Attribute} (h : At mem p a)
    (hpay : a.payload = encodeAll as) : AllAt mem (p + 4) as := by
  obtain ⟨A, B, hmem, hA⟩ := h
  refine ⟨A ++ natLE 2 a.len ++ natLE 2 a.type, a.pad ++ B, ?_, by simp [hA]⟩
  rw [hmem, encode, hpay]
  simp

/-! ### Reading an attribute back -/

theorem At.readLE_len {mem : Bytes} {p : ℕ} {a : Attribute} (h : At mem p a) :
    readLE mem p 2 = some a.len := by
  obtain ⟨A, B, rfl, rfl⟩ := h
  have hlen : a.len < 256 ^ 2 := by
    have := a.len_lt
    unfold len
    omega
  have := readLE_append_right A (a.encode ++ B) 0 2
  rw [add_zero] at this
  rw [this, encode]
  simpa using readLE_natLE (natLE 2 a.type ++ (a.payload ++ (a.pad ++ B))) hlen

theorem At.readLE_type {mem : Bytes} {p : ℕ} {a : Attribute} (h : At mem p a) :
    readLE mem (p + 2) 2 = some a.type := by
  obtain ⟨A, B, rfl, rfl⟩ := h
  have htype : a.type < 256 ^ 2 := by
    have := a.type_lt
    omega
  have hskip := readLE_append_right (natLE 2 a.len)
    (natLE 2 a.type ++ (a.payload ++ (a.pad ++ B))) 0 2
  rw [length_natLE, add_zero] at hskip
  rw [readLE_append_right, encode]
  simp only [List.append_assoc]
  rw [hskip, readLE_natLE _ htype]

/-- A read inside the payload, from the buffer and from the payload alone. -/
theorem At.readLE_payload {mem : Bytes} {p off n : ℕ} {a : Attribute} (h : At mem p a)
    (hle : off + n ≤ a.payload.length) : readLE mem (p + 4 + off) n = readLE a.payload off n := by
  obtain ⟨A, B, rfl, rfl⟩ := h
  have hskip := readLE_append_right (natLE 2 a.len ++ natLE 2 a.type)
    (a.payload ++ (a.pad ++ B)) off n
  rw [List.length_append, length_natLE, length_natLE] at hskip
  rw [add_assoc, readLE_append_right, encode]
  simp only [List.append_assoc] at hskip ⊢
  rw [show 4 + off = 2 + 2 + off from rfl, hskip, readLE_append_left _ _ hle]

/-! ### Declared lengths -/

/-- The size of the attribute at `p` by the length declared there, zero outside the buffer. -/
def sizeAt (mem : Bytes) (p : ℕ) : ℕ := align4 ((readLE mem p 2).getD 0)

/-- The places before `stop` where attributes start, when the first starts at `start`
and each of the others where the one before it, padding included, ends.  The buffer may
hold anything: an attribute that declares the length zero is followed by itself. -/
inductive Start (mem : Bytes) (stop start : ℕ) : ℕ → Prop
  | first : start < stop → Start mem stop start start
  | next {p : ℕ} : Start mem stop start p → p + sizeAt mem p < stop →
    Start mem stop start (p + sizeAt mem p)

theorem At.sizeAt_eq {mem : Bytes} {p : ℕ} {a : Attribute} (h : At mem p a) :
    sizeAt mem p = a.size := by
  rw [sizeAt, h.readLE_len]
  rfl

section Start

variable {mem : Bytes} {stop start p : ℕ}

theorem Start.lt (h : Start mem stop start p) : p < stop := by
  cases h with
  | first hlt => exact hlt
  | next _ hlt => exact hlt

/-- What starts after the first attribute starts in the whole. -/
theorem Start.of_tail (hlt : start < stop) (h : Start mem stop (start + sizeAt mem start) p) :
    Start mem stop start p := by
  induction h with
  | first hstart => exact .next (.first hlt) hstart
  | next _ hp ih => exact ih.next hp

/-- Where a sequence lies, attributes start only where those of the sequence do: with
the one that starts at `p` the rest of the sequence lies there. -/
theorem AllAt.exists_of_start {as : List Attribute} (h : AllAt mem start as)
    (hstop : stop = start + (encodeAll as).length) (hp : Start mem stop start p) :
    ∃ a bs, a :: bs <:+ as ∧ AllAt mem p (a :: bs) ∧ p + (encodeAll (a :: bs)).length = stop := by
  induction hp with
  | first hlt =>
    rcases as with _ | ⟨a, bs⟩
    · rw [encodeAll_nil, List.length_nil, add_zero] at hstop
      omega
    · exact ⟨a, bs, List.suffix_refl _, h, hstop.symm⟩
  | @next p _ hlt ih =>
    obtain ⟨a, bs, hsuffix, hall, hend⟩ := ih
    rw [length_encodeAll_cons] at hend
    rw [hall.head.sizeAt_eq] at hlt ⊢
    rcases bs with _ | ⟨b, bs⟩
    · -- nothing starts after the last attribute
      rw [encodeAll_nil, List.length_nil, add_zero] at hend
      omega
    · refine ⟨b, bs, (List.suffix_cons a (b :: bs)).trans hsuffix, hall.tail, ?_⟩
      omega

/-- Where a sequence lies, each of its attributes starts. -/
theorem AllAt.exists_start {as : List Attribute} (h : AllAt mem start as) {a : Attribute}
    (ha : a ∈ as) : ∃ p, Start mem (start + (encodeAll as).length) start p ∧ At mem p a := by
  induction as generalizing start with
  | nil => cases ha
  | cons b bs ih =>
    have hpos := four_le_size b
    have hlen := length_encodeAll_cons b bs
    rcases List.mem_cons.1 ha with rfl | ha
    · exact ⟨start, .first (by omega), h.head⟩
    · obtain ⟨p, hp, hat⟩ := ih h.tail ha
      refine ⟨p, Start.of_tail (by omega) ?_, hat⟩
      rw [h.head.sizeAt_eq, hlen, ← add_assoc]
      exact hp

end Start

/-! ### Decoding a sequence -/

/-- Type, payload and padding. -/
def fields (a : Attribute) : ℕ × Bytes × Bytes := (a.type, a.payload, a.pad)

/-- The attribute that `bs` starts with, and what follows its padding. -/
def decode (bs : Bytes) : Option ((ℕ × Bytes × Bytes) × Bytes) := do
  let (len, rest) ← takeLE 2 bs
  let (type, rest) ← takeLE 2 rest
  if 4 ≤ len ∧ align4 len ≤ bs.length then
    some ((type, rest.take (len - 4), (rest.drop (len - 4)).take (align4 len - len)),
      bs.drop (align4 len))
  else none

/-- The attributes that `bs` is made of, if it is made of at most `n`. -/
def decodeAll : ℕ → Bytes → Option (List (ℕ × Bytes × Bytes))
  | 0, bs => if bs = [] then some [] else none
  | n + 1, bs =>
    if bs = [] then some []
    else do
      let (a, rest) ← decode bs
      let as ← decodeAll n rest
      some (a :: as)

theorem decode_encode (a : Attribute) (B : Bytes) : decode (a.encode ++ B) = some (a.fields, B) := by
  have hlen : a.len < 256 ^ 2 := by
    have := a.len_lt
    unfold len
    omega
  have htype : a.type < 256 ^ 2 := by
    have := a.type_lt
    omega
  have hsplit : a.encode ++ B
      = natLE 2 a.len ++ (natLE 2 a.type ++ (a.payload ++ (a.pad ++ B))) := by
    simp [encode]
  have hpay : a.len - 4 = a.payload.length := Nat.add_sub_cancel_left 4 a.payload.length
  have hpad : align4 a.len - a.len = a.pad.length := a.pad_length.symm
  -- the two checks that reading an attribute makes
  have hfit : 4 ≤ a.len ∧ align4 a.len ≤ (a.encode ++ B).length := by
    rw [List.length_append, length_encode]
    exact ⟨Nat.le_add_right _ _, Nat.le_add_right _ _⟩
  have hrest : (a.encode ++ B).drop (align4 a.len) = B := List.drop_left' (length_encode a)
  unfold decode
  rw [hsplit, takeLE_natLE _ hlen, ← hsplit]
  simp only [Option.bind_eq_bind, Option.bind_some, takeLE_natLE _ htype, if_pos hfit, hrest, hpay,
    hpad, List.take_left, List.drop_left]
  rfl

/-- **Decoding undoes encoding.** -/
theorem decodeAll_encodeAll (as : List Attribute) :
    decodeAll as.length (encodeAll as) = some (as.map fields) := by
  induction as with
  | nil => rfl
  | cons a as ih =>
    have hne : a.encode ++ encodeAll as ≠ [] := by
      intro hnil
      have hsize := congrArg List.length hnil
      have hpos := four_le_size a
      rw [List.length_append, length_encode, List.length_nil] at hsize
      omega
    rw [List.length_cons, encodeAll_cons, decodeAll, if_neg hne, decode_encode]
    simp [ih]

end Attribute
