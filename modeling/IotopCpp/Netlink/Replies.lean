import IotopCpp.Netlink.Decoder
import Mathlib.Data.List.Induction

/-!
# Well-formed replies

What `get_task_io_info` does with a reply whose attributes are well formed.  The
outer loop visits every attribute at its own offset.  The inner loop moves its
pointer by the length of everything it has walked, so it visits the first two
attributes of an aggregate where they are, and the third four bytes or more too
far.

## Main definitions

* `ReplyAttr`, `Carries` — a well-formed attribute of a reply, and a reply made
  of such attributes.
* `nestedVisits`, `nestedOffsets` — where the decoder looks for nested
  attributes, and where they are.
* `DecodesReply` — the decoder returns zero with the last statistics of the reply,
  having visited every nested attribute once, where it is.

## Main results

* `decodesReply_iff` — a well-formed reply is decoded exactly when no aggregate in
  it holds more than two attributes.
-/

namespace IotopCpp
namespace Netlink

open LittleEndian Traced Attribute

/-! ### Replies -/

/-- An attribute of a reply.  An aggregate holds nested attributes and nothing
else, and its statistics are long enough for the fields the program copies. -/
structure ReplyAttr where
  attr : Attribute
  nested : List Attribute
  payload_eq : IsAggr attr.type → attr.payload = encodeAll nested
  nested_eq_nil : ¬IsAggr attr.type → nested = []
  stats_full : ∀ b ∈ nested, b.type = taskstatsTypeStats →
    Taskstats.fieldsEnd ≤ b.payload.length

/-- A message of `repLen` received bytes that is a reply made of `attrs`: its length is
theirs with the two headers, it was received whole, and it does not report an error. -/
structure Carries (msg : MsgBuf) (repLen : ℕ) (attrs : List ReplyAttr) : Prop where
  len_eq : msg.nlmsgLen = genlmsgData + (encodeAll (attrs.map ReplyAttr.attr)).length
  len_le : msg.nlmsgLen ≤ repLen
  not_error : msg.nlmsgType ≠ nlmsgError
  allAt : AllAt msg.bytes genlmsgData (attrs.map ReplyAttr.attr)

/-- Where the nested attributes of the attributes `as` are, when `as` start at `p`. -/
def nestedOffsets : ℕ → List ReplyAttr → List ℕ
  | _, [] => []
  | p, a :: as => offsets (nlaData p) a.nested ++ nestedOffsets (p + a.attr.size) as

/-- The statistics attributes of a reply, in message order. -/
def statsOf (attrs : List ReplyAttr) : List Attribute :=
  (attrs.flatMap ReplyAttr.nested).filter fun b => b.type = taskstatsTypeStats

/-- Where a decoder looked for nested attributes. -/
def nestedVisits (t : List Access) : List ℕ :=
  t.filterMap fun a => if a.what = .nestedType then some a.na else none

@[simp] theorem nestedVisits_append (t t' : List Access) :
    nestedVisits (t ++ t') = nestedVisits t ++ nestedVisits t' := List.filterMap_append

/-- The fields of the `struct taskstats` at the start of a payload. -/
def Taskstats.ofPayload (payload : Bytes) : Taskstats :=
  let field (f : ℕ × ℕ) : ℕ := (readLE payload f.1 f.2).getD 0
  { acUid := .ofNat (field acUidField)
    readChar := .ofNat (field readCharField)
    writeChar := .ofNat (field writeCharField)
    readBytes := .ofNat (field readBytesField)
    writeBytes := .ofNat (field writeBytesField)
    swapinDelayTotal := .ofNat (field swapinDelayTotalField)
    blkioDelayTotal := .ofNat (field blkioDelayTotalField) }

/-- What a nested attribute does to the record. -/
def copyNested (ioStats : TaskIoInfo) (b : Attribute) : TaskIoInfo :=
  if b.type = taskstatsTypeStats then (Taskstats.ofPayload b.payload).copyInto ioStats else ioStats

/-- Copying attribute after attribute leaves the last statistics. -/
theorem foldl_copyNested (bs : List Attribute) (ioStats : TaskIoInfo) :
    bs.foldl copyNested ioStats
      = ((bs.filter fun b => b.type = taskstatsTypeStats).getLast?).elim ioStats
          fun b => (Taskstats.ofPayload b.payload).copyInto ioStats := by
  induction bs using List.reverseRecOn with
  | nil => rfl
  | append_singleton bs b ih =>
    rw [List.foldl_append, List.foldl_cons, List.foldl_nil, ih, List.filter_append]
    by_cases hb : b.type = taskstatsTypeStats
    · rw [copyNested, if_pos hb]
      cases (bs.filter fun b => b.type = taskstatsTypeStats).getLast? with
      | none => simp [hb]
      | some b' => simp [hb]
    · rw [copyNested, if_neg hb]
      simp [hb]

/-! ### One iteration of the inner loop -/

variable {msg : MsgBuf}

theorem read_of_at {na off n v : ℕ} {what : What} (h : readLE msg.bytes off n = some v) :
    msg.read ⟨what, na, off, n⟩ = ⟨[⟨what, na, off, n⟩], .ok v⟩ :=
  MsgBuf.read_of_some h

theorem u16_len_of_at {p : ℕ} {a : Attribute} (h : At msg.bytes p a) : msg.u16 p = a.len :=
  u16_of_readLE h.readLE_len

theorem u16_type_of_at {p : ℕ} {a : Attribute} (h : At msg.bytes p a) : msg.u16 (p + 2) = a.type :=
  u16_of_readLE h.readLE_type

theorem nlaAlign_of_at {p : ℕ} {a : Attribute} (h : At msg.bytes p a) :
    nlaAlign (msg.u16 p) = a.size := by
  rw [u16_len_of_at h]
  rfl

/-- The reads made for the statistics in the attribute at `na`. -/
def taskstatsAccesses (na : ℕ) : List Access :=
  [Taskstats.acUidField, Taskstats.readCharField, Taskstats.writeCharField,
    Taskstats.readBytesField, Taskstats.writeBytesField, Taskstats.swapinDelayTotalField,
    Taskstats.blkioDelayTotalField].map fun f => ⟨.taskstats, na, nlaData na + f.1, f.2⟩

/-- The fields are read from the payload of the attribute they belong to. -/
theorem copyTaskstats_at {na : ℕ} {b : Attribute} (h : At msg.bytes na b)
    (hfull : Taskstats.fieldsEnd ≤ b.payload.length) (ioStats : TaskIoInfo) :
    copyTaskstats msg na ioStats
      = ⟨taskstatsAccesses na, .ok ((Taskstats.ofPayload b.payload).copyInto ioStats)⟩ := by
  have hfield (f : ℕ × ℕ) (hf : f.1 + f.2 ≤ Taskstats.fieldsEnd) :
      msg.read ⟨.taskstats, na, nlaData na + f.1, f.2⟩
        = ⟨[⟨.taskstats, na, nlaData na + f.1, f.2⟩], .ok ((readLE b.payload f.1 f.2).getD 0)⟩ := by
    obtain ⟨v, hv⟩ := Option.isSome_iff_exists.1 (readLE_isSome.2 (hf.trans hfull))
    rw [hv]
    exact read_of_at ((h.readLE_payload (hf.trans hfull)).trans hv)
  obtain ⟨h₁, h₂, h₃, h₄, h₅, h₆, h₇⟩ := Taskstats.of_forall_field hfield
  unfold copyTaskstats
  simp only [h₁, h₂, h₃, h₄, h₅, h₆, h₇, bind_ok, pure_def]
  rfl

/-- **One iteration of the inner loop** at an attribute: it is visited, its
statistics are copied, and the pointer moves by all that has been walked. -/
theorem statsBody_at {na : ℕ} {b : Attribute} (h : At msg.bytes na b)
    (hfull : b.type = taskstatsTypeStats → Taskstats.fieldsEnd ≤ b.payload.length)
    (len2 : ℕ) (ioStats : TaskIoInfo) :
    ∃ t, statsBody msg ⟨na, len2, ioStats⟩
        = ⟨t, .ok ⟨na + (len2 + b.size), len2 + b.size, copyNested ioStats b⟩⟩ ∧
      nestedVisits t = [na] := by
  have hcopy : ∃ t, copyIfStats msg b.type na ioStats = ⟨t, .ok (copyNested ioStats b)⟩ ∧
      nestedVisits t = [] := by
    by_cases hb : b.type = taskstatsTypeStats
    · refine ⟨taskstatsAccesses na, ?_, rfl⟩
      rw [copyIfStats, if_pos hb, copyNested, if_pos hb, copyTaskstats_at h (hfull hb)]
    · refine ⟨[], ?_, rfl⟩
      rw [copyIfStats, if_neg hb, copyNested, if_neg hb, pure_def]
  obtain ⟨t, hcopy, hvisits⟩ := hcopy
  refine ⟨[⟨.nestedType, na, na + 2, 2⟩] ++ (t ++ ([⟨.nestedLen, na, na, 2⟩] ++ [])), ?_, ?_⟩
  · simp only [statsBody, read_of_at h.readLE_type, bind_ok, hcopy, read_of_at h.readLE_len, pure_def]
    rfl
  · rw [nestedVisits_append, nestedVisits_append, hvisits]
    rfl

/-! ### The inner loop -/

section Inner

variable {aggrLen : ℤ} {na len2 : ℕ} {ioStats : TaskIoInfo} {t : List Access} {s : NestedCursor}

theorem cond_of_lt (h : (len2 : ℤ) < aggrLen) :
    decide (((⟨na, len2, ioStats⟩ : NestedCursor).len2 : ℤ) < aggrLen) = true := decide_eq_true h

/-- The inner loop visits the attribute its pointer is at, whatever lies there. -/
theorem statsLoop_visits (hlt : (len2 : ℤ) < aggrLen)
    (h : Yields (fun n => statsLoop msg aggrLen n ⟨na, len2, ioStats⟩) t s) :
    ∃ rest, nestedVisits t = na :: rest := by
  obtain ⟨t₁, s', t₂, ⟨n, hbody⟩, -, rfl⟩ :=
    yields_whileLoop_inv (fun s => grows_const (statsBody msg s)) (cond_of_lt hlt) h
  obtain ⟨t₃, nlaType, t₄, hread, -, rfl⟩ := bind_eq_ok.1 (hbody n le_rfl)
  have ht₃ : t₃ = [⟨.nestedType, na, na + 2, 2⟩] := (congrArg Traced.trace hread).symm
  rw [ht₃, nestedVisits_append, nestedVisits_append]
  exact ⟨_, rfl⟩

variable {b : Attribute} (hat : At msg.bytes na b)
  (hfull : b.type = taskstatsTypeStats → Taskstats.fieldsEnd ≤ b.payload.length)

include hat hfull

/-- The inner loop at an attribute, taken apart. -/
theorem statsLoop_inv (hlt : (len2 : ℤ) < aggrLen)
    (h : Yields (fun n => statsLoop msg aggrLen n ⟨na, len2, ioStats⟩) t s) :
    ∃ t', nestedVisits t = na :: nestedVisits t' ∧
      Yields (fun n => statsLoop msg aggrLen n
        ⟨na + (len2 + b.size), len2 + b.size, copyNested ioStats b⟩) t' s := by
  obtain ⟨t₁, s', t₂, hbody, hrest, rfl⟩ :=
    yields_whileLoop_inv (fun s => grows_const (statsBody msg s)) (cond_of_lt hlt) h
  obtain ⟨t₃, hbody', hvisits⟩ := statsBody_at hat hfull len2 ioStats
  obtain ⟨rfl, rfl⟩ := hbody.unique (yields_const hbody')
  exact ⟨t₂, by rw [nestedVisits_append, hvisits]; rfl, hrest⟩

/-- The inner loop at an attribute, put together. -/
theorem statsLoop_step (hlt : (len2 : ℤ) < aggrLen)
    (h : Yields (fun n => statsLoop msg aggrLen n
      ⟨na + (len2 + b.size), len2 + b.size, copyNested ioStats b⟩) t s) :
    ∃ t', nestedVisits t' = na :: nestedVisits t ∧
      Yields (fun n => statsLoop msg aggrLen n ⟨na, len2, ioStats⟩) t' s := by
  obtain ⟨t₁, hbody, hvisits⟩ := statsBody_at hat hfull len2 ioStats
  refine ⟨t₁ ++ t, by rw [nestedVisits_append, hvisits]; rfl, ?_⟩
  exact yields_whileLoop_step (cond_of_lt hlt) (yields_const hbody) h

end Inner

/-- The inner loop is done when it has walked the whole aggregate. -/
theorem statsLoop_done (na len2 : ℕ) (ioStats : TaskIoInfo) :
    Yields (fun n => statsLoop msg (len2 : ℕ) n ⟨na, len2, ioStats⟩) [] ⟨na, len2, ioStats⟩ :=
  yields_whileLoop_done (by simp)

/-- **An aggregate of at most two attributes is walked right.**  The pointer moves
by the length of the first attribute, then by that of both, and then no more. -/
theorem yields_statsLoop {na : ℕ} {bs : List Attribute} (h : AllAt msg.bytes na bs)
    (hfull : ∀ b ∈ bs, b.type = taskstatsTypeStats → Taskstats.fieldsEnd ≤ b.payload.length)
    (hshort : bs.length ≤ 2) (ioStats : TaskIoInfo) :
    ∃ t s, Yields (fun n => statsLoop msg ((encodeAll bs).length : ℕ) n ⟨na, 0, ioStats⟩) t s ∧
      s.ioStats = bs.foldl copyNested ioStats ∧ nestedVisits t = offsets na bs := by
  match bs with
  | [] => exact ⟨_, _, statsLoop_done na 0 ioStats, rfl, rfl⟩
  | [b] =>
    have hpos := four_le_size b
    have hlen : (encodeAll [b]).length = 0 + b.size := by simp
    obtain ⟨t, hvisits, hyields⟩ := statsLoop_step h.head (hfull b (by simp)) (by omega)
      (statsLoop_done (na + (0 + b.size)) (0 + b.size) (copyNested ioStats b))
    rw [hlen]
    exact ⟨t, _, hyields, rfl, hvisits⟩
  | [b₁, b₂] =>
    -- the second step would move by both lengths, and is the last
    have hpos₁ := four_le_size b₁
    have hpos₂ := four_le_size b₂
    have hlen : (encodeAll [b₁, b₂]).length = 0 + b₁.size + b₂.size := by simp
    have hat₂ : At msg.bytes (na + (0 + b₁.size)) b₂ := by
      rw [zero_add]
      exact h.tail.head
    obtain ⟨t₂, hvisits₂, hyields₂⟩ := statsLoop_step hat₂ (hfull b₂ (by simp)) (by omega)
      (statsLoop_done (na + (0 + b₁.size) + (0 + b₁.size + b₂.size)) (0 + b₁.size + b₂.size)
        (copyNested (copyNested ioStats b₁) b₂))
    obtain ⟨t, hvisits, hyields⟩ := statsLoop_step h.head (hfull b₁ (by simp)) (by omega) hyields₂
    rw [hlen]
    refine ⟨t, _, hyields, rfl, ?_⟩
    rw [hvisits, hvisits₂, zero_add]
    rfl
  | _ :: _ :: _ :: _ => simp at hshort

/-- **The third visit of an aggregate is too far on**, by the length of the first
attribute. -/
theorem statsLoop_visits_three {na : ℕ} {b₁ b₂ b₃ : Attribute} {bs : List Attribute}
    (h : AllAt msg.bytes na (b₁ :: b₂ :: b₃ :: bs))
    (hfull : ∀ b ∈ b₁ :: b₂ :: b₃ :: bs, b.type = taskstatsTypeStats →
      Taskstats.fieldsEnd ≤ b.payload.length)
    {ioStats : TaskIoInfo} {t : List Access} {s : NestedCursor}
    (hyields : Yields (fun n => statsLoop msg ((encodeAll (b₁ :: b₂ :: b₃ :: bs)).length : ℕ) n
      ⟨na, 0, ioStats⟩) t s) :
    ∃ rest, nestedVisits t
      = na :: (na + b₁.size) :: (na + b₁.size + (b₁.size + b₂.size)) :: rest := by
  have hlen : (encodeAll (b₁ :: b₂ :: b₃ :: bs)).length
      = b₁.size + (b₂.size + (b₃.size + (encodeAll bs).length)) := by
    rw [length_encodeAll_cons, length_encodeAll_cons, length_encodeAll_cons]
  have hpos₁ := four_le_size b₁
  have hpos₃ := four_le_size b₃
  rw [hlen] at hyields
  -- the first two visits are on the layout, and the second has moved by both lengths
  obtain ⟨t₁, hvisits₁, hyields₁⟩ :=
    statsLoop_inv h.head (hfull b₁ (by simp)) (by omega) hyields
  rw [zero_add] at hyields₁
  obtain ⟨t₂, hvisits₂, hyields₂⟩ :=
    statsLoop_inv h.tail.head (hfull b₂ (by simp)) (by omega) hyields₁
  obtain ⟨rest, hrest⟩ := statsLoop_visits (by omega) hyields₂
  exact ⟨rest, by rw [hvisits₁, hvisits₂, hrest]⟩

/-! ### The outer loop -/

/-- The two reads of an attribute's header. -/
def headerAccesses (na : ℕ) : List Access := [⟨.len, na, na, 2⟩, ⟨.type, na, na + 2, 2⟩]

/-- An iteration of the outer loop at an attribute: the header, and the inner loop
if the attribute is an aggregate; then the pointer is where the next one starts. -/
theorem attrBody_at {p : ℕ} {a : Attribute} (h : At msg.bytes p a) (fuel len : ℕ)
    (ioStats : TaskIoInfo) :
    attrBody msg fuel ⟨p, len, ioStats⟩
      = (⟨headerAccesses p, .ok ()⟩ : Decode Unit) >>= fun _ =>
        walkIfAggr msg fuel a.type a.len p ioStats >>= fun ioStats' =>
          pure ⟨genlmsgData + (len + a.size), len + a.size, ioStats'⟩ := by
  simp only [attrBody, read_of_at h.readLE_len, read_of_at h.readLE_type, bind_ok]
  rfl

theorem nlaPayload_len (a : Attribute) : nlaPayload a.len = (a.payload.length : ℕ) := by
  unfold nlaPayload Attribute.len nlaHdrlen
  push_cast
  omega

theorem ReplyAttr.allAt_nested {p : ℕ} {a : ReplyAttr} (h : At msg.bytes p a.attr)
    (haggr : IsAggr a.attr.type) : AllAt msg.bytes (nlaData p) a.nested :=
  h.nested (a.payload_eq haggr)

/-- An attribute with at most two nested ones is walked right. -/
theorem yields_attrBody {p : ℕ} {a : ReplyAttr} (h : At msg.bytes p a.attr)
    (hshort : a.nested.length ≤ 2) (len : ℕ) (ioStats : TaskIoInfo) :
    ∃ t, Yields (fun n => attrBody msg n ⟨p, len, ioStats⟩) t
        ⟨genlmsgData + (len + a.attr.size), len + a.attr.size,
          a.nested.foldl copyNested ioStats⟩ ∧
      nestedVisits t = offsets (nlaData p) a.nested := by
  have hwalk : ∃ t, Yields (fun n => walkIfAggr msg n a.attr.type a.attr.len p ioStats) t
      (a.nested.foldl copyNested ioStats) ∧ nestedVisits t = offsets (nlaData p) a.nested := by
    unfold walkIfAggr
    by_cases haggr : IsAggr a.attr.type
    · obtain ⟨t, s, hyields, hio, hvisits⟩ :=
        yields_statsLoop (ReplyAttr.allAt_nested h haggr) a.stats_full hshort ioStats
      simp only [if_pos haggr, nlaPayload_len, a.payload_eq haggr, ← hio]
      refine ⟨t ++ [], hyields.bind (yields_const rfl), ?_⟩
      rw [List.append_nil, hvisits]
    · simp only [if_neg haggr, a.nested_eq_nil haggr]
      exact ⟨[], yields_const rfl, rfl⟩
  obtain ⟨t, hyields, hvisits⟩ := hwalk
  refine ⟨headerAccesses p ++ (t ++ []), ?_, ?_⟩
  · simp only [attrBody_at h]
    exact (yields_const rfl).bind (hyields.bind (yields_const rfl))
  · rw [nestedVisits_append, List.append_nil, hvisits]
    rfl

/-- An iteration that yields at an aggregate ran the inner loop over it. -/
theorem attrBody_inv {p : ℕ} {a : ReplyAttr} (h : At msg.bytes p a.attr)
    (haggr : IsAggr a.attr.type) {len : ℕ} {ioStats : TaskIoInfo} {t : List Access} {s : Cursor}
    (hyields : Yields (fun n => attrBody msg n ⟨p, len, ioStats⟩) t s) :
    ∃ t' s', nestedVisits t = nestedVisits t' ∧
      Yields (fun n => statsLoop msg ((encodeAll a.nested).length : ℕ) n ⟨nlaData p, 0, ioStats⟩)
        t' s' := by
  obtain ⟨n, hn⟩ := hyields
  have hbody : attrBody msg n ⟨p, len, ioStats⟩ = ⟨t, .ok s⟩ := hn n le_rfl
  rw [attrBody_at h, bind_eq_ok] at hbody
  obtain ⟨t₁, _, t₂, hheader, hbody, rfl⟩ := hbody
  obtain ⟨t₃, _, t₄, hwalk, hdone, rfl⟩ := bind_eq_ok.1 hbody
  rw [walkIfAggr, if_pos haggr, nlaPayload_len, a.payload_eq haggr, bind_eq_ok] at hwalk
  obtain ⟨t₅, s', t₆, hloop, hdone', rfl⟩ := hwalk
  refine ⟨t₅, s', ?_, (grows_statsLoop msg _ _).yields hloop⟩
  have ht₁ : t₁ = headerAccesses p := (congrArg Traced.trace hheader).symm
  have ht₄ : t₄ = [] := (congrArg Traced.trace hdone).symm
  have ht₆ : t₆ = [] := (congrArg Traced.trace hdone').symm
  rw [ht₁, ht₄, ht₆, List.append_nil, List.append_nil, nestedVisits_append]
  rfl

section Outer

variable {repLen : ℤ} {len : ℕ} {ioStats : TaskIoInfo} {a : ReplyAttr} {as : List ReplyAttr}

/-- The bytes left when the outer loop is at the attributes `as`. -/
def Remaining (repLen : ℤ) (len : ℕ) (as : List ReplyAttr) : Prop :=
  repLen = (len + (encodeAll (as.map ReplyAttr.attr)).length : ℕ)

theorem Remaining.lt (h : Remaining repLen len (a :: as)) : (len : ℤ) < repLen := by
  have hlen := length_encodeAll_cons a.attr (as.map ReplyAttr.attr)
  have hpos := four_le_size a.attr
  rw [Remaining, List.map_cons, hlen] at h
  omega

theorem Remaining.tail (h : Remaining repLen len (a :: as)) :
    Remaining repLen (len + a.attr.size) as := by
  have hlen := length_encodeAll_cons a.attr (as.map ReplyAttr.attr)
  rw [Remaining, List.map_cons, hlen] at h
  rw [Remaining, h]
  omega

end Outer

/-- **A reply whose aggregates hold at most two attributes is walked right.** -/
theorem yields_attrLoop {repLen : ℤ} {len : ℕ} {as : List ReplyAttr}
    (h : AllAt msg.bytes (genlmsgData + len) (as.map ReplyAttr.attr))
    (hrem : Remaining repLen len as) (hshort : ∀ a ∈ as, a.nested.length ≤ 2)
    (ioStats : TaskIoInfo) :
    ∃ t s, Yields (fun n => attrLoop msg repLen n ⟨genlmsgData + len, len, ioStats⟩) t s ∧
      s.ioStats = (as.flatMap ReplyAttr.nested).foldl copyNested ioStats ∧
      nestedVisits t = nestedOffsets (genlmsgData + len) as := by
  induction as generalizing len ioStats with
  | nil =>
    refine ⟨[], _, yields_whileLoop_done ?_, rfl, rfl⟩
    have hlen : repLen = len := by simpa [Remaining] using hrem
    simp [hlen]
  | cons a as ih =>
    obtain ⟨t₁, hbody, hvisits₁⟩ :=
      yields_attrBody h.head (hshort a List.mem_cons_self) len ioStats
    have hrest := h.tail
    rw [add_assoc] at hrest
    -- the outer loop is back on the layout, whatever the inner one did
    obtain ⟨t₂, s, hyields, hio, hvisits₂⟩ := ih hrest hrem.tail
      (fun b hb => hshort b (List.mem_cons_of_mem a hb)) (a.nested.foldl copyNested ioStats)
    refine ⟨t₁ ++ t₂, s, yields_whileLoop_step (decide_eq_true hrem.lt) hbody hyields, ?_, ?_⟩
    · rw [hio, List.flatMap_cons, List.foldl_append]
    · rw [nestedVisits_append, hvisits₁, hvisits₂, nestedOffsets, add_assoc]

/-- A reply that is walked right has no aggregate of more than two attributes. -/
theorem short_of_attrLoop {repLen : ℤ} {len : ℕ} {as : List ReplyAttr}
    (h : AllAt msg.bytes (genlmsgData + len) (as.map ReplyAttr.attr))
    (hrem : Remaining repLen len as) {ioStats : TaskIoInfo} {t : List Access} {s : Cursor}
    (hyields : Yields (fun n => attrLoop msg repLen n ⟨genlmsgData + len, len, ioStats⟩) t s)
    (hvisits : nestedVisits t = nestedOffsets (genlmsgData + len) as) :
    ∀ a ∈ as, a.nested.length ≤ 2 := by
  induction as generalizing len ioStats t with
  | nil => simp
  | cons a as ih =>
    obtain ⟨t₁, s', t₂, hbody, hrest, rfl⟩ :=
      yields_whileLoop_inv (grows_attrBody msg) (decide_eq_true hrem.lt) hyields
    rw [nestedVisits_append, nestedOffsets] at hvisits
    have hshort : a.nested.length ≤ 2 := by
      by_contra hlong
      -- an attribute that holds others is an aggregate
      have haggr : IsAggr a.attr.type := by
        by_contra hplain
        rw [a.nested_eq_nil hplain] at hlong
        exact hlong (by simp)
      obtain ⟨t', s'', hvisits', hloop⟩ := attrBody_inv h.head haggr hbody
      have hat := ReplyAttr.allAt_nested h.head haggr
      have hfull := a.stats_full
      -- the third visit is not where the third attribute is
      match hnested : a.nested with
      | [] => simp [hnested] at hlong
      | [_] => simp [hnested] at hlong
      | [_, _] => simp [hnested] at hlong
      | b₁ :: b₂ :: b₃ :: bs =>
        rw [hnested] at hat hfull hloop hvisits
        obtain ⟨rest, hrest⟩ := statsLoop_visits_three hat hfull hloop
        have hpos := four_le_size b₁
        rw [hvisits', hrest] at hvisits
        simp only [offsets_cons, List.cons_append, List.cons.injEq, true_and] at hvisits
        omega
    intro b hb
    rcases List.mem_cons.1 hb with rfl | hb
    · exact hshort
    · obtain ⟨t₁', hbody', hvisits₁⟩ := yields_attrBody h.head hshort len ioStats
      obtain ⟨rfl, rfl⟩ := hbody.unique hbody'
      have hat := h.tail
      rw [add_assoc] at hat
      rw [hvisits₁, List.append_cancel_left_eq, add_assoc] at hvisits
      exact ih hat hrem.tail hrest hvisits b hb

/-! ### Whole replies -/

/-- The decoder returns zero, leaves in the record the last statistics of the
reply, if it has any, and visits each nested attribute once, where it is. -/
def DecodesReply (res : ℤ) (repLen : ℕ) (msg : MsgBuf) (attrs : List ReplyAttr)
    (ioStats : TaskIoInfo) : Prop :=
  ∃ t ioStats',
    Yields (fun fuel => getTaskIoInfo fuel res (.message repLen msg) ioStats) t (0, ioStats') ∧
    (∀ b ∈ (statsOf attrs).getLast?,
      ioStats' = (Taskstats.ofPayload b.payload).copyInto ioStats) ∧
    nestedVisits t = nestedOffsets genlmsgData attrs

theorem Carries.nlmsgOk {repLen : ℕ} {attrs : List ReplyAttr} (h : Carries msg repLen attrs) :
    nlmsgOk msg repLen = true := by
  have hlen := h.len_eq
  have hle := h.len_le
  simp only [Netlink.nlmsgOk, Bool.and_eq_true, decide_eq_true_eq]
  unfold genlmsgData at hlen
  omega

theorem Carries.remaining {repLen : ℕ} {attrs : List ReplyAttr} (h : Carries msg repLen attrs) :
    Remaining (genlmsgPayload msg) 0 attrs := by
  have hlen := h.len_eq
  unfold Remaining genlmsgPayload
  unfold genlmsgData at hlen
  omega

theorem short_of_decodesReply {res : ℤ} (hres : 0 ≤ res) {repLen : ℕ} {attrs : List ReplyAttr}
    (h : Carries msg repLen attrs) {ioStats : TaskIoInfo}
    (hdecodes : DecodesReply res repLen msg attrs ioStats) : ∀ a ∈ attrs, a.nested.length ≤ 2 := by
  obtain ⟨t, ioStats', hyields, -, hvisits⟩ := hdecodes
  simp only [getTaskIoInfo_message hres h.nlmsgOk h.not_error] at hyields
  obtain ⟨n, hn⟩ := hyields
  obtain ⟨t₁, s, t₂, hloop, hdone, rfl⟩ := bind_eq_ok.1 (hn n le_rfl)
  have ht₂ : t₂ = [] := (congrArg Traced.trace hdone).symm
  rw [ht₂, List.append_nil] at hvisits
  exact short_of_attrLoop h.allAt h.remaining ((grows_attrLoop msg _ _).yields hloop) hvisits

theorem decodesReply_of_short {res : ℤ} (hres : 0 ≤ res) {repLen : ℕ} {attrs : List ReplyAttr}
    (h : Carries msg repLen attrs) (hshort : ∀ a ∈ attrs, a.nested.length ≤ 2)
    (ioStats : TaskIoInfo) : DecodesReply res repLen msg attrs ioStats := by
  unfold DecodesReply
  simp only [getTaskIoInfo_message hres h.nlmsgOk h.not_error]
  obtain ⟨t, s, hyields, hio, hvisits⟩ := yields_attrLoop h.allAt h.remaining hshort ioStats
  refine ⟨t ++ [], s.ioStats, hyields.bind (yields_const rfl), ?_, ?_⟩
  · intro b hb
    rw [hio, foldl_copyNested]
    unfold statsOf at hb
    rw [hb]
    rfl
  · rw [List.append_nil, hvisits]
    rfl

/-- **When a well-formed reply is decoded.**  It is exactly when no aggregate in it
holds more than two attributes. -/
theorem decodesReply_iff {res : ℤ} (hres : 0 ≤ res) {repLen : ℕ} {attrs : List ReplyAttr}
    (h : Carries msg repLen attrs) (ioStats : TaskIoInfo) :
    DecodesReply res repLen msg attrs ioStats ↔ ∀ a ∈ attrs, a.nested.length ≤ 2 :=
  ⟨short_of_decodesReply hres h, fun hshort => decodesReply_of_short hres h hshort ioStats⟩

/-! ### Replies of the kernel -/

/-- A message that is a header and a payload, with zeros after it. -/
def MsgBuf.reply (payload : Bytes) (hle : payload.length ≤ maxNetlinkMsgSize) : MsgBuf where
  bytes := natLE 4 (genlmsgData + payload.length) ++ (natLE 2 28 ++ (List.replicate 14 0 ++
    (payload ++ List.replicate (maxNetlinkMsgSize - payload.length) 0)))
  size_eq := by
    simp only [List.length_append, length_natLE, List.length_replicate]
    unfold msgTemplateSize nlmsgHdrlen genlHdrlen
    omega

theorem carries_reply {attrs : List ReplyAttr}
    (hle : (encodeAll (attrs.map ReplyAttr.attr)).length ≤ maxNetlinkMsgSize) :
    Carries (.reply _ hle) (genlmsgData + (encodeAll (attrs.map ReplyAttr.attr)).length) attrs := by
  have hlen : (MsgBuf.reply _ hle).nlmsgLen
      = genlmsgData + (encodeAll (attrs.map ReplyAttr.attr)).length := by
    have hsize : genlmsgData + (encodeAll (attrs.map ReplyAttr.attr)).length < 256 ^ 4 := by
      unfold maxNetlinkMsgSize at hle
      unfold genlmsgData nlmsgHdrlen genlHdrlen
      omega
    rw [MsgBuf.nlmsgLen, MsgBuf.reply, readLE_natLE _ hsize]
    rfl
  refine ⟨hlen, le_of_eq hlen, ?_, ?_⟩
  · have htype : (MsgBuf.reply _ hle).nlmsgType = 28 := by
      have hskip := readLE_append_right
        (natLE 4 (genlmsgData + (encodeAll (attrs.map ReplyAttr.attr)).length))
        (natLE 2 28 ++ (List.replicate 14 0 ++ (encodeAll (attrs.map ReplyAttr.attr) ++
          List.replicate
            (maxNetlinkMsgSize - (encodeAll (attrs.map ReplyAttr.attr)).length) 0))) 0 2
      rw [length_natLE] at hskip
      rw [MsgBuf.nlmsgType, MsgBuf.u16, MsgBuf.reply, hskip, readLE_natLE _ (by decide)]
      rfl
    rw [htype]
    decide
  · refine ⟨natLE 4 (genlmsgData + (encodeAll (attrs.map ReplyAttr.attr)).length) ++
      (natLE 2 28 ++ List.replicate 14 0),
      List.replicate (maxNetlinkMsgSize - (encodeAll (attrs.map ReplyAttr.attr)).length) 0, ?_, ?_⟩
    · simp only [MsgBuf.reply, List.append_assoc]
    · simp only [List.length_append, length_natLE, List.length_replicate]
      rfl

/-- `TASKSTATS_TYPE_PID` with the id 1, an empty `TASKSTATS_TYPE_NULL`, and
`TASKSTATS_TYPE_STATS` with a `struct taskstats` of 328 bytes, all zero. -/
def pidAttr : Attribute := ⟨1, [1, 0, 0, 0], [], by decide, by decide, by decide⟩

def nullAttr : Attribute := ⟨6, [], [], by decide, by decide, by decide⟩

def statsAttr : Attribute where
  type := taskstatsTypeStats
  payload := List.replicate 328 0
  pad := []
  type_lt := by decide
  len_lt := by rw [List.length_replicate]; decide
  pad_length := by rw [List.length_replicate]; rfl

theorem size_statsAttr : statsAttr.size = 332 := by
  rw [Attribute.size, Attribute.len, statsAttr, List.length_replicate]
  rfl

/-- The aggregate the kernel answers a query for one thread with. -/
def aggrPid (nested : List Attribute) (hle : 4 + (encodeAll nested).length ≤ maxNetlinkMsgSize)
    (hfull : ∀ b ∈ nested, b.type = taskstatsTypeStats →
      Taskstats.fieldsEnd ≤ b.payload.length) : ReplyAttr where
  attr := {
    type := taskstatsTypeAggrPid
    payload := encodeAll nested
    pad := []
    type_lt := by decide
    len_lt := by unfold maxNetlinkMsgSize at hle; omega
    pad_length := by
      have hmod := length_encodeAll_mod nested
      unfold align4
      simp only [List.length_nil]
      omega }
  nested := nested
  payload_eq := fun _ => rfl
  nested_eq_nil := fun h => absurd (Or.inr rfl) h
  stats_full := hfull

theorem size_aggrPid {nested : List Attribute}
    (hle : 4 + (encodeAll nested).length ≤ maxNetlinkMsgSize)
    (hfull : ∀ b ∈ nested, b.type = taskstatsTypeStats →
      Taskstats.fieldsEnd ≤ b.payload.length) :
    (encodeAll ([aggrPid nested hle hfull].map ReplyAttr.attr)).length
      = 4 + (encodeAll nested).length := by
  have hmod := length_encodeAll_mod nested
  simp only [List.map_cons, List.map_nil, length_encodeAll_cons, encodeAll_nil, List.length_nil]
  show align4 (4 + (encodeAll nested).length) + 0 = _
  unfold align4
  omega

theorem stats_full_of_mem {b : Attribute} (hb : b ∈ [pidAttr, nullAttr, statsAttr])
    (htype : b.type = taskstatsTypeStats) : Taskstats.fieldsEnd ≤ b.payload.length := by
  simp only [List.mem_cons, List.not_mem_nil, or_false] at hb
  rcases hb with rfl | rfl | rfl
  · exact absurd htype (by decide)
  · exact absurd htype (by decide)
  · rw [statsAttr, List.length_replicate]
    decide

/-- The reply of a kernel that has no need to align the statistics. -/
def plainReply : ReplyAttr :=
  aggrPid [pidAttr, statsAttr]
    (by rw [length_encodeAll_cons, length_encodeAll_cons, size_statsAttr]; decide)
    fun b hb => stats_full_of_mem (List.cons_subset_cons _ (List.subset_cons_self _ _) hb)

/-- The reply of a kernel that aligns them with a `TASKSTATS_TYPE_NULL`. -/
def alignedReply : ReplyAttr :=
  aggrPid [pidAttr, nullAttr, statsAttr]
    (by rw [length_encodeAll_cons, length_encodeAll_cons, length_encodeAll_cons, size_statsAttr]
        decide)
    fun b hb => stats_full_of_mem hb

theorem length_plainReply : (encodeAll ([plainReply].map ReplyAttr.attr)).length = 344 := by
  rw [plainReply, size_aggrPid, length_encodeAll_cons, length_encodeAll_cons, size_statsAttr]
  rfl

theorem length_alignedReply : (encodeAll ([alignedReply].map ReplyAttr.attr)).length = 348 := by
  rw [alignedReply, size_aggrPid, length_encodeAll_cons, length_encodeAll_cons,
    length_encodeAll_cons, size_statsAttr]
  rfl

def plainMsg : MsgBuf :=
  .reply (encodeAll ([plainReply].map ReplyAttr.attr)) (by rw [length_plainReply]; decide)

def alignedMsg : MsgBuf :=
  .reply (encodeAll ([alignedReply].map ReplyAttr.attr)) (by rw [length_alignedReply]; decide)

theorem carries_plainMsg : Carries plainMsg 364 [plainReply] := by
  rw [show 364 = genlmsgData + (encodeAll ([plainReply].map ReplyAttr.attr)).length by
    rw [length_plainReply]; rfl]
  exact carries_reply _

theorem carries_alignedMsg : Carries alignedMsg 368 [alignedReply] := by
  rw [show 368 = genlmsgData + (encodeAll ([alignedReply].map ReplyAttr.attr)).length by
    rw [length_alignedReply]; rfl]
  exact carries_reply _

theorem decodesReply_iff_plainMsg :
    DecodesReply 0 364 plainMsg [plainReply] {} ↔ ∀ a ∈ [plainReply], a.nested.length ≤ 2 :=
  decodesReply_iff le_rfl carries_plainMsg {}

/-- The aligned reply is well formed, and is not decoded. -/
theorem not_decodesReply_alignedMsg :
    Carries alignedMsg 368 [alignedReply] ∧ ¬DecodesReply 0 368 alignedMsg [alignedReply] {} := by
  refine ⟨carries_alignedMsg, ?_⟩
  intro hdecodes
  have hshort := short_of_decodesReply le_rfl carries_alignedMsg hdecodes
  exact absurd (hshort alignedReply (List.mem_singleton.2 rfl)) (by decide)

end Netlink
end IotopCpp
