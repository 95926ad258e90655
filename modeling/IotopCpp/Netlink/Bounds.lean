import IotopCpp.Netlink.Walk

/-!
# What the decoders read

Neither decoder checks a length that a message declares against the length of what
it is part of, so whether their reads stay inside the received message is a matter of
how the message is laid out.  It is laid out inside when every attribute has a whole
header there, and every `STATS` attribute of an aggregate a whole `struct taskstats`.

For a reply whose aggregates hold at most two attributes this decides the matter.  An
aggregate of three or more takes the inner loop off the layout, to bytes that are no
header of the reply; two replies of the same layout then differ in what is read.

## Main definitions

* `Access.Inside`, `ReadsInside` — a read, and every read of a trace, stays inside
  the message, and a field of statistics inside the payload of its attribute.
* `LaidInside`, `FamilyInside` — the attributes of a reply, and those of a family reply
  that are looked at, are inside the message.

## Main results

* `readsInside_iff` — a short reply is read inside exactly when it is laid out inside,
  and a family reply exactly when its first two attributes are.
* `layout_not_decisive` — of two replies with the same layout one is read inside and
  the other is not.
* `Carries.laidInside` — a well-formed reply is laid out inside.
-/

namespace IotopCpp
namespace Netlink

open LittleEndian Traced Attribute

variable {msg : MsgBuf}

/-! ### Reads -/

/-- The read stays inside the first `nlmsg_len` bytes; one of a field of statistics
also inside the payload of the attribute it is taken from. -/
structure Access.Inside (msg : MsgBuf) (a : Access) : Prop where
  message : a.off + a.size ≤ msg.nlmsgLen
  payload : a.what = .taskstats → nlaData a.na ≤ a.off ∧ a.off + a.size ≤ a.na + msg.u16 a.na

def ReadsInside (msg : MsgBuf) (t : List Access) : Prop := ∀ a ∈ t, a.Inside msg

theorem readsInside_nil : ReadsInside msg [] := by
  intro a ha
  cases ha

theorem readsInside_read_bind {α : Type} {a : Access} {f : ℕ → Decode α} :
    ReadsInside msg (msg.read a >>= f).trace ↔
      a.Inside msg ∧ ∀ v, readLE msg.bytes a.off a.size = some v → ReadsInside msg (f v).trace := by
  refine ⟨fun h => ⟨?_, fun v hv b hb => ?_⟩, ?_⟩
  · exact h a (mem_trace_read_bind.2 (Or.inl rfl))
  · exact h b (mem_trace_read_bind.2 (Or.inr ⟨v, hv, hb⟩))
  · intro hinside b hb
    rcases hinside with ⟨ha, hf⟩
    rcases mem_trace_read_bind.1 hb with rfl | ⟨v, hv, hb⟩
    · exact ha
    · exact hf v hv b hb

/-- A two-byte read of a header. -/
theorem inside_header_iff {what : What} {na off : ℕ} (hwhat : what ≠ .taskstats) :
    Access.Inside msg ⟨what, na, off, 2⟩ ↔ off + 2 ≤ msg.nlmsgLen :=
  ⟨fun h => h.message, fun h => ⟨h, fun heq => absurd heq hwhat⟩⟩

/-- The lengths at `na` keep the reads of a `struct taskstats` inside: the attribute
declares room for all the fields that are copied, and they end before the message. -/
def StatsInside (msg : MsgBuf) (na : ℕ) : Prop :=
  nlaHdrlen + Taskstats.fieldsEnd ≤ msg.u16 na ∧
    na + nlaHdrlen + Taskstats.fieldsEnd ≤ msg.nlmsgLen

/-- A field that ends where the statistics may end is inside. -/
theorem StatsInside.inside {na : ℕ} (h : StatsInside msg na) {f : ℕ × ℕ}
    (hf : f.1 + f.2 ≤ Taskstats.fieldsEnd) :
    Access.Inside msg ⟨.taskstats, na, nlaData na + f.1, f.2⟩ := by
  obtain ⟨hpayload, hmessage⟩ := h
  unfold nlaHdrlen at hpayload hmessage
  refine ⟨?_, fun _ => ⟨?_, ?_⟩⟩
  · simp only [nlaData, nlaHdrlen]
    omega
  · exact Nat.le_add_right _ _
  · simp only [nlaData, nlaHdrlen]
    omega

section

variable (hbuf : msg.nlmsgLen ≤ msg.bytes.length)

include hbuf

/-- A read that stays inside gives a value. -/
theorem Access.Inside.exists_readLE {a : Access} (h : a.Inside msg) :
    ∃ v, readLE msg.bytes a.off a.size = some v :=
  Option.isSome_iff_exists.1 (readLE_isSome.2 (h.message.trans hbuf))

theorem readsInside_copyTaskstats_iff {na : ℕ} {ioStats : TaskIoInfo} :
    ReadsInside msg (copyTaskstats msg na ioStats).trace ↔ StatsInside msg na := by
  constructor
  · -- each field is inside, so it is read and the next is reached; the fifth ends last
    intro h
    unfold copyTaskstats at h
    obtain ⟨h₁, h⟩ := readsInside_read_bind.1 h
    obtain ⟨_, hv₁⟩ := h₁.exists_readLE hbuf
    obtain ⟨h₂, h⟩ := readsInside_read_bind.1 (h _ hv₁)
    obtain ⟨_, hv₂⟩ := h₂.exists_readLE hbuf
    obtain ⟨h₃, h⟩ := readsInside_read_bind.1 (h _ hv₂)
    obtain ⟨_, hv₃⟩ := h₃.exists_readLE hbuf
    obtain ⟨h₄, h⟩ := readsInside_read_bind.1 (h _ hv₃)
    obtain ⟨_, hv₄⟩ := h₄.exists_readLE hbuf
    obtain ⟨h₅, -⟩ := readsInside_read_bind.1 (h _ hv₄)
    have hmessage := h₅.message
    have hpayload := (h₅.payload rfl).2
    simp only [nlaData, nlaHdrlen, Taskstats.writeBytesField] at hmessage hpayload
    unfold StatsInside nlaHdrlen Taskstats.fieldsEnd
    omega
  · intro h
    obtain ⟨h₁, h₂, h₃, h₄, h₅, h₆, h₇⟩ := Taskstats.of_forall_field fun _ hf => h.inside hf
    unfold copyTaskstats
    simp only [readsInside_read_bind]
    exact ⟨h₁, fun _ _ => ⟨h₂, fun _ _ => ⟨h₃, fun _ _ => ⟨h₄, fun _ _ => ⟨h₅, fun _ _ =>
      ⟨h₆, fun _ _ => ⟨h₇, fun _ _ => readsInside_nil⟩⟩⟩⟩⟩⟩⟩

/-! ### One iteration -/

/-- The lengths at `na` keep an iteration of the inner loop inside, wherever in an
aggregate the attribute is. -/
def NestedInside (msg : MsgBuf) (na : ℕ) : Prop :=
  na + nlaHdrlen ≤ msg.nlmsgLen ∧ (msg.u16 (na + 2) = taskstatsTypeStats → StatsInside msg na)

theorem readsInside_copyIfStats_iff {nlaType na : ℕ} {ioStats : TaskIoInfo} :
    ReadsInside msg (copyIfStats msg nlaType na ioStats).trace ↔
      (nlaType = taskstatsTypeStats → StatsInside msg na) := by
  unfold copyIfStats
  by_cases htype : nlaType = taskstatsTypeStats
  · simp only [htype, true_imp_iff]
    exact readsInside_copyTaskstats_iff hbuf
  · simp only [htype, false_imp_iff, iff_true]
    exact readsInside_nil

theorem readsInside_statsBody_iff {s : NestedCursor} :
    ReadsInside msg (statsBody msg s).trace ↔ NestedInside msg s.na := by
  unfold statsBody
  rw [readsInside_read_bind, inside_header_iff (by decide)]
  simp only
  refine ⟨?_, ?_⟩
  · intro hreads
    rcases hreads with ⟨htype, h⟩
    refine ⟨by unfold nlaHdrlen; omega, ?_⟩
    have hv := readLE_u16 (htype.trans hbuf)
    have hcopy : ReadsInside msg (copyIfStats msg (msg.u16 (s.na + 2)) s.na s.ioStats).trace :=
      fun a ha => h _ hv a (mem_trace_bind.2 (Or.inl ha))
    exact (readsInside_copyIfStats_iff hbuf).1 hcopy
  · intro hroom
    rcases hroom with ⟨hheader, hstats⟩
    unfold nlaHdrlen at hheader
    refine ⟨by omega, ?_⟩
    intro v hv a ha
    rw [← u16_of_readLE hv] at ha
    -- what is left to read is the statistics, then the length of the attribute
    rcases mem_trace_bind.1 ha with ha | ⟨_, -, ha⟩
    · exact (readsInside_copyIfStats_iff hbuf).2 hstats a ha
    · have hlen : ReadsInside msg (msg.read ⟨.nestedLen, s.na, s.na, 2⟩ >>= fun nlaLen =>
          pure (s.na + (s.len2 + nlaAlign nlaLen))).trace := by
        rw [readsInside_read_bind, inside_header_iff (by decide)]
        exact ⟨by omega, fun _ _ => readsInside_nil⟩
      apply hlen a
      rcases mem_trace_bind.1 ha with ha | ⟨_, -, ha⟩
      · exact mem_trace_bind.2 (Or.inl ha)
      · cases ha

/-! ### Where the loops are -/

/-- An iteration of the outer loop reads a header, and what its inner loop reads. -/
theorem readsInside_attrBody_iff {n : ℕ} {s : Cursor} :
    ReadsInside msg (attrBody msg n s).trace ↔
      s.na + nlaHdrlen ≤ msg.nlmsgLen ∧
        (IsAggr (msg.u16 (s.na + 2)) → ReadsInside msg
          (statsLoop msg (nlaPayload (msg.u16 s.na)) n ⟨nlaData s.na, 0, s.ioStats⟩).trace) := by
  -- nothing is read behind the inner loop
  have hwalk (nlaType nlaLen : ℕ) :
      ReadsInside msg (walkIfAggr msg n nlaType nlaLen s.na s.ioStats >>= fun ioStats =>
        (pure ⟨genlmsgData + (s.len + nlaAlign nlaLen), s.len + nlaAlign nlaLen, ioStats⟩
          : Decode Cursor)).trace ↔
      (IsAggr nlaType → ReadsInside msg
        (statsLoop msg (nlaPayload nlaLen) n ⟨nlaData s.na, 0, s.ioStats⟩).trace) := by
    unfold walkIfAggr
    by_cases haggr : IsAggr nlaType
    · simp only [haggr, true_imp_iff]
      unfold ReadsInside
      simp [mem_trace_bind]
    · simp only [haggr, false_imp_iff, iff_true]
      exact readsInside_nil
  unfold attrBody nlaHdrlen
  simp only [readsInside_read_bind, ne_eq, reduceCtorEq, not_false_eq_true, inside_header_iff, hwalk]
  refine ⟨?_, ?_⟩
  · intro hreads
    rcases hreads with ⟨hlen, h⟩
    obtain ⟨htype, h⟩ := h _ (readLE_u16 (hlen.trans hbuf))
    exact ⟨by omega, h _ (readLE_u16 (htype.trans hbuf))⟩
  · intro hroom
    rcases hroom with ⟨hheader, h⟩
    refine ⟨by omega, fun nlaLen hlen => ⟨by omega, fun nlaType htype => ?_⟩⟩
    rw [← u16_of_readLE hlen, ← u16_of_readLE htype]
    exact h

/-- Wherever the loops come to, there is room in the message for a header, and for the
statistics, which fit their attribute. -/
structure RoomInside (msg : MsgBuf) : Prop where
  attr : ∀ len, AttrComes msg len → (len : ℤ) < genlmsgPayload msg →
    genlmsgData + len + nlaHdrlen ≤ msg.nlmsgLen
  nested : ∀ len, AttrComes msg len → (len : ℤ) < genlmsgPayload msg → AggrAt msg len →
    ∀ na len2, NestedComesAt msg len na len2 →
      (len2 : ℤ) < nlaPayload (msg.u16 (genlmsgData + len)) → NestedInside msg na

/-- There is room in the buffer where there is room in the message. -/
theorem RoomInside.staysInBuffer (h : RoomInside msg) : StaysInBuffer msg := by
  refine ⟨fun len hcomes hlt => (h.attr len hcomes hlt).trans hbuf, ?_⟩
  intro len hcomes hlt haggr na len2 hnested hlt2
  obtain ⟨hheader, hstats⟩ := h.nested len hcomes hlt haggr na len2 hnested hlt2
  exact ⟨hheader.trans hbuf, fun htype => (hstats htype).2.trans hbuf⟩

/-- The inner loop stays inside when every place it comes to does. -/
theorem readsInside_statsLoop {start : ℕ} {aggrLen : ℤ} (ioStats : TaskIoInfo)
    (h : ∀ na len2, NestedComes msg start aggrLen na len2 → (len2 : ℤ) < aggrLen →
      NestedInside msg na) (n : ℕ) :
    ReadsInside msg (statsLoop msg aggrLen n ⟨start, 0, ioStats⟩).trace := by
  refine trace_whileLoop_of_invariant
    (fun s : NestedCursor => NestedComes msg start aggrLen s.na s.len2) ?_ n .start
  intro _ s hcomes hlt
  have hlt : (s.len2 : ℤ) < aggrLen := of_decide_eq_true hlt
  exact ⟨(readsInside_statsBody_iff hbuf).2 (h _ _ hcomes hlt), fun s' hs => hcomes.step hlt hs⟩

/-- The outer loop stays inside when there is room wherever the loops come to. -/
theorem readsInside_attrLoop (h : RoomInside msg) (ioStats : TaskIoInfo) (n : ℕ) :
    ReadsInside msg (attrLoop msg (genlmsgPayload msg) n ⟨genlmsgData, 0, ioStats⟩).trace := by
  refine trace_whileLoop_of_invariant
    (fun s : Cursor => AttrComes msg s.len ∧ s.na = genlmsgData + s.len) ?_ n ⟨.start, rfl⟩
  rintro n s ⟨hcomes, hna⟩ hlt
  have hlt : (s.len : ℤ) < genlmsgPayload msg := of_decide_eq_true hlt
  refine ⟨(readsInside_attrBody_iff hbuf).2 ⟨?_, ?_⟩,
    fun s' hs => (hcomes.step hna hlt hs).2⟩
  · rw [hna]
    exact h.attr _ hcomes hlt
  · intro haggr
    rw [hna] at haggr ⊢
    exact readsInside_statsLoop hbuf s.ioStats (h.nested _ hcomes hlt haggr) n

/-- A decoder that stays inside has room wherever its loops come to: what they read
there is read by the whole. -/
theorem roomInside_of_attrLoop {ioStats : TaskIoInfo}
    (hall : ∀ n, ReadsInside msg
      (attrLoop msg (genlmsgPayload msg) n ⟨genlmsgData, 0, ioStats⟩).trace) :
    RoomInside msg := by
  -- the loops come to each such place with enough fuel, and do there what they do alone
  have hbody : ∀ len, AttrComes msg len → (len : ℤ) < genlmsgPayload msg → ∃ r, ∀ n,
      ReadsInside msg (attrBody msg n ⟨genlmsgData + len, len, r⟩).trace := by
    intro len hcomes hlt
    obtain ⟨r, hreach⟩ := hcomes.reaches ioStats
    refine ⟨r, ?_⟩
    intro n a ha
    obtain ⟨m, hm⟩ : ∃ m, a ∈ (attrLoop msg (genlmsgPayload msg) m ⟨genlmsgData, 0, ioStats⟩).trace :=
      mem_trace_whileLoop_of_reaches (grows_attrBody msg) hreach (decide_eq_true hlt) ha
    exact hall m a hm
  refine ⟨?_, ?_⟩
  · intro len hcomes hlt
    obtain ⟨r, hinside⟩ := hbody len hcomes hlt
    exact ((readsInside_attrBody_iff hbuf).1 (hinside 0)).1
  · intro len hcomes hlt haggr na len2 hnested hlt2
    obtain ⟨r, hinside⟩ := hbody len hcomes hlt
    obtain ⟨r₂, hreach⟩ := NestedComes.reaches r hnested
    refine (readsInside_statsBody_iff hbuf (s := ⟨na, len2, r₂⟩)).1 ?_
    intro a ha
    obtain ⟨m, hm⟩ : ∃ m, a ∈ (statsLoopAt msg len m r).trace :=
      mem_trace_whileLoop_of_reaches (fun s => grows_const (statsBody msg s)) hreach
        (decide_eq_true hlt2) (n := 0) ha
    exact ((readsInside_attrBody_iff hbuf).1 (hinside m)).2 haggr a hm

end

/-! ### Replies that are laid out inside -/

/-- **The attributes of the reply are inside the message**, as far as a reader of the
reply looks at them: each has a whole header there, and so has each that is nested in
an aggregate; one of these that is a `STATS` attribute holds a whole
`struct taskstats`, which is in the message. -/
structure LaidInside (msg : MsgBuf) : Prop where
  attr : ∀ p, AttrStart msg p → p + nlaHdrlen ≤ msg.nlmsgLen
  nested : ∀ p, AttrStart msg p → IsAggr (msg.u16 (p + 2)) →
    ∀ q, NestedStart msg p q → NestedInside msg q

/-- The loops find room in a short reply when it is laid out inside. -/
theorem LaidInside.roomInside (h : LaidInside msg) (hshort : Short msg) : RoomInside msg := by
  refine ⟨fun len hcomes hlt => h.attr _ (hcomes.attrStart hlt), ?_⟩
  intro len hcomes hlt haggr na len2 hnested hlt2
  have hp := hcomes.attrStart hlt
  exact h.nested _ hp haggr na (hnested.nestedStart (hshort _ hp haggr) hlt2)

theorem RoomInside.laidInside (hbuf : msg.nlmsgLen ≤ msg.bytes.length) (h : RoomInside msg)
    (hshort : Short msg) : LaidInside msg := by
  have hin := h.staysInBuffer hbuf
  refine ⟨?_, ?_⟩
  · intro p hp
    obtain ⟨len, rfl, hcomes, hlt⟩ := (attrStart_iff hin hshort).1 hp
    exact h.attr len hcomes hlt
  · intro p hp haggr q hq
    obtain ⟨len, rfl, hcomes, hlt⟩ := (attrStart_iff hin hshort).1 hp
    obtain ⟨len2, hnested, hlt2⟩ := (nestedStart_iff hin hshort hcomes hlt haggr).1 hq
    exact h.nested len hcomes hlt haggr q len2 hnested hlt2

/-- There is room for an attribute that ends inside the message, if it is no `STATS`
attribute from a kernel with fewer fields. -/
theorem nestedInside_of_at {na : ℕ} {b : Attribute} (h : At msg.bytes na b)
    (hfull : b.type = taskstatsTypeStats → Taskstats.fieldsEnd ≤ b.payload.length)
    (hend : na + b.size ≤ msg.nlmsgLen) : NestedInside msg na := by
  have hsize : b.len ≤ b.size := le_align4 b.len
  have hlen : b.len = nlaHdrlen + b.payload.length := rfl
  refine ⟨by omega, ?_⟩
  intro htype
  rw [u16_type_of_at h] at htype
  have hpayload := hfull htype
  refine ⟨?_, by omega⟩
  rw [u16_len_of_at h]
  omega

/-- **A well-formed reply is laid out inside the message**, with any number of attributes
in an aggregate: the condition asks nothing that such a reply does not have. -/
theorem Carries.laidInside {repLen : ℕ} {attrs : List ReplyAttr} (h : Carries msg repLen attrs) :
    LaidInside msg := by
  refine ⟨?_, ?_⟩
  · intro p hp
    obtain ⟨a, -, -, hend⟩ := h.exists_attr hp
    have hsize := four_le_size a.attr
    unfold nlaHdrlen
    omega
  · intro p hp haggr q hq
    obtain ⟨a, -, hat, hend⟩ := h.exists_attr hp
    rw [u16_type_of_at hat] at haggr
    obtain ⟨b, hb, hatb, hendb⟩ := a.exists_nested hat haggr hq
    exact nestedInside_of_at hatb (a.stats_full b hb) (hendb.trans hend)

/-! ### The family decoder -/

/-- Where the second attribute of a family reply starts, by the length of the first. -/
def secondAttr (msg : MsgBuf) : ℕ := genlmsgData + nlaAlign (msg.u16 genlmsgData)

/-- The declared lengths keep `init_netlink_family_id` inside: there is room for the
length of the first attribute, the type of the second, and the family id if it is
one. -/
structure FamilyInside (msg : MsgBuf) : Prop where
  first : genlmsgData + 2 ≤ msg.nlmsgLen
  second : secondAttr msg + nlaHdrlen ≤ msg.nlmsgLen
  familyId : msg.u16 (secondAttr msg + 2) = ctrlAttrFamilyId →
    secondAttr msg + nlaHdrlen + 2 ≤ msg.nlmsgLen

/-- What is done with the type of the second attribute, at `second`. -/
theorem readsInside_familyId_iff {nlaType second : ℕ} {netlinkFamilyId : ℤ} :
    ReadsInside msg (if nlaType ≠ ctrlAttrFamilyId then pure (-5, netlinkFamilyId)
      else msg.read ⟨.familyId, second, second + nlaHdrlen, 2⟩ >>= fun familyId =>
        if familyId = 0 then pure (-6, 0) else pure (0, (familyId : ℤ)) : Decode (ℤ × ℤ)).trace ↔
      (nlaType = ctrlAttrFamilyId → second + nlaHdrlen + 2 ≤ msg.nlmsgLen) := by
  by_cases htype : nlaType = ctrlAttrFamilyId
  · simp only [htype, ne_eq, not_true_eq_false, if_false, true_imp_iff]
    rw [readsInside_read_bind, inside_header_iff (by decide)]
    simp only [and_iff_left_iff_imp]
    intro _ v _
    split_ifs
    · exact readsInside_nil
    · exact readsInside_nil
  · simp only [htype, ne_eq, not_false_eq_true, if_true, false_imp_iff, iff_true]
    exact readsInside_nil

theorem readsInside_initNetlinkFamilyId_iff (hbuf : msg.nlmsgLen ≤ msg.bytes.length) {res : ℤ}
    (hres : 0 ≤ res) {repLen : ℕ} (hok : nlmsgOk msg repLen = true)
    (herr : msg.nlmsgType ≠ nlmsgError) (netlinkFamilyId : ℤ) :
    ReadsInside msg (initNetlinkFamilyId res (.message repLen msg) netlinkFamilyId).trace ↔
      FamilyInside msg := by
  simp only [initNetlinkFamilyId, not_lt.2 hres, hok, herr, if_false, Bool.not_true,
    Bool.false_eq_true]
  simp only [readsInside_read_bind, ne_eq, reduceCtorEq, not_false_eq_true, inside_header_iff]
  refine ⟨?_, ?_⟩
  · intro hreads
    rcases hreads with ⟨hfirst, h⟩
    obtain ⟨hsecond, h⟩ := h _ (readLE_u16 (hfirst.trans hbuf))
    have hid := readsInside_familyId_iff.1 (h _ (readLE_u16 (hsecond.trans hbuf)))
    exact ⟨hfirst, by unfold secondAttr nlaHdrlen; omega, hid⟩
  · intro hroom
    rcases hroom with ⟨hfirst, hsecond, hid⟩
    refine ⟨hfirst, ?_⟩
    intro nlaLen hlen
    rw [← u16_of_readLE hlen]
    unfold secondAttr nlaHdrlen at hsecond
    refine ⟨by omega, ?_⟩
    intro nlaType htype
    rw [← u16_of_readLE htype]
    exact readsInside_familyId_iff.2 hid

/-! ### Both decoders -/

theorem nlmsgLen_le_of_ok {repLen : ℕ} (hok : nlmsgOk msg repLen = true)
    (hrep : repLen ≤ msgTemplateSize) : msg.nlmsgLen ≤ msg.bytes.length := by
  simp only [nlmsgOk, Bool.and_eq_true, decide_eq_true_eq] at hok
  rw [msg.size_eq]
  omega

/-- Past the checks, the decoder reads what its outer loop reads. -/
theorem readsInside_getTaskIoInfo {res : ℤ} (hres : 0 ≤ res) {repLen : ℕ}
    (hok : nlmsgOk msg repLen = true) (herr : msg.nlmsgType ≠ nlmsgError) (fuel : ℕ)
    (ioStats : TaskIoInfo) :
    ReadsInside msg (getTaskIoInfo fuel res (.message repLen msg) ioStats).trace ↔
      ReadsInside msg (attrLoop msg (genlmsgPayload msg) fuel ⟨genlmsgData, 0, ioStats⟩).trace := by
  rw [getTaskIoInfo_message hres hok herr]
  unfold ReadsInside
  simp [mem_trace_bind]

/-- A short well-formed reply is read inside the message. -/
theorem Carries.readsInside {repLen : ℕ} {attrs : List ReplyAttr} (h : Carries msg repLen attrs)
    (hrep : repLen ≤ msgTemplateSize) (hshort : Short msg) (fuel : ℕ) (ioStats : TaskIoInfo) :
    ReadsInside msg (getTaskIoInfo fuel 0 (.message repLen msg) ioStats).trace := by
  have hbuf := nlmsgLen_le_of_ok h.nlmsgOk hrep
  rw [readsInside_getTaskIoInfo le_rfl h.nlmsgOk h.not_error]
  exact readsInside_attrLoop hbuf (h.laidInside.roomInside hshort) ioStats fuel

theorem short_plainMsg : Short plainMsg := carries_plainMsg.short_iff.2 (by decide)

/-- A payload of 328 bytes with `word` as its second four. -/
def otherPayload (word : ℕ) : Bytes := natLE 4 0 ++ (natLE 4 word ++ List.replicate 320 0)

theorem length_otherPayload (word : ℕ) : (otherPayload word).length = 328 := by
  rw [otherPayload, List.length_append, List.length_append, length_natLE, length_natLE,
    List.length_replicate]

/-- An attribute of a type the decoder does not know. -/
def otherAttr (word : ℕ) : Attribute where
  type := 9
  payload := otherPayload word
  pad := []
  type_lt := by decide
  len_lt := by rw [length_otherPayload]; decide
  pad_length := by rw [length_otherPayload]; rfl

theorem len_otherAttr (word : ℕ) : (otherAttr word).len = 332 :=
  congrArg (4 + ·) (length_otherPayload word)

theorem size_otherAttr (word : ℕ) : (otherAttr word).size = 332 := by
  rw [Attribute.size, len_otherAttr]
  rfl

theorem otherAttr_stats_full {word : ℕ} {b : Attribute} (hb : b ∈ [pidAttr, nullAttr, otherAttr word])
    (htype : b.type = taskstatsTypeStats) : Taskstats.fieldsEnd ≤ b.payload.length := by
  simp only [List.mem_cons, List.not_mem_nil, or_false] at hb
  have hother : (otherAttr word).type = 9 := rfl
  rcases hb with rfl | rfl | rfl
  · exact absurd htype (by decide)
  · exact absurd htype (by decide)
  · rw [hother] at htype
    exact absurd htype (by decide)

/-- An aggregate of three attributes, none of them statistics. -/
def otherReply (word : ℕ) : ReplyAttr :=
  aggrPid [pidAttr, nullAttr, otherAttr word]
    (by rw [length_encodeAll_cons, length_encodeAll_cons, length_encodeAll_cons, size_otherAttr]
        decide)
    fun _ hb => otherAttr_stats_full hb

theorem length_otherReply (word : ℕ) :
    (encodeAll ([otherReply word].map ReplyAttr.attr)).length = 348 := by
  rw [otherReply, size_aggrPid, length_encodeAll_cons, length_encodeAll_cons,
    length_encodeAll_cons, size_otherAttr]
  rfl

def otherMsg (word : ℕ) : MsgBuf :=
  .reply (encodeAll ([otherReply word].map ReplyAttr.attr)) (by rw [length_otherReply]; decide)

theorem carries_otherMsg (word : ℕ) : Carries (otherMsg word) 368 [otherReply word] := by
  rw [show 368 = genlmsgData + (encodeAll ([otherReply word].map ReplyAttr.attr)).length by
    rw [length_otherReply]; rfl]
  exact carries_reply _

/-- **The layout of a longer aggregate does not decide what is read.**  Two well-formed
replies hold attributes of the same types and lengths.  The third time the inner loop
looks into the payload of the last one, where it finds either a length that ends the
walk, or zeros that lead it out of the message. -/
theorem layout_not_decisive :
    (∀ word, Carries (otherMsg word) 368 [otherReply word] ∧
        (otherReply word).nested.map (fun b => (b.type, b.len)) = [(1, 8), (6, 4), (9, 332)]) ∧
      (∀ fuel, ReadsInside (otherMsg 332)
        (getTaskIoInfo fuel 0 (.message 368 (otherMsg 332)) {}).trace) ∧
      ¬∀ fuel, ReadsInside (otherMsg 0)
        (getTaskIoInfo fuel 0 (.message 368 (otherMsg 0)) {}).trace := by
  refine ⟨fun word => ⟨carries_otherMsg word, ?_⟩, ?_, fun hall => ?_⟩
  · show [(1, 8), (6, 4), (9, (otherAttr word).len)] = _
    rw [len_otherAttr]
  · -- with this fuel the decoder has returned, and more of it reads nothing more
    have hret : (getTaskIoInfo 10 0 (.message 368 (otherMsg 332)) {}).result.isOk = true := by
      decide +kernel
    have hinside : ∀ a ∈ (getTaskIoInfo 10 0 (.message 368 (otherMsg 332)) {}).trace,
        a.off + a.size ≤ (otherMsg 332).nlmsgLen ∧ a.what ≠ .taskstats := by decide +kernel
    intro fuel a ha
    cases hresult : (getTaskIoInfo 10 0 (.message 368 (otherMsg 332)) {}).result with
    | error e =>
      rw [hresult] at hret
      cases hret
    | ok out =>
      have hmem := (grows_getTaskIoInfo 0 (.message 368 (otherMsg 332)) {}).mem_trace
        (n := 10) (by rw [← hresult]) ha
      exact ⟨(hinside a hmem).1, fun h => absurd h (hinside a hmem).2⟩
  · have hout : ∃ a ∈ (getTaskIoInfo 60 0 (.message 368 (otherMsg 0)) {}).trace,
        (otherMsg 0).nlmsgLen < a.off + a.size := by decide +kernel
    obtain ⟨a, ha, hlt⟩ := hout
    exact absurd (hall 60 a ha).message (not_le.2 hlt)

end Netlink
end IotopCpp
