import IotopCpp.Netlink.Replies

/-!
# The layout of a reply

The attributes a reply is made of, whatever a decoder makes of it.  The first one
starts behind the two headers, and each of the others where the length declared by
the one before it, padding included, ends; the attributes of an aggregate are laid
out the same way inside it.  Nothing is asked of the bytes: a length may be too
small, or lead out of the message.

This is what the properties of the two loops of `get_task_io_info` are measured
against.  The loops have pointers of their own, which follow the layout only as long
as an aggregate holds no more than two attributes.

## Main definitions

* `AttrStart`, `NestedStart` — where an attribute of the reply, or one nested in an
  aggregate, starts.
* `AtMostTwo`, `Short` — an aggregate, and every aggregate of the reply, holds at most
  two attributes.
* `StatsAttr`, `HasStats` — the statistics inside the aggregates of a received reply.

## Main results

* `Carries.exists_attr`, `ReplyAttr.exists_nested` — the attributes of a well-formed
  reply are the ones it is made of.
* `Carries.short_iff` — it is short when no list of nested attributes is longer than two.
-/

namespace IotopCpp
namespace Netlink

open LittleEndian Attribute

variable {msg : MsgBuf} {p q : ℕ}

/-! ### Places -/

/-- An attribute of the reply starts at `p`: the first one behind the headers, and each of
the others where the one before it ends, padding included. -/
def AttrStart (msg : MsgBuf) (p : ℕ) : Prop := Start msg.bytes msg.nlmsgLen genlmsgData p

/-- An attribute nested in the aggregate at `p` starts at `q`, inside the length that the
aggregate declares. -/
def NestedStart (msg : MsgBuf) (p q : ℕ) : Prop := Start msg.bytes (p + msg.u16 p) (nlaData p) q

/-- Where the second attribute of the aggregate at `p` would start. -/
def secondNested (msg : MsgBuf) (p : ℕ) : ℕ := nlaData p + nlaAlign (msg.u16 (nlaData p))

/-- The aggregate at `p` holds at most two attributes: by the lengths they declare, the
first two reach its end. -/
def AtMostTwo (msg : MsgBuf) (p : ℕ) : Prop :=
  p + msg.u16 p ≤ secondNested msg p + nlaAlign (msg.u16 (secondNested msg p))

/-- No aggregate of the reply holds more than two attributes.  A kernel whose aggregates
hold an id and the statistics, and nothing besides, sends only such replies. -/
def Short (msg : MsgBuf) : Prop :=
  ∀ p, AttrStart msg p → IsAggr (msg.u16 (p + 2)) → AtMostTwo msg p

/-- An attribute of type `STATS` starts at `na` inside an aggregate of the reply, and
the fields the program copies from there were received. -/
def StatsAttr (msg : MsgBuf) (na : ℕ) : Prop :=
  (∃ p, AttrStart msg p ∧ IsAggr (msg.u16 (p + 2)) ∧ NestedStart msg p na) ∧
    msg.u16 (na + 2) = taskstatsTypeStats ∧ nlaData na + Taskstats.fieldsEnd ≤ msg.nlmsgLen

/-- The reply contains statistics inside an aggregate.  This is said of the attributes it
is made of, and not of what the decoder takes for one. -/
def HasStats (msg : MsgBuf) : Prop := ∃ na, StatsAttr msg na

/-- What starts in an aggregate of at most two attributes is the first or the second. -/
theorem NestedStart.eq_or_eq (h : NestedStart msg p q) (hshort : AtMostTwo msg p) :
    q = nlaData p ∨ (q = secondNested msg p ∧ secondNested msg p < p + msg.u16 p) := by
  induction h with
  | first => exact Or.inl rfl
  | @next q _ hlt ih =>
    rcases ih with rfl | ⟨rfl, -⟩
    · exact Or.inr ⟨rfl, hlt⟩
    · -- what comes behind the second would start past the end
      exact absurd hlt (not_lt.2 hshort)

theorem nestedStart_first (h : nlaData p < p + msg.u16 p) : NestedStart msg p (nlaData p) :=
  .first h

theorem nestedStart_second (h : secondNested msg p < p + msg.u16 p) :
    NestedStart msg p (secondNested msg p) :=
  .next (.first (lt_of_le_of_lt (Nat.le_add_right _ _) h)) h

/-! ### Well-formed replies -/

section

variable {repLen : ℕ} {attrs : List ReplyAttr}

/-- In a well-formed reply an attribute starts only where one of its list does, and ends
inside the message. -/
theorem Carries.exists_attr (h : Carries msg repLen attrs) (hp : AttrStart msg p) :
    ∃ a ∈ attrs, At msg.bytes p a.attr ∧ p + a.attr.size ≤ msg.nlmsgLen := by
  obtain ⟨b, bs, hsuffix, hall, hend⟩ := h.allAt.exists_of_start h.len_eq hp
  obtain ⟨a, ha, rfl⟩ := List.mem_map.1 (hsuffix.subset List.mem_cons_self)
  rw [length_encodeAll_cons] at hend
  exact ⟨a, ha, hall.head, by omega⟩

/-- The end of an aggregate is the end of the attributes it is made of. -/
theorem ReplyAttr.end_eq {a : ReplyAttr} (hat : At msg.bytes p a.attr) (haggr : IsAggr a.attr.type) :
    p + msg.u16 p = nlaData p + (encodeAll a.nested).length := by
  have hlen : a.attr.len = nlaHdrlen + a.attr.payload.length := rfl
  rw [u16_len_of_at hat, hlen, a.payload_eq haggr, nlaData, add_assoc]

/-- The same inside an aggregate. -/
theorem ReplyAttr.exists_nested {a : ReplyAttr} (hat : At msg.bytes p a.attr)
    (haggr : IsAggr a.attr.type) (hq : NestedStart msg p q) :
    ∃ b ∈ a.nested, At msg.bytes q b ∧ q + b.size ≤ p + a.attr.size := by
  have hstop := a.end_eq hat haggr
  obtain ⟨b, bs, hsuffix, hall, hend⟩ := (a.allAt_nested hat haggr).exists_of_start hstop hq
  have hsize : a.attr.len ≤ a.attr.size := le_align4 a.attr.len
  rw [u16_len_of_at hat] at hend
  rw [length_encodeAll_cons] at hend
  exact ⟨b, hsuffix.subset List.mem_cons_self, hall.head, by omega⟩

/-- An aggregate holds at most two attributes when its list is no longer than two. -/
theorem ReplyAttr.atMostTwo_iff {a : ReplyAttr} (hat : At msg.bytes p a.attr)
    (haggr : IsAggr a.attr.type) : AtMostTwo msg p ↔ a.nested.length ≤ 2 := by
  have hall := a.allAt_nested hat haggr
  unfold AtMostTwo secondNested
  rw [a.end_eq hat haggr]
  -- with none or one the lengths that are read past the end do no harm
  rcases hnested : a.nested with _ | ⟨b, _ | ⟨c, bs⟩⟩
  · rw [encodeAll_nil]
    refine iff_of_true ?_ (by simp)
    simp only [List.length_nil]
    omega
  · rw [hnested] at hall
    rw [nlaAlign_of_at hall.head, length_encodeAll_cons, encodeAll_nil]
    refine iff_of_true ?_ (by simp)
    simp only [List.length_nil]
    omega
  · rw [hnested] at hall
    rw [nlaAlign_of_at hall.head, nlaAlign_of_at hall.tail.head, length_encodeAll_cons,
      length_encodeAll_cons]
    rcases bs with _ | ⟨d, bs⟩
    · rw [encodeAll_nil]
      refine iff_of_true ?_ (by simp)
      simp only [List.length_nil]
      omega
    · -- the third attribute takes up room behind the second
      have hpos := four_le_size d
      rw [length_encodeAll_cons]
      refine iff_of_false ?_ (by simp)
      omega

theorem Carries.short_iff (h : Carries msg repLen attrs) :
    Short msg ↔ ∀ a ∈ attrs, a.nested.length ≤ 2 := by
  refine ⟨?_, ?_⟩
  · intro hshort a ha
    by_cases haggr : IsAggr a.attr.type
    · obtain ⟨p, hp, hat⟩ := h.allAt.exists_start (List.mem_map_of_mem ha)
      rw [← h.len_eq] at hp
      refine (a.atMostTwo_iff hat haggr).1 (hshort p hp ?_)
      rwa [u16_type_of_at hat]
    · rw [a.nested_eq_nil haggr]
      exact Nat.zero_le 2
  · intro hshort p hp haggr
    obtain ⟨a, ha, hat, -⟩ := h.exists_attr hp
    rw [u16_type_of_at hat] at haggr
    exact (a.atMostTwo_iff hat haggr).2 (hshort a ha)

/-- The statistics of a well-formed reply are the nested attributes of that type. -/
theorem Carries.mem_statsOf_of_statsAttr (h : Carries msg repLen attrs) {na : ℕ}
    (hna : StatsAttr msg na) : ∃ b ∈ statsOf attrs, At msg.bytes na b := by
  obtain ⟨⟨p, hp, haggr, hnested⟩, htype, -⟩ := hna
  obtain ⟨a, ha, hat, -⟩ := h.exists_attr hp
  rw [u16_type_of_at hat] at haggr
  obtain ⟨b, hb, hatb, -⟩ := a.exists_nested hat haggr hnested
  rw [u16_type_of_at hatb] at htype
  refine ⟨b, List.mem_filter.2 ⟨List.mem_flatMap.2 ⟨a, ha, hb⟩, ?_⟩, hatb⟩
  rwa [decide_eq_true_eq]

end

end Netlink
end IotopCpp
