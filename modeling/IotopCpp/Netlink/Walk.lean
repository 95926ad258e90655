import IotopCpp.Netlink.Layout

/-!
# Where the decoder comes to

Each loop of `get_task_io_info` moves by lengths it takes from the message, and no
length is checked.  The places the loops come to are said here of the bytes of the
buffer alone: a place whose bytes are not all in the buffer is come to, and not left.

The outer loop finds its way back to the layout of the reply after every aggregate.
The inner loop adds up lengths it has added up before, so that it is on the layout at
the first and the second attribute of an aggregate and nowhere after them; a short
reply is walked along its layout.

## Main definitions

* `NestedReadable`, `AttrReadable` — an iteration finds its bytes in the buffer.
* `NestedComes`, `AttrComes` — the places the two loops come to.
* `StaysInBuffer` — no place the loops come to has bytes outside the buffer.
* `Progresses` — no place the loops come to is one they stay at.

## Main results

* `attrStart_iff`, `nestedStart_iff` — the loops come to the attributes of a short
  reply, and to nothing else.
* `ends_getTaskIoInfo_iff` — the decoder ends exactly when its loops make progress.
-/

namespace IotopCpp
namespace Netlink

open LittleEndian Traced Attribute

variable {msg : MsgBuf}

/-! ### Places in the buffer -/

/-- An iteration of the inner loop at `na` finds its bytes in the buffer: the four of
the header and, of a `STATS` attribute, all the fields that are copied.  The length the
attribute declares has no part in it, as the loop does not look at it before it reads. -/
def NestedReadable (msg : MsgBuf) (na : ℕ) : Prop :=
  na + nlaHdrlen ≤ msg.bytes.length ∧
    (msg.u16 (na + 2) = taskstatsTypeStats →
      na + nlaHdrlen + Taskstats.fieldsEnd ≤ msg.bytes.length)

/-- The places the inner loop comes to, over an aggregate whose payload is `aggrLen`
bytes from `start`, with the length it has walked.  Each step adds the length of the
attribute to `len2`, and moves the pointer by all of `len2`: from the third place on
the pointer is ahead of what was walked. -/
inductive NestedComes (msg : MsgBuf) (start : ℕ) (aggrLen : ℤ) : ℕ → ℕ → Prop
  | start : NestedComes msg start aggrLen start 0
  | next {na len2 : ℕ} : NestedComes msg start aggrLen na len2 → (len2 : ℤ) < aggrLen →
    NestedReadable msg na →
    NestedComes msg start aggrLen (na + (len2 + nlaAlign (msg.u16 na)))
      (len2 + nlaAlign (msg.u16 na))

/-- The header of the attribute at length `len` of the message is in the buffer. -/
def AttrReadable (msg : MsgBuf) (len : ℕ) : Prop :=
  genlmsgData + len + nlaHdrlen ≤ msg.bytes.length

/-- The places the inner loop comes to in the attribute at length `len`. -/
def NestedComesAt (msg : MsgBuf) (len na len2 : ℕ) : Prop :=
  NestedComes msg (nlaData (genlmsgData + len)) (nlaPayload (msg.u16 (genlmsgData + len))) na len2

/-- The attribute at length `len` is an aggregate. -/
def AggrAt (msg : MsgBuf) (len : ℕ) : Prop := IsAggr (msg.u16 (genlmsgData + len + 2))

/-- The places the outer loop comes to, as the length it has walked.  An aggregate is
passed only when the inner loop comes to the end of it, so a place behind one whose
walk leaves the buffer is not come to. -/
inductive AttrComes (msg : MsgBuf) : ℕ → Prop
  | start : AttrComes msg 0
  | next {len : ℕ} : AttrComes msg len → (len : ℤ) < genlmsgPayload msg → AttrReadable msg len →
    (AggrAt msg len → ∃ na len2, NestedComesAt msg len na len2 ∧
      nlaPayload (msg.u16 (genlmsgData + len)) ≤ len2) →
    AttrComes msg (len + nlaAlign (msg.u16 (genlmsgData + len)))

/-! ### One iteration of the inner loop -/

/-- The statistics in the attribute at `na`. -/
def MsgBuf.taskstats (msg : MsgBuf) (na : ℕ) : Taskstats := .ofPayload (msg.bytes.drop (nlaData na))

theorem copyTaskstats_result {na : ℕ} {r r' : TaskIoInfo}
    (h : (copyTaskstats msg na r).result = .ok r') :
    r' = (msg.taskstats na).copyInto r ∧
      na + nlaHdrlen + Taskstats.fieldsEnd ≤ msg.bytes.length := by
  simp only [copyTaskstats, result_bind_eq_ok, pure_def, Except.ok.injEq, result_read] at h
  obtain ⟨v₁, h₁, v₂, h₂, v₃, h₃, v₄, h₄, v₅, h₅, v₆, h₆, v₇, h₇, rfl⟩ := h
  -- the fifth of the reads is the one that goes furthest
  have hend : nlaData na + 256 + 8 ≤ msg.bytes.length := readLE_isSome.1 (by
    rw [show readLE msg.bytes (nlaData na + 256) 8 = some v₅ from h₅]
    rfl)
  refine ⟨?_, hend⟩
  simp only [MsgBuf.taskstats, Taskstats.ofPayload, readLE_drop h₁, readLE_drop h₂, readLE_drop h₃,
    readLE_drop h₄, readLE_drop h₅, readLE_drop h₆, readLE_drop h₇, Option.getD_some]

theorem exists_copyTaskstats {na : ℕ} (r : TaskIoInfo)
    (h : na + nlaHdrlen + Taskstats.fieldsEnd ≤ msg.bytes.length) :
    ∃ t, copyTaskstats msg na r = ⟨t, .ok ((msg.taskstats na).copyInto r)⟩ := by
  -- every field ends where the fields end, at the latest
  have hread (f : ℕ × ℕ) (hf : f.1 + f.2 ≤ Taskstats.fieldsEnd) :
      ∃ v, (msg.read ⟨.taskstats, na, nlaData na + f.1, f.2⟩).result = .ok v := by
    simp only [result_read]
    refine Option.isSome_iff_exists.1 (readLE_isSome.2 ?_)
    unfold nlaData
    omega
  obtain ⟨⟨_, h₁⟩, ⟨_, h₂⟩, ⟨_, h₃⟩, ⟨_, h₄⟩, ⟨_, h₅⟩, ⟨_, h₆⟩, ⟨_, h₇⟩⟩ :=
    Taskstats.of_forall_field hread
  obtain ⟨r', hr'⟩ : ∃ r', (copyTaskstats msg na r).result = .ok r' := by
    simp only [copyTaskstats, result_bind_eq_ok]
    exact ⟨_, _, h₁, _, h₂, _, h₃, _, h₄, _, h₅, _, h₆, _, h₇, rfl⟩
  obtain ⟨rfl, -⟩ := copyTaskstats_result hr'
  refine ⟨(copyTaskstats msg na r).trace, ?_⟩
  rw [← hr']

/-- What the `if` of the inner loop does to the record. -/
def statsAt (msg : MsgBuf) (na : ℕ) (r : TaskIoInfo) : TaskIoInfo :=
  if msg.u16 (na + 2) = taskstatsTypeStats then (msg.taskstats na).copyInto r else r

/-- An iteration of the inner loop returns where it finds its bytes. -/
theorem exists_statsBody {na : ℕ} (h : NestedReadable msg na) (len2 : ℕ) (r : TaskIoInfo) :
    ∃ t, statsBody msg ⟨na, len2, r⟩ = ⟨t, .ok ⟨na + (len2 + nlaAlign (msg.u16 na)),
      len2 + nlaAlign (msg.u16 na), statsAt msg na r⟩⟩ := by
  obtain ⟨hheader, hstats⟩ := h
  unfold nlaHdrlen at hheader
  have htype : readLE msg.bytes (na + 2) 2 = some (msg.u16 (na + 2)) := readLE_u16 (by omega)
  have hlen : readLE msg.bytes na 2 = some (msg.u16 na) := readLE_u16 (by omega)
  have hcopy : ∃ t, copyIfStats msg (msg.u16 (na + 2)) na r = ⟨t, .ok (statsAt msg na r)⟩ := by
    unfold copyIfStats statsAt
    by_cases hs : msg.u16 (na + 2) = taskstatsTypeStats
    · simp only [if_pos hs]
      exact exists_copyTaskstats r (hstats hs)
    · simp only [if_neg hs]
      exact ⟨[], rfl⟩
  obtain ⟨t, hcopy⟩ := hcopy
  simp only [statsBody, read_of_at htype, read_of_at hlen, hcopy, bind_ok, pure_def]
  exact ⟨_, rfl⟩

/-- An iteration of the inner loop that returned has found its bytes. -/
theorem statsBody_readable {s s' : NestedCursor} (h : (statsBody msg s).result = .ok s') :
    NestedReadable msg s.na ∧ s'.ioStats = statsAt msg s.na s.ioStats := by
  simp only [statsBody, result_bind_eq_ok, pure_def, Except.ok.injEq, result_read] at h
  obtain ⟨nlaType, htype, r, hcopy, nlaLen, hlen, rfl⟩ := h
  -- the type is the last of the header's fields, so reading it shows that all are there
  have hheader : s.na + 2 + 2 ≤ msg.bytes.length := readLE_isSome.1 (by rw [htype]; rfl)
  obtain rfl := u16_of_readLE htype
  unfold copyIfStats at hcopy
  unfold statsAt
  by_cases hs : msg.u16 (s.na + 2) = taskstatsTypeStats
  · rw [if_pos hs] at hcopy ⊢
    obtain ⟨rfl, hstats⟩ := copyTaskstats_result hcopy
    exact ⟨⟨hheader, fun _ => hstats⟩, rfl⟩
  · rw [if_neg hs] at hcopy ⊢
    obtain rfl := Except.ok.inj hcopy
    exact ⟨⟨hheader, fun h => absurd h hs⟩, rfl⟩

/-! ### The inner loop -/

theorem read_ne_outOfFuel (a : Access) : (msg.read a).result ≠ .error .outOfFuel := by
  unfold MsgBuf.read
  cases readLE msg.bytes a.off a.size <;> simp

theorem statsBody_ne_outOfFuel (s : NestedCursor) :
    (statsBody msg s).result ≠ .error .outOfFuel := by
  have hcopy (nlaType : ℕ) :
      (copyIfStats msg nlaType s.na s.ioStats).result ≠ .error .outOfFuel := by
    unfold copyIfStats copyTaskstats
    split
    · iterate 7 refine result_bind_ne_error.2 ⟨read_ne_outOfFuel _, fun _ _ => ?_⟩
      simp
    · simp
  refine result_bind_ne_error.2 ⟨read_ne_outOfFuel _, ?_⟩
  intro nlaType _
  refine result_bind_ne_error.2 ⟨hcopy nlaType, ?_⟩
  intro _ _
  refine result_bind_ne_error.2 ⟨read_ne_outOfFuel _, ?_⟩
  intro _ _
  simp

section

variable {start : ℕ} {aggrLen : ℤ}

theorem NestedComes.step {s s' : NestedCursor} (h : NestedComes msg start aggrLen s.na s.len2)
    (hlt : (s.len2 : ℤ) < aggrLen) (hs : (statsBody msg s).result = .ok s') :
    NestedComes msg start aggrLen s'.na s'.len2 := by
  obtain ⟨hlen2, hna⟩ := statsBody_result hs
  rw [hna, hlen2]
  exact h.next hlt (statsBody_readable hs).1

/-- The inner loop comes to every such place, whatever is in the record it started
with. -/
theorem NestedComes.reaches (r : TaskIoInfo) {na len2 : ℕ}
    (h : NestedComes msg start aggrLen na len2) :
    ∃ r', Relation.ReflTransGen
      (Step (fun s : NestedCursor => decide ((s.len2 : ℤ) < aggrLen)) fun _ => statsBody msg)
      ⟨start, 0, r⟩ ⟨na, len2, r'⟩ := by
  induction h with
  | start => exact ⟨r, .refl⟩
  | next _ hlt hread ih =>
    obtain ⟨r', hreach⟩ := ih
    obtain ⟨t, hbody⟩ := exists_statsBody hread _ r'
    exact ⟨_, hreach.tail ⟨decide_eq_true hlt, t, yields_const hbody⟩⟩

theorem four_le_nlaAlign {len : ℕ} (h : len ≠ 0) : 4 ≤ nlaAlign len := by
  unfold nlaAlign align4
  omega

/-- The length walked is zero only at the start. -/
theorem NestedComes.start_or_pos {na len2 : ℕ} (h : NestedComes msg start aggrLen na len2) :
    (na = start ∧ len2 = 0) ∨ 4 ≤ len2 := by
  induction h with
  | start => exact Or.inl ⟨rfl, rfl⟩
  | @next na len2 _ _ _ ih =>
    rcases ih with ⟨rfl, rfl⟩ | hpos
    · by_cases hzero : msg.u16 na = 0
      · rw [hzero]
        exact Or.inl ⟨rfl, rfl⟩
      · have halign := four_le_nlaAlign hzero
        omega
    · omega

/-- The inner loop ends unless it stays at its start: past it the pointer moves by
all that was walked, and leaves the buffer. -/
theorem ends_statsLoop (h : 0 < aggrLen → NestedReadable msg start → msg.u16 start ≠ 0)
    (r : TaskIoInfo) :
    Ends .outOfFuel fun n => statsLoop msg aggrLen n ⟨start, 0, r⟩ := by
  refine ends_whileLoop_of_measure (fun s => stable_const (statsBody msg s))
    (fun s : NestedCursor => NestedComes msg start aggrLen s.na s.len2)
    (fun s => msg.bytes.length - s.na) (fun s _ _ => ends_const (statsBody_ne_outOfFuel s)) ?_ .start
  intro _ s s' hcomes hlt hs
  have hlt : (s.len2 : ℤ) < aggrLen := of_decide_eq_true hlt
  refine ⟨hcomes.step hlt hs, ?_⟩
  obtain ⟨hlen2, hna⟩ := statsBody_result hs
  have hread := (statsBody_readable hs).1
  have hroom := hread.1
  unfold nlaHdrlen at hroom
  -- the pointer moves by what was walked so far, which is nothing at the start only
  rcases hcomes.start_or_pos with hstart | hpos
  · rcases hstart with ⟨hsna, hslen2⟩
    have hne : msg.u16 s.na ≠ 0 := by
      rw [hsna] at hread ⊢
      exact h (by omega) hread
    have halign := four_le_nlaAlign hne
    omega
  · omega

/-- The inner loop stays at a first attribute that says its length is zero. -/
theorem not_ends_statsLoop (hlt : 0 < aggrLen) (hread : NestedReadable msg start)
    (hzero : msg.u16 start = 0) (r : TaskIoInfo) :
    ¬Ends .outOfFuel fun n => statsLoop msg aggrLen n ⟨start, 0, r⟩ := by
  have hstay : ∀ s : NestedCursor, s.na = start ∧ s.len2 = 0 → ∃ s' : NestedCursor,
      Step (fun s : NestedCursor => decide ((s.len2 : ℤ) < aggrLen)) (fun _ => statsBody msg) s s' ∧
        s'.na = start ∧ s'.len2 = 0 := by
    intro s hs
    obtain ⟨na, len2, r'⟩ := s
    obtain ⟨rfl, rfl⟩ := hs
    obtain ⟨t, hbody⟩ := exists_statsBody hread 0 r'
    rw [hzero] at hbody
    exact ⟨_, ⟨decide_eq_true hlt, t, yields_const hbody⟩, rfl, rfl⟩
  exact not_ends_whileLoop (fun s => stable_const (statsBody msg s)) hstay ⟨rfl, rfl⟩

end

/-! ### The outer loop -/

theorem stable_attrBody (s : Cursor) : Stable .outOfFuel fun n => attrBody msg n s := by
  have hwalk (nlaType nlaLen : ℕ) :
      Stable .outOfFuel fun n => walkIfAggr msg n nlaType nlaLen s.na s.ioStats := by
    unfold walkIfAggr
    by_cases haggr : IsAggr nlaType
    · simp only [if_pos haggr]
      exact (stable_whileLoop (fun s => stable_const (statsBody msg s)) _).bind
        fun _ => stable_const _
    · simp only [if_neg haggr]
      exact stable_const _
  exact (stable_const _).bind fun _ => (stable_const _).bind fun _ =>
    (hwalk _ _).bind fun _ => stable_const _

/-- The inner loop over the attribute at length `len`. -/
def statsLoopAt (msg : MsgBuf) (len n : ℕ) (r : TaskIoInfo) : Decode NestedCursor :=
  statsLoop msg (nlaPayload (msg.u16 (genlmsgData + len))) n ⟨nlaData (genlmsgData + len), 0, r⟩

/-- A header whose type was read is in the buffer. -/
theorem attrReadable_of_type {len v : ℕ}
    (h : readLE msg.bytes (genlmsgData + len + 2) 2 = some v) : AttrReadable msg len := by
  have hle : genlmsgData + len + 2 + 2 ≤ msg.bytes.length :=
    readLE_isSome.1 (Option.isSome_iff_exists.2 ⟨v, h⟩)
  exact hle

theorem readLE_header {len : ℕ} (h : AttrReadable msg len) :
    readLE msg.bytes (genlmsgData + len) 2 = some (msg.u16 (genlmsgData + len)) ∧
      readLE msg.bytes (genlmsgData + len + 2) 2 = some (msg.u16 (genlmsgData + len + 2)) := by
  unfold AttrReadable nlaHdrlen at h
  exact ⟨readLE_u16 (by omega), readLE_u16 (by omega)⟩

/-- An iteration of the outer loop runs out of fuel only where its inner loop does. -/
theorem attrBody_ne_outOfFuel_iff {n len : ℕ} {r : TaskIoInfo} :
    (attrBody msg n ⟨genlmsgData + len, len, r⟩).result ≠ .error .outOfFuel ↔
      (AttrReadable msg len → AggrAt msg len →
        (statsLoopAt msg len n r).result ≠ .error .outOfFuel) := by
  unfold AggrAt
  refine ⟨?_, ?_⟩
  · intro h hread haggr
    obtain ⟨hlen, htype⟩ := readLE_header hread
    have h := (result_bind_ne_error.1 h).2 _ (result_read.2 hlen)
    have h := (result_bind_ne_error.1 h).2 _ (result_read.2 htype)
    have h := (result_bind_ne_error.1 h).1
    rw [walkIfAggr, if_pos haggr] at h
    exact (result_bind_ne_error.1 h).1
  · intro h
    refine result_bind_ne_error.2 ⟨read_ne_outOfFuel _, ?_⟩
    intro nlaLen hlen
    refine result_bind_ne_error.2 ⟨read_ne_outOfFuel _, ?_⟩
    intro nlaType htype
    refine result_bind_ne_error.2 ⟨?_, fun _ _ => by simp⟩
    have hread : AttrReadable msg len := attrReadable_of_type (result_read.1 htype)
    obtain rfl := u16_of_readLE (result_read.1 hlen)
    obtain rfl := u16_of_readLE (result_read.1 htype)
    unfold walkIfAggr
    by_cases haggr : IsAggr (msg.u16 (genlmsgData + len + 2))
    · rw [if_pos haggr]
      exact result_bind_ne_error.2 ⟨h hread haggr, fun _ _ => by simp⟩
    · rw [if_neg haggr]
      simp

/-- An inner loop that returned has come to the end of its aggregate. -/
theorem nestedComes_of_statsLoop {start n : ℕ} {aggrLen : ℤ} {r : TaskIoInfo} {s : NestedCursor}
    (h : (statsLoop msg aggrLen n ⟨start, 0, r⟩).result = .ok s) :
    NestedComes msg start aggrLen s.na s.len2 ∧ aggrLen ≤ s.len2 := by
  obtain ⟨hcomes, hdone⟩ := result_whileLoop_of_invariant
    (fun s : NestedCursor => NestedComes msg start aggrLen s.na s.len2)
    (fun _ _ _ hcomes hlt hs => hcomes.step (of_decide_eq_true hlt) hs) n .start h
  exact ⟨hcomes, not_lt.1 (of_decide_eq_false hdone)⟩

/-- An iteration of the outer loop that returned has found its header, and come to
the next place. -/
theorem AttrComes.step {n : ℕ} {s s' : Cursor} (h : AttrComes msg s.len)
    (hna : s.na = genlmsgData + s.len) (hlt : (s.len : ℤ) < genlmsgPayload msg)
    (hs : (attrBody msg n s).result = .ok s') :
    AttrReadable msg s.len ∧ AttrComes msg s'.len ∧ s'.na = genlmsgData + s'.len := by
  obtain ⟨hlen, hna', hinner⟩ := attrBody_result hs
  have hread : AttrReadable msg s.len := by
    simp only [attrBody, result_bind_eq_ok, result_read] at hs
    obtain ⟨_, _, _, htype, _⟩ := hs
    rw [hna] at htype
    exact attrReadable_of_type htype
  refine ⟨hread, ?_, hna'⟩
  rw [hlen, hna]
  refine h.next hlt hread ?_
  intro haggr
  rw [hna] at hinner
  obtain ⟨inner, hinner⟩ := hinner haggr
  exact ⟨inner.na, inner.len2, nestedComes_of_statsLoop hinner⟩

/-- An iteration of the outer loop returns where it finds its header and its inner
loop comes to an end. -/
theorem exists_attrBody {len : ℕ} (hread : AttrReadable msg len)
    (hend : AggrAt msg len → ∃ na len2, NestedComesAt msg len na len2 ∧
      nlaPayload (msg.u16 (genlmsgData + len)) ≤ len2) (r : TaskIoInfo) :
    ∃ t r', Yields (fun n => attrBody msg n ⟨genlmsgData + len, len, r⟩) t
      ⟨genlmsgData + (len + nlaAlign (msg.u16 (genlmsgData + len))),
        len + nlaAlign (msg.u16 (genlmsgData + len)), r'⟩ := by
  obtain ⟨hlen, htype⟩ := readLE_header hread
  unfold AggrAt at hend
  have hwalk : ∃ t r', Yields (fun n => walkIfAggr msg n (msg.u16 (genlmsgData + len + 2))
      (msg.u16 (genlmsgData + len)) (genlmsgData + len) r) t r' := by
    unfold walkIfAggr
    by_cases haggr : IsAggr (msg.u16 (genlmsgData + len + 2))
    · obtain ⟨na, len2, hcomes, hle⟩ := hend haggr
      obtain ⟨r', hreach⟩ := NestedComes.reaches r hcomes
      obtain ⟨t, hyields⟩ := yields_whileLoop_of_reaches hreach (decide_eq_false (not_lt.2 hle))
      simp only [if_pos haggr]
      exact ⟨t ++ [], r', hyields.bind (yields_const rfl)⟩
    · simp only [if_neg haggr]
      exact ⟨[], r, yields_const rfl⟩
  obtain ⟨t, r', hwalk⟩ := hwalk
  simp only [attrBody, read_of_at hlen, read_of_at htype]
  exact ⟨_, r', (yields_const rfl).bind ((yields_const rfl).bind (hwalk.bind (yields_const rfl)))⟩

/-- The outer loop comes to every such place. -/
theorem AttrComes.reaches (r : TaskIoInfo) {len : ℕ} (h : AttrComes msg len) :
    ∃ r', Relation.ReflTransGen
      (Step (fun s : Cursor => decide ((s.len : ℤ) < genlmsgPayload msg)) (attrBody msg))
      ⟨genlmsgData, 0, r⟩ ⟨genlmsgData + len, len, r'⟩ := by
  induction h with
  | start => exact ⟨r, .refl⟩
  | next _ hlt hread hend ih =>
    obtain ⟨r₁, hreach⟩ := ih
    obtain ⟨t, r', hbody⟩ := exists_attrBody hread hend r₁
    exact ⟨r', hreach.tail ⟨decide_eq_true hlt, t, hbody⟩⟩

/-! ### When the decoder ends -/

/-- **No place the loops come to is one they stay at**: an attribute in the buffer does
not say its length is zero, and neither does the first attribute of an aggregate.  A
later attribute of an aggregate may: the inner loop moves on from there by the length
it has walked before. -/
structure Progresses (msg : MsgBuf) : Prop where
  attr : ∀ len, AttrComes msg len → (len : ℤ) < genlmsgPayload msg → AttrReadable msg len →
    msg.u16 (genlmsgData + len) ≠ 0
  nested : ∀ len, AttrComes msg len → (len : ℤ) < genlmsgPayload msg → AttrReadable msg len →
    AggrAt msg len → 0 < nlaPayload (msg.u16 (genlmsgData + len)) →
    NestedReadable msg (nlaData (genlmsgData + len)) → msg.u16 (nlaData (genlmsgData + len)) ≠ 0

theorem ends_attrLoop (h : Progresses msg) (r : TaskIoInfo) :
    Ends .outOfFuel fun n => attrLoop msg (genlmsgPayload msg) n ⟨genlmsgData, 0, r⟩ := by
  refine ends_whileLoop_of_measure stable_attrBody
    (fun s : Cursor => AttrComes msg s.len ∧ s.na = genlmsgData + s.len)
    (fun s => (genlmsgPayload msg - s.len).toNat) ?_ ?_ ⟨.start, rfl⟩
  · intro s hs hlt
    obtain ⟨na, len, r⟩ := s
    obtain ⟨hcomes, hna⟩ := hs
    simp only at hcomes hna
    subst hna
    have hlt : (len : ℤ) < genlmsgPayload msg := of_decide_eq_true hlt
    -- the iteration has the fuel its inner loop needs, if it comes to one
    by_cases hplace : AttrReadable msg len ∧ AggrAt msg len
    · obtain ⟨n, hn⟩ := ends_statsLoop
        (fun hpos hread => h.nested len hcomes hlt hplace.1 hplace.2 hpos hread) r
      exact ⟨n, attrBody_ne_outOfFuel_iff.2 fun _ _ => hn⟩
    · exact ⟨0, attrBody_ne_outOfFuel_iff.2 fun hread haggr => absurd ⟨hread, haggr⟩ hplace⟩
  · intro n s s' hinv hlt hs
    obtain ⟨hcomes, hna⟩ := hinv
    have hlt : (s.len : ℤ) < genlmsgPayload msg := of_decide_eq_true hlt
    obtain ⟨hread, hcomes', hna'⟩ := hcomes.step hna hlt hs
    refine ⟨⟨hcomes', hna'⟩, ?_⟩
    -- what is left to walk has shrunk by a length that is not zero
    have halign := four_le_nlaAlign (h.attr s.len hcomes hlt hread)
    have hlen := (attrBody_result hs).1
    rw [hna] at hlen
    omega

theorem progresses_of_ends {r : TaskIoInfo}
    (h : Ends .outOfFuel fun n => attrLoop msg (genlmsgPayload msg) n ⟨genlmsgData, 0, r⟩) :
    Progresses msg := by
  refine ⟨?_, ?_⟩
  · intro len hcomes hlt hread hzero
    obtain ⟨r', hreach⟩ := hcomes.reaches r
    -- an attribute of no length, aggregate or not, leads to itself
    have hpayload : nlaPayload (msg.u16 (genlmsgData + len)) ≤ (0 : ℕ) := by
      rw [hzero]
      decide
    have hstay : ∀ s : Cursor, s.na = genlmsgData + len ∧ s.len = len → ∃ s' : Cursor,
        Step (fun s : Cursor => decide ((s.len : ℤ) < genlmsgPayload msg)) (attrBody msg) s s' ∧
          s'.na = genlmsgData + len ∧ s'.len = len := by
      intro s hs
      obtain ⟨na, len', r₁⟩ := s
      simp only at hs
      obtain ⟨rfl, rfl⟩ := hs
      obtain ⟨t, r₂, hbody⟩ := exists_attrBody hread (fun _ => ⟨_, 0, .start, hpayload⟩) r₁
      rw [hzero] at hbody
      exact ⟨_, ⟨decide_eq_true hlt, t, hbody⟩, rfl, rfl⟩
    exact not_ends_whileLoop stable_attrBody hstay ⟨rfl, rfl⟩ (h.of_reaches stable_attrBody hreach)
  · intro len hcomes hlt hread haggr hpos hnested hzero
    obtain ⟨r', hreach⟩ := hcomes.reaches r
    have hthere := h.of_reaches stable_attrBody hreach
    obtain ⟨n, hn⟩ := (hthere.unroll (decide_eq_true hlt)).left
    exact not_ends_statsLoop hpos hnested hzero r' ⟨n, attrBody_ne_outOfFuel_iff.1 hn hread haggr⟩

/-! ### Along the layout -/

/-- No place the loops come to before their ends has bytes outside the buffer.  This is
what a decoder that returned shows, and what keeps it going along the layout. -/
structure StaysInBuffer (msg : MsgBuf) : Prop where
  attr : ∀ len, AttrComes msg len → (len : ℤ) < genlmsgPayload msg → AttrReadable msg len
  nested : ∀ len, AttrComes msg len → (len : ℤ) < genlmsgPayload msg → AggrAt msg len →
    ∀ na len2, NestedComesAt msg len na len2 →
      (len2 : ℤ) < nlaPayload (msg.u16 (genlmsgData + len)) → NestedReadable msg na

theorem lt_genlmsgPayload_iff {len : ℕ} :
    (len : ℤ) < genlmsgPayload msg ↔ genlmsgData + len < msg.nlmsgLen := by
  unfold genlmsgPayload genlmsgData
  omega

theorem lt_nlaPayload_iff {p len2 : ℕ} :
    (len2 : ℤ) < nlaPayload (msg.u16 p) ↔ nlaData p + len2 < p + msg.u16 p := by
  unfold nlaPayload nlaData
  omega

/-- The outer loop comes to attributes of the reply only. -/
theorem AttrComes.attrStart {len : ℕ} (h : AttrComes msg len)
    (hlt : (len : ℤ) < genlmsgPayload msg) : AttrStart msg (genlmsgData + len) := by
  induction h with
  | start => exact .first (lt_genlmsgPayload_iff.1 hlt)
  | @next len _ hlen _ _ ih =>
    rw [← add_assoc]
    refine .next (ih hlen) ?_
    rw [add_assoc]
    exact lt_genlmsgPayload_iff.1 hlt

/-- Over an aggregate of at most two attributes the inner loop comes to the first, to
the second, and to the end. -/
theorem NestedComes.eq_or_eq {p na len2 : ℕ} (hshort : AtMostTwo msg p)
    (h : NestedComes msg (nlaData p) (nlaPayload (msg.u16 p)) na len2) :
    (na = nlaData p ∧ len2 = 0) ∨
      (na = secondNested msg p ∧ len2 = nlaAlign (msg.u16 (nlaData p))) ∨
      nlaPayload (msg.u16 p) ≤ len2 := by
  induction h with
  | start => exact Or.inl ⟨rfl, rfl⟩
  | @next na len2 _ hlt _ ih =>
    right
    rcases ih with ⟨rfl, rfl⟩ | ⟨rfl, rfl⟩ | hend
    · left
      rw [zero_add]
      exact ⟨rfl, rfl⟩
    · -- the pointer leaves the layout here, where there is nothing left to walk
      right
      refine not_lt.1 ?_
      intro hlt'
      rw [lt_nlaPayload_iff] at hlt'
      unfold AtMostTwo secondNested at hshort
      unfold secondNested at hlt'
      omega
    · exact absurd hlt (not_lt.2 hend)

/-- So it comes to attributes of the aggregate only. -/
theorem NestedComes.nestedStart {p na len2 : ℕ} (hshort : AtMostTwo msg p)
    (h : NestedComes msg (nlaData p) (nlaPayload (msg.u16 p)) na len2)
    (hlt : (len2 : ℤ) < nlaPayload (msg.u16 p)) : NestedStart msg p na := by
  rcases h.eq_or_eq hshort with ⟨rfl, rfl⟩ | ⟨rfl, rfl⟩ | hend
  · exact nestedStart_first (lt_nlaPayload_iff.1 hlt)
  · exact nestedStart_second (lt_nlaPayload_iff.1 hlt)
  · exact absurd hlt (not_lt.2 hend)

section

variable (hin : StaysInBuffer msg) (hshort : Short msg)

include hin hshort

/-- The inner loop comes to every attribute of an aggregate, and to its end. -/
theorem nestedComes_of_short {len : ℕ} (hcomes : AttrComes msg len)
    (hlt : (len : ℤ) < genlmsgPayload msg) (haggr : AggrAt msg len) :
    (∀ na, NestedStart msg (genlmsgData + len) na → ∃ len2, NestedComesAt msg len na len2 ∧
        (len2 : ℤ) < nlaPayload (msg.u16 (genlmsgData + len))) ∧
      ∃ na len2, NestedComesAt msg len na len2 ∧
        nlaPayload (msg.u16 (genlmsgData + len)) ≤ len2 := by
  have htwo : AtMostTwo msg (genlmsgData + len) := hshort _ (hcomes.attrStart hlt) haggr
  have hfirst : NestedComesAt msg len (nlaData (genlmsgData + len)) 0 := .start
  by_cases h₁ : ((0 : ℕ) : ℤ) < nlaPayload (msg.u16 (genlmsgData + len))
  · -- the first step is along the layout, since nothing was walked before
    have hsecond : NestedComesAt msg len (secondNested msg (genlmsgData + len))
        (nlaAlign (msg.u16 (nlaData (genlmsgData + len)))) := by
      have hnext := NestedComes.next hfirst h₁ (hin.nested len hcomes hlt haggr _ _ hfirst h₁)
      rw [zero_add] at hnext
      exact hnext
    refine ⟨?_, ?_⟩
    · intro na hna
      rcases hna.eq_or_eq htwo with rfl | ⟨rfl, hend⟩
      · exact ⟨0, hfirst, h₁⟩
      · exact ⟨_, hsecond, lt_nlaPayload_iff.2 hend⟩
    · by_cases h₂ : (nlaAlign (msg.u16 (nlaData (genlmsgData + len))) : ℤ)
          < nlaPayload (msg.u16 (genlmsgData + len))
      · refine ⟨_, _, hsecond.next h₂ (hin.nested len hcomes hlt haggr _ _ hsecond h₂), ?_⟩
        refine not_lt.1 ?_
        intro hlt'
        rw [lt_nlaPayload_iff] at hlt'
        unfold AtMostTwo secondNested at htwo
        unfold secondNested at hlt'
        omega
      · exact ⟨_, _, hsecond, not_lt.1 h₂⟩
  · refine ⟨?_, _, 0, hfirst, not_lt.1 h₁⟩
    -- an empty aggregate has no attributes
    intro na hna
    refine absurd ?_ h₁
    rw [lt_nlaPayload_iff]
    rcases hna.eq_or_eq htwo with rfl | ⟨rfl, hend⟩
    · exact Start.lt hna
    · unfold secondNested at hend
      omega

/-- **The outer loop comes to every attribute of a short reply**, and to nothing else. -/
theorem attrStart_iff {p : ℕ} :
    AttrStart msg p ↔ ∃ len, p = genlmsgData + len ∧ AttrComes msg len ∧
      (len : ℤ) < genlmsgPayload msg := by
  refine ⟨?_, ?_⟩
  · intro hp
    induction hp with
    | first hlt => exact ⟨0, rfl, .start, lt_genlmsgPayload_iff.2 hlt⟩
    | @next p _ hlt ih =>
      obtain ⟨len, rfl, hcomes, hlen⟩ := ih
      refine ⟨len + nlaAlign (msg.u16 (genlmsgData + len)), by rw [← add_assoc]; rfl, ?_, ?_⟩
      · refine hcomes.next hlen (hin.attr len hcomes hlen) ?_
        intro haggr
        exact (nestedComes_of_short hin hshort hcomes hlen haggr).2
      · rw [lt_genlmsgPayload_iff, ← add_assoc]
        exact hlt
  · intro h
    obtain ⟨len, rfl, hcomes, hlt⟩ := h
    exact hcomes.attrStart hlt

/-- **The inner loop comes to every attribute of its aggregate**, and to nothing else. -/
theorem nestedStart_iff {len na : ℕ} (hcomes : AttrComes msg len)
    (hlt : (len : ℤ) < genlmsgPayload msg) (haggr : AggrAt msg len) :
    NestedStart msg (genlmsgData + len) na ↔ ∃ len2, NestedComesAt msg len na len2 ∧
      (len2 : ℤ) < nlaPayload (msg.u16 (genlmsgData + len)) := by
  refine ⟨?_, ?_⟩
  · exact (nestedComes_of_short hin hshort hcomes hlt haggr).1 na
  · intro h
    obtain ⟨len2, hnested, hlt2⟩ := h
    exact hnested.nestedStart (hshort _ (hcomes.attrStart hlt) haggr) hlt2

end

/-- A decoder that returned has found the bytes of every place it came to. -/
theorem staysInBuffer_of_yields {r : TaskIoInfo} {t : List Access} {s : Cursor}
    (h : Yields (fun n => attrLoop msg (genlmsgPayload msg) n ⟨genlmsgData, 0, r⟩) t s) :
    StaysInBuffer msg := by
  -- from every place it came to, the outer loop went through an iteration
  have hbody : ∀ len, AttrComes msg len → (len : ℤ) < genlmsgPayload msg → ∃ n r' s',
      (attrBody msg n ⟨genlmsgData + len, len, r'⟩).result = .ok s' := by
    intro len hcomes hlt
    obtain ⟨r', hreach⟩ := hcomes.reaches r
    obtain ⟨t', hrest⟩ := h.of_reaches (grows_attrBody msg) hreach
    obtain ⟨t₁, s', t₂, ⟨n, hn⟩, -⟩ :=
      yields_whileLoop_inv (grows_attrBody msg) (decide_eq_true hlt) hrest
    exact ⟨n, r', s', congrArg Traced.result (hn n le_rfl)⟩
  refine ⟨?_, ?_⟩
  · intro len hcomes hlt
    obtain ⟨n, r', s', hs⟩ := hbody len hcomes hlt
    exact (AttrComes.step (s := ⟨genlmsgData + len, len, r'⟩) hcomes rfl hlt hs).1
  · intro len hcomes hlt haggr na len2 hnested hlt2
    obtain ⟨n, r', s', hs⟩ := hbody len hcomes hlt
    obtain ⟨inner, hinner⟩ := (attrBody_result hs).2.2 haggr
    -- and so did the inner loop
    obtain ⟨r₂, hreach⟩ := NestedComes.reaches r' hnested
    have hyields := (grows_statsLoop msg _ _).yields_result hinner
    obtain ⟨t', hrest⟩ := hyields.of_reaches (fun s => grows_const (statsBody msg s)) hreach
    obtain ⟨t₁, s₂, t₂, ⟨m, hm⟩, -⟩ :=
      yields_whileLoop_inv (fun s => grows_const (statsBody msg s)) (decide_eq_true hlt2) hrest
    exact (statsBody_readable (congrArg Traced.result (hm m le_rfl))).1

/-! ### Well-formed replies -/

/-- Attributes that say how long they are keep the loops going. -/
theorem Carries.progresses {repLen : ℕ} {attrs : List ReplyAttr} (h : Carries msg repLen attrs) :
    Progresses msg := by
  have hlen (a : Attribute) : a.len ≠ 0 := by
    unfold Attribute.len
    omega
  refine ⟨?_, ?_⟩
  · intro len hcomes hlt _
    obtain ⟨a, -, hat, -⟩ := h.exists_attr (hcomes.attrStart hlt)
    rw [u16_len_of_at hat]
    exact hlen a.attr
  · intro len hcomes hlt _ haggr hpos _
    obtain ⟨a, -, hat, -⟩ := h.exists_attr (hcomes.attrStart hlt)
    rw [AggrAt, u16_type_of_at hat] at haggr
    obtain ⟨b, -, hatb, -⟩ := a.exists_nested hat haggr
      (nestedStart_first (lt_nlaPayload_iff.1 hpos))
    rw [u16_len_of_at hatb]
    exact hlen b

/-- **When the decoder ends.**  For every reply that passes the checks, and whatever the
record, some fuel is enough for the two loops to end or to stop at a read outside the
buffer exactly when they make progress at every place they come to. -/
theorem ends_getTaskIoInfo_iff {res : ℤ} (hres : 0 ≤ res) {repLen : ℕ}
    (hok : nlmsgOk msg repLen = true) (herr : msg.nlmsgType ≠ nlmsgError) (r : TaskIoInfo) :
    Ends .outOfFuel (fun fuel => getTaskIoInfo fuel res (.message repLen msg) r) ↔
      Progresses msg := by
  simp only [getTaskIoInfo_message hres hok herr]
  refine ⟨?_, ?_⟩
  · intro h
    exact progresses_of_ends h.left
  · intro h
    exact (ends_attrLoop h r).bind (stable_whileLoop stable_attrBody _) (fun _ => stable_const _)
      fun _ _ _ => ends_const (by simp)

theorem ends_getTaskIoInfo_iff_plainMsg :
    (0 : ℤ) ≤ 0 ∧ nlmsgOk plainMsg 364 = true ∧ plainMsg.nlmsgType ≠ nlmsgError ∧
      (Ends .outOfFuel (fun fuel => getTaskIoInfo fuel 0 (.message 364 plainMsg) {}) ↔
        Progresses plainMsg) :=
  ⟨le_rfl, carries_plainMsg.nlmsgOk, carries_plainMsg.not_error,
    ends_getTaskIoInfo_iff le_rfl carries_plainMsg.nlmsgOk carries_plainMsg.not_error {}⟩

/-- A reply whose only attribute has the length zero. -/
def stuckMsg : MsgBuf := .reply [0, 0, 1, 0] (by decide)

/-- The outer loop never leaves an attribute of no length. -/
theorem not_ends_stuckMsg :
    nlmsgOk stuckMsg 24 = true ∧ stuckMsg.nlmsgType ≠ nlmsgError ∧
      ¬Ends .outOfFuel (fun fuel => getTaskIoInfo fuel 0 (.message 24 stuckMsg) {}) := by
  have hok : nlmsgOk stuckMsg 24 = true := by decide +kernel
  have herr : stuckMsg.nlmsgType ≠ nlmsgError := by decide +kernel
  refine ⟨hok, herr, ?_⟩
  intro h
  simp only [getTaskIoInfo_message le_rfl hok herr] at h
  have hreadable : AttrReadable stuckMsg 0 := by
    unfold AttrReadable
    rw [stuckMsg.size_eq]
    decide
  have hpayload : ((0 : ℕ) : ℤ) < genlmsgPayload stuckMsg := by decide +kernel
  exact (progresses_of_ends h.left).attr 0 .start hpayload hreadable (by decide +kernel)

end Netlink
end IotopCpp
