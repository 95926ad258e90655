import IotopCpp.Netlink.Message

/-!
# The reply decoders

`NetlinkIoStats::get_task_io_info` and `NetlinkIoStats::init_netlink_family_id`
of `collect/netlink.cpp`, from the point where the request has been sent: what
`send_netlink_cmd` and `recv` returned are arguments.

## Main definitions

* `statsBody`, `attrBody` — one iteration of the inner and of the outer loop.
* `getTaskIoInfo` — the decoder of a taskstats reply.
* `initNetlinkFamilyId` — the decoder of the family reply.
* `QueryResult` — what a caller of `getTaskIoInfo` can observe.

## Main results

* `grows_getTaskIoInfo` — more fuel never changes what the decoder did.
* `getTaskIoInfo_queryResult` — every return of the decoder is one of the
  `QueryResult`s, which is the interface the collector is modelled over.
-/

namespace IotopCpp
namespace Netlink

open LittleEndian Traced

/-- What `recv` gave: nothing (`-1`), or the length of a message in the buffer. -/
inductive Received
  | failed
  | message (repLen : ℕ) (msg : MsgBuf)

/-! ### The loops of `get_task_io_info` -/

/-- The assignments from `*ts` to `*io_stats`, for the attribute at `na`. -/
def copyTaskstats (msg : MsgBuf) (na : ℕ) (ioStats : TaskIoInfo) : Decode TaskIoInfo := do
  let field (f : ℕ × ℕ) : Decode ℕ := msg.read ⟨.taskstats, na, nlaData na + f.1, f.2⟩
  let acUid ← field Taskstats.acUidField
  let readChar ← field Taskstats.readCharField
  let writeChar ← field Taskstats.writeCharField
  let readBytes ← field Taskstats.readBytesField
  let writeBytes ← field Taskstats.writeBytesField
  let swapinDelayTotal ← field Taskstats.swapinDelayTotalField
  let blkioDelayTotal ← field Taskstats.blkioDelayTotalField
  let ts : Taskstats := {
    acUid := .ofNat acUid
    readChar := .ofNat readChar
    writeChar := .ofNat writeChar
    readBytes := .ofNat readBytes
    writeBytes := .ofNat writeBytes
    swapinDelayTotal := .ofNat swapinDelayTotal
    blkioDelayTotal := .ofNat blkioDelayTotal }
  pure (ts.copyInto ioStats)

/-- The variables of the inner loop. -/
structure NestedCursor where
  na : ℕ
  len2 : ℕ
  ioStats : TaskIoInfo

/-- The `if` of the inner loop: a statistics attribute is copied. -/
def copyIfStats (msg : MsgBuf) (nlaType na : ℕ) (ioStats : TaskIoInfo) : Decode TaskIoInfo :=
  if nlaType = taskstatsTypeStats then copyTaskstats msg na ioStats else pure ioStats

/-- One iteration of the inner loop.  The pointer moves by `len2`, the length of
everything walked so far, and not by the length of the attribute just seen. -/
def statsBody (msg : MsgBuf) (s : NestedCursor) : Decode NestedCursor := do
  let nlaType ← msg.read ⟨.nestedType, s.na, s.na + 2, 2⟩
  let ioStats ← copyIfStats msg nlaType s.na s.ioStats
  let nlaLen ← msg.read ⟨.nestedLen, s.na, s.na, 2⟩
  let len2 := s.len2 + nlaAlign nlaLen
  pure { na := s.na + len2, len2, ioStats }

/-- `while (len2 < aggr_len)`. -/
def statsLoop (msg : MsgBuf) (aggrLen : ℤ) : ℕ → NestedCursor → Decode NestedCursor :=
  whileLoop (fun s => s.len2 < aggrLen) (fun _ => statsBody msg) .outOfFuel

/-- The variables of the outer loop. -/
structure Cursor where
  na : ℕ
  len : ℕ
  ioStats : TaskIoInfo

/-- `TASKSTATS_TYPE_AGGR_TGID` or `TASKSTATS_TYPE_AGGR_PID`. -/
def IsAggr (nlaType : ℕ) : Prop :=
  nlaType = taskstatsTypeAggrTgid ∨ nlaType = taskstatsTypeAggrPid

instance : DecidablePred IsAggr := fun _ => inferInstanceAs (Decidable (_ ∨ _))

/-- The `if` of the outer loop: an aggregate is walked by the inner loop. -/
def walkIfAggr (msg : MsgBuf) (fuel nlaType nlaLen na : ℕ) (ioStats : TaskIoInfo) :
    Decode TaskIoInfo :=
  if IsAggr nlaType then do
    let inner ← statsLoop msg (nlaPayload nlaLen) fuel { na := nlaData na, len2 := 0, ioStats }
    pure inner.ioStats
  else pure ioStats

/-- One iteration of the outer loop. -/
def attrBody (msg : MsgBuf) (fuel : ℕ) (s : Cursor) : Decode Cursor := do
  let nlaLen ← msg.read ⟨.len, s.na, s.na, 2⟩
  let len := s.len + nlaAlign nlaLen
  let nlaType ← msg.read ⟨.type, s.na, s.na + 2, 2⟩
  let ioStats ← walkIfAggr msg fuel nlaType nlaLen s.na s.ioStats
  -- the pointer the inner loop moved is restored from `len`
  pure { na := genlmsgData + len, len, ioStats }

/-- `while (len < rep_len)`. -/
def attrLoop (msg : MsgBuf) (repLen : ℤ) : ℕ → Cursor → Decode Cursor :=
  whileLoop (fun s => s.len < repLen) (attrBody msg) .outOfFuel

/-- `NetlinkIoStats::get_task_io_info`, with the results of `send_netlink_cmd`
and of `recv`: the value returned, and `*io_stats` as it leaves it. -/
def getTaskIoInfo (fuel : ℕ) (res : ℤ) (received : Received) (ioStats : TaskIoInfo) :
    Decode (ℤ × TaskIoInfo) :=
  -- nothing was asked, and nothing is received
  if res < 0 then pure (-2, ioStats)
  else match received with
    | .failed => pure (-3, ioStats)
    | .message repLen msg =>
      if !nlmsgOk msg repLen then pure (-4, ioStats)
      -- the error the message carries is not looked at
      else if msg.nlmsgType = nlmsgError then pure (-5, ioStats)
      else do
        let s ← attrLoop msg (genlmsgPayload msg) fuel { na := genlmsgData, len := 0, ioStats }
        pure (0, s.ioStats)

/-- `NetlinkIoStats::init_netlink_family_id`, with the results of
`send_netlink_cmd` and of `recv`: the value returned, and `netlink_family_id_`
as it leaves it. -/
def initNetlinkFamilyId (res : ℤ) (received : Received) (netlinkFamilyId : ℤ) : Decode (ℤ × ℤ) :=
  if res < 0 then pure (-1, netlinkFamilyId)
  else match received with
    | .failed => pure (-2, netlinkFamilyId)
    | .message repLen msg =>
      if !nlmsgOk msg repLen then pure (-3, netlinkFamilyId)
      else if msg.nlmsgType = nlmsgError then pure (-4, netlinkFamilyId)
      else do
        let first := genlmsgData
        let nlaLen ← msg.read ⟨.len, first, first, 2⟩
        let second := first + nlaAlign nlaLen
        let nlaType ← msg.read ⟨.type, second, second + 2, 2⟩
        if nlaType ≠ ctrlAttrFamilyId then pure (-5, netlinkFamilyId)
        else do
          let familyId ← msg.read ⟨.familyId, second, second + nlaHdrlen, 2⟩
          -- the member is assigned before it is tested
          if familyId = 0 then pure (-6, 0) else pure (0, familyId)

/-! ### More fuel changes nothing -/

theorem grows_statsLoop (msg : MsgBuf) (aggrLen : ℤ) (s : NestedCursor) :
    Grows fun n => statsLoop msg aggrLen n s :=
  grows_whileLoop (fun s => grows_const (statsBody msg s)) s

theorem grows_walkIfAggr (msg : MsgBuf) (nlaType nlaLen na : ℕ) (ioStats : TaskIoInfo) :
    Grows fun n => walkIfAggr msg n nlaType nlaLen na ioStats := by
  unfold walkIfAggr
  by_cases h : IsAggr nlaType
  · simp only [if_pos h]
    exact (grows_statsLoop msg _ _).bind fun inner => grows_const _
  · simp only [if_neg h]
    exact grows_const _

theorem grows_attrBody (msg : MsgBuf) (s : Cursor) : Grows fun n => attrBody msg n s :=
  (grows_const _).bind fun _ => (grows_const _).bind fun _ =>
    (grows_walkIfAggr msg _ _ _ _).bind fun _ => grows_const _

theorem grows_attrLoop (msg : MsgBuf) (repLen : ℤ) (s : Cursor) :
    Grows fun n => attrLoop msg repLen n s :=
  grows_whileLoop (grows_attrBody msg) s

theorem grows_getTaskIoInfo (res : ℤ) (received : Received) (ioStats : TaskIoInfo) :
    Grows fun n => getTaskIoInfo n res received ioStats := by
  unfold getTaskIoInfo
  by_cases hres : res < 0
  · simp only [if_pos hres]
    exact grows_const _
  · simp only [if_neg hres]
    cases received with
    | failed => exact grows_const _
    | message repLen msg =>
      simp only
      split_ifs
      · exact grows_const _
      · exact grows_const _
      · exact (grows_attrLoop msg _ _).bind fun _ => grows_const _

/-- The decoder on a reply that passes its checks is its outer loop. -/
theorem getTaskIoInfo_message {res : ℤ} {repLen : ℕ} {msg : MsgBuf} (hres : 0 ≤ res)
    (hok : nlmsgOk msg repLen = true) (herr : msg.nlmsgType ≠ nlmsgError) (fuel : ℕ)
    (ioStats : TaskIoInfo) :
    getTaskIoInfo fuel res (.message repLen msg) ioStats
      = attrLoop msg (genlmsgPayload msg) fuel { na := genlmsgData, len := 0, ioStats }
        >>= fun s => pure (0, s.ioStats) := by
  simp [getTaskIoInfo, hok, herr, not_lt.2 hres]

/-! ### What an iteration leaves -/

/-- Where an iteration of the inner loop that returned leaves the loop's variables. -/
theorem statsBody_result {msg : MsgBuf} {s s' : NestedCursor} (h : (statsBody msg s).result = .ok s') :
    s'.len2 = s.len2 + nlaAlign (msg.u16 s.na) ∧ s'.na = s.na + s'.len2 := by
  simp only [statsBody, result_bind_eq_ok, pure_def, Except.ok.injEq, result_read] at h
  obtain ⟨_, _, _, _, nlaLen, hlen, rfl⟩ := h
  rw [u16_of_readLE hlen]
  exact ⟨rfl, rfl⟩

/-- The same of the outer loop, with what its inner loop did. -/
theorem attrBody_result {msg : MsgBuf} {n : ℕ} {s s' : Cursor} (h : (attrBody msg n s).result = .ok s') :
    s'.len = s.len + nlaAlign (msg.u16 s.na) ∧ s'.na = genlmsgData + s'.len ∧
      (IsAggr (msg.u16 (s.na + 2)) → ∃ inner,
        (statsLoop msg (nlaPayload (msg.u16 s.na)) n ⟨nlaData s.na, 0, s.ioStats⟩).result
          = .ok inner) := by
  simp only [attrBody, result_bind_eq_ok, pure_def, Except.ok.injEq, result_read] at h
  obtain ⟨nlaLen, hlen, nlaType, htype, ioStats, hwalk, rfl⟩ := h
  rw [u16_of_readLE hlen, u16_of_readLE htype]
  refine ⟨rfl, rfl, ?_⟩
  intro haggr
  rw [walkIfAggr, if_pos haggr, result_bind_eq_ok] at hwalk
  obtain ⟨inner, hinner, -⟩ := hwalk
  exact ⟨inner, hinner⟩

/-! ### What a caller can observe -/

/-- Why a query fails, with the value returned. -/
inductive QueryError
  | send
  | recv
  | notOk
  | nlmsgError
  deriving DecidableEq

def QueryError.code : QueryError → ℤ
  | .send => -2
  | .recv => -3
  | .notOk => -4
  | .nlmsgError => -5

theorem QueryError.code_neg (e : QueryError) : e.code < 0 := by cases e <;> decide

/-- What one call of `getTaskIoInfo` did: it failed and left the record alone, or
it returned zero having copied the statistics of the last `STATS` attribute it
came to, if it came to any. -/
inductive QueryResult
  | failed (e : QueryError)
  | answered (stats : Option Taskstats)
  deriving DecidableEq

namespace QueryResult

/-- The value returned, and the record afterwards. -/
def apply : QueryResult → TaskIoInfo → ℤ × TaskIoInfo
  | .failed e, r => (e.code, r)
  | .answered none, r => (0, r)
  | .answered (some ts), r => (0, ts.copyInto r)

/-- The call returned zero. -/
def succeeded : QueryResult → Bool
  | .failed _ => false
  | .answered _ => true

/-- The counters a fresh record holds after a call that succeeded. -/
def counters : QueryResult → Option Counters
  | .failed _ => none
  | .answered none => some {}
  | .answered (some ts) => some ts.counters

end QueryResult

/-- The record `r` after copying some statistics over it, or none. -/
def CopyOf (r r' : TaskIoInfo) : Prop :=
  ∃ stats, r' = ((QueryResult.answered stats).apply r).2

theorem CopyOf.refl (r : TaskIoInfo) : CopyOf r r := ⟨none, rfl⟩

theorem CopyOf.copyInto {r r' : TaskIoInfo} (h : CopyOf r r') (ts : Taskstats) :
    CopyOf r (ts.copyInto r') := by
  obtain ⟨stats, rfl⟩ := h
  refine ⟨some ts, ?_⟩
  cases stats <;> simp [QueryResult.apply]

theorem copyOf_copyTaskstats {msg : MsgBuf} {na : ℕ} {r r₁ r₂ : TaskIoInfo} (h : CopyOf r r₁)
    (hr : (copyTaskstats msg na r₁).result = .ok r₂) : CopyOf r r₂ := by
  simp only [copyTaskstats, result_bind_eq_ok, pure_def, Except.ok.injEq] at hr
  obtain ⟨_, _, _, _, _, _, _, _, _, _, _, _, _, _, rfl⟩ := hr
  exact h.copyInto _

theorem copyOf_statsBody {msg : MsgBuf} {r : TaskIoInfo} {s s' : NestedCursor}
    (h : CopyOf r s.ioStats) (hs : (statsBody msg s).result = .ok s') : CopyOf r s'.ioStats := by
  simp only [statsBody, result_bind_eq_ok, pure_def, Except.ok.injEq] at hs
  obtain ⟨nlaType, _, ioStats, hio, _, _, rfl⟩ := hs
  unfold copyIfStats at hio
  split at hio
  · exact copyOf_copyTaskstats h hio
  · obtain rfl := Except.ok.inj hio
    exact h

theorem copyOf_attrBody {msg : MsgBuf} {n : ℕ} {r : TaskIoInfo} {s s' : Cursor}
    (h : CopyOf r s.ioStats) (hs : (attrBody msg n s).result = .ok s') : CopyOf r s'.ioStats := by
  simp only [attrBody, result_bind_eq_ok, pure_def, Except.ok.injEq] at hs
  obtain ⟨_, _, nlaType, _, ioStats, hio, rfl⟩ := hs
  unfold walkIfAggr at hio
  split at hio
  · simp only [result_bind_eq_ok, pure_def, Except.ok.injEq] at hio
    obtain ⟨inner, hinner, rfl⟩ := hio
    exact (result_whileLoop_of_invariant (fun t : NestedCursor => CopyOf r t.ioStats)
      (fun _ _ _ ht _ hbody => copyOf_statsBody ht hbody) n h hinner).1
  · obtain rfl := Except.ok.inj hio
    exact h

/-- **Every return of the decoder is a `QueryResult`**: the record is untouched
on failure, and on success holds one `struct taskstats` of the reply or none. -/
theorem getTaskIoInfo_queryResult {fuel : ℕ} {res : ℤ} {received : Received} {r : TaskIoInfo}
    {out : ℤ × TaskIoInfo} (h : (getTaskIoInfo fuel res received r).result = .ok out) :
    ∃ q : QueryResult, q.apply r = out := by
  unfold getTaskIoInfo at h
  split at h
  · exact ⟨.failed .send, Except.ok.inj h⟩
  · cases received with
    | failed => exact ⟨.failed .recv, Except.ok.inj h⟩
    | message repLen msg =>
      simp only at h
      split at h
      · exact ⟨.failed .notOk, Except.ok.inj h⟩
      · split at h
        · exact ⟨.failed .nlmsgError, Except.ok.inj h⟩
        · simp only [result_bind_eq_ok, pure_def, Except.ok.injEq] at h
          obtain ⟨s, hs, rfl⟩ := h
          -- each copy overwrites the one before it, so a single one is left
          obtain ⟨stats, hstats⟩ :=
            (result_whileLoop_of_invariant (fun t : Cursor => CopyOf r t.ioStats)
              (fun _ _ _ ht _ hbody => copyOf_attrBody ht hbody) fuel (CopyOf.refl r) hs).1
          refine ⟨.answered stats, ?_⟩
          rw [hstats]
          cases stats <;> rfl

end Netlink
end IotopCpp
