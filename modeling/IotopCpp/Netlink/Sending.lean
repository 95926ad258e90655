import IotopCpp.Netlink.Init

/-!
# What goes out on the socket

`send_netlink_cmd` as its callers see it.  The loop over `sendto` goes on for as long as the
socket says `EAGAIN`, which a socket that does not block may say forever, and otherwise takes
no more calls than the message has bytes.  Where it returns zero, the kernel has accepted one
message, and the message is the request that was asked for.

## Main definitions

* `SendtoResult.retry` — a `sendto` after which the loop makes the same call again.
* `sentNetlinkCmd` — what the kernel accepts during a call.
* `Requests` — bytes that are a request for the statistics of a task.

## Main results

* `calls_of_run` — **how many calls of `sendto` there can be.**
* `accepted_of_zero` — what the kernel has accepted when zero is returned.
* `requests_of_zero` — the same, for a query for the statistics of a task.
-/

namespace IotopCpp
namespace Netlink

open LittleEndian Runs Attribute

/-! ### How often `sendto` is called -/

/-- The loop makes the same call again. -/
def SendtoResult.retry (o : SendtoResult) : Bool := o.curSendByte ≤ 0 && o.errno = eagain

namespace SendLoop

/-- The calls the loop can still make, retries aside. -/
def left (s : SendLoop) : ℕ := if s.returned.isSome then 0 else s.bufLen

variable {m : Bytes} {s s' : SendLoop} {o : SendtoResult}

/-- A call that is not tried again leaves fewer. -/
theorem Inv.left_step (h : Inv m s) (hs : s.step o = some s') :
    s'.left + (if o.retry then 0 else 1) ≤ s.left := by
  have hpos := h.pos
  obtain ⟨hnone, -, -, hcases⟩ := step_cases hs
  have hleft : s.left = s.bufLen := by rw [left, hnone]; rfl
  rw [hleft, left]
  rcases hcases with ⟨k, hk, hkpos, hklt, -, hbufLen, -, hreturned⟩ |
    ⟨hle, -, hbufLen, -, hreturned⟩ | ⟨hall, -, -, -, hreturned⟩
  · -- a part was accepted, and the next call is for less
    have hretry : o.retry = false := by
      simp only [SendtoResult.retry, Bool.and_eq_false_iff, decide_eq_false_iff_not]
      exact Or.inl (by omega)
    rw [hretry, hreturned, hbufLen]
    simp only [Option.isSome_none, Bool.false_eq_true, if_false]
    omega
  · by_cases herrno : o.errno = eagain
    · have hretry : o.retry = true := by
        simp only [SendtoResult.retry, Bool.and_eq_true, decide_eq_true_eq]
        exact ⟨hle, herrno⟩
      rw [hretry, hreturned, if_pos herrno, hbufLen]
      simp only [Option.isSome_none, Bool.false_eq_true, if_true, if_false]
      exact le_rfl
    · have hretry : o.retry = false := by simp [SendtoResult.retry, herrno]
      rw [hretry, hreturned, if_neg herrno]
      simp only [Option.isSome_some, Bool.false_eq_true, if_true, if_false]
      omega
  · have hretry : o.retry = false := by
      simp only [SendtoResult.retry, Bool.and_eq_false_iff, decide_eq_false_iff_not]
      exact Or.inl (by omega)
    rw [hretry, hreturned]
    simp only [Option.isSome_some, Bool.false_eq_true, if_true, if_false]
    omega

/-- `EAGAIN` leaves the loop where it was. -/
theorem step_again (hs : s.returned = none) :
    ∃ s', s.step ⟨-1, eagain⟩ = some s' ∧ s'.returned = none := by
  have hlow : ¬(s.bufLen : ℤ) < -1 := by omega
  have hshort : (-1 : ℤ) < s.bufLen := by omega
  have hnone : ¬(0 : ℤ) < -1 := by decide
  refine ⟨{ s with
    offers := s.offers ++ [(s.buf, s.bufLen)]
    accepted := s.accepted ++ s.offered.take (-1 : ℤ).toNat }, ?_, hs⟩
  simp only [step, hs, Option.isSome_none, Bool.false_eq_true, lt_irrefl, hlow, or_self, if_false,
    hshort, if_true, hnone, ne_eq, not_true_eq_false]

end SendLoop

/-- **How many calls of `sendto` there can be**: as many as the message has bytes, and one
for each that is tried again; and those that are tried again have no bound. -/
theorem calls_of_run {mem : Bytes} {len : ℕ} (hpos : 0 < len) (hlen : len ≤ mem.length) :
    (∀ outcomes s, runFrom SendLoop.step { msg := mem, bufLen := len } outcomes = some s →
      outcomes.length ≤ len + outcomes.countP SendtoResult.retry) ∧
    ∀ n, ∃ s, runFrom SendLoop.step { msg := mem, bufLen := len }
      (List.replicate n ⟨-1, eagain⟩) = some s ∧ s.returned = none := by
  refine ⟨?_, ?_⟩
  · intro outcomes s hrun
    have hle := length_le_of_measure (SendLoop.Inv (mem.take len)) SendLoop.left SendtoResult.retry
      (fun _ _ _ h hs => ⟨h.step hs, h.left_step hs⟩) (SendLoop.inv_start hpos hlen) hrun
    have hstart : SendLoop.left { msg := mem, bufLen := len } = len := rfl
    omega
  · -- one more `EAGAIN` leaves the loop where it was
    intro n
    induction n with
    | zero => exact ⟨_, rfl, rfl⟩
    | succ n ih =>
      obtain ⟨s, hrun, hnone⟩ := ih
      obtain ⟨s', hstep, hnone'⟩ := SendLoop.step_again hnone
      refine ⟨s', ?_, hnone'⟩
      rw [List.replicate_succ']
      exact runFrom_concat.2 ⟨s, hrun, hstep⟩

/-- A message of five bytes, in three calls of which one is tried again. -/
theorem calls_of_run_short :
    let outcomes : List SendtoResult := [⟨2, 0⟩, ⟨-1, eagain⟩, ⟨3, 0⟩]
    outcomes.length ≤ 5 + outcomes.countP SendtoResult.retry :=
  (@calls_of_run [10, 11, 12, 13, 14, 0] 5 (by decide) (by decide)).1 _ _ rfl

/-! ### What has been accepted -/

/-- What the kernel accepts during `send_netlink_cmd`: the bytes of its message that the
calls of `sendto` have taken when the loop stands where the outcomes leave it. -/
def sentNetlinkCmd (nlMsgType : UInt16) (nlMsgPid : UInt32) (genlCmd : UInt8) (nlaType : UInt16)
    (nlaData : Bytes) (outcomes : List SendtoResult) : Option Bytes := do
  let msg ← buildMsg nlMsgType nlMsgPid genlCmd nlaType nlaData
  let s ← runFrom SendLoop.step (startSend msg) outcomes
  some s.accepted

/-- **What the kernel has accepted when zero is returned**: one request, with one attribute
that holds the data. -/
theorem accepted_of_zero {nlMsgType : UInt16} {nlMsgPid : UInt32} {genlCmd : UInt8}
    {nlaType : UInt16} {nlaData : Bytes} (hle : nlaData.length ≤ 1020)
    {outcomes : List SendtoResult}
    (h : sendNetlinkCmd nlMsgType nlMsgPid genlCmd nlaType nlaData outcomes = some 0) :
    ∃ bytes, sentNetlinkCmd nlMsgType nlMsgPid genlCmd nlaType nlaData outcomes = some bytes ∧
      ∃ pad : ℕ, decodeRequest 1 bytes = some {
        nlmsgLen := bytes.length
        nlmsgType := nlMsgType.toNat
        nlmsgFlags := nlmFRequest.toNat
        nlmsgSeq := 0
        nlmsgPid := nlMsgPid.toNat
        cmd := genlCmd.toNat
        version := taskstatsGenlVersion.toNat
        reserved := 0
        attrs := [(nlaType.toNat, nlaData, List.replicate pad 0)] } := by
  simp only [sendNetlinkCmd, Option.bind_eq_bind, Option.bind_eq_some_iff] at h
  obtain ⟨msg, hbuild, s, hrun, hret⟩ := h
  obtain ⟨msg', hbuild', hlen, hoffered⟩ :=
    exists_buildMsg_offered nlMsgType nlMsgPid genlCmd nlaType hle
  obtain rfl := Option.some.inj (hbuild.symm.trans hbuild')
  have hlength := (length_offered_of_buildMsg nlMsgType nlMsgPid genlCmd nlaType hle hbuild).1
  have hpos : 0 < msg.nlMsg.nlmsgLen.toNat := by
    rw [hlen]
    exact Nat.add_pos_left (by decide) _
  have hroom : msg.nlMsg.nlmsgLen.toNat ≤ msg.bytes.length := by
    rw [← hlength]
    exact List.length_take_le' _ _
  -- the loop has returned zero, so all of the message was accepted
  have hinv := Runs.invariant (SendLoop.Inv (msg.bytes.take msg.nlMsg.nlmsgLen.toNat))
    (fun _ _ _ h hs => h.step hs) (SendLoop.inv_start hpos hroom) hrun
  have haccepted : s.accepted = (startSend msg).offered := hinv.done hret
  refine ⟨s.accepted, ?_, (requestAttr nlaType nlaData hle).pad.length, ?_⟩
  · rw [sentNetlinkCmd, hbuild, Option.bind_eq_bind, Option.bind_some, hrun]
    rfl
  rw [haccepted, hlength, hoffered, decodeRequest_encode nlMsgType nlMsgPid genlCmd _
    msg.nlMsg.nlmsgLen.toNat_lt]
  simp [requestAttr, Attribute.fields]

/-- `TASKSTATS_CMD_GET` and `TASKSTATS_CMD_ATTR_PID`. -/
def taskstatsCmdGet : UInt8 := 1

def taskstatsCmdAttrPid : UInt16 := 1

/-- What the kernel accepts during `NetlinkIoStats::get_task_io_info`. -/
def NetlinkIoStats.sent (st : NetlinkIoStats) (taskId : UInt64) (outcomes : List SendtoResult) :
    Option Bytes :=
  sentNetlinkCmd (.ofInt st.netlinkFamilyId) taskId.toUInt32 taskstatsCmdGet taskstatsCmdAttrPid
    (natLE 8 taskId.toNat) outcomes

/-- The bytes are one request of the family for the statistics of a task, and nothing
besides.  The kernel reads the id from the first four bytes of the eight. -/
def Requests (netlinkFamilyId : ℤ) (id : ℕ) (bytes : Bytes) : Prop :=
  ∃ (req : DecodedRequest) (payload pad : Bytes), decodeRequest 1 bytes = some req ∧
    (req.nlmsgType : ℤ) = netlinkFamilyId % 2 ^ 16 ∧ req.cmd = taskstatsCmdGet.toNat ∧
    req.attrs = [(taskstatsCmdAttrPid.toNat, payload, pad)] ∧ leNat (payload.take 4) = id % 2 ^ 32

/-- The kernel reads no more than 32 bits of the id. -/
theorem Requests.congr {netlinkFamilyId : ℤ} {id id' : ℕ} {bytes : Bytes}
    (h : Requests netlinkFamilyId id bytes) (hid : id % 2 ^ 32 = id' % 2 ^ 32) :
    Requests netlinkFamilyId id' bytes := by
  obtain ⟨req, payload, pad, hdecode, htype, hcmd, hattrs, hpayload⟩ := h
  exact ⟨req, payload, pad, hdecode, htype, hcmd, hattrs, hpayload.trans hid⟩

/-- **A query that was sent asks for its task**, in the family that `init` found. -/
theorem requests_of_zero {st : NetlinkIoStats} {taskId : UInt64} {outcomes : List SendtoResult}
    (h : sendNetlinkCmd (.ofInt st.netlinkFamilyId) taskId.toUInt32 taskstatsCmdGet
      taskstatsCmdAttrPid (natLE 8 taskId.toNat) outcomes = some 0) :
    ∃ bytes, st.sent taskId outcomes = some bytes ∧
      Requests st.netlinkFamilyId taskId.toNat bytes := by
  have hle : (natLE 8 taskId.toNat).length ≤ 1020 := by
    rw [length_natLE]
    decide
  obtain ⟨bytes, hsent, pad, hdecode⟩ := accepted_of_zero hle h
  refine ⟨bytes, hsent, _, _, _, hdecode, ?_, rfl, rfl, ?_⟩
  · simp only [UInt16.ofInt, UInt16.toNat_ofNat']
    omega
  · rw [leNat_take_natLE (by decide)]
    rfl

end Netlink
end IotopCpp
