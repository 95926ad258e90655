import IotopCpp.Lib.Runs
import IotopCpp.Netlink.Message

/-!
# Requests

`NetlinkIoStats::send_netlink_cmd` of `collect/netlink.cpp`: the message it builds,
and the loop that sends it.

The message is `struct NetlinkMsgTemplate`, whose attribute and payload are written
over its `buf` through pointers.  What `sendto` returns, and `errno` after it, is the
input of a step of the loop; a run is a list of such results, of any length.

## Main definitions

* `MsgTemplate`, `buildMsg` — the message, and how it is filled.
* `decodeRequest` — the netlink layout, read from the bytes of a message.
* `SendLoop`, `SendLoop.step` — the loop over `sendto`.

## Main results

* `decodeRequest_buildMsg` — what is sent decodes to what was asked for.
* `SendLoop.Inv` — what is still offered is what has not been accepted.
* `accepted_of_run` — a message is sent whole and once, or a proper prefix of it is.
-/

namespace IotopCpp
namespace Netlink

open LittleEndian Runs

/-! ### Constants of the kernel headers -/

/-- `NLM_F_REQUEST`. -/
def nlmFRequest : UInt16 := 1

/-- `TASKSTATS_GENL_VERSION`. -/
def taskstatsGenlVersion : UInt8 := 1

/-- `EAGAIN`. -/
def eagain : ℤ := 11

/-- `NLMSG_LENGTH(len)`. -/
def nlmsgLength (len : ℕ) : ℕ := len + nlmsgHdrlen

/-- `NLMSG_ALIGN(len)`. -/
def nlmsgAlign (len : ℕ) : ℕ := align4 len

/-! ### The message -/

/-- `struct nlmsghdr`. -/
structure Nlmsghdr where
  nlmsgLen : UInt32 := 0
  nlmsgType : UInt16 := 0
  nlmsgFlags : UInt16 := 0
  nlmsgSeq : UInt32 := 0
  nlmsgPid : UInt32 := 0

/-- `struct genlmsghdr`. -/
structure Genlmsghdr where
  cmd : UInt8 := 0
  version : UInt8 := 0
  reserved : UInt16 := 0

/-- `struct NetlinkMsgTemplate`, all zero as `memset` leaves it. -/
structure MsgTemplate where
  nlMsg : Nlmsghdr := {}
  genlMsg : Genlmsghdr := {}
  buf : CharArray maxNetlinkMsgSize := .zeros _

/-- The bytes a message occupies. -/
def MsgTemplate.bytes (msg : MsgTemplate) : Bytes :=
  natLE 4 msg.nlMsg.nlmsgLen.toNat ++ (natLE 2 msg.nlMsg.nlmsgType.toNat ++
    (natLE 2 msg.nlMsg.nlmsgFlags.toNat ++ (natLE 4 msg.nlMsg.nlmsgSeq.toNat ++
    (natLE 4 msg.nlMsg.nlmsgPid.toNat ++ (natLE 1 msg.genlMsg.cmd.toNat ++
    (natLE 1 msg.genlMsg.version.toNat ++ (natLE 2 msg.genlMsg.reserved.toNat ++
    msg.buf.bytes)))))))

/-- `memcpy` into an array.  One that runs past its end has no meaning. -/
def CharArray.memcpy {n : ℕ} (dst : CharArray n) (off : ℕ) (src : Bytes) : Option (CharArray n) :=
  if h : off + src.length ≤ n then
    some ⟨overlay dst.bytes off src, (length_overlay (dst.length_eq.symm ▸ h)).trans dst.length_eq⟩
  else none

/-- The part of `send_netlink_cmd` before its loop: the message, with its length.
`nl_attr` is at the start of `buf`, where `GENLMSG_DATA` points. -/
def buildMsg (nlMsgType : UInt16) (nlMsgPid : UInt32) (genlCmd : UInt8) (nlaType : UInt16)
    (nlaData : Bytes) : Option MsgTemplate := do
  let msg : MsgTemplate := {
    nlMsg := {
      nlmsgLen := .ofNat (nlmsgLength genlHdrlen)
      nlmsgType := nlMsgType
      nlmsgFlags := nlmFRequest
      nlmsgSeq := 0
      nlmsgPid := nlMsgPid }
    genlMsg := { cmd := genlCmd, version := taskstatsGenlVersion } }
  let nlAttr := 0
  let nlaLen : UInt16 := .ofNat (nlaData.length + nlaHdrlen)
  let buf ← CharArray.memcpy msg.buf (nlAttr + 2) (natLE 2 nlaType.toNat)
  let buf ← CharArray.memcpy buf nlAttr (natLE 2 nlaLen.toNat)
  let buf ← CharArray.memcpy buf (Netlink.nlaData nlAttr) nlaData
  some { msg with
    nlMsg.nlmsgLen := msg.nlMsg.nlmsgLen + .ofNat (nlmsgAlign nlaLen.toNat)
    buf }

/-! ### The layout of a request -/

/-- A request as the netlink layout has it. -/
structure DecodedRequest where
  nlmsgLen : ℕ
  nlmsgType : ℕ
  nlmsgFlags : ℕ
  nlmsgSeq : ℕ
  nlmsgPid : ℕ
  cmd : ℕ
  version : ℕ
  reserved : ℕ
  /-- Type, payload and padding of each attribute. -/
  attrs : List (ℕ × Bytes × Bytes)

/-- Decode a request of at most `n` attributes: a header, a generic header, and
attributes up to the end. -/
def decodeRequest (n : ℕ) (bs : Bytes) : Option DecodedRequest := do
  let (nlmsgLen, bs) ← takeLE 4 bs
  let (nlmsgType, bs) ← takeLE 2 bs
  let (nlmsgFlags, bs) ← takeLE 2 bs
  let (nlmsgSeq, bs) ← takeLE 4 bs
  let (nlmsgPid, bs) ← takeLE 4 bs
  let (cmd, bs) ← takeLE 1 bs
  let (version, bs) ← takeLE 1 bs
  let (reserved, bs) ← takeLE 2 bs
  let attrs ← Attribute.decodeAll n bs
  some { nlmsgLen, nlmsgType, nlmsgFlags, nlmsgSeq, nlmsgPid, cmd, version, reserved, attrs }

/-! ### The loop over `sendto` -/

/-- What one `sendto` returns, and `errno` after it. -/
structure SendtoResult where
  curSendByte : ℤ
  errno : ℤ

/-- The loop of `send_netlink_cmd`: the bytes of the message, the offset `buf` points
to, and `buf_len`; beside it the slices offered, the bytes accepted, and the value
returned. -/
structure SendLoop where
  msg : Bytes
  buf : ℕ := 0
  bufLen : ℕ
  offers : List (ℕ × ℕ) := []
  accepted : Bytes := []
  returned : Option ℤ := none

namespace SendLoop

/-- The bytes handed to the next `sendto`. -/
def offered (s : SendLoop) : Bytes := (s.msg.drop s.buf).take s.bufLen

/-- One `sendto`, and what is done with its result.  It accepts no more than it is
offered, and returns nothing below `-1`. -/
def step (s : SendLoop) (o : SendtoResult) : Option SendLoop :=
  if s.returned.isSome ∨ o.curSendByte < -1 ∨ s.bufLen < o.curSendByte then none
  else
    let s := { s with
      offers := s.offers ++ [(s.buf, s.bufLen)]
      accepted := s.accepted ++ s.offered.take o.curSendByte.toNat }
    if o.curSendByte < s.bufLen then
      if 0 < o.curSendByte then
        some { s with
          buf := s.buf + o.curSendByte.toNat
          bufLen := s.bufLen - o.curSendByte.toNat }
      -- a `sendto` that accepted nothing is judged by an `errno` it need not have set
      else if o.errno ≠ eagain then some { s with returned := some (-1) }
      else some s
    else some { s with returned := some 0 }

end SendLoop

/-- The loop as `send_netlink_cmd` enters it. -/
def startSend (msg : MsgTemplate) : SendLoop where
  msg := msg.bytes
  bufLen := msg.nlMsg.nlmsgLen.toNat

/-! ### What is sent -/

theorem CharArray.memcpy_eq_some {n : ℕ} (dst : CharArray n) (off : ℕ) (src : Bytes)
    (h : off + src.length ≤ n) :
    ∃ dst', CharArray.memcpy dst off src = some dst' ∧ dst'.bytes = overlay dst.bytes off src :=
  ⟨_, dif_pos h, rfl⟩

/-- The attribute of a request, padded with zeros. -/
def requestAttr (nlaType : UInt16) (nlaData : Bytes) (h : nlaData.length ≤ 1020) : Attribute where
  type := nlaType.toNat
  payload := nlaData
  pad := List.replicate (align4 (4 + nlaData.length) - (4 + nlaData.length)) 0
  type_lt := nlaType.toNat_lt
  len_lt := by omega
  pad_length := List.length_replicate

section

variable (nlMsgType : UInt16) (nlMsgPid : UInt32) (genlCmd : UInt8) (nlaType : UInt16)
  {nlaData : Bytes} (h : nlaData.length ≤ 1020)

/-- The attribute written over a zeroed buffer, type first. -/
theorem overlay_requestAttr :
    overlay (overlay (overlay (List.replicate maxNetlinkMsgSize 0) 2 (natLE 2 nlaType.toNat)) 0
        (natLE 2 (4 + nlaData.length))) 4 nlaData
      = (requestAttr nlaType nlaData h).encode
        ++ List.replicate (maxNetlinkMsgSize - (requestAttr nlaType nlaData h).size) 0 := by
  -- the buffer as the places that the type, the length and the payload are written to
  have hzeros : List.replicate maxNetlinkMsgSize (0 : UInt8)
      = List.replicate 2 0 ++ (List.replicate 2 0 ++ (List.replicate nlaData.length 0
        ++ List.replicate (1020 - nlaData.length) 0)) := by
    simp only [List.replicate_append_replicate]
    congr 1
    unfold maxNetlinkMsgSize
    omega
  have htype (B : Bytes) :
      overlay (List.replicate 2 0 ++ (List.replicate 2 0 ++ B)) 2 (natLE 2 nlaType.toNat)
        = List.replicate 2 0 ++ (natLE 2 nlaType.toNat ++ B) :=
    overlay_append List.length_replicate ((length_natLE _ _).trans List.length_replicate.symm)
  have hlen (B : Bytes) : overlay (List.replicate 2 0 ++ B) 0 (natLE 2 (4 + nlaData.length))
      = natLE 2 (4 + nlaData.length) ++ B := by
    have hhead := overlay_append (C := B) List.length_nil
      ((length_natLE 2 (4 + nlaData.length)).trans (List.length_replicate (a := (0 : UInt8))).symm)
    rwa [List.nil_append, List.nil_append] at hhead
  have hdata (C : Bytes) :
      overlay ((natLE 2 (4 + nlaData.length) ++ natLE 2 nlaType.toNat)
        ++ (List.replicate nlaData.length 0 ++ C)) 4 nlaData
        = (natLE 2 (4 + nlaData.length) ++ natLE 2 nlaType.toNat) ++ (nlaData ++ C) :=
    overlay_append (by simp) List.length_replicate.symm
  -- the zeros that are left are the padding and what is not sent
  have hpad : List.replicate (1020 - nlaData.length) (0 : UInt8)
      = (requestAttr nlaType nlaData h).pad
        ++ List.replicate (maxNetlinkMsgSize - (requestAttr nlaType nlaData h).size) 0 := by
    have hle := le_align4 (4 + nlaData.length)
    have hlt : align4 (4 + nlaData.length) ≤ 1024 := by
      unfold align4
      omega
    simp only [requestAttr, Attribute.size, Attribute.len, List.replicate_append_replicate]
    congr 1
    unfold maxNetlinkMsgSize
    omega
  rw [hzeros, htype, hlen, ← List.append_assoc, hdata, hpad, Attribute.encode]
  simp only [List.append_assoc]
  rfl

/-- **The message built for a payload that fits.** -/
theorem buildMsg_eq_some :
    ∃ buf : CharArray maxNetlinkMsgSize,
      buildMsg nlMsgType nlMsgPid genlCmd nlaType nlaData = some {
        nlMsg := {
          nlmsgLen := .ofNat (genlmsgData + (requestAttr nlaType nlaData h).size)
          nlmsgType := nlMsgType
          nlmsgFlags := nlmFRequest
          nlmsgSeq := 0
          nlmsgPid := nlMsgPid }
        genlMsg := { cmd := genlCmd, version := taskstatsGenlVersion }
        buf } ∧
      buf.bytes = (requestAttr nlaType nlaData h).encode
        ++ List.replicate (maxNetlinkMsgSize - (requestAttr nlaType nlaData h).size) 0 := by
  have hnlaLen : (UInt16.ofNat (nlaData.length + nlaHdrlen)).toNat = 4 + nlaData.length := by
    rw [UInt16.toNat_ofNat', nlaHdrlen, Nat.mod_eq_of_lt (by omega), Nat.add_comm]
  have hzeros : (CharArray.zeros maxNetlinkMsgSize).bytes = List.replicate maxNetlinkMsgSize 0 := rfl
  -- the three copies stay inside `buf`
  obtain ⟨b₁, h₁, hb₁⟩ := CharArray.memcpy_eq_some (.zeros maxNetlinkMsgSize) 2
    (natLE 2 nlaType.toNat) (by rw [length_natLE]; decide)
  obtain ⟨b₂, h₂, hb₂⟩ := CharArray.memcpy_eq_some b₁ 0 (natLE 2 (4 + nlaData.length))
    (by rw [length_natLE]; decide)
  obtain ⟨b₃, h₃, hb₃⟩ := CharArray.memcpy_eq_some b₂ 4 nlaData
    (by unfold maxNetlinkMsgSize; omega)
  refine ⟨b₃, ?_, ?_⟩
  · unfold buildMsg
    simp only [Nat.zero_add, Netlink.nlaData, nlaHdrlen] at hnlaLen ⊢
    rw [hnlaLen, h₁, Option.bind_eq_bind, Option.bind_some, h₂, Option.bind_some, h₃,
      Option.bind_some, ← UInt32.ofNat_add]
    rfl
  · rw [hb₃, hb₂, hb₁, hzeros]
    exact overlay_requestAttr nlaType h

/-- A request decodes to its fields and its one attribute. -/
theorem decodeRequest_encode (a : Attribute) {len : ℕ} (hlen : len < 256 ^ 4) :
    decodeRequest 1 (natLE 4 len ++ (natLE 2 nlMsgType.toNat ++ (natLE 2 nlmFRequest.toNat ++
        (natLE 4 0 ++ (natLE 4 nlMsgPid.toNat ++ (natLE 1 genlCmd.toNat ++
        (natLE 1 taskstatsGenlVersion.toNat ++ (natLE 2 0 ++ a.encode))))))))
      = some {
          nlmsgLen := len
          nlmsgType := nlMsgType.toNat
          nlmsgFlags := nlmFRequest.toNat
          nlmsgSeq := 0
          nlmsgPid := nlMsgPid.toNat
          cmd := genlCmd.toNat
          version := taskstatsGenlVersion.toNat
          reserved := 0
          attrs := [a.fields] } := by
  have hattrs : Attribute.decodeAll 1 a.encode = some [a.fields] := by
    have hone := Attribute.decodeAll_encodeAll [a]
    simpa [Attribute.encodeAll] using hone
  -- each field is as wide as the integer it holds
  have htype : nlMsgType.toNat < 256 ^ 2 := nlMsgType.toNat_lt
  have hflags : nlmFRequest.toNat < 256 ^ 2 := nlmFRequest.toNat_lt
  have hzero (n : ℕ) : 0 < 256 ^ n := Nat.pow_pos (by decide)
  have hpid : nlMsgPid.toNat < 256 ^ 4 := nlMsgPid.toNat_lt
  have hcmd : genlCmd.toNat < 256 ^ 1 := genlCmd.toNat_lt
  have hversion : taskstatsGenlVersion.toNat < 256 ^ 1 := taskstatsGenlVersion.toNat_lt
  simp only [decodeRequest, Option.bind_eq_bind, Option.bind_some, takeLE_natLE _ hlen,
    takeLE_natLE _ htype, takeLE_natLE _ hflags, takeLE_natLE _ (hzero _), takeLE_natLE _ hpid,
    takeLE_natLE _ hcmd, takeLE_natLE _ hversion, hattrs]

include h

/-- What the first `sendto` is handed: the header, the generic header and the attribute. -/
theorem exists_buildMsg_offered :
    ∃ msg, buildMsg nlMsgType nlMsgPid genlCmd nlaType nlaData = some msg ∧
      msg.nlMsg.nlmsgLen.toNat = genlmsgData + (requestAttr nlaType nlaData h).size ∧
      (startSend msg).offered = natLE 4 msg.nlMsg.nlmsgLen.toNat ++ (natLE 2 nlMsgType.toNat ++
        (natLE 2 nlmFRequest.toNat ++ (natLE 4 0 ++ (natLE 4 nlMsgPid.toNat ++
        (natLE 1 genlCmd.toNat ++ (natLE 1 taskstatsGenlVersion.toNat ++ (natLE 2 0 ++
        (requestAttr nlaType nlaData h).encode))))))) := by
  obtain ⟨buf, hbuild, hbuf⟩ := buildMsg_eq_some nlMsgType nlMsgPid genlCmd nlaType h
  have hlen : (UInt32.ofNat (genlmsgData + (requestAttr nlaType nlaData h).size)).toNat
      = genlmsgData + (requestAttr nlaType nlaData h).size := by
    rw [UInt32.toNat_ofNat', Nat.mod_eq_of_lt]
    simp only [requestAttr, Attribute.size, Attribute.len, align4, genlmsgData, nlmsgHdrlen,
      genlHdrlen]
    omega
  refine ⟨_, hbuild, hlen, ?_⟩
  simp only [SendLoop.offered, startSend, MsgTemplate.bytes, List.drop_zero, hbuf]
  rw [hlen]
  simp only [← List.append_assoc]
  refine List.take_left' ?_
  simp only [List.length_append, length_natLE, Attribute.length_encode]
  rfl

/-- What is sent has the length it declares. -/
theorem length_offered_of_buildMsg {msg : MsgTemplate}
    (hbuild : buildMsg nlMsgType nlMsgPid genlCmd nlaType nlaData = some msg) :
    (startSend msg).offered.length = msg.nlMsg.nlmsgLen.toNat ∧
      msg.nlMsg.nlmsgLen.toNat = genlmsgData + (requestAttr nlaType nlaData h).size := by
  obtain ⟨_, hbuild', hlen, hoffered⟩ :=
    exists_buildMsg_offered nlMsgType nlMsgPid genlCmd nlaType h
  obtain rfl := Option.some.inj (hbuild.symm.trans hbuild')
  refine ⟨?_, hlen⟩
  rw [hoffered, hlen]
  simp only [List.length_append, length_natLE, Attribute.length_encode, genlmsgData, nlmsgHdrlen,
    genlHdrlen]
  omega

/-- **A request decodes to what was asked for**, with one attribute whose padding is
zero; what is sent has the length it declares, and fits the message. -/
theorem decodeRequest_buildMsg :
    ∃ msg, buildMsg nlMsgType nlMsgPid genlCmd nlaType nlaData = some msg ∧
      (startSend msg).offered.length = msg.nlMsg.nlmsgLen.toNat ∧
      (startSend msg).offered.length ≤ msgTemplateSize ∧
      ∃ pad : ℕ, decodeRequest 1 (startSend msg).offered = some {
        nlmsgLen := (startSend msg).offered.length
        nlmsgType := nlMsgType.toNat
        nlmsgFlags := nlmFRequest.toNat
        nlmsgSeq := 0
        nlmsgPid := nlMsgPid.toNat
        cmd := genlCmd.toNat
        version := taskstatsGenlVersion.toNat
        reserved := 0
        attrs := [(nlaType.toNat, nlaData, List.replicate pad 0)] } := by
  obtain ⟨msg, hbuild, hlen, hoffered⟩ :=
    exists_buildMsg_offered nlMsgType nlMsgPid genlCmd nlaType h
  have hlength := (length_offered_of_buildMsg nlMsgType nlMsgPid genlCmd nlaType h hbuild).1
  refine ⟨msg, hbuild, hlength, ?_, ?_⟩
  · rw [hlength, hlen]
    simp only [requestAttr, Attribute.size, Attribute.len, align4, genlmsgData, nlmsgHdrlen,
      genlHdrlen, msgTemplateSize, maxNetlinkMsgSize]
    omega
  · refine ⟨(requestAttr nlaType nlaData h).pad.length, ?_⟩
    rw [hlength, hoffered, decodeRequest_encode nlMsgType nlMsgPid genlCmd _
      msg.nlMsg.nlmsgLen.toNat_lt]
    simp [requestAttr, Attribute.fields]

end

/-- The request for the family id, whose payload `"TASKSTATS"` is padded by two bytes. -/
theorem decodeRequest_buildMsg_family :
    [84, 65, 83, 75, 83, 84, 65, 84, 83, 0].length ≤ 1020 ∧
    ∃ msg, buildMsg 16 1 3 2 [84, 65, 83, 75, 83, 84, 65, 84, 83, 0] = some msg ∧
      (startSend msg).offered.length = msg.nlMsg.nlmsgLen.toNat ∧
      (startSend msg).offered.length ≤ msgTemplateSize ∧
      ∃ pad : ℕ, decodeRequest 1 (startSend msg).offered = some {
        nlmsgLen := (startSend msg).offered.length
        nlmsgType := 16
        nlmsgFlags := 1
        nlmsgSeq := 0
        nlmsgPid := 1
        cmd := 3
        version := 1
        reserved := 0
        attrs := [(2, [84, 65, 83, 75, 83, 84, 65, 84, 83, 0], List.replicate pad 0)] } :=
  ⟨by decide, decodeRequest_buildMsg 16 1 3 2 (by decide)⟩

/-! ### How it is sent -/

namespace SendLoop

/-- What has been accepted of `m`, and what is still offered, is `m`; and what is offered
is never empty, and always the end of `m`. -/
structure Inv (m : Bytes) (s : SendLoop) : Prop where
  pos : 0 < s.bufLen
  inside : s.buf + s.bufLen = m.length
  rest : s.returned ≠ some 0 → s.accepted ++ s.offered = m ∧ s.accepted.length = s.buf
  done : s.returned = some 0 → s.accepted = m
  offers : ∀ offer ∈ s.offers, 0 < offer.2 ∧ offer.1 + offer.2 = m.length

variable {m : Bytes} {s s' : SendLoop} {o : SendtoResult}

/-- What a `sendto` can lead to: it has accepted a part of what it was offered, or nothing, or
all of it. -/
theorem step_cases (h : s.step o = some s') :
    s.returned = none ∧ s'.offers = s.offers ++ [(s.buf, s.bufLen)] ∧ s'.msg = s.msg ∧
      ((∃ k : ℕ, o.curSendByte = k ∧ 0 < k ∧ k < s.bufLen ∧ s'.buf = s.buf + k ∧
          s'.bufLen = s.bufLen - k ∧ s'.accepted = s.accepted ++ s.offered.take k ∧
          s'.returned = none) ∨
        (o.curSendByte ≤ 0 ∧ s'.buf = s.buf ∧ s'.bufLen = s.bufLen ∧ s'.accepted = s.accepted ∧
          s'.returned = if o.errno = eagain then none else some (-1)) ∨
        (s.bufLen ≤ o.curSendByte ∧ s'.buf = s.buf ∧ s'.bufLen = s.bufLen ∧
          s'.accepted = s.accepted ++ s.offered ∧ s'.returned = some 0)) := by
  unfold step at h
  split at h
  · cases h
  · rename_i hok
    simp only [not_or, Bool.not_eq_true, Option.isSome_eq_false_iff, Option.isNone_iff_eq_none,
      not_lt] at hok
    obtain ⟨hnone, -, hle⟩ := hok
    simp only at h
    split at h
    · rename_i hlt
      split at h
      · rename_i hpos
        obtain rfl := Option.some.inj h
        refine ⟨hnone, rfl, rfl, Or.inl ⟨o.curSendByte.toNat, ?_, ?_, ?_, rfl, rfl, rfl, hnone⟩⟩
        · exact (Int.toNat_of_nonneg hpos.le).symm
        · omega
        · omega
      · rename_i hpos
        have htake : s.accepted ++ s.offered.take o.curSendByte.toNat = s.accepted := by
          rw [Int.toNat_of_nonpos (not_lt.1 hpos), List.take_zero, List.append_nil]
        split at h
        · rename_i herrno
          obtain rfl := Option.some.inj h
          exact ⟨hnone, rfl, rfl,
            Or.inr (Or.inl ⟨not_lt.1 hpos, rfl, rfl, htake, (if_neg herrno).symm⟩)⟩
        · rename_i herrno
          obtain rfl := Option.some.inj h
          refine ⟨hnone, rfl, rfl, Or.inr (Or.inl ⟨not_lt.1 hpos, rfl, rfl, htake, ?_⟩)⟩
          rw [if_pos (not_not.1 herrno)]
          exact hnone
    · rename_i hge
      obtain rfl := Option.some.inj h
      refine ⟨hnone, rfl, rfl, Or.inr (Or.inr ⟨not_lt.1 hge, rfl, rfl, ?_, rfl⟩)⟩
      have hfull : s.offered.length ≤ o.curSendByte.toNat := by
        have hlen : s.offered.length ≤ s.bufLen := List.length_take_le _ _
        omega
      rw [List.take_of_length_le hfull]

/-- One `sendto` keeps the invariant. -/
theorem Inv.step (h : Inv m s) (hs : s.step o = some s') : Inv m s' := by
  obtain ⟨hnone, hoffers, hmsg, hcases⟩ := step_cases hs
  obtain ⟨hrest, hlen⟩ := h.rest (by rw [hnone]; decide)
  have hoffers' : ∀ offer ∈ s'.offers, 0 < offer.2 ∧ offer.1 + offer.2 = m.length := by
    intro offer hmem
    rw [hoffers, List.mem_append, List.mem_singleton] at hmem
    rcases hmem with hmem | rfl
    · exact h.offers offer hmem
    · exact ⟨h.pos, h.inside⟩
  have hinside := h.inside
  rcases hcases with ⟨k, -, hpos, hlt, hbuf, hbufLen, hacc, hret⟩ |
    ⟨-, hbuf, hbufLen, hacc, hret⟩ | ⟨-, hbuf, hbufLen, hacc, hret⟩
  · -- the first `k` bytes offered move to what has been accepted
    have hsplit : s.offered = s.offered.take k ++ s'.offered := by
      have hadd : s.bufLen = k + (s.bufLen - k) := by omega
      have hk : min k s.bufLen = k := by omega
      rw [offered, offered, List.take_take, hk, hmsg, hbuf, hbufLen, ← List.drop_drop, hadd,
        List.take_add, ← hadd]
    refine ⟨by omega, by omega, fun _ => ⟨?_, ?_⟩, ?_, hoffers'⟩
    · rw [hacc, List.append_assoc, ← hsplit, hrest]
    · have hlength := congrArg List.length hrest
      rw [List.length_append] at hlength
      rw [hacc, List.length_append, List.length_take, hbuf]
      omega
    · intro hzero
      rw [hret] at hzero
      cases hzero
  · have hsame : s'.offered = s.offered := by rw [offered, offered, hmsg, hbuf, hbufLen]
    have hfailed : s'.returned ≠ some 0 := by
      rw [hret]
      split
      · exact (Option.some_ne_none 0).symm
      · decide
    refine ⟨?_, ?_, fun _ => ⟨?_, ?_⟩, fun hzero => absurd hzero hfailed, hoffers'⟩
    · rw [hbufLen]
      exact h.pos
    · rw [hbuf, hbufLen]
      exact hinside
    · rw [hacc, hsame, hrest]
    · rw [hacc, hbuf, hlen]
  · refine ⟨?_, ?_, fun hne => absurd hret hne, fun _ => ?_, hoffers'⟩
    · rw [hbufLen]
      exact h.pos
    · rw [hbuf, hbufLen]
      exact hinside
    · rw [hacc, hrest]

/-- A loop entered with a length its message has. -/
theorem inv_start {mem : Bytes} {len : ℕ} (hpos : 0 < len) (hlen : len ≤ mem.length) :
    Inv (mem.take len) { msg := mem, bufLen := len } := by
  refine ⟨hpos, ?_, fun _ => ⟨rfl, rfl⟩, ?_, ?_⟩
  · rw [List.length_take, Nat.zero_add, Nat.min_eq_left hlen]
  · intro hret
    cases hret
  · intro offer hmem
    cases hmem

/-- The loop returns on a `sendto` that accepted nothing, or all there was left. -/
theorem Inv.returned_cases (h : Inv m s) (hs : s.step o = some s') {res : ℤ}
    (hret : s'.returned = some res) :
    (res = -1 ∧ o.curSendByte ≤ 0 ∧ o.errno ≠ eagain) ∨ (res = 0 ∧ 0 < o.curSendByte) := by
  have hpos := h.pos
  obtain ⟨-, -, -, hcases⟩ := step_cases hs
  rcases hcases with ⟨k, -, -, -, -, -, -, hnone⟩ | ⟨hle, -, -, -, hreturned⟩ |
    ⟨hall, -, -, -, hreturned⟩
  · rw [hnone] at hret
    cases hret
  · rw [hreturned] at hret
    split at hret
    · cases hret
    · next herrno => exact Or.inl ⟨(Option.some.inj hret).symm, hle, herrno⟩
  · rw [hreturned] at hret
    exact Or.inr ⟨(Option.some.inj hret).symm, by omega⟩

/-- What has been accepted before the loop returns zero is a proper prefix. -/
theorem Inv.ssubset (h : Inv m s) (hret : s.returned ≠ some 0) :
    s.accepted <+: m ∧ s.accepted ≠ m := by
  obtain ⟨hrest, hlen⟩ := h.rest hret
  refine ⟨⟨s.offered, hrest⟩, ?_⟩
  intro heq
  have hpos := h.pos
  have hinside := h.inside
  have hlength := congrArg List.length heq
  omega

end SendLoop

/-- **A message is sent whole and once, or a proper prefix of it is**, and every call
offers what is left of it. -/
theorem accepted_of_run {mem : Bytes} {len : ℕ} (hpos : 0 < len) (hlen : len ≤ mem.length)
    {outcomes : List SendtoResult} {s : SendLoop}
    (hrun : runFrom SendLoop.step { msg := mem, bufLen := len } outcomes = some s) :
    (s.returned = some 0 → s.accepted = mem.take len) ∧
    (s.returned = some (-1) → s.accepted <+: mem.take len ∧ s.accepted ≠ mem.take len) ∧
    ∀ offer ∈ s.offers, 0 < offer.2 ∧ offer.1 + offer.2 = (mem.take len).length := by
  have hinv := Runs.invariant (SendLoop.Inv (mem.take len)) (fun _ _ _ h hs => h.step hs)
    (SendLoop.inv_start hpos hlen) hrun
  refine ⟨hinv.done, fun hret => hinv.ssubset ?_, hinv.offers⟩
  rw [hret]
  decide

/-- Five bytes sent two at first, nothing on `EAGAIN`, and then the rest. -/
theorem accepted_of_run_short :
    0 < 5 ∧ 5 ≤ [10, 11, 12, 13, 14, 0].length ∧
    ∃ s, runFrom SendLoop.step { msg := [10, 11, 12, 13, 14, 0], bufLen := 5 }
        [⟨2, 0⟩, ⟨-1, eagain⟩, ⟨3, 0⟩] = some s ∧
      s.returned = some 0 ∧ s.accepted = [10, 11, 12, 13, 14] ∧
      ∀ offer ∈ s.offers, 0 < offer.2 ∧ offer.1 + offer.2 = 5 := by
  refine ⟨by decide, by decide, _, rfl, rfl, ?_⟩
  have h := @accepted_of_run [10, 11, 12, 13, 14, 0] 5 (by decide) (by decide)
    [⟨2, 0⟩, ⟨-1, eagain⟩, ⟨3, 0⟩] _ rfl
  exact ⟨h.1 rfl, h.2.2⟩

end Netlink
end IotopCpp
