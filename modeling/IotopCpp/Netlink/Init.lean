import IotopCpp.Netlink.Request
import IotopCpp.Netlink.Bounds

/-!
# Initialisation

`NetlinkIoStats::init` of `collect/netlink.cpp`: a socket is opened, bound and made
non-blocking, the family id is asked for over it, and the reply is decoded.

What each system call gives is part of the input.  Beside the members of the class the
state has the descriptors that are open, which the source knows only by `sock_fd_`.

## Main definitions

* `NetlinkIoStats`, `InitAnswers` — the members, and what the system answers.
* `sendNetlinkCmd`, `initSock`, `init` — the functions.
* `Clean` — a failure leaves nothing behind, and a success has what it needs.

## Main results

* `sendNetlinkCmd_cases` — the last `sendto` decides what the request returns.
* `clean_iff` — initialisation is clean when no socket was opened, and when everything
  after that succeeds.
-/

namespace IotopCpp
namespace Netlink

open LittleEndian Runs Attribute

/-! ### Constants of the kernel headers -/

/-- `GENL_ID_CTRL`, `CTRL_CMD_GETFAMILY` and `CTRL_ATTR_FAMILY_NAME`. -/
def genlIdCtrl : UInt16 := 16

def ctrlCmdGetfamily : UInt8 := 3

def ctrlAttrFamilyName : UInt16 := 2

/-- `O_NONBLOCK`. -/
def oNonblock : Int32 := 2048

/-- `TASKSTATS_GENL_NAME`, with the NUL that `name.size() + 1` counts. -/
def taskstatsGenlName : Bytes := ascii "TASKSTATS" ++ [0]

/-! ### The functions -/

/-- The members of `class NetlinkIoStats`, and the descriptors it has opened and not
closed. -/
structure NetlinkIoStats where
  sockFd : ℤ := -1
  netlinkFamilyId : ℤ := -1
  openFds : List ℕ := []
  deriving DecidableEq

/-- What the system answers during `init`, to each of the calls in their order, whether
the program gets to them or not. -/
structure InitAnswers where
  /-- The descriptor `socket` gives, `none` when it returns `-1`. -/
  socket : Option ℕ
  bind : ℤ
  /-- `fcntl`, asked for the flags and given new ones. -/
  getfl : Int32
  setfl : Int32 → ℤ
  pid : UInt32
  sendto : List SendtoResult
  received : Received

/-- `NetlinkIoStats::send_netlink_cmd`, from what each `sendto` gives: nothing while
its loop has not returned. -/
def sendNetlinkCmd (nlMsgType : UInt16) (nlMsgPid : UInt32) (genlCmd : UInt8) (nlaType : UInt16)
    (nlaData : Bytes) (outcomes : List SendtoResult) : Option ℤ := do
  let msg ← buildMsg nlMsgType nlMsgPid genlCmd nlaType nlaData
  let s ← runFrom SendLoop.step (startSend msg) outcomes
  s.returned

/-- `NetlinkIoStats::init_sock`. -/
def initSock (o : InitAnswers) (st : NetlinkIoStats) : ℤ × NetlinkIoStats :=
  match o.socket with
  | none => (-1, { st with sockFd := -1 })
  | some fd =>
    let st := { st with sockFd := fd, openFds := fd :: st.openFds }
    -- the descriptor is closed, and `sock_fd_` keeps its number
    if o.bind < 0 then (-2, { st with openFds := st.openFds.erase fd })
    else
      let flags := o.getfl
      if o.setfl (flags ||| oNonblock) < 0 then (-3, st) else (0, st)

/-- `NetlinkIoStats::init`: the value returned, and the members as it leaves them.
There is none when it does not return, or reads outside the buffer of the reply. -/
def init (o : InitAnswers) (st : NetlinkIoStats) : Option (ℤ × NetlinkIoStats) :=
  let sock := initSock o st
  if sock.1 < 0 then some (-1, sock.2)
  else do
    let res ← sendNetlinkCmd genlIdCtrl o.pid ctrlCmdGetfamily ctrlAttrFamilyName
      taskstatsGenlName o.sendto
    let family ← (initNetlinkFamilyId res o.received sock.2.netlinkFamilyId).result.toOption
    let st := { sock.2 with netlinkFamilyId := family.2 }
    if family.1 < 0 then some (-2, st) else some (0, st)

/-! ### What initialisation should do -/

/-- The message has two attributes at its start, and the second is the id of a family. -/
structure FamilyReply (msg : MsgBuf) (first second : Attribute) : Prop where
  allAt : AllAt msg.bytes genlmsgData [first, second]
  inside : genlmsgData + first.size + second.len ≤ msg.nlmsgLen
  type : second.type = ctrlAttrFamilyId
  length : second.payload.length = 2
  ne_zero : leNat second.payload ≠ 0

/-- **Initialisation is clean**: where it fails every descriptor is closed and the
members are as they were, and where it succeeds the socket is open and the family id
is that of the reply. -/
structure Clean (o : InitAnswers) (ret : ℤ) (st : NetlinkIoStats) : Prop where
  failed : ret < 0 → st.openFds = [] ∧ st.sockFd = -1 ∧ st.netlinkFamilyId = -1
  succeeded : ret = 0 → (∃ fd ∈ st.openFds, st.sockFd = fd) ∧
    ∃ repLen msg first second, o.received = .message repLen msg ∧
      FamilyReply msg first second ∧ st.netlinkFamilyId = leNat second.payload

/-- The last `sendto` accepted nothing, for a reason other than `EAGAIN`. -/
def SendFails (outcomes : List SendtoResult) : Prop :=
  ∃ last ∈ outcomes.getLast?, last.curSendByte ≤ 0 ∧ last.errno ≠ eagain

/-- Nothing fails after the socket was opened, and the reply has a family id. -/
structure Succeeds (o : InitAnswers) : Prop where
  bind : 0 ≤ o.bind
  setfl : 0 ≤ o.setfl (o.getfl ||| oNonblock)
  sendto : ¬SendFails o.sendto
  received : ∃ repLen msg first second, o.received = .message repLen msg ∧
    nlmsgOk msg repLen = true ∧ msg.nlmsgType ≠ nlmsgError ∧ FamilyReply msg first second

/-! ### The request for the family -/

/-- **The last `sendto` decides** what a request returns. -/
theorem sendNetlinkCmd_cases {nlMsgType : UInt16} {nlMsgPid : UInt32} {genlCmd : UInt8}
    {nlaType : UInt16} {nlaData : Bytes} (hle : nlaData.length ≤ 1020)
    {outcomes : List SendtoResult} {res : ℤ}
    (h : sendNetlinkCmd nlMsgType nlMsgPid genlCmd nlaType nlaData outcomes = some res) :
    (res = -1 ∧ SendFails outcomes) ∨ (res = 0 ∧ ¬SendFails outcomes) := by
  simp only [sendNetlinkCmd, Option.bind_eq_bind, Option.bind_eq_some_iff] at h
  obtain ⟨msg, hbuild, s, hrun, hret⟩ := h
  obtain ⟨hlength, hlen⟩ :=
    length_offered_of_buildMsg nlMsgType nlMsgPid genlCmd nlaType hle hbuild
  have hpos : 0 < msg.nlMsg.nlmsgLen.toNat := by
    rw [hlen]
    exact Nat.add_pos_left (by decide) _
  have hroom : msg.nlMsg.nlmsgLen.toNat ≤ msg.bytes.length := by
    rw [← hlength]
    exact List.length_take_le' _ _
  have hstart := SendLoop.inv_start hpos hroom
  -- the invariant holds before the last `sendto`, and that is the one which returned
  rcases List.eq_nil_or_concat' outcomes with rfl | ⟨before, last, rfl⟩
  · obtain rfl := Option.some.inj hrun
    cases hret
  · obtain ⟨s₁, hbefore, hlast⟩ := runFrom_concat.1 hrun
    have hinv := Runs.invariant (SendLoop.Inv (msg.bytes.take msg.nlMsg.nlmsgLen.toNat))
      (fun _ _ _ h hs => h.step hs) hstart hbefore
    have hfails : SendFails (before ++ [last]) ↔ last.curSendByte ≤ 0 ∧ last.errno ≠ eagain := by
      unfold SendFails
      simp
    rw [hfails]
    rcases hinv.returned_cases hlast hret with ⟨rfl, hle, herrno⟩ | ⟨rfl, hsent⟩
    · exact Or.inl ⟨rfl, hle, herrno⟩
    · exact Or.inr ⟨rfl, fun hfails => absurd hfails.1 (not_le.2 hsent)⟩

/-! ### The reply -/

/-- A family id is decoded. -/
theorem result_initNetlinkFamilyId {msg : MsgBuf} {first second : Attribute}
    (h : FamilyReply msg first second) {repLen : ℕ} (hok : nlmsgOk msg repLen = true)
    (herr : msg.nlmsgType ≠ nlmsgError) (netlinkFamilyId : ℤ) :
    (initNetlinkFamilyId 0 (.message repLen msg) netlinkFamilyId).result
      = .ok (0, (leNat second.payload : ℤ)) := by
  have hfirst := h.allAt.head
  have hsecond := h.allAt.tail.head
  have hpayload : readLE msg.bytes (genlmsgData + first.size + nlaHdrlen) 2
      = some (leNat second.payload) := by
    have hread : readLE msg.bytes (genlmsgData + first.size + 4 + 0) 2
        = readLE second.payload 0 2 := hsecond.readLE_payload h.length.ge
    have hwhole : readLE second.payload 0 2 = some (leNat second.payload) := by
      rw [readLE_of_le h.length.ge, List.drop_zero, List.take_of_length_le h.length.le]
    exact hread.trans hwhole
  -- the three reads of the decoder
  have hlenRead : msg.read ⟨.len, genlmsgData, genlmsgData, 2⟩ = ⟨_, .ok first.len⟩ :=
    read_of_at hfirst.readLE_len
  have htypeRead : msg.read ⟨.type, genlmsgData + first.size, genlmsgData + first.size + 2, 2⟩
      = ⟨_, .ok second.type⟩ := read_of_at hsecond.readLE_type
  have hidRead : msg.read
      ⟨.familyId, genlmsgData + first.size, genlmsgData + first.size + nlaHdrlen, 2⟩
      = ⟨_, .ok (leNat second.payload)⟩ := read_of_at hpayload
  have hsize : nlaAlign first.len = first.size := rfl
  simp only [initNetlinkFamilyId, hok, herr, Bool.not_true, if_false, Bool.false_eq_true,
    lt_irrefl, hlenRead, Traced.bind_ok, hsize, htypeRead, h.type, ne_eq, not_true_eq_false, hidRead,
    h.ne_zero]
  rfl

/-- A decoder that does not fail was given a message that passes its checks. -/
theorem exists_message_of_nonneg {res : ℤ} {received : Received} {netlinkFamilyId : ℤ}
    {family : ℤ × ℤ}
    (h : (initNetlinkFamilyId res received netlinkFamilyId).result = .ok family)
    (hnonneg : 0 ≤ family.1) :
    0 ≤ res ∧ ∃ repLen msg, received = .message repLen msg ∧ nlmsgOk msg repLen = true ∧
      msg.nlmsgType ≠ nlmsgError := by
  unfold initNetlinkFamilyId at h
  split at h
  · obtain rfl := Except.ok.inj h
    simp at hnonneg
  · next hres =>
    refine ⟨not_lt.1 hres, ?_⟩
    split at h
    · obtain rfl := Except.ok.inj h
      simp at hnonneg
    · next repLen msg =>
      split at h
      · obtain rfl := Except.ok.inj h
        simp at hnonneg
      · next hok =>
        split at h
        · obtain rfl := Except.ok.inj h
          simp at hnonneg
        · next herr => exact ⟨repLen, msg, rfl, by simpa using hok, herr⟩

/-! ### How initialisation ends -/

/-- **What initialisation comes to** from fresh members. -/
theorem init_cases {o : InitAnswers} {ret : ℤ} {st : NetlinkIoStats}
    (h : init o {} = some (ret, st)) :
    (o.socket = none ∧ ret = -1 ∧ st = {}) ∨
    ∃ fd, o.socket = some fd ∧
      ((o.bind < 0 ∧ ret = -1 ∧ st = { sockFd := fd }) ∨
      (0 ≤ o.bind ∧ o.setfl (o.getfl ||| oNonblock) < 0 ∧ ret = -1 ∧
        st = { sockFd := fd, openFds := [fd] }) ∨
      (0 ≤ o.bind ∧ 0 ≤ o.setfl (o.getfl ||| oNonblock) ∧ ∃ res family,
        sendNetlinkCmd genlIdCtrl o.pid ctrlCmdGetfamily ctrlAttrFamilyName taskstatsGenlName
          o.sendto = some res ∧
        (initNetlinkFamilyId res o.received (-1)).result = .ok family ∧
        ret = (if family.1 < 0 then -2 else 0) ∧
        st = { sockFd := fd, netlinkFamilyId := family.2, openFds := [fd] })) := by
  cases hsocket : o.socket with
  | none =>
    simp only [init, initSock, hsocket] at h
    obtain ⟨rfl, rfl⟩ := Prod.mk.inj (Option.some.inj h)
    exact Or.inl ⟨rfl, rfl, rfl⟩
  | some fd =>
    refine Or.inr ⟨fd, rfl, ?_⟩
    by_cases hbind : o.bind < 0
    · simp only [init, initSock, hsocket, hbind, if_true] at h
      obtain ⟨rfl, rfl⟩ := Prod.mk.inj (Option.some.inj h)
      refine Or.inl ⟨hbind, rfl, ?_⟩
      simp
    · refine Or.inr ?_
      by_cases hsetfl : o.setfl (o.getfl ||| oNonblock) < 0
      · -- only here the descriptor stays open behind a failure of `init_sock`
        simp only [init, initSock, hsocket, hbind, if_false, hsetfl, if_true] at h
        obtain ⟨rfl, rfl⟩ := Prod.mk.inj (Option.some.inj h)
        exact Or.inl ⟨not_lt.1 hbind, hsetfl, rfl, rfl⟩
      · simp only [init, initSock, hsocket, hbind, hsetfl, if_false, lt_irrefl,
          Option.bind_eq_bind, Option.bind_eq_some_iff] at h
        obtain ⟨res, hres, family, hfamily, hret⟩ := h
        refine Or.inr ⟨not_lt.1 hbind, not_lt.1 hsetfl, res, family, hres, ?_, ?_⟩
        · cases hresult : (initNetlinkFamilyId res o.received (-1)).result with
          | error e =>
            rw [hresult] at hfamily
            cases hfamily
          | ok family' =>
            rw [hresult] at hfamily
            exact congrArg _ (Option.some.inj hfamily)
        · split at hret
          · next hneg =>
            obtain ⟨rfl, rfl⟩ := Prod.mk.inj (Option.some.inj hret)
            exact ⟨(if_pos hneg).symm, rfl⟩
          · next hnonneg =>
            obtain ⟨rfl, rfl⟩ := Prod.mk.inj (Option.some.inj hret)
            exact ⟨(if_neg hnonneg).symm, rfl⟩

/-- A descriptor that is still open after a failure has leaked. -/
theorem not_clean_of_open {o : InitAnswers} {ret : ℤ} {st : NetlinkIoStats} (hret : ret < 0)
    (hopen : st.openFds ≠ []) : ¬Clean o ret st :=
  fun hclean => hopen (hclean.failed hret).1

/-- Once the request is sent, nothing may fail: every failure leaks the descriptor. -/
theorem clean_sent_iff {o : InitAnswers} {fd : ℕ} {res : ℤ} {family : ℤ × ℤ}
    (hsend : (res = -1 ∧ SendFails o.sendto) ∨ (res = 0 ∧ ¬SendFails o.sendto))
    (hfamily : (initNetlinkFamilyId res o.received (-1)).result = .ok family) :
    Clean o (if family.1 < 0 then -2 else 0)
        { sockFd := fd, netlinkFamilyId := family.2, openFds := [fd] } ↔
      ¬SendFails o.sendto ∧ ∃ repLen msg first second, o.received = .message repLen msg ∧
        nlmsgOk msg repLen = true ∧ msg.nlmsgType ≠ nlmsgError ∧ FamilyReply msg first second := by
  refine ⟨?_, ?_⟩
  · intro hclean
    -- the descriptor is open, so a clean return is not a failure
    have hnonneg : 0 ≤ family.1 := by
      by_contra hneg
      rw [if_pos (not_le.1 hneg)] at hclean
      exact not_clean_of_open (by decide) (List.cons_ne_nil fd []) hclean
    rw [if_neg (not_lt.2 hnonneg)] at hclean
    obtain ⟨-, repLen, msg, first, second, hreceived, hreply, -⟩ := hclean.succeeded rfl
    obtain ⟨hres, _, _, hreceived', hok, herr⟩ := exists_message_of_nonneg hfamily hnonneg
    obtain ⟨rfl, rfl⟩ := Received.message.inj (hreceived.symm.trans hreceived')
    refine ⟨?_, _, _, first, second, hreceived, hok, herr, hreply⟩
    rcases hsend with ⟨rfl, -⟩ | ⟨-, hsent⟩
    · exact absurd hres (by decide)
    · exact hsent
  · rintro ⟨hsent, repLen, msg, first, second, hreceived, hok, herr, hreply⟩
    obtain ⟨rfl, -⟩ := hsend.resolve_left fun hfails => hsent hfails.2
    rw [hreceived, result_initNetlinkFamilyId hreply hok herr] at hfamily
    obtain rfl := Except.ok.inj hfamily
    refine ⟨fun hneg => absurd hneg (lt_irrefl 0), fun _ => ⟨?_, ?_⟩⟩
    · exact ⟨fd, List.mem_singleton.2 rfl, rfl⟩
    · exact ⟨repLen, msg, first, second, hreceived, hreply, rfl⟩

/-- **When initialisation is clean.**  It is when no socket was opened, and when nothing
fails after one was. -/
theorem clean_iff {o : InitAnswers} {ret : ℤ} {st : NetlinkIoStats}
    (h : init o {} = some (ret, st)) : Clean o ret st ↔ o.socket = none ∨ Succeeds o := by
  rcases init_cases h with ⟨hsocket, rfl, rfl⟩ | ⟨fd, hsocket, hcases⟩
  · refine iff_of_true ⟨fun _ => ⟨rfl, rfl, rfl⟩, ?_⟩ (Or.inl hsocket)
    intro hzero
    cases hzero
  · have hor : o.socket = none ∨ Succeeds o ↔ Succeeds o := by simp [hsocket]
    rw [hor]
    rcases hcases with ⟨hbind, rfl, rfl⟩ | ⟨hbind, hsetfl, rfl, rfl⟩ |
      ⟨hbind, hsetfl, res, family, hres, hfamily, rfl, rfl⟩
    · -- `sock_fd_` names the descriptor that was closed
      refine iff_of_false (fun hclean => ?_) fun hs => not_lt.2 hs.bind hbind
      have hfd := (hclean.failed (by decide)).2.1
      simp only at hfd
      omega
    · exact iff_of_false (not_clean_of_open (by decide) (List.cons_ne_nil fd []))
        fun hs => not_lt.2 hs.setfl hsetfl
    · rw [clean_sent_iff (sendNetlinkCmd_cases (by decide) hres) hfamily]
      refine ⟨?_, fun hs => ⟨hs.sendto, hs.received⟩⟩
      intro hsent
      exact ⟨hbind, hsetfl, hsent.1, hsent.2⟩

/-- A reply with the name `"TASKSTATS"` and the family id 24. -/
def familyNameAttr : Attribute :=
  ⟨ctrlAttrFamilyName.toNat, taskstatsGenlName, [0, 0], by decide, by decide, by decide⟩

def familyIdAttr : Attribute :=
  ⟨ctrlAttrFamilyId, natLE 2 24, [0, 0], by decide, by decide, by decide⟩

def familyMsg : MsgBuf := .reply (encodeAll [familyNameAttr, familyIdAttr]) (by decide)

/-- A request that is sent in two pieces, and the reply to it. -/
def familyAnswers : InitAnswers where
  socket := some 3
  bind := 0
  getfl := 2
  setfl := fun _ => 0
  pid := 1
  sendto := [⟨20, 0⟩, ⟨-1, eagain⟩, ⟨16, 0⟩]
  received := .message 44 familyMsg

theorem clean_iff_familyAnswers :
    init familyAnswers {} = some (0, ⟨3, 24, [3]⟩) ∧
      (Clean familyAnswers 0 ⟨3, 24, [3]⟩ ↔ familyAnswers.socket = none ∨ Succeeds familyAnswers) :=
  have hinit : init familyAnswers {} = some (0, ⟨3, 24, [3]⟩) := by decide +kernel
  ⟨hinit, clean_iff hinit⟩

/-- A reply that does not arrive leaves the socket open. -/
theorem not_clean_unanswered :
    init { familyAnswers with received := .failed } {} = some (-2, ⟨3, -1, [3]⟩) ∧
      ¬Clean { familyAnswers with received := .failed } (-2) ⟨3, -1, [3]⟩ := by
  refine ⟨by decide +kernel, ?_⟩
  intro hclean
  cases (hclean.failed (by decide)).1

end Netlink
end IotopCpp
