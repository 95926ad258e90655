import IotopCpp.Common
import IotopCpp.Lib.Attribute
import IotopCpp.Lib.Traced

/-!
# Netlink messages

The receive buffer, the macros of `collect/netlink.h` and of the kernel headers
that walk it, and the access-logged reads the decoders are written in.

Pointers are offsets from the start of the buffer.  A read outside the buffer
stops the decoder, and every read is logged, so that "every read made" can be
said; what lies in the buffer past the received bytes is arbitrary.

* `MsgBuf` — `struct NetlinkMsgTemplate` as bytes.
* `nlmsgOk`, `genlmsgPayload`, `nlaAlign`, … — the macros.
* `Access`, `Decode`, `MsgBuf.read` — logged reads.
* `Taskstats` — the fields of `struct taskstats` the program copies, and where
  they lie.
-/

namespace IotopCpp
namespace Netlink

open LittleEndian

/-! ### Constants of the kernel headers -/

/-- `NLMSG_ERROR`. -/
def nlmsgError : ℕ := 2

/-- `NLMSG_HDRLEN`, `GENL_HDRLEN` and `NLA_HDRLEN`. -/
def nlmsgHdrlen : ℕ := 16

def genlHdrlen : ℕ := 4

def nlaHdrlen : ℕ := 4

/-- `TASKSTATS_TYPE_STATS`, `TASKSTATS_TYPE_AGGR_PID` and `TASKSTATS_TYPE_AGGR_TGID`. -/
def taskstatsTypeStats : ℕ := 3

def taskstatsTypeAggrPid : ℕ := 4

def taskstatsTypeAggrTgid : ℕ := 5

/-- `CTRL_ATTR_FAMILY_ID`. -/
def ctrlAttrFamilyId : ℕ := 1

/-- `MAX_NETLINK_MSG_SIZE`. -/
def maxNetlinkMsgSize : ℕ := 1024

/-- `sizeof(struct NetlinkMsgTemplate)`. -/
def msgTemplateSize : ℕ := nlmsgHdrlen + genlHdrlen + maxNetlinkMsgSize

/-! ### The receive buffer -/

/-- `struct NetlinkMsgTemplate`, as the bytes it occupies: the received ones, and behind
them whatever the buffer had. -/
structure MsgBuf where
  bytes : Bytes
  size_eq : bytes.length = msgTemplateSize

namespace MsgBuf

/-- The 16-bit field at an offset, zero outside the buffer. -/
def u16 (msg : MsgBuf) (off : ℕ) : ℕ := (readLE msg.bytes off 2).getD 0

/-- `nl_msg.nlmsg_len`. -/
def nlmsgLen (msg : MsgBuf) : ℕ := (readLE msg.bytes 0 4).getD 0

/-- `nl_msg.nlmsg_type`. -/
def nlmsgType (msg : MsgBuf) : ℕ := msg.u16 4

end MsgBuf

/-- `NLMSG_OK(&msg.nl_msg, repLen)`. -/
def nlmsgOk (msg : MsgBuf) (repLen : ℕ) : Bool :=
  nlmsgHdrlen ≤ repLen && nlmsgHdrlen ≤ msg.nlmsgLen && msg.nlmsgLen ≤ repLen

/-- `GENLMSG_PAYLOAD(&msg.nl_msg)`.  The macro subtracts in `size_t`, and the
result is stored in an `ssize_t`, so a header-only message has a negative payload. -/
def genlmsgPayload (msg : MsgBuf) : ℤ := msg.nlmsgLen - nlmsgHdrlen - genlHdrlen

/-- `GENLMSG_DATA(&msg)`. -/
def genlmsgData : ℕ := nlmsgHdrlen + genlHdrlen

/-- `NLA_ALIGN(len)`. -/
def nlaAlign (len : ℕ) : ℕ := align4 len

/-- `NLA_DATA(na)`. -/
def nlaData (na : ℕ) : ℕ := na + nlaHdrlen

/-- `NLA_PAYLOAD(len)`. -/
def nlaPayload (len : ℕ) : ℤ := len - nlaHdrlen

/-! ### Logged reads -/

/-- What a decoder reads through an attribute pointer. -/
inductive What
  /-- `nla_len` and `nla_type` of an attribute of the message. -/
  | len
  | type
  /-- `nla_type` and `nla_len` of an attribute inside an aggregate. -/
  | nestedType
  | nestedLen
  /-- A field of the `struct taskstats` in the attribute. -/
  | taskstats
  /-- The payload of the family reply's second attribute. -/
  | familyId
  deriving DecidableEq

/-- One read: what for, of which attribute, and the bytes it covers.  The decoders log
their reads, so that where they look can be spoken of. -/
structure Access where
  what : What
  na : ℕ
  off : ℕ
  size : ℕ
  deriving DecidableEq

/-- Why a decoder stops without returning: it read outside the buffer, or the
fuel its loops were given is spent. -/
inductive Stop
  | outOfBounds
  | outOfFuel
  deriving DecidableEq

/-- A decoder: it logs its reads, and returns or stops. -/
abbrev Decode := Traced Access Stop

/-- A read through the attribute pointer `na`.  One that does not lie in the buffer stops
the decoder, since nothing can be said of what it would find. -/
def MsgBuf.read (msg : MsgBuf) (a : Access) : Decode ℕ where
  trace := [a]
  result := match readLE msg.bytes a.off a.size with
    | some v => .ok v
    | none => .error .outOfBounds

theorem MsgBuf.read_of_some {msg : MsgBuf} {a : Access} {v : ℕ}
    (h : readLE msg.bytes a.off a.size = some v) : msg.read a = ⟨[a], .ok v⟩ := by
  simp [MsgBuf.read, h]

section Reads

open Traced

variable {msg : MsgBuf}

theorem result_read {a : Access} {v : ℕ} :
    (msg.read a).result = .ok v ↔ readLE msg.bytes a.off a.size = some v := by
  unfold MsgBuf.read
  cases readLE msg.bytes a.off a.size <;> simp

/-- What a read followed by something else reads. -/
theorem mem_trace_read_bind {α : Type} {a b : Access} {f : ℕ → Decode α} :
    b ∈ (msg.read a >>= f).trace ↔
      b = a ∨ ∃ v, readLE msg.bytes a.off a.size = some v ∧ b ∈ (f v).trace := by
  have hread : (msg.read a).trace = [a] := rfl
  rw [mem_trace_bind, hread, List.mem_singleton]
  simp only [result_read]

/-- A header field inside the message has a value. -/
theorem readLE_u16 {off : ℕ} (h : off + 2 ≤ msg.bytes.length) :
    readLE msg.bytes off 2 = some (msg.u16 off) := by
  obtain ⟨v, hv⟩ := Option.isSome_iff_exists.1 (readLE_isSome.2 h)
  rw [MsgBuf.u16, hv]
  rfl

theorem u16_of_readLE {off v : ℕ} (h : readLE msg.bytes off 2 = some v) : msg.u16 off = v := by
  rw [MsgBuf.u16, h]
  rfl

end Reads

/-! ### The statistics of a task -/

/-- The fields of `struct taskstats` that the program copies. -/
structure Taskstats where
  acUid : UInt32 := 0
  readChar : UInt64 := 0
  writeChar : UInt64 := 0
  readBytes : UInt64 := 0
  writeBytes : UInt64 := 0
  swapinDelayTotal : UInt64 := 0
  blkioDelayTotal : UInt64 := 0
  deriving DecidableEq

namespace Taskstats

/-- Offset and width of each field in `struct taskstats` of `<linux/taskstats.h>`.
Fields are only ever appended to that structure, so these hold in every version
with I/O accounting. -/
def acUidField : ℕ × ℕ := (120, 4)

def readCharField : ℕ × ℕ := (216, 8)

def writeCharField : ℕ × ℕ := (224, 8)

def readBytesField : ℕ × ℕ := (248, 8)

def writeBytesField : ℕ × ℕ := (256, 8)

def swapinDelayTotalField : ℕ × ℕ := (56, 8)

def blkioDelayTotalField : ℕ × ℕ := (40, 8)

/-- Where the last of these fields ends. -/
def fieldsEnd : ℕ := 264

/-- What holds of every field up to that end holds of each of these. -/
theorem of_forall_field {P : ℕ × ℕ → Prop} (h : ∀ f : ℕ × ℕ, f.1 + f.2 ≤ fieldsEnd → P f) :
    P acUidField ∧ P readCharField ∧ P writeCharField ∧ P readBytesField ∧ P writeBytesField ∧
      P swapinDelayTotalField ∧ P blkioDelayTotalField := by
  have hends : ∀ f ∈ [acUidField, readCharField, writeCharField, readBytesField, writeBytesField,
      swapinDelayTotalField, blkioDelayTotalField], f.1 + f.2 ≤ fieldsEnd := by decide
  simp only [List.forall_mem_cons] at hends
  obtain ⟨h₁, h₂, h₃, h₄, h₅, h₆, h₇, -⟩ := hends
  exact ⟨h _ h₁, h _ h₂, h _ h₃, h _ h₄, h _ h₅, h _ h₆, h _ h₇⟩

/-- The six counters of the record the kernel sent. -/
def counters (ts : Taskstats) : Counters where
  readChar := ts.readChar
  writeChar := ts.writeChar
  realRead := ts.readBytes
  realWrite := ts.writeBytes
  swapinDelay := ts.swapinDelayTotal
  blkioDelay := ts.blkioDelayTotal

/-- The assignments to `io_stats`, in the source's order; the kernel's unsigned
user id is narrowed to an `int`. -/
def copyInto (ts : Taskstats) (r : TaskIoInfo) : TaskIoInfo :=
  { r with
    userId := Int.bmod ts.acUid.toNat (2 ^ 32)
    ioReadCharB := ts.readChar
    ioWriteCharB := ts.writeChar
    ioRealReadB := ts.readBytes
    ioRealWriteB := ts.writeBytes
    swapinDelayTotalNs := ts.swapinDelayTotal
    blkioDelayTotalNs := ts.blkioDelayTotal }

/-- A later copy leaves nothing of an earlier one. -/
@[simp] theorem copyInto_copyInto (ts ts' : Taskstats) (r : TaskIoInfo) :
    ts.copyInto (ts'.copyInto r) = ts.copyInto r := by
  unfold copyInto
  rfl

end Taskstats

end Netlink
end IotopCpp
