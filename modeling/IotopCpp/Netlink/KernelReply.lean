import IotopCpp.Lib.Layout
import IotopCpp.Netlink.Lag

/-!
# What the kernel says about a task

The reply to `TASKSTATS_CMD_ATTR_PID` is one aggregate, of the id it is about and of a
`struct taskstats`.  That structure has grown with the kernel; the program knows seven of
its fields, and the bytes between and after them are the kernel's own.

## Main definitions

* `Taskstats.encode` — the structure, with these fields and any others.
* `Report` — what a reply says.
* `Reply.Reports` — a reply that says it.

## Main results

* `Taskstats.ofPayload_encode` — every field is read back from where it was written.
* `decoded_of_reports` — **what the kernel says is what the record holds.**
* `reported_of_run` — over a run of the socket, what the kernel says of the request that a
  call's lag leads to.
-/

namespace IotopCpp
namespace Netlink

open LittleEndian Traced Attribute Runs

namespace Taskstats

/-! ### The structure -/

/-- The fields the program copies, where they lie. -/
def slots (ts : Taskstats) : List Slot :=
  [⟨acUidField.1, acUidField.2, ts.acUid.toNat⟩,
    ⟨readCharField.1, readCharField.2, ts.readChar.toNat⟩,
    ⟨writeCharField.1, writeCharField.2, ts.writeChar.toNat⟩,
    ⟨readBytesField.1, readBytesField.2, ts.readBytes.toNat⟩,
    ⟨writeBytesField.1, writeBytesField.2, ts.writeBytes.toNat⟩,
    ⟨swapinDelayTotalField.1, swapinDelayTotalField.2, ts.swapinDelayTotal.toNat⟩,
    ⟨blkioDelayTotalField.1, blkioDelayTotalField.2, ts.blkioDelayTotal.toNat⟩]

/-- A `struct taskstats` with the fields of `ts`, over what the kernel has there. -/
def encode (ts : Taskstats) (base : Bytes) : Bytes := writeAll base ts.slots

/-- No two of the fields share a byte. -/
theorem pairwise_slots (ts : Taskstats) : ts.slots.Pairwise Slot.Apart := by
  simp only [slots, List.pairwise_cons, List.forall_mem_cons]
  simp [Slot.Apart, acUidField, readCharField, writeCharField, readBytesField, writeBytesField,
    swapinDelayTotalField, blkioDelayTotalField]

theorem fits_slots (ts : Taskstats) {n : ℕ} (h : fieldsEnd ≤ n) : ∀ f ∈ ts.slots, f.Fits n := by
  have hends (f : ℕ × ℕ) (hf : f.1 + f.2 ≤ fieldsEnd) : f.1 + f.2 ≤ n := hf.trans h
  obtain ⟨h₁, h₂, h₃, h₄, h₅, h₆, h₇⟩ := of_forall_field hends
  simp only [slots, List.forall_mem_cons]
  exact ⟨⟨h₁, ts.acUid.toNat_lt⟩, ⟨h₂, ts.readChar.toNat_lt⟩, ⟨h₃, ts.writeChar.toNat_lt⟩,
    ⟨h₄, ts.readBytes.toNat_lt⟩, ⟨h₅, ts.writeBytes.toNat_lt⟩, ⟨h₆, ts.swapinDelayTotal.toNat_lt⟩,
    ⟨h₇, ts.blkioDelayTotal.toNat_lt⟩, by simp⟩

variable {base : Bytes} (h : fieldsEnd ≤ base.length)

include h

theorem length_encode (ts : Taskstats) : (ts.encode base).length = base.length :=
  length_writeAll (ts.fits_slots h)

/-- **Every field is read back**, whatever the others hold. -/
theorem ofPayload_encode (ts : Taskstats) : ofPayload (ts.encode base) = ts := by
  have hread (f : Slot) (hf : f ∈ ts.slots) : readLE (ts.encode base) f.off f.size = some f.value :=
    readLE_writeAll (ts.fits_slots h) ts.pairwise_slots hf
  simp only [slots, List.forall_mem_cons] at hread
  obtain ⟨h₁, h₂, h₃, h₄, h₅, h₆, h₇, -⟩ := hread
  simp [ofPayload, h₁, h₂, h₃, h₄, h₅, h₆, h₇]

end Taskstats

/-! ### Replies -/

/-- What a reply says: the id it is about, and a `struct taskstats` that reaches to the last
field the program copies and leaves the message within `MAX_NETLINK_MSG_SIZE`. -/
structure Report where
  pid : UInt32
  stats : Taskstats
  base : Bytes
  long : Taskstats.fieldsEnd ≤ base.length
  short : base.length ≤ 1008

namespace Report

theorem pid_type_lt : 1 < 2 ^ 16 := by omega

theorem pid_len_lt (report : Report) : 4 + (natLE 4 report.pid.toNat).length < 2 ^ 16 := by
  rw [length_natLE]
  omega

theorem pid_pad_length (report : Report) :
    ([] : Bytes).length = align4 (4 + (natLE 4 report.pid.toNat).length)
      - (4 + (natLE 4 report.pid.toNat).length) := by
  rw [length_natLE]
  rfl

/-- `TASKSTATS_TYPE_PID`. -/
def pidAttr (report : Report) : Attribute where
  type := 1
  payload := natLE 4 report.pid.toNat
  pad := []
  type_lt := pid_type_lt
  len_lt := pid_len_lt report
  pad_length := pid_pad_length report

theorem stats_type_lt : taskstatsTypeStats < 2 ^ 16 := by
  unfold taskstatsTypeStats
  omega

theorem stats_len_lt (report : Report) :
    4 + (report.stats.encode report.base).length < 2 ^ 16 := by
  have hshort := report.short
  rw [Taskstats.length_encode report.long]
  omega

theorem stats_pad_length (report : Report) :
    (List.replicate (align4 (4 + report.base.length) - (4 + report.base.length)) (0 : UInt8)).length
      = align4 (4 + (report.stats.encode report.base).length)
        - (4 + (report.stats.encode report.base).length) := by
  rw [Taskstats.length_encode report.long, List.length_replicate]

/-- `TASKSTATS_TYPE_STATS`. -/
def statsAttr (report : Report) : Attribute where
  type := taskstatsTypeStats
  payload := report.stats.encode report.base
  pad := List.replicate (align4 (4 + report.base.length) - (4 + report.base.length)) 0
  type_lt := stats_type_lt
  len_lt := stats_len_lt report
  pad_length := stats_pad_length report

theorem length_nested (report : Report) :
    4 + (encodeAll [report.pidAttr, report.statsAttr]).length ≤ maxNetlinkMsgSize := by
  have hshort := report.short
  have hstats : report.statsAttr.size = align4 (4 + report.base.length) := by
    rw [Attribute.size, Attribute.len, statsAttr, Taskstats.length_encode report.long]
  have hpid : report.pidAttr.size = 8 := by
    rw [Attribute.size, Attribute.len, pidAttr, length_natLE]
    rfl
  rw [length_encodeAll_cons, length_encodeAll_cons, hstats, hpid, encodeAll_nil, List.length_nil]
  unfold align4 maxNetlinkMsgSize
  omega

theorem stats_full (report : Report) {b : Attribute} (hb : b ∈ [report.pidAttr, report.statsAttr])
    (htype : b.type = taskstatsTypeStats) : Taskstats.fieldsEnd ≤ b.payload.length := by
  rcases List.mem_cons.1 hb with rfl | hb
  · exact absurd htype (show 1 ≠ taskstatsTypeStats by decide)
  · rw [List.mem_singleton.1 hb, statsAttr, Taskstats.length_encode report.long]
    exact report.long

/-- `TASKSTATS_TYPE_AGGR_PID`, of the two. -/
def attr (report : Report) : ReplyAttr :=
  aggrPid [report.pidAttr, report.statsAttr] report.length_nested fun _ => report.stats_full

theorem length_attr (report : Report) :
    (encodeAll ([report.attr].map ReplyAttr.attr)).length ≤ maxNetlinkMsgSize := by
  rw [attr, size_aggrPid]
  exact report.length_nested

/-- The message, as it lies in the buffer. -/
def reply (report : Report) : Reply where
  repLen := genlmsgData + (encodeAll ([report.attr].map ReplyAttr.attr)).length
  msg := .reply _ report.length_attr

/-- Its statistics are the kernel's. -/
theorem statsOf_attr (report : Report) : statsOf [report.attr] = [report.statsAttr] := by
  unfold statsOf
  rw [List.flatMap_singleton]
  rfl

end Report

/-- The reply says that these are the statistics of a task, in the way the kernel says
it: one aggregate, with an id and a `struct taskstats`. -/
def Reply.Reports (a : Reply) (stats : Taskstats) : Prop :=
  ∃ report : Report, report.stats = stats ∧ Carries a.msg a.repLen [report.attr]

theorem Reply.eq_of_bytes {a b : Reply} (hlen : a.repLen = b.repLen)
    (hbytes : a.msg.bytes = b.msg.bytes) : a = b := by
  obtain ⟨repLen, ⟨bytes, hsize⟩⟩ := a
  obtain ⟨repLen', ⟨bytes', hsize'⟩⟩ := b
  obtain rfl : repLen = repLen' := hlen
  obtain rfl : bytes = bytes' := hbytes
  rfl

theorem Report.reports_reply (report : Report) : report.reply.Reports report.stats :=
  ⟨report, rfl, carries_reply report.length_attr⟩

/-- **What the kernel says is what the record holds.**  The decoder returns on every reply
that reports statistics, with zero and with these statistics copied into the record. -/
theorem decoded_of_reports {a : Reply} {stats : Taskstats} (h : a.Reports stats) {res : ℤ}
    (hres : 0 ≤ res) (ioStats : TaskIoInfo) :
    ∃ t, Yields (fun fuel => getTaskIoInfo fuel res (.message a.repLen a.msg) ioStats) t
      (0, stats.copyInto ioStats) := by
  obtain ⟨report, rfl, hcarries⟩ := h
  have hshort : ∀ a ∈ [report.attr], a.nested.length ≤ 2 := by
    intro a ha
    rw [List.mem_singleton.1 ha]
    exact le_rfl
  obtain ⟨t, ioStats', hyields, hstats, -⟩ := decodesReply_of_short hres hcarries hshort ioStats
  rw [report.statsOf_attr] at hstats
  obtain rfl := hstats report.statsAttr rfl
  refine ⟨t, ?_⟩
  rwa [Report.statsAttr, Taskstats.ofPayload_encode report.long] at hyields

/-- A task of the user 1000 that has read a page. -/
def readAPage : Report where
  pid := 7
  stats := { acUid := 1000, readChar := 4096, readBytes := 4096 }
  base := List.replicate 328 0
  long := by rw [List.length_replicate]; decide
  short := by rw [List.length_replicate]; decide

/-! ### Over a whole run -/

/-- Every answer that these calls took and could decode says what `kernel` says of the
request it answers. -/
def Truthful (kernel : Request → Taskstats) (rs : List Return) : Prop :=
  ∀ r ∈ rs, ∀ taken, r.taken = some taken → taken.2.Usable → taken.2.Reports (kernel taken.1)

/-- A call that returns zero has copied what the kernel says of some request, which is its
own exactly when nobody before it gave up. -/
theorem Return.Settled.reported {before : List Return} {r : Return} (h : Return.Settled before r)
    (hzero : r.code = 0) {kernel : Request → Taskstats} (htruth : Truthful kernel [r]) :
    ∃ q : Request, q.seq + behind before = r.call.request.seq ∧
      (q = r.call.request ↔ behind before = 0) ∧ r.ioStats = (kernel q).copyInto r.call.ioStats := by
  obtain ⟨fuel, hdecoded⟩ := h.decoded
  cases htaken : r.taken with
  | none =>
    rw [htaken] at hdecoded
    exact absurd hzero (code_ne_zero_of_failed hdecoded)
  | some taken =>
    have hsent := h.sent taken htaken
    rw [htaken] at hdecoded
    have husable := (code_eq_zero_iff hsent hdecoded).1 hzero
    have hreports := htruth r (List.mem_singleton.2 rfl) taken htaken husable
    obtain ⟨t, hyields⟩ := decoded_of_reports hreports hsent r.call.ioStats
    -- the decoder returned, and more fuel would not have changed what
    obtain ⟨-, hsame⟩ := ((grows_getTaskIoInfo _ _ _).yields_result hdecoded).unique hyields
    exact ⟨taken.1, h.lag taken htaken, h.own taken htaken, congrArg Prod.snd hsame⟩

/-- **What a call reports**: over any run of the socket, a call that returns zero has
copied what the kernel says of the request sent as many requests earlier as calls had given
up by then. -/
theorem reported_of_run {es : List Event} {s : Socket} (hrun : runFrom Socket.step {} es = some s)
    {kernel : Request → Taskstats} (htruth : Truthful kernel s.returns) {before after : List Return}
    {r : Return} (hreturns : s.returns = before ++ r :: after) (hzero : r.code = 0) :
    ∃ q : Request, q.seq + behind before = r.call.request.seq ∧
      (q = r.call.request ↔ behind before = 0) ∧
      r.ioStats = (kernel q).copyInto r.call.ioStats := by
  refine ((Socket.log_of_run hrun).settled before r after hreturns).reported hzero ?_
  intro r' hr'
  rw [List.mem_singleton.1 hr']
  exact htruth r (by rw [hreturns]; simp)

/-- One call, answered in time. -/
def asked : List Event := [.call 7 0 {}, .arrive readAPage.reply, .recv 60]

theorem asked_returns : ∃ s ∈ runFrom Socket.step {} asked, s.returns ≠ [] ∧
    ∀ r ∈ s.returns, r.code = 0 ∧ r.taken.all fun taken =>
      taken.2.repLen = readAPage.reply.repLen ∧ taken.2.msg.bytes = readAPage.reply.msg.bytes := by
  decide +kernel

/-- Replies that all are a report's say what it says. -/
theorem truthful_of_all {report : Report} {rs : List Return}
    (h : ∀ r ∈ rs, r.taken.all fun taken =>
      taken.2.repLen = report.reply.repLen ∧ taken.2.msg.bytes = report.reply.msg.bytes) :
    Truthful (fun _ => report.stats) rs := by
  intro r hr taken htaken _
  have hsame := h r hr
  rw [htaken, Option.all_some, decide_eq_true_eq] at hsame
  rw [Reply.eq_of_bytes hsame.1 hsame.2]
  exact report.reports_reply

theorem reported_of_run_asked :
    ∃ s ∈ runFrom Socket.step {} asked, ∃ before r after, s.returns = before ++ r :: after ∧
      r.ioStats = readAPage.stats.copyInto r.call.ioStats := by
  obtain ⟨s, hs, hne, hall⟩ := asked_returns
  have htruth := truthful_of_all fun r hr => (hall r hr).2
  obtain ⟨r, hr⟩ := List.exists_mem_of_ne_nil _ hne
  obtain ⟨before, after, hreturns⟩ := List.append_of_mem hr
  obtain ⟨q, -, -, hcopy⟩ := reported_of_run hs htruth hreturns (hall r hr).1
  exact ⟨s, hs, before, r, after, hreturns, hcopy⟩

end Netlink
end IotopCpp
