import IotopCpp.Netlink.Attribution

/-!
# How far behind a socket is

`get_task_io_info` gives up when its `recv` finds nothing, and nothing takes the answer
that comes later: it stays in the queue of the socket, where the next call finds it.
Every call after that is one answer behind, and no call ever catches up.

## Main definitions

* `Return.missed`, `behind` — a call that gave up on its answer, and how many there were.
* `Return.Settled` — what a return is, given the returns before it.
* `Socket.Log` — the invariant: what was taken and what is outstanding is what was sent.

## Main results

* `Socket.log_of_run` — the invariant holds over every run.
* `taken_behind_of_run` — **the lag is exact**: the answer a call takes is to the request
  sent as many requests earlier as calls had given up before it.
* `ownReply_iff_of_run` — a call that returns zero took its own answer exactly when no
  call before it gave up on one.
* `inOrder_of_run` — no answer is taken twice, and none is overtaken.
-/

namespace IotopCpp
namespace Netlink

open Runs Traced

/-! ### Calls that gave up -/

/-- The request was sent and the call returned without an answer, which is still to come. -/
def Return.missed (r : Return) : Bool := decide (0 ≤ r.call.res) && r.taken.isNone

/-- How many of these calls gave up on their answer.  The answers are still to come, and
are taken by the calls after them. -/
def behind (rs : List Return) : ℕ := rs.countP Return.missed

@[simp] theorem behind_concat (rs : List Return) (r : Return) :
    behind (rs ++ [r]) = behind rs + if r.missed then 1 else 0 := by
  unfold behind
  rw [List.countP_append, List.countP_singleton]

theorem behind_eq_zero_iff {rs : List Return} :
    behind rs = 0 ↔ ∀ r ∈ rs, r.missed = false := by
  simp [behind, List.countP_eq_zero]

/-- The requests whose answers these calls took. -/
def takenRequests (rs : List Return) : List Request :=
  rs.filterMap fun r => r.taken.map Prod.fst

@[simp] theorem takenRequests_concat (rs : List Return) (r : Return) :
    takenRequests (rs ++ [r]) = takenRequests rs ++ (r.taken.map Prod.fst).toList := by
  unfold takenRequests
  rw [List.filterMap_append]
  cases h : r.taken <;> simp [h]

/-- What a return is, given the returns before it: the decoder's, of an answer that was
asked for as many requests earlier as calls had given up. -/
structure Return.Settled (before : List Return) (r : Return) : Prop where
  /-- The value and the record are what the decoder makes of the answer taken. -/
  decoded : ∃ fuel, (getTaskIoInfo fuel r.call.res (receivedOf r.taken) r.call.ioStats).result
    = .ok (r.code, r.ioStats)
  sent : ∀ taken, r.taken = some taken → 0 ≤ r.call.res
  lag : ∀ taken, r.taken = some taken → taken.1.seq + behind before = r.call.request.seq
  own : ∀ taken, r.taken = some taken → (taken.1 = r.call.request ↔ behind before = 0)

/-- A return of zero is the call's own answer exactly when nobody before it gave up. -/
theorem Return.Settled.fromOwnReply_iff {before : List Return} {r : Return}
    (h : Return.Settled before r) (hzero : r.code = 0) :
    r.FromOwnReply ↔ ∀ r' ∈ before, r'.missed = false := by
  obtain ⟨fuel, hdecoded⟩ := h.decoded
  rw [← behind_eq_zero_iff]
  cases htaken : r.taken with
  | none =>
    -- a call that took nothing has nothing to decode, and fails
    rw [htaken] at hdecoded
    exact absurd hzero (code_ne_zero_of_failed hdecoded)
  | some taken =>
    have hown := h.own taken htaken
    rw [htaken] at hdecoded
    rw [← hown]
    refine ⟨?_, ?_⟩
    · intro hreply
      obtain ⟨reply, hreply, -⟩ := hreply
      rw [htaken] at hreply
      exact congrArg Prod.fst (Option.some.inj hreply)
    · intro hrequest
      exact ⟨taken.2, by rw [htaken, ← hrequest], fuel, hdecoded⟩

/-! ### The invariant -/

/-- The requests sent are those whose answers were taken, in order, and then those
outstanding, which are one for each call that gave up and one for the call in progress. -/
structure Socket.Log (s : Socket) : Prop where
  inv : s.Inv
  in_order : (takenRequests s.returns ++ s.channel.outstanding).map Request.seq = List.range s.sent
  backlog : s.channel.outstanding.length = behind s.returns + s.call.toList.length
  call_seq : ∀ c, s.call = some c → c.request.seq + 1 = s.sent
  settled : EachAfter Return.Settled s.returns

theorem Socket.log_init : Socket.Log {} where
  inv := Socket.inv_init
  in_order := rfl
  backlog := rfl
  call_seq := by
    intro c hc
    cases hc
  settled := eachAfter_nil _

/-- A return without an answer says nothing about one. -/
theorem Return.Settled.of_decoded {before : List Return} {c : Call} {fuel : ℕ} {code : ℤ}
    {ioStats : TaskIoInfo}
    (h : (getTaskIoInfo fuel c.res (receivedOf none) c.ioStats).result = .ok (code, ioStats)) :
    Return.Settled before ⟨c, none, code, ioStats⟩ := by
  refine ⟨⟨fuel, h⟩, ?_, ?_, ?_⟩
  all_goals
    intro taken htaken
    cases htaken

/-- A call that was not sent returns at once, and leaves the log as it was. -/
theorem Socket.Log.finish_unsent {s s' : Socket} {c : Call} (hlog : s.Log) (hidle : s.call = none)
    (hres : c.res < 0) (h : s.finish c 0 none = some s') : s'.Log := by
  have hinv := Socket.Inv.finish hlog.inv.seq_lt h
  obtain ⟨code, ioStats, hr, rfl⟩ := Socket.finish_eq_some h
  have hmissed : Return.missed ⟨c, none, code, ioStats⟩ = false := by
    simp [Return.missed, hres]
  have hbacklog := hlog.backlog
  rw [hidle] at hbacklog
  refine ⟨hinv, ?_, ?_, ?_, eachAfter_concat.2 ⟨hlog.settled, .of_decoded hr⟩⟩
  · simpa using hlog.in_order
  · simpa [hmissed] using hbacklog
  · intro c' hc'
    cases hc'

/-- A call that gives up leaves its request outstanding. -/
theorem Socket.Log.finish_missed {s s' : Socket} {c : Call} {fuel : ℕ} (hlog : s.Log)
    (hcall : s.call = some c) (h : s.finish c fuel none = some s') : s'.Log := by
  have hinv := Socket.Inv.finish hlog.inv.seq_lt h
  obtain ⟨code, ioStats, hr, rfl⟩ := Socket.finish_eq_some h
  have hmissed : Return.missed ⟨c, none, code, ioStats⟩ = true := by
    simp [Return.missed, (hlog.inv.call_last c hcall).1]
  have hbacklog := hlog.backlog
  rw [hcall] at hbacklog
  refine ⟨hinv, ?_, ?_, ?_, eachAfter_concat.2 ⟨hlog.settled, .of_decoded hr⟩⟩
  · simpa using hlog.in_order
  · simpa [hmissed] using hbacklog
  · intro c' hc'
    cases hc'

/-- What comes first of the numbers from zero on is their count before it. -/
theorem seq_of_in_order {taken rest : List Request} {q : Request} {n : ℕ}
    (h : (taken ++ q :: rest).map Request.seq = List.range n) :
    q.seq = taken.length ∧ n = taken.length + rest.length + 1 := by
  have hlength := congrArg List.length h
  have hget := congrArg (fun l : List ℕ => l[taken.length]?) h
  simp only [List.length_map, List.length_append, List.length_cons, List.length_range] at hlength
  simp only [List.map_append, List.map_cons] at hget
  rw [List.getElem?_append_right (by simp), List.length_map, Nat.sub_self,
    List.getElem?_cons_zero, List.getElem?_range (by omega)] at hget
  exact ⟨Option.some.inj hget, by omega⟩

/-- A call takes the oldest answer, which is behind by the calls that gave up. -/
theorem Socket.Log.finish_taken {s s' : Socket} {c : Call} {fuel : ℕ} (hlog : s.Log)
    (hcall : s.call = some c) {taken : Request × Reply} {channel : Fifo Request Reply}
    (htake : s.channel.take = some (taken, channel))
    (h : { s with channel }.finish c fuel (some taken) = some s') : s'.Log := by
  have hout := Fifo.outstanding_take htake
  have hown := hlog.inv.taken_own_iff hcall htake
  have hinv : s'.Inv := by
    refine Socket.Inv.finish (s := { s with channel }) (fun q hq => hlog.inv.seq_lt q ?_) h
    rw [hout]
    exact List.mem_cons_of_mem _ hq
  obtain ⟨code, ioStats, hr, rfl⟩ := Socket.finish_eq_some h
  have horder := hlog.in_order
  have hbacklog := hlog.backlog
  have hseq := hlog.call_seq c hcall
  rw [hout] at horder hbacklog hown
  rw [hcall] at hbacklog
  simp only [Option.toList_some, List.length_cons, List.length_nil] at hbacklog
  -- the numbers on the socket are consecutive, so the first and their count give the rest
  obtain ⟨hfirst, hsent⟩ := seq_of_in_order horder
  have hnotMissed : Return.missed ⟨c, some taken, code, ioStats⟩ = false := by
    simp [Return.missed]
  refine ⟨hinv, ?_, ?_, ?_, eachAfter_concat.2 ⟨hlog.settled, ⟨⟨fuel, hr⟩, ?_, ?_, ?_⟩⟩⟩
  · simpa using horder
  · simp only [behind_concat, hnotMissed]
    simpa using hbacklog
  · intro c' hc'
    cases hc'
  · intro _ _
    exact (hlog.inv.call_last c hcall).1
  · rintro taken' ⟨⟩
    show taken.1.seq + behind s.returns = c.request.seq
    omega
  · rintro taken' ⟨⟩
    rw [hown, List.length_cons]
    show _ ↔ behind s.returns = 0
    omega

/-- **One step** keeps the log. -/
theorem Socket.Log.step {s s' : Socket} {e : Event} (hlog : s.Log) (h : s.step e = some s') :
    s'.Log := by
  cases e with
  | call taskId res ioStats =>
    obtain ⟨hidle, ⟨hres, hfinish⟩ | ⟨-, rfl⟩⟩ := Socket.step_call h
    · exact hlog.finish_unsent hidle hres hfinish
    · -- the new request has the next number, and the call in progress stands for it
      have hbacklog := hlog.backlog
      rw [hidle] at hbacklog
      refine ⟨hlog.inv.step h, ?_, ?_, ?_, hlog.settled⟩
      · rw [Fifo.outstanding_send, ← List.append_assoc, List.map_append, hlog.in_order,
          List.range_succ]
        rfl
      · rw [Fifo.outstanding_send, List.length_append, hbacklog]
        rfl
      · rintro c ⟨⟩
        rfl
  | arrive reply =>
    obtain ⟨channel, harrive, rfl⟩ := Socket.step_arrive h
    have hout := Fifo.outstanding_arrive harrive
    refine ⟨hlog.inv.step h, ?_, ?_, hlog.call_seq, hlog.settled⟩
    · rw [hout]
      exact hlog.in_order
    · rw [hout]
      exact hlog.backlog
  | recv fuel =>
    obtain ⟨c, hc, ⟨-, hfinish⟩ | ⟨taken, channel, htake, hfinish⟩⟩ := Socket.step_recv h
    · exact hlog.finish_missed hc hfinish
    · exact hlog.finish_taken hc htake hfinish

/-! ### Over a whole run -/

section

variable {es : List Event} {s : Socket} (hrun : runFrom Socket.step {} es = some s)

include hrun

theorem Socket.log_of_run : s.Log :=
  Runs.invariant Socket.Log (fun _ _ _ hlog hstep => hlog.step hstep) Socket.log_init hrun

/-- **The lag is exact**: a call that takes an answer takes the one to the request sent as
many requests before its own as calls had given up by then. -/
theorem taken_behind_of_run {before after : List Return} {r : Return}
    (hreturns : s.returns = before ++ r :: after) {taken : Request × Reply}
    (htaken : r.taken = some taken) : taken.1.seq + behind before = r.call.request.seq :=
  ((Socket.log_of_run hrun).settled before r after hreturns).lag taken htaken

/-- **Nobody catches up**: a call that returns zero took its own answer exactly when no call
before it gave up on one. -/
theorem ownReply_iff_of_run {before after : List Return} {r : Return}
    (hreturns : s.returns = before ++ r :: after) (hzero : r.code = 0) :
    r.FromOwnReply ↔ ∀ r' ∈ before, r'.missed = false :=
  ((Socket.log_of_run hrun).settled before r after hreturns).fromOwnReply_iff hzero

/-- **Answers are taken in the order of their requests**, each by one call. -/
theorem inOrder_of_run : (takenRequests s.returns).map Request.seq <+: List.range s.sent := by
  rw [← (Socket.log_of_run hrun).in_order, List.map_append]
  exact List.prefix_append _ _

end

/-- After one call has given up, the next one returns zero with an answer to that. -/
theorem lateReply_returns : ∃ s ∈ runFrom Socket.step {} lateReply, ∃ r ∈ s.returns, r.code = 0 ∧
    r.call.request.seq = 1 ∧ r.taken.map (fun taken => taken.1.seq) = some 0 := by
  decide +kernel

theorem taken_behind_of_run_lateReply :
    ∃ s ∈ runFrom Socket.step {} lateReply, ∃ before r after, s.returns = before ++ r :: after ∧
      r.code = 0 ∧ behind before = 1 := by
  obtain ⟨s, hs, r, hr, hzero, hseq, htaken⟩ := lateReply_returns
  obtain ⟨before, after, hreturns⟩ := List.append_of_mem hr
  obtain ⟨taken, htaken, hfirst⟩ := Option.map_eq_some_iff.1 htaken
  have hlag := taken_behind_of_run hs hreturns htaken
  exact ⟨s, hs, before, r, after, hreturns, hzero, by omega⟩

theorem ownReply_iff_of_run_lateReply :
    ∃ s ∈ runFrom Socket.step {} lateReply, ∃ before r after, s.returns = before ++ r :: after ∧
      r.code = 0 ∧ (r.FromOwnReply ↔ ∀ r' ∈ before, r'.missed = false) := by
  obtain ⟨s, hs, r, hr, hzero, -⟩ := lateReply_returns
  obtain ⟨before, after, hreturns⟩ := List.append_of_mem hr
  exact ⟨s, hs, before, r, after, hreturns, hzero, ownReply_iff_of_run hs hreturns hzero⟩

theorem inOrder_of_run_lateReply : ∃ s ∈ runFrom Socket.step {} lateReply,
    (takenRequests s.returns).map Request.seq <+: List.range s.sent := by
  obtain ⟨s, hs, -⟩ := lateReply_returns
  exact ⟨s, hs, inOrder_of_run hs⟩

end Netlink
end IotopCpp
