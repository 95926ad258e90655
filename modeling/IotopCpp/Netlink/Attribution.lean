import IotopCpp.Lib.Fifo
import IotopCpp.Lib.Runs
import IotopCpp.Netlink.Replies

/-!
# Whose reply a query returns

The socket `NetlinkIoStats` keeps for its whole life, between calls of
`get_task_io_info`.  A call sends one request and makes one non-blocking `recv`;
the kernel answers each request once, in the order they were sent, but at any
time.  The collector is the only caller, so calls do not overlap.

`send_netlink_cmd` writes `nlmsg_seq = 0` into every request and `get_task_io_info`
compares nothing in the reply with what it asked: what a reply answers is known to
the model, which keeps it beside the reply, and not to the program.

## Main definitions

* `Socket`, `Event`, `Socket.step` — calls, arrivals and receives, in any order.
* `Return.FromOwnReply` — the record holds what the reply to that request says.
* `Event.TakesSole` — no answer is decoded while another request is outstanding.

## Main results

* `Socket.Inv` — the request of the call in progress is the youngest outstanding.
* `attributed_iff` — over any run, every return of zero is attributed rightly
  exactly when every `recv` `TakesSole`.
* `attributed_of_madeIdle` — which is so when calls are made on an idle socket.
-/

namespace IotopCpp
namespace Netlink

open Runs Traced

/-! ### The socket -/

/-- A request for the statistics of a task.  `seq` tells requests apart; no message
carries it. -/
structure Request where
  seq : ℕ
  taskId : UInt64
  deriving DecidableEq

/-- What `recv` gives for a reply: its length, and the buffer it leaves. -/
structure Reply where
  repLen : ℕ
  msg : MsgBuf

/-- A reply that `get_task_io_info` decodes: it passes `NLMSG_OK` and is not an
`NLMSG_ERROR`. -/
def Reply.Usable (a : Reply) : Prop :=
  nlmsgOk a.msg a.repLen = true ∧ a.msg.nlmsgType ≠ nlmsgError

instance : DecidablePred Reply.Usable := fun _ => inferInstanceAs (Decidable (_ ∧ _))

/-- A call of `get_task_io_info` that has not returned: its request, what
`send_netlink_cmd` returned, and `*io_stats`. -/
structure Call where
  request : Request
  res : ℤ
  ioStats : TaskIoInfo

/-- A return: the reply the call took, with what it answers, the value returned, and
`*io_stats`. -/
structure Return where
  call : Call
  taken : Option (Request × Reply)
  code : ℤ
  ioStats : TaskIoInfo

/-- `sock_fd_`, once `init` has returned zero: the requests sent so far, the channel
to the kernel, the call in progress, and the returns. -/
structure Socket where
  sent : ℕ := 0
  channel : Fifo Request Reply := {}
  call : Option Call := none
  returns : List Return := []

/-- What happens on the socket.  A call is two events, so that answers can arrive between
its `sendto` and its `recv`, and before the one and after the other. -/
inductive Event
  /-- `get_task_io_info(task_id, io_stats)` is called, and `send_netlink_cmd` gives `res`. -/
  | call (taskId : UInt64) (res : ℤ) (ioStats : TaskIoInfo)
  /-- The kernel answers the oldest request it has not answered. -/
  | arrive (reply : Reply)
  /-- The call in progress makes its `recv`, decodes, and returns; `fuel` bounds the
  loops of the decoder. -/
  | recv (fuel : ℕ)

/-- What `recv` gives, by what it takes from the queue: without a reply it fails with
`EAGAIN`. -/
def receivedOf : Option (Request × Reply) → Received
  | none => .failed
  | some (_, reply) => .message reply.repLen reply.msg

/-- The call `c` returns, having taken `taken`. -/
def Socket.finish (s : Socket) (c : Call) (fuel : ℕ) (taken : Option (Request × Reply)) :
    Option Socket :=
  match (getTaskIoInfo fuel c.res (receivedOf taken) c.ioStats).result with
  | .ok (code, ioStats) =>
    some { s with call := none, returns := s.returns ++ [{ call := c, taken, code, ioStats }] }
  | .error _ => none

/-- One event.  An event the socket cannot have, or a decoder that does not return,
has no result. -/
def Socket.step (s : Socket) : Event → Option Socket
  | .call taskId res ioStats =>
    match s.call with
    | some _ => none
    | none =>
      let c : Call := { request := ⟨s.sent, taskId⟩, res, ioStats }
      -- a request that was not sent is not answered
      if res < 0 then s.finish c 0 none
      else some { s with
        sent := s.sent + 1, channel := s.channel.send c.request, call := some c }
  | .arrive reply => (s.channel.arrive reply).map fun channel => { s with channel }
  | .recv fuel =>
    match s.call with
    | none => none
    | some c =>
      match s.channel.take with
      | none => s.finish c fuel none
      -- the oldest answer is taken, whatever it answers
      | some (taken, channel) => { s with channel }.finish c fuel (some taken)

/-! ### What a step does -/

theorem Socket.finish_eq_some {s s' : Socket} {c : Call} {fuel : ℕ}
    {taken : Option (Request × Reply)} (h : s.finish c fuel taken = some s') :
    ∃ code ioStats,
      (getTaskIoInfo fuel c.res (receivedOf taken) c.ioStats).result = .ok (code, ioStats) ∧
        s' = { s with call := none, returns := s.returns ++ [⟨c, taken, code, ioStats⟩] } := by
  unfold Socket.finish at h
  cases hr : (getTaskIoInfo fuel c.res (receivedOf taken) c.ioStats).result with
  | error e => rw [hr] at h; cases h
  | ok out =>
    rw [hr] at h
    exact ⟨out.1, out.2, rfl, (Option.some.inj h).symm⟩

/-- A call either fails to send and returns, or leaves its request with the kernel. -/
theorem Socket.step_call {s s' : Socket} {taskId : UInt64} {res : ℤ} {ioStats : TaskIoInfo}
    (h : s.step (.call taskId res ioStats) = some s') :
    s.call = none ∧
      ((res < 0 ∧ s.finish ⟨⟨s.sent, taskId⟩, res, ioStats⟩ 0 none = some s') ∨
        (0 ≤ res ∧ s' = { s with
          sent := s.sent + 1
          channel := s.channel.send ⟨s.sent, taskId⟩
          call := some ⟨⟨s.sent, taskId⟩, res, ioStats⟩ })) := by
  cases hcall : s.call with
  | some c => simp [Socket.step, hcall] at h
  | none =>
    refine ⟨rfl, ?_⟩
    by_cases hres : res < 0
    · simp only [Socket.step, hcall, if_pos hres] at h
      exact .inl ⟨hres, h⟩
    · simp only [Socket.step, hcall, if_neg hres] at h
      exact .inr ⟨not_lt.1 hres, (Option.some.inj h).symm⟩

theorem Socket.step_arrive {s s' : Socket} {reply : Reply} (h : s.step (.arrive reply) = some s') :
    ∃ channel, s.channel.arrive reply = some channel ∧ s' = { s with channel } := by
  obtain ⟨channel, harrive, rfl⟩ := Option.map_eq_some_iff.1 h
  exact ⟨channel, harrive, rfl⟩

/-- A `recv` finds nothing, or takes the oldest answer; either way the call returns. -/
theorem Socket.step_recv {s s' : Socket} {fuel : ℕ} (h : s.step (.recv fuel) = some s') :
    ∃ c, s.call = some c ∧
      ((s.channel.take = none ∧ s.finish c fuel none = some s') ∨
        ∃ taken channel, s.channel.take = some (taken, channel) ∧
          { s with channel }.finish c fuel (some taken) = some s') := by
  cases hcall : s.call with
  | none => simp [Socket.step, hcall] at h
  | some c =>
    refine ⟨c, rfl, ?_⟩
    cases htake : s.channel.take with
    | none =>
      simp only [Socket.step, hcall, htake] at h
      exact .inl ⟨rfl, h⟩
    | some out =>
      simp only [Socket.step, hcall, htake] at h
      exact .inr ⟨out.1, out.2, rfl, h⟩

/-! ### Attribution -/

/-- The call took the reply to its own request, and the value returned and the record
are what the decoder makes of it. -/
def Return.FromOwnReply (r : Return) : Prop :=
  ∃ reply, r.taken = some (r.call.request, reply) ∧
    ∃ fuel, (getTaskIoInfo fuel r.call.res (.message reply.repLen reply.msg) r.call.ioStats).result
      = .ok (r.code, r.ioStats)

/-- Every call that returned zero took the reply to its own request. -/
def Socket.Attributed (s : Socket) : Prop := ∀ r ∈ s.returns, r.code = 0 → r.FromOwnReply

/-- If the event is a `recv` and the oldest answer will be decoded, then no more than
one request is outstanding. -/
def Event.TakesSole (s : Socket) : Event → Prop
  | .recv _ => ∀ taken channel, s.channel.take = some (taken, channel) → taken.2.Usable →
      s.channel.outstanding.length ≤ 1
  | _ => True

/-- A decoder that returns gives zero exactly on a reply it decodes. -/
theorem code_eq_zero_iff {fuel : ℕ} {res : ℤ} (hres : 0 ≤ res) {reply : Reply}
    {ioStats ioStats' : TaskIoInfo} {code : ℤ}
    (h : (getTaskIoInfo fuel res (.message reply.repLen reply.msg) ioStats).result
      = .ok (code, ioStats')) : code = 0 ↔ reply.Usable := by
  unfold Reply.Usable
  by_cases hok : nlmsgOk reply.msg reply.repLen = true
  · by_cases herr : reply.msg.nlmsgType = nlmsgError
    · have hcode : (-5, ioStats) = (code, ioStats') := by
        simpa [getTaskIoInfo, not_lt.2 hres, hok, herr] using h
      obtain ⟨rfl, -⟩ := Prod.mk.inj hcode
      simp [herr]
    · rw [getTaskIoInfo_message hres hok herr, result_bind_eq_ok] at h
      obtain ⟨s, -, hs⟩ := h
      obtain ⟨rfl, -⟩ := Prod.mk.inj (Except.ok.inj hs)
      simp [hok, herr]
  · have hcode : (-4, ioStats) = (code, ioStats') := by
      simpa [getTaskIoInfo, not_lt.2 hres, hok] using h
    obtain ⟨rfl, -⟩ := Prod.mk.inj hcode
    simp [hok]

/-- Without a reply the call fails. -/
theorem code_ne_zero_of_failed {fuel : ℕ} {res : ℤ} {ioStats ioStats' : TaskIoInfo} {code : ℤ}
    (h : (getTaskIoInfo fuel res .failed ioStats).result = .ok (code, ioStats')) : code ≠ 0 := by
  unfold getTaskIoInfo at h
  split at h
  · obtain ⟨rfl, -⟩ := Prod.mk.inj (Except.ok.inj h)
    decide
  · obtain ⟨rfl, -⟩ := Prod.mk.inj (Except.ok.inj h)
    decide

/-! ### The invariant -/

/-- Requests are numbered as they are sent, and the one of the call in progress was
sent last. -/
structure Socket.Inv (s : Socket) : Prop where
  seq_lt : ∀ q ∈ s.channel.outstanding, q.seq < s.sent
  call_last : ∀ c, s.call = some c → 0 ≤ c.res ∧
    ∃ earlier, s.channel.outstanding = earlier ++ [c.request] ∧ c.request ∉ earlier

theorem Socket.inv_init : Socket.Inv {} where
  seq_lt := by
    intro q hq
    cases hq
  call_last := by
    intro c hc
    cases hc

/-- A return leaves no call in progress, and what the channel holds is for later calls. -/
theorem Socket.Inv.finish {s s' : Socket} {c : Call} {fuel : ℕ}
    {taken : Option (Request × Reply)} (hseq : ∀ q ∈ s.channel.outstanding, q.seq < s.sent)
    (h : s.finish c fuel taken = some s') : s'.Inv := by
  obtain ⟨code, ioStats, -, rfl⟩ := Socket.finish_eq_some h
  exact { seq_lt := hseq, call_last := fun c' hc' => by cases hc' }

theorem Socket.Inv.step {s s' : Socket} {e : Event} (hinv : s.Inv) (h : s.step e = some s') :
    s'.Inv := by
  cases e with
  | call taskId res ioStats =>
    obtain ⟨-, ⟨-, hfinish⟩ | ⟨hres, rfl⟩⟩ := Socket.step_call h
    · exact .finish hinv.seq_lt hfinish
    · constructor
      · intro q hq
        rw [Fifo.outstanding_send, List.mem_append, List.mem_singleton] at hq
        rcases hq with hq | rfl
        · exact (hinv.seq_lt q hq).trans (Nat.lt_succ_self _)
        · exact Nat.lt_succ_self _
      · intro c hc
        obtain rfl := Option.some.inj hc
        -- its number is beyond those of all outstanding requests
        refine ⟨hres, s.channel.outstanding, Fifo.outstanding_send _ _, ?_⟩
        intro hmem
        exact absurd (hinv.seq_lt _ hmem) (lt_irrefl _)
  | arrive reply =>
    obtain ⟨channel, harrive, rfl⟩ := Socket.step_arrive h
    have hout := Fifo.outstanding_arrive harrive
    refine ⟨?_, ?_⟩
    · intro q hq
      exact hinv.seq_lt q (hout ▸ hq)
    · intro c hc
      obtain ⟨hres, earlier, heq, hmem⟩ := hinv.call_last c hc
      exact ⟨hres, earlier, hout.trans heq, hmem⟩
  | recv fuel =>
    obtain ⟨c, -, ⟨-, hfinish⟩ | ⟨taken, channel, htake, hfinish⟩⟩ := Socket.step_recv h
    · exact .finish hinv.seq_lt hfinish
    · refine Socket.Inv.finish (s := { s with channel }) (fun q hq => hinv.seq_lt q ?_) hfinish
      rw [Fifo.outstanding_take htake]
      exact List.mem_cons_of_mem _ hq

/-- **The oldest answer is the call's own** exactly if its request is the only one
outstanding. -/
theorem Socket.Inv.taken_own_iff {s : Socket} (hinv : s.Inv) {c : Call} (hc : s.call = some c)
    {taken : Request × Reply} {channel : Fifo Request Reply}
    (htake : s.channel.take = some (taken, channel)) :
    taken.1 = c.request ↔ s.channel.outstanding.length ≤ 1 := by
  obtain ⟨-, earlier, hlast, hmem⟩ := hinv.call_last c hc
  have hfirst := Fifo.outstanding_take htake
  rw [hlast] at hfirst
  cases earlier with
  | nil =>
    -- the head of the channel is also its end
    obtain ⟨hown, -⟩ := List.cons_eq_cons.1 hfirst
    exact iff_of_true hown.symm (by rw [hlast]; exact le_rfl)
  | cons q rest =>
    obtain ⟨rfl, -⟩ := List.cons_eq_cons.1 hfirst
    have hne : taken.1 ≠ c.request := fun heq => hmem (heq ▸ List.mem_cons_self)
    apply iff_of_false hne
    rw [hlast]
    simp

/-! ### Runs -/

/-- A return keeps the attribution exactly if it is attributed itself. -/
theorem Socket.attributed_finish_iff {s s' : Socket} (hs : s.Attributed) {r : Return}
    (hreturns : s'.returns = s.returns ++ [r]) :
    s'.Attributed ↔ (r.code = 0 → r.FromOwnReply) := by
  unfold Socket.Attributed
  rw [hreturns]
  refine ⟨?_, ?_⟩
  · intro h
    exact h r (List.mem_append_right _ (List.mem_singleton.2 rfl))
  · intro h r' hr'
    rcases List.mem_append.1 hr' with hold | hnew
    · exact hs r' hold
    · rw [List.mem_singleton.1 hnew]
      exact h

/-- **One step** keeps the attribution exactly if it takes no answer that may be
another call's. -/
theorem Socket.attributed_step_iff {s s' : Socket} {e : Event} (hinv : s.Inv)
    (hs : s.Attributed) (h : s.step e = some s') : s'.Attributed ↔ e.TakesSole s := by
  cases e with
  | call taskId res ioStats =>
    refine iff_of_true ?_ trivial
    obtain ⟨-, ⟨-, hfinish⟩ | ⟨-, rfl⟩⟩ := Socket.step_call h
    · obtain ⟨code, ioStats', hr, rfl⟩ := Socket.finish_eq_some hfinish
      apply (attributed_finish_iff hs rfl).2
      intro hzero
      exact absurd hzero (code_ne_zero_of_failed hr)
    · exact hs
  | arrive reply =>
    obtain ⟨channel, -, rfl⟩ := Socket.step_arrive h
    exact iff_of_true hs trivial
  | recv fuel =>
    obtain ⟨c, hc, ⟨hempty, hfinish⟩ | ⟨taken, channel, htake, hfinish⟩⟩ := Socket.step_recv h
    · obtain ⟨code, ioStats, hr, rfl⟩ := Socket.finish_eq_some hfinish
      apply iff_of_true
      · apply (attributed_finish_iff hs rfl).2
        intro hzero
        exact absurd hzero (code_ne_zero_of_failed hr)
      · intro taken channel htake
        rw [hempty] at htake
        cases htake
    · -- zero is returned for a usable answer, which is the call's own if it is the sole one
      obtain ⟨code, ioStats, hr, rfl⟩ := Socket.finish_eq_some hfinish
      have hzero := code_eq_zero_iff (hinv.call_last c hc).1 hr
      have hown := hinv.taken_own_iff hc htake
      rw [attributed_finish_iff hs rfl]
      refine ⟨?_, ?_⟩
      · intro hreturn taken' channel' htake' husable
        rw [htake] at htake'
        obtain ⟨rfl, rfl⟩ := Prod.mk.inj (Option.some.inj htake')
        obtain ⟨reply, hreply, -⟩ := hreturn (hzero.2 husable)
        exact hown.1 (congrArg Prod.fst (Option.some.inj hreply))
      · intro hsole hcode
        have hrequest := hown.2 (hsole taken channel htake (hzero.1 hcode))
        exact ⟨taken.2, by rw [← hrequest], fuel, hr⟩

/-- **When replies are attributed rightly.**  Over any run, every call that returns
zero took the reply to its own request exactly when no answer is decoded while the
request of an earlier call is outstanding. -/
theorem attributed_iff (es : List Event) :
    EveryStep Socket.step {} es (fun _ _ s' => s'.Attributed) ↔
      EveryStep Socket.step {} es fun s e _ => e.TakesSole s := by
  refine everyStep_iff_of_step Socket.Inv Socket.Attributed ?_ ?_ Socket.inv_init ?_
  · intro s e s' hinv hstep
    exact hinv.step hstep
  · intro s e s' hinv hs hstep
    exact Socket.attributed_step_iff hinv hs hstep
  · intro r hr
    cases hr

/-- A call is made only when every answer has been taken. -/
def Event.MadeIdle (s : Socket) : Event → Prop
  | .call .. => s.channel.outstanding = []
  | _ => True

/-- What calls on an idle socket keep: nothing else is outstanding beside the request
of the call in progress. -/
theorem Socket.sole_step {s s' : Socket} {e : Event}
    (hsole : s.call.isSome → s.channel.outstanding.length ≤ 1) (hidle : e.MadeIdle s)
    (h : s.step e = some s') : s'.call.isSome → s'.channel.outstanding.length ≤ 1 := by
  cases e with
  | call taskId res ioStats =>
    obtain ⟨-, ⟨-, hfinish⟩ | ⟨-, rfl⟩⟩ := Socket.step_call h
    · obtain ⟨code, ioStats', -, rfl⟩ := Socket.finish_eq_some hfinish
      intro hcall
      cases hcall
    · -- the socket was idle, so the request that is sent is the only one
      intro _
      have hempty : s.channel.outstanding = [] := hidle
      rw [Fifo.outstanding_send, hempty]
      exact le_rfl
  | arrive reply =>
    obtain ⟨channel, harrive, rfl⟩ := Socket.step_arrive h
    intro hcall
    rw [Fifo.outstanding_arrive harrive]
    exact hsole hcall
  | recv fuel =>
    obtain ⟨c, -, ⟨-, hfinish⟩ | ⟨taken, channel, -, hfinish⟩⟩ := Socket.step_recv h
    all_goals
      obtain ⟨code, ioStats, -, rfl⟩ := Socket.finish_eq_some hfinish
      intro hcall
      cases hcall

/-- **Calls on an idle socket are attributed rightly.** -/
theorem attributed_of_madeIdle {es : List Event}
    (hidle : EveryStep Socket.step {} es fun s e _ => e.MadeIdle s) :
    EveryStep Socket.step {} es fun _ _ s' => s'.Attributed := by
  apply (attributed_iff es).2
  refine everyStep_of_everyStep
    (fun s => s.Inv ∧ (s.call.isSome → s.channel.outstanding.length ≤ 1)) ?_ ?_ hidle
  · rintro s e s' ⟨hinv, hsole⟩ hmade hstep
    refine ⟨⟨hinv.step hstep, Socket.sole_step hsole hmade hstep⟩, ?_⟩
    cases e with
    | call taskId res ioStats => trivial
    | arrive reply => trivial
    | recv fuel =>
      obtain ⟨c, hc, -⟩ := Socket.step_recv hstep
      intro taken channel _ _
      exact hsole (by rw [hc]; rfl)
  · refine ⟨Socket.inv_init, ?_⟩
    intro hcall
    cases hcall

/-- A call whose reply is there in time returns zero. -/
example : ∃ s ∈ runFrom Socket.step {} [.call 1 0 {}, .arrive ⟨364, plainMsg⟩, .recv 60],
    ∃ r ∈ s.returns, r.code = 0 := by decide +kernel

/-- The reply to the query for task 1 arrives after that query gave up. -/
def lateReply : List Event :=
  [.call 1 0 {}, .recv 1, .arrive ⟨364, plainMsg⟩, .call 2 0 {}, .recv 60]

/-- Then the query for task 2 returns zero with it. -/
theorem not_attributed_lateReply :
    (∃ s, runFrom Socket.step {} lateReply = some s ∧
      ∃ r ∈ s.returns, r.code = 0 ∧ r.call.request.taskId = 2 ∧
        r.taken.map (fun taken => taken.1.taskId) = some 1) ∧
      ¬EveryStep Socket.step {} lateReply fun _ _ s' => s'.Attributed := by
  have hrun : ∃ s ∈ runFrom Socket.step {} lateReply, ∃ r ∈ s.returns, r.code = 0 ∧
      r.call.request.taskId = 2 ∧ r.taken.map (fun taken => taken.1.taskId) = some 1 := by
    decide +kernel
  obtain ⟨s, hs, r, hr, hzero, htask, htaken⟩ := hrun
  refine ⟨⟨s, hs, r, hr, hzero, htask, htaken⟩, ?_⟩
  intro hevery
  obtain ⟨s₀, hs₀, hlast⟩ := runFrom_concat.1 (show runFrom Socket.step {}
    ([.call 1 0 {}, .recv 1, .arrive ⟨364, plainMsg⟩, .call 2 0 {}] ++ [.recv 60]) = some s from hs)
  obtain ⟨reply, hreply, -⟩ := hevery _ _ s₀ s List.prefix_rfl hs₀ hlast r hr hzero
  rw [hreply, Option.map_some, htask] at htaken
  exact absurd htaken (by decide)

end Netlink
end IotopCpp
