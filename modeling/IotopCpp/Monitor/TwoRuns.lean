import IotopCpp.Monitor.Totals
import Mathlib.Data.Finmap

/-!
# Two runs side by side

What two runs have in common when what they are given is related.  Tables are
compared key by key, through the law of a cycle for one task; totals as sums over
processes.

## Main definitions

* `Cycle.SameExcept t` — two cycles that differ in the statistics of `t` only.
* `Cycle.Reordered` — two cycles that differ in the order of enumeration only.
* `IoMonitor.view` — the table as a finite map, and the totals.

## Main results

* `noninterference` — the statistics of one task change no other entry, and
  change the totals by the change of that task's own rates.
* `view_run_reordered` — the order of enumeration cannot be seen.
-/

namespace IotopCpp

open Netlink Runs

/-! ### The statistics of one task -/

/-- Two queries that differ at most in the statistics answered for `t`. -/
structure Query.SameExcept (t : UInt64) (q q' : Query) : Prop where
  id : q.id = q'.id
  isPid : q.isPid = q'.isPid
  answers : { q.answers with taskstats := q'.answers.taskstats } = q'.answers
  taskstats : q.id ≠ t → q.answers.taskstats = q'.answers.taskstats

structure Process.SameExcept (t : UInt64) (p p' : Process) : Prop where
  query : p.query.SameExcept t p'.query
  threads : List.Forall₂ (fun s s' => s.query.SameExcept t s'.query) p.threads p'.threads

/-- Two cycles at one time, with one enumeration, that differ at most in the
statistics answered for `t`. -/
structure Cycle.SameExcept (t : UInt64) (c c' : Cycle) : Prop where
  collectTmNs : c.collectTmNs = c'.collectTmNs
  taskIds : List.Forall₂ (Process.SameExcept t) c.taskIds c'.taskIds

/-- Two states that agree on every task but `t`. -/
structure IoMonitor.AgreeExcept (t : UInt64) (m m' : IoMonitor) : Prop where
  origin : m.originCollectTimestampNs = m'.originCollectTimestampNs
  lookup : ∀ k, k ≠ t → m.table.lookup k = m'.table.lookup k

/-- The rate of the record a cycle builds for the process `t`, zero if it
enumerates no such process. -/
def Cycle.processRate (rate : TaskIoInfo → ℚ) (originNs : UInt64) (c : Cycle) (t : UInt64) : ℚ :=
  (c.taskIds.find? fun p => p.pid == t).elim 0 fun p => rate (p.record originNs c.collectTmNs)

section SameExcept

variable {t : UInt64}

theorem Query.SameExcept.eq_of_ne {q q' : Query} (h : q.SameExcept t q') (hne : q.id ≠ t) :
    q = q' := by
  obtain ⟨id, isPid, answers⟩ := q
  obtain ⟨id', isPid', answers'⟩ := q'
  obtain ⟨hid, hpid, hanswers, hstats⟩ := h
  simp only at hid hpid hanswers hstats
  have heq : answers = answers' := by rw [← hanswers, ← hstats hne]
  rw [hid, hpid, heq]

theorem Cycle.SameExcept.queries {c c' : Cycle} (h : c.SameExcept t c') :
    List.Forall₂ (Query.SameExcept t) c.queries c'.queries := by
  refine List.rel_flatMap h.taskIds ?_
  intro p p' hp
  exact .cons hp.query (List.forall₂_map_left_iff.2 (List.forall₂_map_right_iff.2 hp.threads))

/-- The first query for a task other than `t` is the same. -/
theorem firstOf_sameExcept {qs qs' : List Query} (h : List.Forall₂ (Query.SameExcept t) qs qs')
    {k : UInt64} (hk : k ≠ t) : firstOf qs k = firstOf qs' k := by
  induction h with
  | nil => rfl
  | @cons q q' qs qs' hq _ ih =>
    rw [firstOf_cons, firstOf_cons, ih, ← hq.id]
    by_cases hid : q.id = k
    · rw [hq.eq_of_ne (hid ▸ hk)]
    · rw [if_neg hid, if_neg hid]

/-- One cycle keeps the agreement. -/
theorem agreeExcept_step {m₁ m₂ m₁' m₂' : IoMonitor} {c₁ c₂ : Cycle} (hm : m₁.AgreeExcept t m₂)
    (hc : c₁.SameExcept t c₂) (h₁ : m₁.collectTimed c₁ = some m₁')
    (h₂ : m₂.collectTimed c₂ = some m₂') : m₁'.AgreeExcept t m₂' := by
  constructor
  · obtain ⟨-, rfl⟩ := IoMonitor.collectTimed_eq_some.1 h₁
    obtain ⟨-, rfl⟩ := IoMonitor.collectTimed_eq_some.1 h₂
    exact hc.collectTmNs
  · intro k hk
    have hheld : k ∈ m₁.table ↔ k ∈ m₂.table := by
      rw [← AList.lookup_isSome, ← AList.lookup_isSome, hm.lookup k hk]
    have hfirst : c₁.firstQuery k = c₂.firstQuery k := firstOf_sameExcept hc.queries hk
    apply Option.ext
    intro r
    rw [IoMonitor.lookup_collectTimed h₁, IoMonitor.lookup_collectTimed h₂, hheld, hfirst,
      hm.origin, hc.collectTmNs]

/-- Over processes other than `t`, sums agree term by term. -/
theorem map_query_sameExcept {ps ps' : List Process}
    (h : List.Forall₂ (Process.SameExcept t) ps ps') (ht : t ∉ ps.map Process.pid)
    (g : Query → ℚ) : (ps.map fun p => g p.query) = ps'.map fun p => g p.query := by
  induction h with
  | nil => rfl
  | @cons p p' ps ps' hp _ ih =>
    rw [List.map_cons, List.mem_cons, not_or] at ht
    rw [List.map_cons, List.map_cons, ih ht.2, hp.query.eq_of_ne (Ne.symm ht.1)]

/-- Sums over the processes of two such cycles differ in the term of `t`. -/
theorem sum_sub_sum_sameExcept {ps ps' : List Process}
    (h : List.Forall₂ (Process.SameExcept t) ps ps') (hnodup : (ps.map Process.pid).Nodup)
    (g : Query → ℚ) :
    (ps.map fun p => g p.query).sum - (ps'.map fun p => g p.query).sum
      = ((ps.find? fun p => p.pid == t).elim 0 fun p => g p.query)
        - (ps'.find? fun p => p.pid == t).elim 0 fun p => g p.query := by
  induction h with
  | nil => rfl
  | @cons p p' ps ps' hp hps ih =>
    rw [List.map_cons, List.nodup_cons] at hnodup
    have hpid : p.pid = p'.pid := hp.query.id
    rw [List.map_cons, List.sum_cons, List.map_cons, List.sum_cons, List.find?_cons,
      List.find?_cons, ← hpid]
    by_cases hid : p.pid = t
    · -- the term of `t` is the first, and no other process has that id
      subst hid
      rw [map_query_sameExcept hps hnodup.1 g]
      simp
    · have hne : (p.pid == t) = false := by simpa using hid
      rw [hp.query.eq_of_ne hid]
      simp only [hne]
      linarith [ih hnodup.2]

end SameExcept

/-- **One task's statistics do not disturb the others.**  In two runs over the same
enumerations whose answers differ in the statistics of `t` only, the tables after
every cycle agree on every other task, and each total differs by the difference
of the rates of the records built for the process `t`. -/
theorem noninterference {t : UInt64} {cs₁ cs₂ : List Cycle}
    (hcs : List.Forall₂ (Cycle.SameExcept t) cs₁ cs₂) {c₁ c₂ : Cycle} (hc : c₁.SameExcept t c₂)
    (hpids : (c₁.taskIds.map Process.pid).Nodup) {m₁ m₂ m₁' m₂' : IoMonitor}
    (hrun₁ : run cs₁ = some m₁) (hrun₂ : run cs₂ = some m₂)
    (h₁ : m₁.collectTimed c₁ = some m₁') (h₂ : m₂.collectTimed c₂ = some m₂') :
    (∀ k, k ≠ t → m₁'.table.lookup k = m₂'.table.lookup k) ∧
      m₁'.ioStats.currDiskReadBS - m₂'.ioStats.currDiskReadBS
        = c₁.processRate TaskIoInfo.ioRealReadPeriodBS m₁.originCollectTimestampNs t
          - c₂.processRate TaskIoInfo.ioRealReadPeriodBS m₂.originCollectTimestampNs t ∧
      m₁'.ioStats.currDiskWriteBS - m₂'.ioStats.currDiskWriteBS
        = c₁.processRate TaskIoInfo.ioRealWritePeriodBS m₁.originCollectTimestampNs t
          - c₂.processRate TaskIoInfo.ioRealWritePeriodBS m₂.originCollectTimestampNs t := by
  -- the agreement up to the last cycle
  have hm : m₁.AgreeExcept t m₂ := by
    refine lockstep_of_eq_some ?_ (⟨rfl, fun _ _ => rfl⟩ : IoMonitor.AgreeExcept t {} {}) hcs
      hrun₁ hrun₂
    intro m m' c c' hm hc n n' hn hn'
    exact agreeExcept_step hm hc hn hn'
  have hfilled₁ := (IoMonitor.collectTimed_eq_some.1 h₁).1
  have hfilled₂ := (IoMonitor.collectTimed_eq_some.1 h₂).1
  have htotal (rate : TaskIoInfo → ℚ) :
      ((built m₁.originCollectTimestampNs c₁).map (share rate)).sum
          - ((built m₂.originCollectTimestampNs c₂).map (share rate)).sum
        = c₁.processRate rate m₁.originCollectTimestampNs t
          - c₂.processRate rate m₂.originCollectTimestampNs t := by
    rw [sum_share_built hfilled₁, sum_share_built hfilled₂, hm.origin, hc.collectTmNs]
    unfold Cycle.processRate Process.record
    rw [hc.collectTmNs]
    exact sum_sub_sum_sameExcept hc.taskIds hpids fun q =>
      rate ((q.record m₂.originCollectTimestampNs c₂.collectTmNs).getD {})
  refine ⟨(agreeExcept_step hm hc h₁ h₂).lookup, ?_, ?_⟩
  · have hread := htotal TaskIoInfo.ioRealReadPeriodBS
    obtain ⟨-, rfl⟩ := IoMonitor.collectTimed_eq_some.1 h₁
    obtain ⟨-, rfl⟩ := IoMonitor.collectTimed_eq_some.1 h₂
    exact hread
  · have hwrite := htotal TaskIoInfo.ioRealWritePeriodBS
    obtain ⟨-, rfl⟩ := IoMonitor.collectTimed_eq_some.1 h₁
    obtain ⟨-, rfl⟩ := IoMonitor.collectTimed_eq_some.1 h₂
    exact hwrite

theorem sameExcept_ofThreads {t : UInt64} {stats stats' : UInt64 → Taskstats}
    (hstats : ∀ k, k ≠ t → stats k = stats' k) (collectTmNs pid : UInt64) (tids : List UInt64) :
    (Cycle.ofThreads collectTmNs pid tids stats).SameExcept t
      (.ofThreads collectTmNs pid tids stats') := by
  refine ⟨rfl, .cons ⟨⟨rfl, rfl, rfl, ?_⟩, ?_⟩ .nil⟩
  · intro hne
    exact congrArg (fun ts => QueryResult.answered (some ts)) (hstats pid hne)
  · rw [List.forall₂_map_left_iff, List.forall₂_map_right_iff, List.forall₂_same]
    intro tid _
    exact ⟨rfl, rfl, rfl, fun hne =>
      congrArg (fun ts => QueryResult.answered (some ts)) (hstats tid hne)⟩

/-- A process 1, alive for two cycles, with a thread 2 whose answers differ. -/
theorem noninterference_workerStats :
    ∃ m₁ m₂ m₁' m₂', run [.ofThreads 0 1 [1, 2] workerStats] = some m₁ ∧
      run [.ofThreads 0 1 [1, 2] fun _ => {}] = some m₂ ∧
      m₁.collectTimed (.ofThreads 1000000000 1 [1, 2] workerStats) = some m₁' ∧
      m₂.collectTimed (.ofThreads 1000000000 1 [1, 2] fun _ => {}) = some m₂' ∧
      (∀ k, k ≠ 2 → m₁'.table.lookup k = m₂'.table.lookup k) ∧
      m₁'.ioStats.currDiskReadBS - m₂'.ioStats.currDiskReadBS
        = (Cycle.ofThreads 1000000000 1 [1, 2] workerStats).processRate
            TaskIoInfo.ioRealReadPeriodBS m₁.originCollectTimestampNs 2
          - (Cycle.ofThreads 1000000000 1 [1, 2] fun _ => {}).processRate
            TaskIoInfo.ioRealReadPeriodBS m₂.originCollectTimestampNs 2 ∧
      m₁'.ioStats.currDiskWriteBS - m₂'.ioStats.currDiskWriteBS
        = (Cycle.ofThreads 1000000000 1 [1, 2] workerStats).processRate
            TaskIoInfo.ioRealWritePeriodBS m₁.originCollectTimestampNs 2
          - (Cycle.ofThreads 1000000000 1 [1, 2] fun _ => {}).processRate
            TaskIoInfo.ioRealWritePeriodBS m₂.originCollectTimestampNs 2 := by
  have hstats : ∀ k, k ≠ 2 → workerStats k = {} := fun k hk => if_neg hk
  obtain ⟨m₁, hrun₁⟩ := IoMonitor.exists_collectTimed_ofThreads {} 0 1 [1, 2] workerStats
  obtain ⟨m₂, hrun₂⟩ := IoMonitor.exists_collectTimed_ofThreads {} 0 1 [1, 2] fun _ => {}
  obtain ⟨m₁', h₁⟩ := m₁.exists_collectTimed_ofThreads 1000000000 1 [1, 2] workerStats
  obtain ⟨m₂', h₂⟩ := m₂.exists_collectTimed_ofThreads 1000000000 1 [1, 2] fun _ => {}
  have hrun₁ : run [_] = some m₁ := (runFrom_singleton _ _).trans hrun₁
  have hrun₂ : run [_] = some m₂ := (runFrom_singleton _ _).trans hrun₂
  refine ⟨m₁, m₂, m₁', m₂', hrun₁, hrun₂, h₁, h₂, ?_⟩
  exact noninterference (.cons (sameExcept_ofThreads hstats 0 1 [1, 2]) .nil)
    (sameExcept_ofThreads hstats 1000000000 1 [1, 2]) (List.nodup_singleton 1) hrun₁ hrun₂ h₁ h₂

/-! ### The order of enumeration -/

/-- Two processes with one id and the same threads, in any order. -/
def Process.SameThreads (p p' : Process) : Prop :=
  p.pid = p'.pid ∧ (p.threads.map Thread.tid).Perm (p'.threads.map Thread.tid)

/-- The answers of a cycle are a function of the id asked for. -/
def Cycle.AnswersBy (c : Cycle) (answers : UInt64 → TaskAnswers) : Prop :=
  ∀ q ∈ c.queries, q.answers = answers q.id

/-- Two cycles at one time, with the same answers for each id, whose enumerations
differ by a permutation of the processes and of the threads of each. -/
structure Cycle.Reordered (c c' : Cycle) : Prop where
  collectTmNs : c.collectTmNs = c'.collectTmNs
  answers : ∃ answers, c.AnswersBy answers ∧ c'.AnswersBy answers
  taskIds : ∃ ps, c.taskIds.Perm ps ∧ List.Forall₂ Process.SameThreads ps c'.taskIds

/-- What can be seen of a state: the table as a finite map, and the totals. -/
def IoMonitor.view (m : IoMonitor) : (Finmap fun _ : UInt64 => TaskIoInfo) × ℚ × ℚ :=
  (m.table.toFinmap, m.ioStats.currDiskReadBS, m.ioStats.currDiskWriteBS)

theorem forall₂_exists_left {α β : Type*} {R : α → β → Prop} {l : List α} {l' : List β}
    (h : List.Forall₂ R l l') : ∀ a ∈ l, ∃ b ∈ l', R a b := by
  induction h with
  | nil =>
    intro a ha
    cases ha
  | cons hab _ ih =>
    intro a ha
    rcases List.mem_cons.1 ha with rfl | ha
    · exact ⟨_, List.mem_cons_self, hab⟩
    · obtain ⟨b, hb, hR⟩ := ih a ha
      exact ⟨b, List.mem_cons_of_mem _ hb, hR⟩

section Reordered

variable {c c' : Cycle}

/-- Queries are known by their ids when the answers are. -/
theorem mem_queries_of_sameThreads {answers : UInt64 → TaskAnswers} (hc : c.AnswersBy answers)
    (hc' : c'.AnswersBy answers)
    (hps : ∀ p ∈ c.taskIds, ∃ p' ∈ c'.taskIds, p.SameThreads p') {q : Query}
    (hq : q ∈ c.queries) : q ∈ c'.queries := by
  have hanswers := hc q hq
  -- the query made for the same id in the other cycle has the same answers
  rcases Cycle.mem_queries.1 hq with ⟨p, hp, rfl⟩ | ⟨p, hp, t, ht, rfl⟩
  · obtain ⟨p', hp', hid, -⟩ := hps p hp
    have hmem : p'.query ∈ c'.queries := Cycle.mem_queries.2 (Or.inl ⟨p', hp', rfl⟩)
    have heq : p.query = p'.query := by
      have hanswers' := hc' _ hmem
      simp only [Process.query] at hanswers hanswers' ⊢
      rw [hanswers, hanswers', hid]
    rwa [heq]
  · obtain ⟨p', hp', -, hthreads⟩ := hps p hp
    obtain ⟨t', ht', hid⟩ := List.mem_map.1
      (hthreads.subset (List.mem_map_of_mem ht : t.tid ∈ p.threads.map Thread.tid))
    have hmem : t'.query ∈ c'.queries := Cycle.mem_queries.2 (Or.inr ⟨p', hp', t', ht', rfl⟩)
    have heq : t.query = t'.query := by
      have hanswers' := hc' _ hmem
      simp only [Thread.query] at hanswers hanswers' ⊢
      rw [hanswers, hanswers', hid]
    rwa [heq]

theorem Cycle.Reordered.mem_queries (h : c.Reordered c') (q : Query) :
    q ∈ c.queries ↔ q ∈ c'.queries := by
  obtain ⟨-, ⟨answers, hc, hc'⟩, ps, hperm, hps⟩ := h
  constructor
  · apply mem_queries_of_sameThreads hc hc'
    intro p hp
    exact forall₂_exists_left hps p (hperm.subset hp)
  · apply mem_queries_of_sameThreads hc' hc
    intro p' hp'
    obtain ⟨p, hp, hid, hthreads⟩ := forall₂_exists_left hps.flip p' hp'
    exact ⟨p, hperm.symm.subset hp, hid.symm, hthreads.symm⟩

theorem Cycle.Reordered.pids_perm (h : c.Reordered c') :
    (c.taskIds.map Process.pid).Perm (c'.taskIds.map Process.pid) := by
  obtain ⟨-, -, ps, hperm, hps⟩ := h
  have hpids : List.Forall₂ Eq (ps.map Process.pid) (c'.taskIds.map Process.pid) :=
    List.rel_map (fun _ _ hp => hp.1) hps
  rw [List.forall₂_eq_eq_eq] at hpids
  rw [← hpids]
  exact hperm.map Process.pid

/-- In a well-formed cycle whose answers are known by id, the first query for an
id is the one made for the process, if there is one, and for the thread if not. -/
theorem Cycle.WellFormed.firstQuery_eq_some_iff (hwf : c.WellFormed)
    {answers : UInt64 → TaskAnswers} (hc : c.AnswersBy answers) {k : UInt64} {q : Query} :
    c.firstQuery k = some q ↔
      q ∈ c.queries ∧ q.id = k ∧ (q.isPid = true ↔ k ∈ c.taskIds.map Process.pid) := by
  have hpid : k ∈ c.taskIds.map Process.pid ↔ ∃ p ∈ c.taskIds, p.pid = k := List.mem_map
  rw [hpid]
  refine ⟨?_, ?_⟩
  · intro hq
    obtain ⟨hmem, hid⟩ := firstOf_eq_some hq
    exact ⟨hmem, hid, hwf.firstQuery_isPid hq⟩
  · intro hquery
    rcases hquery with ⟨hmem, hid, hisPid⟩
    cases hfirst : c.firstQuery k with
    | none =>
      have hne := List.find?_eq_none.1 hfirst q hmem
      simp [hid] at hne
    | some q' =>
      obtain ⟨hmem', hid'⟩ := firstOf_eq_some hfirst
      -- a query is its id, its flag and its answers, and these agree
      have hisPid' : q'.isPid = q.isPid :=
        Bool.eq_iff_iff.2 ((hwf.firstQuery_isPid hfirst).trans hisPid.symm)
      have hanswers := hc q hmem
      have hanswers' := hc q' hmem'
      obtain ⟨id, isPid, a⟩ := q
      obtain ⟨id', isPid', a'⟩ := q'
      simp only at hid hid' hisPid' hanswers hanswers'
      rw [hid', hisPid', hanswers', ← hid, hanswers, hid', ← hid]

/-- The first query for an id, and every record filled, are those of the other order. -/
theorem Cycle.Reordered.firstQuery (h : c.Reordered c') (hc : c.WellFormed) (hc' : c'.WellFormed)
    (k : UInt64) : c.firstQuery k = c'.firstQuery k := by
  obtain ⟨answers, hanswers, hanswers'⟩ := h.answers
  apply Option.ext
  intro q
  rw [hc.firstQuery_eq_some_iff hanswers, hc'.firstQuery_eq_some_iff hanswers', h.mem_queries,
    h.pids_perm.mem_iff]

theorem Cycle.Reordered.filled (h : c.Reordered c') (originNs : UInt64) :
    (∀ q ∈ c.queries, (q.record originNs c.collectTmNs).isSome) ↔
      ∀ q ∈ c'.queries, (q.record originNs c'.collectTmNs).isSome := by
  simp only [h.mem_queries, h.collectTmNs]

/-- The totals are sums over the same processes in another order. -/
theorem Cycle.Reordered.sum_share_built (h : c.Reordered c') {originNs : UInt64}
    (hfilled : ∀ q ∈ c.queries, (q.record originNs c.collectTmNs).isSome)
    (rate : TaskIoInfo → ℚ) :
    ((built originNs c).map (share rate)).sum = ((built originNs c').map (share rate)).sum := by
  obtain ⟨answers, hanswers, hanswers'⟩ := h.answers
  rw [IotopCpp.sum_share_built hfilled, IotopCpp.sum_share_built ((h.filled originNs).1 hfilled)]
  -- the term of a process is a function of its id
  have hterm {d : Cycle} (hd : d.AnswersBy answers) :
      (d.taskIds.map fun p => rate (p.record originNs d.collectTmNs))
        = (d.taskIds.map Process.pid).map fun pid =>
          rate ((Query.record originNs d.collectTmNs ⟨pid, true, answers pid⟩).getD {}) := by
    rw [List.map_map]
    apply List.map_congr_left
    intro p hp
    have hquery := hd p.query (Cycle.mem_queries.2 (Or.inl ⟨p, hp, rfl⟩))
    have heq : p.query = ⟨p.pid, true, answers p.pid⟩ := congrArg (Query.mk p.pid true) hquery
    rw [Process.record, heq]
    rfl
  rw [hterm hanswers, hterm hanswers', h.collectTmNs]
  exact (h.pids_perm.map _).sum_eq

/-- Two states that keep the same time and look the same. -/
def IoMonitor.Alike (m m' : IoMonitor) : Prop :=
  m.originCollectTimestampNs = m'.originCollectTimestampNs ∧ m.view = m'.view

theorem alike_step {m m' : IoMonitor} (hm : m.Alike m') (hc : c.WellFormed) (hc' : c'.WellFormed)
    (h : c.Reordered c') : Option.Rel IoMonitor.Alike (m.collectTimed c) (m'.collectTimed c') := by
  obtain ⟨horigin, hview⟩ := hm
  -- either both cycles have a result or neither has
  have hfilled_iff := h.filled m.originCollectTimestampNs
  by_cases hfilled : ∀ q ∈ c.queries, (q.record m.originCollectTimestampNs c.collectTmNs).isSome
  · have hfilled' := hfilled_iff.1 hfilled
    rw [horigin] at hfilled'
    obtain ⟨n, hn⟩ : ∃ n, m.collectTimed c = some n :=
      ⟨_, IoMonitor.collectTimed_eq_some.2 ⟨hfilled, rfl⟩⟩
    obtain ⟨n', hn'⟩ : ∃ n', m'.collectTimed c' = some n' :=
      ⟨_, IoMonitor.collectTimed_eq_some.2 ⟨hfilled', rfl⟩⟩
    have hlookup (k : UInt64) : m.table.lookup k = m'.table.lookup k := by
      have htable : m.table.toFinmap = m'.table.toFinmap := congrArg Prod.fst hview
      rw [← Finmap.lookup_toFinmap, htable, Finmap.lookup_toFinmap]
    have htable : n.table.toFinmap = n'.table.toFinmap := by
      refine Finmap.ext_lookup fun k => Option.ext fun r => ?_
      rw [Finmap.lookup_toFinmap, Finmap.lookup_toFinmap, IoMonitor.lookup_collectTimed hn,
        IoMonitor.lookup_collectTimed hn', h.firstQuery hc hc', horigin, h.collectTmNs,
        ← AList.lookup_eq_none, ← AList.lookup_eq_none, hlookup]
    rw [hn, hn']
    obtain ⟨-, rfl⟩ := IoMonitor.collectTimed_eq_some.1 hn
    obtain ⟨-, rfl⟩ := IoMonitor.collectTimed_eq_some.1 hn'
    refine .some ⟨h.collectTmNs, Prod.ext htable (Prod.ext ?_ ?_)⟩
    · exact (h.sum_share_built hfilled _).trans (by rw [horigin]; rfl)
    · exact (h.sum_share_built hfilled _).trans (by rw [horigin]; rfl)
  · have hnone : m.collectTimed c = none := by
      rw [Option.eq_none_iff_forall_ne_some]
      intro n hn
      exact hfilled (IoMonitor.collectTimed_eq_some.1 hn).1
    have hnone' : m'.collectTimed c' = none := by
      rw [Option.eq_none_iff_forall_ne_some]
      intro n hn
      refine hfilled (hfilled_iff.2 ?_)
      rw [horigin]
      exact (IoMonitor.collectTimed_eq_some.1 hn).1
    rw [hnone, hnone']
    exact .none

end Reordered

/-- **The order of enumeration cannot be seen.**  After every cycle of two runs that
differ in the order of enumeration only, the tables are equal as finite maps, and
the totals are equal. -/
theorem view_run_reordered {cs cs' : List Cycle}
    (hcs : List.Forall₂ (fun c c' => c.WellFormed ∧ c'.WellFormed ∧ c.Reordered c') cs cs')
    (n : ℕ) :
    (run (cs.take n)).map IoMonitor.view = (run (cs'.take n)).map IoMonitor.view := by
  have hrel : Option.Rel IoMonitor.Alike (run (cs.take n)) (run (cs'.take n)) := by
    refine lockstep ?_ (⟨rfl, rfl⟩ : IoMonitor.Alike {} {}) (List.forall₂_take n hcs)
    intro m m' c c' hm hc
    exact alike_step hm hc.1 hc.2.1 hc.2.2
  -- alike states look the same, and where one run has no result the other has none
  cases hrun : run (cs.take n) with
  | none =>
    rw [hrun] at hrel
    cases hrun' : run (cs'.take n) with
    | none => rfl
    | some m' => rw [hrun'] at hrel; cases hrel
  | some m =>
    rw [hrun] at hrel
    cases hrun' : run (cs'.take n) with
    | none => rw [hrun'] at hrel; cases hrel
    | some m' =>
      rw [hrun'] at hrel
      cases hrel with
      | some hm => exact congrArg some hm.2

theorem reordered_ofTasks (collectTmNs : UInt64) {tasks ps tasks' : List (UInt64 × List UInt64)}
    (hperm : tasks.Perm ps)
    (hthreads : List.Forall₂ (fun p p' => p.1 = p'.1 ∧ p.2.Perm p'.2) ps tasks')
    (answer : UInt64 → QueryResult) :
    (Cycle.ofTasks collectTmNs tasks answer).Reordered (.ofTasks collectTmNs tasks' answer) := by
  have hanswers (tasks : List (UInt64 × List UInt64)) :
      (Cycle.ofTasks collectTmNs tasks answer).AnswersBy fun id => .unnamed (answer id) := by
    intro q hq
    rcases Cycle.mem_queries.1 hq with ⟨p, hp, rfl⟩ | ⟨p, hp, t, ht, rfl⟩
    · obtain ⟨task, -, rfl⟩ := List.mem_map.1 hp
      rfl
    · obtain ⟨task, -, rfl⟩ := List.mem_map.1 hp
      obtain ⟨tid, -, rfl⟩ := List.mem_map.1 ht
      rfl
  refine ⟨rfl, ⟨_, hanswers tasks, hanswers tasks'⟩, _, hperm.map _, ?_⟩
  refine List.forall₂_map_left_iff.2 (List.forall₂_map_right_iff.2 (hthreads.imp ?_))
  intro p p' hp
  refine ⟨hp.1, ?_⟩
  simpa [Function.comp_def] using hp.2

/-- Two processes in either order, and the threads of one of them. -/
theorem view_run_reordered_turns :
    (run ((turns [(1, [1, 2]), (5, [5])]).take 3)).map IoMonitor.view
      = (run ((turns [(5, [5]), (1, [2, 1])]).take 3)).map IoMonitor.view := by
  have hreordered (collectTmNs : UInt64) (answer : UInt64 → QueryResult) :
      (Cycle.ofTasks collectTmNs [(1, [1, 2]), (5, [5])] answer).Reordered
        (.ofTasks collectTmNs [(5, [5]), (1, [2, 1])] answer) :=
    @reordered_ofTasks collectTmNs _ [(5, [5]), (1, [1, 2])] [(5, [5]), (1, [2, 1])] (.swap _ _ [])
      (.cons ⟨rfl, .refl _⟩ (.cons ⟨rfl, .swap 2 1 []⟩ .nil)) answer
  have hwf := @wellFormed_turns [(1, [1, 2]), (5, [5])] (by decide) (by decide)
  have hwf' := @wellFormed_turns [(5, [5]), (1, [2, 1])] (by decide) (by decide)
  simp only [turns, List.forall_mem_cons] at hwf hwf'
  obtain ⟨h₁, h₂, h₃, -⟩ := hwf
  obtain ⟨h₁', h₂', h₃', -⟩ := hwf'
  exact view_run_reordered (.cons ⟨h₁, h₁', hreordered _ _⟩ (.cons ⟨h₂, h₂', hreordered _ _⟩
    (.cons ⟨h₃, h₃', hreordered _ _⟩ .nil))) 3

end IotopCpp
