import IotopCpp.Monitor.IoMonitor
import IotopCpp.Netlink.Bounds

/-!
# What an answer says

`get_task_io_info` returns zero when it has walked a reply to its end, whatever it
found there.  What that says about the record is worked out here, down to the flag
`handle_every_task_io_info` sets on it.

The statistics a reply contains are those of its own attributes.  The decoder copies
what it takes for statistics where its inner loop is, and these are the same places
only in a reply whose aggregates hold at most two attributes.

## Main definitions

* `CopiedIn` — what the reads of the decoder did to the record.
* `ComesToStats` — the decoder takes what it comes to for statistics.
* `ReadStats` — statistics of an attribute of the reply were read.
* `SuccessMeansDecoded` — zero says that statistics were decoded, a negative value
  leaves the record alone, and an updated record has the counters of this call.

## Main results

* `actsBy_getTaskIoInfo` — the decoder does not look at the record it fills.
* `statsAttr_iff` — in a short reply the decoder comes to the statistics of the reply,
  and takes nothing else for statistics.
* `successMeansDecoded_iff` — success means statistics for no reply that contains none,
  and for the short replies that contain some.
-/

namespace IotopCpp
namespace Netlink

open LittleEndian Traced

variable {msg : MsgBuf}

/-! ### The decoder does not look at the record -/

/-- The record `r` with some statistics copied over it, or none. -/
def withStats (stats : Option Taskstats) (r : TaskIoInfo) : TaskIoInfo :=
  ((QueryResult.answered stats).apply r).2

theorem apply_answered (stats : Option Taskstats) (r : TaskIoInfo) :
    (QueryResult.answered stats).apply r = (0, withStats stats r) := by
  cases stats <;> rfl

theorem copyInto_withStats (ts : Taskstats) (stats : Option Taskstats) (r : TaskIoInfo) :
    ts.copyInto (withStats stats r) = withStats (some ts) r := by
  cases stats <;> simp [withStats, QueryResult.apply]

theorem actsBy_copyIfStats (nlaType na : ℕ) (stats : Option Taskstats) :
    ActsBy withStats fun r => copyIfStats msg nlaType na (withStats stats r) := by
  unfold copyIfStats copyTaskstats
  by_cases htype : nlaType = taskstatsTypeStats
  · simp only [if_pos htype, copyInto_withStats]
    iterate 7 refine ActsBy.after _ fun _ => ?_
    exact actsBy_pure _
  · simp only [if_neg htype]
    exact actsBy_pure stats

/-- The inner loop's variables, with the statistics copied so far. -/
def nestedCursor (k : ℕ × ℕ × Option Taskstats) (r : TaskIoInfo) : NestedCursor :=
  ⟨k.1, k.2.1, withStats k.2.2 r⟩

theorem actsBy_statsLoop (aggrLen : ℤ) (n : ℕ) (k : ℕ × ℕ × Option Taskstats) :
    ActsBy nestedCursor fun r => statsLoop msg aggrLen n (nestedCursor k r) := by
  refine actsBy_whileLoop (fun k => (k.2.1 : ℤ) < aggrLen) (fun _ _ => rfl) (fun _ k => ?_) n k
  have hbody : (fun r => statsBody msg (nestedCursor k r)) = fun r =>
      msg.read ⟨.nestedType, k.1, k.1 + 2, 2⟩ >>= fun nlaType =>
      copyIfStats msg nlaType k.1 (withStats k.2.2 r) >>= fun ioStats =>
      msg.read ⟨.nestedLen, k.1, k.1, 2⟩ >>= fun nlaLen =>
      pure ⟨k.1 + (k.2.1 + nlaAlign nlaLen), k.2.1 + nlaAlign nlaLen, ioStats⟩ := rfl
  rw [hbody]
  refine ActsBy.after _ fun nlaType => (actsBy_copyIfStats nlaType k.1 k.2.2).bind fun stats => ?_
  refine ActsBy.after _ ?_
  intro nlaLen
  exact actsBy_pure (k.1 + (k.2.1 + nlaAlign nlaLen), k.2.1 + nlaAlign nlaLen, stats)

/-- The outer loop's variables, with the statistics copied so far. -/
def cursor (k : ℕ × ℕ × Option Taskstats) (r : TaskIoInfo) : Cursor :=
  ⟨k.1, k.2.1, withStats k.2.2 r⟩

theorem actsBy_attrBody (n : ℕ) (k : ℕ × ℕ × Option Taskstats) :
    ActsBy cursor fun r => attrBody msg n (cursor k r) := by
  have hwalk (nlaType nlaLen : ℕ) :
      ActsBy withStats fun r => walkIfAggr msg n nlaType nlaLen k.1 (withStats k.2.2 r) := by
    unfold walkIfAggr
    by_cases haggr : IsAggr nlaType
    · simp only [if_pos haggr]
      exact (actsBy_statsLoop (nlaPayload nlaLen) n (nlaData k.1, 0, k.2.2)).bind
        fun k' => actsBy_pure k'.2.2
    · simp only [if_neg haggr]
      exact actsBy_pure k.2.2
  -- the headers are read whatever the record is, and only the walk is handed it
  have hbody : (fun r => attrBody msg n (cursor k r)) = fun r =>
      msg.read ⟨.len, k.1, k.1, 2⟩ >>= fun nlaLen =>
      msg.read ⟨.type, k.1, k.1 + 2, 2⟩ >>= fun nlaType =>
      walkIfAggr msg n nlaType nlaLen k.1 (withStats k.2.2 r) >>= fun ioStats =>
      pure ⟨genlmsgData + (k.2.1 + nlaAlign nlaLen), k.2.1 + nlaAlign nlaLen, ioStats⟩ := rfl
  rw [hbody]
  refine ActsBy.after _ fun nlaLen => ActsBy.after _ fun nlaType => ?_
  refine (hwalk nlaType nlaLen).bind ?_
  intro stats
  exact actsBy_pure (genlmsgData + (k.2.1 + nlaAlign nlaLen), k.2.1 + nlaAlign nlaLen, stats)

/-- **The decoder does the same to every record.** -/
theorem actsBy_getTaskIoInfo (fuel : ℕ) (res : ℤ) (received : Received) :
    ActsBy QueryResult.apply (getTaskIoInfo fuel res received) := by
  have hfailed (e : QueryError) :
      ActsBy QueryResult.apply fun r => (pure (e.code, r) : Decode (ℤ × TaskIoInfo)) :=
    actsBy_pure (QueryResult.failed e)
  unfold getTaskIoInfo
  by_cases hres : res < 0
  · simp only [if_pos hres]
    exact hfailed .send
  · simp only [if_neg hres]
    cases received with
    | failed => exact hfailed .recv
    | message repLen msg =>
      simp only
      split_ifs
      · exact hfailed .notOk
      · exact hfailed .nlmsgError
      · -- the loop starts with nothing copied, and returns zero with what it ends with
        have hloop : ActsBy cursor fun r =>
            attrLoop msg (genlmsgPayload msg) fuel (cursor (genlmsgData, 0, none) r) :=
          actsBy_whileLoop (fun k => (k.2.1 : ℤ) < genlmsgPayload msg) (fun _ _ => rfl)
            actsBy_attrBody fuel _
        refine hloop.bind ?_
        intro k
        have happly : (fun r => (pure (0, (cursor k r).ioStats) : Decode (ℤ × TaskIoInfo)))
            = fun r => pure ((QueryResult.answered k.2.2).apply r) := by
          funext r
          rw [apply_answered]
          rfl
        rw [happly]
        exact actsBy_pure _

/-- A call that returned did one thing to whatever record it was given. -/
theorem exists_queryResult {fuel : ℕ} {res : ℤ} {received : Received} {r₀ : TaskIoInfo}
    {out : ℤ × TaskIoInfo} (h : (getTaskIoInfo fuel res received r₀).result = .ok out) :
    ∃ t q, ∀ r, getTaskIoInfo fuel res received r = ⟨t, .ok (QueryResult.apply q r)⟩ := by
  obtain ⟨x, hx⟩ := actsBy_getTaskIoInfo fuel res received
  rw [hx r₀, result_bind_eq_ok] at h
  obtain ⟨q, hq, -⟩ := h
  refine ⟨x.trace, q, ?_⟩
  intro r
  have hret : x = ⟨x.trace, .ok q⟩ := by rw [← hq]
  rw [hx r, hret]
  simp

/-! ### What the reads did -/

/-- What the reads `t` of a decoder made of the record `r`: `r'` is `r` if no
statistics were read, and otherwise holds some whose fields were all read. -/
def CopiedIn (msg : MsgBuf) (t : List Access) (r r' : TaskIoInfo) : Prop :=
  ((∀ a ∈ t, a.what ≠ .taskstats) ∧ r' = r) ∨
    ∃ na, taskstatsAccesses na ⊆ t ∧ r' = (msg.taskstats na).copyInto r

/-- The first and the fifth field of the statistics at `na`. -/
def firstField (na : ℕ) : Access :=
  ⟨.taskstats, na, nlaData na + Taskstats.acUidField.1, Taskstats.acUidField.2⟩

def lastField (na : ℕ) : Access :=
  ⟨.taskstats, na, nlaData na + Taskstats.writeBytesField.1, Taskstats.writeBytesField.2⟩

theorem firstField_mem (na : ℕ) : firstField na ∈ taskstatsAccesses na := by
  simp [firstField, taskstatsAccesses]

theorem lastField_mem (na : ℕ) : lastField na ∈ taskstatsAccesses na := by
  simp [lastField, taskstatsAccesses]

/-- Statistics that were copied were read field by field. -/
theorem trace_copyTaskstats {na : ℕ} {r r' : TaskIoInfo}
    (h : (copyTaskstats msg na r).result = .ok r') :
    (copyTaskstats msg na r).trace = taskstatsAccesses na := by
  simp only [copyTaskstats, result_bind_eq_ok, result_read] at h
  obtain ⟨v₁, h₁, v₂, h₂, v₃, h₃, v₄, h₄, v₅, h₅, v₆, h₆, v₇, h₇, -⟩ := h
  simp only [copyTaskstats, read_of_at h₁, read_of_at h₂, read_of_at h₃, read_of_at h₄,
    read_of_at h₅, read_of_at h₆, read_of_at h₇, bind_ok, pure_def]
  rfl

section

variable {t t' : List Access} {r r' : TaskIoInfo}

/-- Reads of headers change nothing. -/
theorem CopiedIn.append_header (h : CopiedIn msg t r r') (ht' : ∀ a ∈ t', a.what ≠ .taskstats) :
    CopiedIn msg (t ++ t') r r' := by
  rcases h with ⟨hnone, rfl⟩ | ⟨na, hsub, rfl⟩
  · refine Or.inl ⟨fun a ha => ?_, rfl⟩
    rcases List.mem_append.1 ha with ha | ha
    · exact hnone a ha
    · exact ht' a ha
  · exact Or.inr ⟨na, List.Subset.trans hsub (List.subset_append_left t t'), rfl⟩

/-- Reading statistics leaves nothing of earlier ones. -/
theorem CopiedIn.append_stats (h : CopiedIn msg t r r') {na : ℕ} (hsub : taskstatsAccesses na ⊆ t') :
    CopiedIn msg (t ++ t') r ((msg.taskstats na).copyInto r') := by
  refine Or.inr ⟨na, List.Subset.trans hsub (List.subset_append_right t t'), ?_⟩
  rcases h with ⟨-, rfl⟩ | ⟨na', -, rfl⟩
  · rfl
  · rw [Taskstats.copyInto_copyInto]

theorem CopiedIn.copyIfStats {nlaType na : ℕ} {r'' : TaskIoInfo} (h : CopiedIn msg t r r')
    (hs : copyIfStats msg nlaType na r' = ⟨t', .ok r''⟩) : CopiedIn msg (t ++ t') r r'' := by
  unfold Netlink.copyIfStats at hs
  split at hs
  · have hresult := congrArg Traced.result hs
    obtain ⟨rfl, -⟩ := copyTaskstats_result hresult
    have htrace := trace_copyTaskstats hresult
    rw [hs] at htrace
    refine h.append_stats ?_
    rw [← htrace]
    exact List.Subset.refl _
  · cases hs
    rwa [List.append_nil]

/-- A header was read, and nothing else was. -/
theorem CopiedIn.read {a : Access} {v : ℕ} (h : CopiedIn msg t r r') (hwhat : a.what ≠ .taskstats)
    (hs : msg.read a = ⟨t', .ok v⟩) : CopiedIn msg (t ++ t') r r' := by
  have ht' : t' = [a] := (congrArg Traced.trace hs).symm
  refine h.append_header ?_
  intro b hb
  rw [ht', List.mem_singleton] at hb
  rwa [hb]

theorem CopiedIn.statsBody {s s' : NestedCursor} (h : CopiedIn msg t r s.ioStats)
    (hs : statsBody msg s = ⟨t', .ok s'⟩) : CopiedIn msg (t ++ t') r s'.ioStats := by
  obtain ⟨t₁, nlaType, u₁, htype, h₁, rfl⟩ := bind_eq_ok.1 hs
  obtain ⟨t₂, ioStats, u₂, hcopy, h₂, rfl⟩ := bind_eq_ok.1 h₁
  obtain ⟨t₃, nlaLen, u₃, hlen, h₃, rfl⟩ := bind_eq_ok.1 h₂
  cases h₃
  simp only [← List.append_assoc, List.append_nil]
  exact ((h.read (by simp) htype).copyIfStats hcopy).read (by simp) hlen

theorem CopiedIn.attrBody {n : ℕ} {s s' : Cursor} (h : CopiedIn msg t r s.ioStats)
    (hs : attrBody msg n s = ⟨t', .ok s'⟩) : CopiedIn msg (t ++ t') r s'.ioStats := by
  obtain ⟨t₁, nlaLen, u₁, hlen, h₁, rfl⟩ := bind_eq_ok.1 hs
  obtain ⟨t₂, nlaType, u₂, htype, h₂, rfl⟩ := bind_eq_ok.1 h₁
  obtain ⟨t₃, ioStats, u₃, hwalk, h₃, rfl⟩ := bind_eq_ok.1 h₂
  cases h₃
  have hheader := (h.read (by simp) hlen).read (by simp) htype
  simp only [← List.append_assoc, List.append_nil]
  unfold walkIfAggr at hwalk
  split at hwalk
  · obtain ⟨t₄, inner, u₄, hinner, h₄, rfl⟩ := bind_eq_ok.1 hwalk
    cases h₄
    rw [List.append_nil]
    exact whileLoop_of_invariant (fun t (s : NestedCursor) => CopiedIn msg t r s.ioStats)
      (fun _ _ _ _ _ h _ hs => h.statsBody hs) n hheader hinner
  · cases hwalk
    rwa [List.append_nil]

/-- **What the record holds is what was read.** -/
theorem copiedIn_getTaskIoInfo {fuel repLen : ℕ} {res : ℤ} (hres : 0 ≤ res)
    (hok : nlmsgOk msg repLen = true) (herr : msg.nlmsgType ≠ nlmsgError) {out : ℤ × TaskIoInfo}
    (h : getTaskIoInfo fuel res (.message repLen msg) r = ⟨t, .ok out⟩) :
    out.1 = 0 ∧ CopiedIn msg t r out.2 := by
  rw [getTaskIoInfo_message hres hok herr] at h
  obtain ⟨t₁, s, u₁, hloop, h₁, rfl⟩ := bind_eq_ok.1 h
  cases h₁
  rw [List.append_nil]
  refine ⟨rfl, ?_⟩
  have hstart : CopiedIn msg [] r r := Or.inl ⟨by simp, rfl⟩
  exact whileLoop_of_invariant (fun t (s : Cursor) => CopiedIn msg t r s.ioStats)
    (fun _ _ _ _ _ h _ hs => h.attrBody hs) fuel hstart hloop

end

/-! ### What the decoder takes for statistics -/

/-- The decoder comes to `na` inside an aggregate and takes what is there for statistics.
Whether an attribute of the reply starts there is another matter. -/
def ComesToStats (msg : MsgBuf) (na : ℕ) : Prop :=
  (∃ len, AttrComes msg len ∧ (len : ℤ) < genlmsgPayload msg ∧ AggrAt msg len ∧
    ∃ len2, NestedComesAt msg len na len2 ∧
      (len2 : ℤ) < nlaPayload (msg.u16 (genlmsgData + len))) ∧
    msg.u16 (na + 2) = taskstatsTypeStats

/-- **In a short reply the decoder takes for statistics what is statistics there.** -/
theorem statsAttr_iff (hin : StaysInBuffer msg) (hshort : Short msg) {na : ℕ} :
    StatsAttr msg na ↔
      ComesToStats msg na ∧ nlaData na + Taskstats.fieldsEnd ≤ msg.nlmsgLen := by
  unfold StatsAttr ComesToStats
  rw [and_assoc]
  refine and_congr_left fun _ => ⟨?_, ?_⟩
  · intro h
    obtain ⟨p, hp, haggr, hnested⟩ := h
    obtain ⟨len, rfl, hcomes, hlt⟩ := (attrStart_iff hin hshort).1 hp
    exact ⟨len, hcomes, hlt, haggr, (nestedStart_iff hin hshort hcomes hlt haggr).1 hnested⟩
  · intro h
    obtain ⟨len, hcomes, hlt, haggr, hnested⟩ := h
    exact ⟨genlmsgData + len, hcomes.attrStart hlt, haggr,
      (nestedStart_iff hin hshort hcomes hlt haggr).2 hnested⟩

/-- The reads for the statistics at `na` are reads through the pointer `na`. -/
theorem na_of_mem_copyTaskstats {na : ℕ} {r : TaskIoInfo} {a : Access}
    (ha : a ∈ (copyTaskstats msg na r).trace) : a.na = na := by
  simp only [copyTaskstats, mem_trace_read_bind] at ha
  rcases ha with rfl | ⟨_, -, rfl | ⟨_, -, rfl | ⟨_, -, rfl | ⟨_, -, rfl | ⟨_, -, rfl |
    ⟨_, -, rfl | ⟨_, -, ha⟩⟩⟩⟩⟩⟩⟩
  all_goals first | rfl | cases ha

/-- An iteration of the inner loop reads statistics only in a statistics attribute. -/
theorem type_of_mem_statsBody {s : NestedCursor} {a : Access} (ha : a ∈ (statsBody msg s).trace)
    (hwhat : a.what = .taskstats) : a.na = s.na ∧ msg.u16 (s.na + 2) = taskstatsTypeStats := by
  rcases mem_trace_read_bind.1 ha with rfl | ⟨nlaType, htype, ha⟩
  · cases hwhat
  · rw [u16_of_readLE htype]
    rcases mem_trace_bind.1 ha with ha | ⟨ioStats, -, ha⟩
    · unfold copyIfStats at ha
      split at ha
      · next hstats => exact ⟨na_of_mem_copyTaskstats ha, hstats⟩
      · cases ha
    · rcases mem_trace_read_bind.1 ha with rfl | ⟨nlaLen, -, ha⟩
      · cases hwhat
      · cases ha

/-- What the inner loop reads of statistics, it reads at a place it comes to. -/
theorem stats_of_mem_statsLoop {start n : ℕ} {aggrLen : ℤ} {r : TaskIoInfo} {a : Access}
    (ha : a ∈ (statsLoop msg aggrLen n ⟨start, 0, r⟩).trace) (hwhat : a.what = .taskstats) :
    (∃ len2, NestedComes msg start aggrLen a.na len2 ∧ (len2 : ℤ) < aggrLen) ∧
      msg.u16 (a.na + 2) = taskstatsTypeStats := by
  have hstart : NestedComes msg start aggrLen (⟨start, 0, r⟩ : NestedCursor).na 0 := .start
  refine trace_whileLoop_of_invariant
    (fun s : NestedCursor => NestedComes msg start aggrLen s.na s.len2)
    (Q := fun a => a.what = .taskstats → (∃ len2, NestedComes msg start aggrLen a.na len2 ∧
      (len2 : ℤ) < aggrLen) ∧ msg.u16 (a.na + 2) = taskstatsTypeStats) ?_ n hstart a ha hwhat
  intro _ s hcomes hlt
  have hlt : (s.len2 : ℤ) < aggrLen := of_decide_eq_true hlt
  refine ⟨fun b hb hwhat => ?_, fun s' hs => hcomes.step hlt hs⟩
  obtain ⟨hna, htype⟩ := type_of_mem_statsBody hb hwhat
  rw [hna]
  exact ⟨⟨s.len2, hcomes, hlt⟩, htype⟩

/-- An iteration of the outer loop reads statistics only in the inner loop. -/
theorem mem_statsLoop_of_mem_attrBody {len n : ℕ} {r : TaskIoInfo} {a : Access}
    (ha : a ∈ (attrBody msg n ⟨genlmsgData + len, len, r⟩).trace) (hwhat : a.what = .taskstats) :
    AggrAt msg len ∧ a ∈ (statsLoopAt msg len n r).trace := by
  rcases mem_trace_read_bind.1 ha with rfl | ⟨nlaLen, hlen, ha⟩
  · cases hwhat
  rcases mem_trace_read_bind.1 ha with rfl | ⟨nlaType, htype, ha⟩
  · cases hwhat
  obtain rfl := u16_of_readLE hlen
  obtain rfl := u16_of_readLE htype
  rcases mem_trace_bind.1 ha with ha | ⟨ioStats, -, ha⟩
  · unfold walkIfAggr at ha
    split at ha
    · next haggr =>
      rcases mem_trace_bind.1 ha with ha | ⟨inner, -, ha⟩
      · exact ⟨haggr, ha⟩
      · cases ha
    · cases ha
  · cases ha

theorem comesToStats_of_mem {n : ℕ} {r : TaskIoInfo} {a : Access}
    (ha : a ∈ (attrLoop msg (genlmsgPayload msg) n ⟨genlmsgData, 0, r⟩).trace)
    (hwhat : a.what = .taskstats) : ComesToStats msg a.na := by
  refine trace_whileLoop_of_invariant
    (fun s : Cursor => AttrComes msg s.len ∧ s.na = genlmsgData + s.len)
    (Q := fun a => a.what = .taskstats → ComesToStats msg a.na) ?_ n ⟨.start, rfl⟩ a ha hwhat
  intro n s hinv hlt
  obtain ⟨na, len, r⟩ := s
  obtain ⟨hcomes, hna⟩ := hinv
  simp only at hcomes hna
  subst hna
  have hlt : (len : ℤ) < genlmsgPayload msg := of_decide_eq_true hlt
  refine ⟨fun b hb hwhat => ?_, fun s' hs => (hcomes.step rfl hlt hs).2⟩
  obtain ⟨haggr, hb⟩ := mem_statsLoop_of_mem_attrBody hb hwhat
  obtain ⟨hnested, htype⟩ := stats_of_mem_statsLoop hb hwhat
  exact ⟨⟨len, hcomes, hlt, haggr, hnested⟩, htype⟩

/-- A field that is not zero is in the buffer. -/
theorem readLE_of_u16_ne_zero {off : ℕ} (h : msg.u16 off ≠ 0) :
    readLE msg.bytes off 2 = some (msg.u16 off) := by
  unfold MsgBuf.u16 at h ⊢
  cases hread : readLE msg.bytes off 2 with
  | none =>
    rw [hread] at h
    exact absurd rfl h
  | some v => rfl

/-- An iteration at statistics reads their first field, whatever it meets after it. -/
theorem mem_trace_statsBody {na : ℕ} (htype : msg.u16 (na + 2) = taskstatsTypeStats) (len2 : ℕ)
    (r : TaskIoInfo) : firstField na ∈ (statsBody msg ⟨na, len2, r⟩).trace := by
  have hread : readLE msg.bytes (na + 2) 2 = some (msg.u16 (na + 2)) :=
    readLE_of_u16_ne_zero (by rw [htype]; decide)
  refine mem_trace_read_bind.2 (Or.inr ⟨_, hread, mem_trace_bind.2 (Or.inl ?_)⟩)
  rw [copyIfStats, if_pos htype]
  exact mem_trace_read_bind.2 (Or.inl rfl)

/-- What the inner loop reads over an aggregate, an iteration of the outer loop reads. -/
theorem mem_trace_attrBody {len n : ℕ} {r : TaskIoInfo} {a : Access} (haggr : AggrAt msg len)
    (ha : a ∈ (statsLoopAt msg len n r).trace) :
    a ∈ (attrBody msg n ⟨genlmsgData + len, len, r⟩).trace := by
  unfold AggrAt at haggr
  have hne : msg.u16 (genlmsgData + len + 2) ≠ 0 := by
    intro hzero
    rw [hzero] at haggr
    exact absurd haggr (by decide)
  have htype := readLE_of_u16_ne_zero hne
  have hlen := (readLE_header (attrReadable_of_type htype)).1
  refine mem_trace_read_bind.2 (Or.inr ⟨_, hlen, ?_⟩)
  refine mem_trace_read_bind.2 (Or.inr ⟨_, htype, mem_trace_bind.2 (Or.inl ?_)⟩)
  rw [walkIfAggr, if_pos haggr]
  exact mem_trace_bind.2 (Or.inl ha)

/-- What the decoder takes for statistics, it reads. -/
theorem ComesToStats.exists_mem {na : ℕ} (h : ComesToStats msg na) (r : TaskIoInfo) :
    ∃ n, firstField na ∈ (attrLoop msg (genlmsgPayload msg) n ⟨genlmsgData, 0, r⟩).trace := by
  obtain ⟨⟨len, hcomes, hlt, haggr, len2, hnested, hlt2⟩, hstats⟩ := h
  obtain ⟨r₁, hreach⟩ := hcomes.reaches r
  obtain ⟨r₂, hreach₂⟩ := NestedComes.reaches r₁ hnested
  obtain ⟨m, hm⟩ : ∃ m, firstField na ∈ (statsLoopAt msg len m r₁).trace :=
    mem_trace_whileLoop_of_reaches (fun s => grows_const (statsBody msg s)) hreach₂
      (decide_eq_true hlt2) (n := 0) (mem_trace_statsBody hstats len2 r₂)
  exact mem_trace_whileLoop_of_reaches (grows_attrBody msg) hreach (decide_eq_true hlt)
    (mem_trace_attrBody haggr hm)

section

variable {fuel repLen : ℕ} {res : ℤ} (hres : 0 ≤ res) (hok : nlmsgOk msg repLen = true)
  (herr : msg.nlmsgType ≠ nlmsgError) {r : TaskIoInfo} {t : List Access} {out : ℤ × TaskIoInfo}
  (h : getTaskIoInfo fuel res (.message repLen msg) r = ⟨t, .ok out⟩)

include hres hok herr h

/-- A decoder that returned ran its outer loop to the end, reading the same. -/
theorem attrLoop_of_getTaskIoInfo :
    ∃ s, attrLoop msg (genlmsgPayload msg) fuel ⟨genlmsgData, 0, r⟩ = ⟨t, .ok s⟩ := by
  rw [getTaskIoInfo_message hres hok herr] at h
  obtain ⟨t₁, s, t₂, hloop, hpure, rfl⟩ := bind_eq_ok.1 h
  cases hpure
  rw [List.append_nil]
  exact ⟨s, hloop⟩

theorem staysInBuffer_of_getTaskIoInfo : StaysInBuffer msg := by
  obtain ⟨s, hloop⟩ := attrLoop_of_getTaskIoInfo hres hok herr h
  exact staysInBuffer_of_yields ((grows_attrLoop msg _ _).yields hloop)

/-- **A decoder that returned has read statistics exactly where it took something for
statistics.** -/
theorem comesToStats_iff {na : ℕ} : firstField na ∈ t ↔ ComesToStats msg na := by
  obtain ⟨s, hloop⟩ := attrLoop_of_getTaskIoInfo hres hok herr h
  refine ⟨?_, ?_⟩
  · intro hmem
    have hmem' : firstField na ∈
        (attrLoop msg (genlmsgPayload msg) fuel ⟨genlmsgData, 0, r⟩).trace := by
      rw [hloop]
      exact hmem
    exact comesToStats_of_mem hmem' rfl
  · intro hcomes
    obtain ⟨n, hmem⟩ := hcomes.exists_mem r
    exact (grows_attrLoop msg _ _).mem_trace hloop hmem

end

/-! ### What success says -/

/-- The statistics `ts` are those of an attribute the received reply contains inside an
aggregate, and each of their fields was read there. -/
def ReadStats (received : Received) (t : List Access) (ts : Taskstats) : Prop :=
  ∃ repLen msg na, received = .message repLen msg ∧ StatsAttr msg na ∧ taskstatsAccesses na ⊆ t ∧
    ts = msg.taskstats na

/-- **Success means statistics were decoded**, for a call that made the reads `t` and
did `q` to its record: zero says that statistics the reply contains are in the record, a
negative value that the record is unchanged, and an updated record has the counters
of the reply. -/
structure SuccessMeansDecoded (received : Received) (t : List Access) (q : QueryResult) : Prop where
  success : ∀ r, (q.apply r).1 = 0 ↔ ∃ ts, ReadStats received t ts ∧ (q.apply r).2 = ts.copyInto r
  failure : ∀ r, (q.apply r).1 < 0 → (q.apply r).2 = r
  updated : ∀ originNs answers r collectTmNs r', answers.taskstats = q → r.isUpdated = false →
    handleEveryTaskIoInfo originNs answers r collectTmNs = some r' → r'.isUpdated = true →
    ∃ ts, ReadStats received t ts ∧ r'.counters = ts.counters

/-- The call decodes the message it received. -/
def Decodes (res : ℤ) (received : Received) (msg : MsgBuf) : Prop :=
  0 ≤ res ∧ ∃ repLen, received = .message repLen msg ∧ nlmsgOk msg repLen = true ∧
    msg.nlmsgType ≠ nlmsgError

section

variable {fuel : ℕ} {res : ℤ} {received : Received} {t : List Access} {q : QueryResult}

/-- A call that decodes nothing fails, having read nothing. -/
theorem exists_code_of_not_decodes (fuel : ℕ) (hno : ¬∃ msg, Decodes res received msg)
    (r : TaskIoInfo) :
    ∃ e : QueryError, getTaskIoInfo fuel res received r = ⟨[], .ok (e.code, r)⟩ := by
  by_cases hres : res < 0
  · exact ⟨.send, by simp [getTaskIoInfo, hres]; rfl⟩
  · cases received with
    | failed => exact ⟨.recv, by simp [getTaskIoInfo, hres]; rfl⟩
    | message repLen msg =>
      by_cases hok : nlmsgOk msg repLen = true
      · by_cases herr : msg.nlmsgType = nlmsgError
        · exact ⟨.nlmsgError, by simp [getTaskIoInfo, hres, hok, herr]; rfl⟩
        · exact absurd ⟨msg, not_lt.1 hres, repLen, rfl, hok, herr⟩ hno
      · exact ⟨.notOk, by simp [getTaskIoInfo, hres, hok]; rfl⟩

variable (hq : ∀ r, getTaskIoInfo fuel res received r = ⟨t, .ok (q.apply r)⟩)

include hq

theorem successMeansDecoded_of_failed (hno : ¬∃ msg, Decodes res received msg) :
    SuccessMeansDecoded received t q := by
  -- all three parts hold since nothing was read, the code is negative and the record kept
  have hfailed (r : TaskIoInfo) : t = [] ∧ (q.apply r).1 < 0 ∧ (q.apply r).2 = r := by
    obtain ⟨e, he⟩ := exists_code_of_not_decodes fuel hno r
    rw [hq r, Traced.mk.injEq, Except.ok.injEq] at he
    obtain ⟨ht, happly⟩ := he
    rw [happly]
    exact ⟨ht, e.code_neg, rfl⟩
  refine ⟨?_, fun r _ => (hfailed r).2.2, ?_⟩
  · intro r
    obtain ⟨ht, hneg, -⟩ := hfailed r
    refine ⟨fun hzero => absurd hzero hneg.ne, ?_⟩
    intro hread
    obtain ⟨ts, ⟨_, _, na, -, -, hsub, -⟩, -⟩ := hread
    have hmem := hsub (firstField_mem na)
    rw [ht] at hmem
    cases hmem
  · intro originNs answers r collectTmNs r' hanswers hr hfill hr'
    obtain ⟨hzero, -⟩ := counters_of_updated hfill hr hr'
    rw [hanswers] at hzero
    exact absurd hzero (hfailed _).2.1.ne

/-- What a call that decodes says, if the reply is short and contains statistics. -/
theorem successMeansDecoded_of_short {msg : MsgBuf} (hdec : Decodes res received msg)
    (hwithin : ∀ a ∈ t, a.off + a.size ≤ msg.nlmsgLen) (hshort : Short msg) (hhas : HasStats msg) :
    SuccessMeansDecoded received t q := by
  obtain ⟨hres, repLen, rfl, hok, herr⟩ := hdec
  have hin := staysInBuffer_of_getTaskIoInfo hres hok herr (hq {})
  have hcomes (na : ℕ) : firstField na ∈ t ↔ ComesToStats msg na :=
    comesToStats_iff hres hok herr (hq {})
  have hcopied (r : TaskIoInfo) : (q.apply r).1 = 0 ∧
      ∃ ts, ReadStats (.message repLen msg) t ts ∧ (q.apply r).2 = ts.copyInto r := by
    obtain ⟨hzero, hin'⟩ := copiedIn_getTaskIoInfo hres hok herr (hq r)
    refine ⟨hzero, ?_⟩
    rcases hin' with ⟨hnone, -⟩ | ⟨na, hsub, hr⟩
    · -- the statistics the reply contains were read
      obtain ⟨na, hna⟩ := hhas
      have hmem := (hcomes na).2 ((statsAttr_iff hin hshort).1 hna).1
      exact absurd rfl (hnone _ hmem)
    · -- and what was read last is statistics the reply contains
      have hend : nlaData na + Taskstats.fieldsEnd ≤ msg.nlmsgLen :=
        hwithin _ (hsub (lastField_mem na))
      have hna : StatsAttr msg na :=
        (statsAttr_iff hin hshort).2 ⟨(hcomes na).1 (hsub (firstField_mem na)), hend⟩
      exact ⟨msg.taskstats na, ⟨repLen, msg, na, rfl, hna, hsub, rfl⟩, hr⟩
  refine ⟨?_, ?_, ?_⟩
  · intro r
    exact iff_of_true (hcopied r).1 (hcopied r).2
  · intro r hneg
    rw [(hcopied r).1] at hneg
    exact absurd hneg (lt_irrefl 0)
  · intro originNs answers r collectTmNs r' hanswers hr hfill hr'
    obtain ⟨-, hcounters⟩ := counters_of_updated hfill hr hr'
    obtain ⟨-, ts, hts, happly⟩ := hcopied (queriedRecord answers r)
    refine ⟨ts, hts, ?_⟩
    rw [hcounters, hanswers, happly]
    rfl

/-- A call that decodes a reply without statistics returns zero all the same. -/
theorem hasStats_of_successMeansDecoded {msg : MsgBuf} (hdec : Decodes res received msg)
    (hsuccess : SuccessMeansDecoded received t q) : HasStats msg := by
  obtain ⟨hres, repLen, rfl, hok, herr⟩ := hdec
  obtain ⟨hzero, -⟩ := copiedIn_getTaskIoInfo hres hok herr (hq {})
  obtain ⟨ts, ⟨repLen', msg', na, hmsg, hna, -⟩, -⟩ := (hsuccess.success {}).1 hzero
  cases hmsg
  exact ⟨na, hna⟩

end

/-- A reply without attributes. -/
def emptyMsg : MsgBuf := .reply [] (by decide)

/-- A reply without statistics from which some are copied: the third time the inner loop
looks into the payload of the last attribute, and finds what says it is a `STATS` attribute
as long. -/
theorem copies_otherMsg :
    Carries (otherMsg (332 + 3 * 2 ^ 16)) 368 [otherReply (332 + 3 * 2 ^ 16)] ∧
      ¬HasStats (otherMsg (332 + 3 * 2 ^ 16)) ∧
      (getTaskIoInfo 10 0 (.message 368 (otherMsg (332 + 3 * 2 ^ 16))) {}).result.isOk = true ∧
      ∃ na, firstField na
        ∈ (getTaskIoInfo 10 0 (.message 368 (otherMsg (332 + 3 * 2 ^ 16))) {}).trace := by
  refine ⟨carries_otherMsg _, ?_, by decide +kernel, ?_⟩
  · intro hhas
    obtain ⟨na, hna⟩ := hhas
    obtain ⟨b, hb, -⟩ := (carries_otherMsg _).mem_statsOf_of_statsAttr hna
    have hnone : statsOf [otherReply (332 + 3 * 2 ^ 16)] = [] := rfl
    rw [hnone] at hb
    cases hb
  · exact ⟨44, by decide +kernel⟩

end Netlink
end IotopCpp
