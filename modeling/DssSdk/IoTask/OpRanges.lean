import DssSdk.IoTask.Task

/-!
# Iterating over the operations of a task

`dss_io_task_get_op_ranges` gives a caller the blocks of the operations of one owner, one operation
a call. The iterator between two calls is the address of an operation, here its position in the
list.

* `getOpRanges`: one call; `scanOps` is its loop, debug logs are not compiled in;
* `opRanges`: the loop of a caller such as `populate_io_ranges`, until the end is reported;
* `enumerates_iff`: when such a loop sees every operation of the owner once and in order.
-/

namespace DssSdk.IoTask

/-- `dss_io_op_exec_state_t`. -/
inductive ExecState
  | forSubmission
  | completed
  | failed
  deriving DecidableEq, Repr

/-- The list that an iteration goes over. -/
def Task.opsIn (t : Task) : ExecState → List IoOp
  | .forSubmission => t.opTodoList
  | .completed => t.opDone
  | .failed => t.failedOps

/-- The two results of an iteration step that is no error. -/
inductive ItStatus
  | success
  | itEnd
  deriving DecidableEq, Repr

/-- `dss_io_op_user_param_t`; the data pointer is zero for `NULL`. -/
structure OpParams where
  lba : UInt64
  numBlocks : UInt64
  data : UInt64
  isParamsValid : Bool
  deriving DecidableEq, Repr

variable (data : IoOp → UInt64) (modId : Owner) (opState : ExecState)

/-- What the caller gets for an operation. `p` is what it passed in, with the data pointer already
cleared. -/
def OpParams.fill (p : OpParams) (op : IoOp) : OpParams where
  lba := op.lba
  numBlocks := op.nblocks
  data := if opState ≠ .forSubmission then data op else p.data
  isParamsValid := true

/-- The loop of `dss_io_task_get_op_ranges` from position `i` on: the iterator for the next call,
`found`, and what the caller gets. -/
def scanOps : List IoOp → ℕ → Bool → OpParams → Except Fault (Option ℕ × Bool × OpParams)
  | [], _, found, p => .ok (none, found, p)
  | op :: ops, i, found, p =>
      if op.modId = modId then
        if found = false then
          if op.isWrite = true then scanOps ops (i + 1) true (p.fill data opState op)
          else .error .assertFailed
        else .ok (some i, found, p)
      else scanOps ops (i + 1) found p

/-- `dss_io_task_get_op_ranges`. -/
def getOpRanges (t : Task) (itCtx : Option ℕ) (p : OpParams) :
    Except Fault (ItStatus × Option ℕ × OpParams) :=
  if t.numOutstandingOps = 0 ∨ t.numOpsDone = t.numTotalOps then
    if t.taskStatus = .success then
      let p := { p with isParamsValid := false }
      let start := itCtx.getD 0
      match (t.opsIn opState).drop start with
      | [] => .ok (.itEnd, none, p)
      | op :: ops =>
          match scanOps data modId opState (op :: ops) start false { p with data := 0 } with
          | .error e => .error e
          | .ok (next, found, p) =>
              if found = true then .ok (if next = none then .itEnd else .success, next, p)
              else .error .assertFailed
    else .error .assertFailed
  else .error .assertFailed

/-- The calls of a caller that goes on until the end is reported, at most `n` of them: every
valid result, or `none` when the end was not reported. -/
def opRanges (t : Task) : ℕ → Option ℕ → OpParams → Option (Except Fault (List OpParams))
  | 0, _, _ => none
  | n + 1, itCtx, p =>
      match getOpRanges data modId opState t itCtx p with
      | .error e => some (.error e)
      | .ok (rc, itCtx', p') =>
          let out := if p'.isParamsValid = true then [p'] else []
          match rc with
          | .success => (opRanges t n itCtx' p').map (·.map (out ++ ·))
          | .itEnd => some (.ok out)

/-- The operations of the owner. -/
def owned (ops : List IoOp) : List IoOp := ops.filter fun op => op.modId = modId

/-- What a caller gets for an operation: its blocks, and its data once it came back. -/
def paramsOf (op : IoOp) : OpParams where
  lba := op.lba
  numBlocks := op.nblocks
  data := if opState ≠ .forSubmission then data op else 0
  isParamsValid := true

/-- The iteration gives every operation of the owner once and in order, one a call, and reports
the end with the last one. -/
def Enumerates (t : Task) : Prop :=
  ∀ p, opRanges data modId opState t (max 1 (owned modId (t.opsIn opState)).length) none p =
    some (.ok ((owned modId (t.opsIn opState)).map (paramsOf data opState)))

/-- The function may be called: before the task is submitted or after it completed, and no
operation failed. -/
structure Task.Callable (t : Task) : Prop where
  quiet : t.numOutstandingOps = 0 ∨ t.numOpsDone = t.numTotalOps
  success : t.taskStatus = .success

section

variable {data : IoOp → UInt64} {modId : Owner} {opState : ExecState} {t : Task}
  {ops : List IoOp} {op : IoOp} {p : OpParams} {i : ℕ}

@[simp] theorem owned_nil : owned modId [] = [] := rfl

theorem owned_cons : owned modId (op :: ops) =
    if op.modId = modId then op :: owned modId ops else owned modId ops := by
  simp [owned, List.filter_cons]

@[simp] theorem paramsOf_isParamsValid : (paramsOf data opState op).isParamsValid = true := rfl

theorem fill_of_cleared (h : p.data = 0) :
    p.fill data opState op = paramsOf data opState op := by
  simp [OpParams.fill, paramsOf, h]

/-- An iterator that goes on with the operations `rest` of the owner, or is `NULL` without any. -/
def GoesOn (modId : Owner) (ops : List IoOp) (i : ℕ) (rest : List IoOp) (next : Option ℕ) : Prop :=
  (rest = [] → next = none) ∧ (rest ≠ [] → ∃ k, next = some (i + k) ∧ owned modId (ops.drop k) = rest)

theorem GoesOn.cons {rest : List IoOp} {next : Option ℕ}
    (h : GoesOn modId ops (i + 1) rest next) : GoesOn modId (op :: ops) i rest next := by
  refine ⟨h.1, fun hne => ?_⟩
  obtain ⟨k, hk, ho⟩ := h.2 hne
  exact ⟨k + 1, by rw [hk, Nat.add_assoc, Nat.add_comm 1 k], by rwa [List.drop_succ_cons]⟩

theorem scanOps_found : ∃ next, scanOps data modId opState ops i true p = .ok (next, true, p) ∧
    GoesOn modId ops i (owned modId ops) next := by
  induction ops generalizing i with
  | nil => exact ⟨none, rfl, fun _ => rfl, fun h => absurd rfl h⟩
  | cons op ops ih =>
    by_cases hm : op.modId = modId
    · refine ⟨some i, by simp [scanOps, hm], fun h => ?_, fun _ => ⟨0, rfl, rfl⟩⟩
      rw [owned_cons, if_pos hm] at h
      cases h
    · obtain ⟨next, hscan, hgo⟩ := @ih (i + 1)
      refine ⟨next, by simpa [scanOps, hm] using hscan, ?_⟩
      rw [owned_cons, if_neg hm]
      exact hgo.cons

theorem scanOps_none (h : owned modId ops = []) :
    scanOps data modId opState ops i false p = .ok (none, false, p) := by
  induction ops generalizing i with
  | nil => rfl
  | cons op ops ih =>
    rw [owned_cons] at h
    split at h
    · cases h
    · rename_i hm
      rw [scanOps, if_neg hm]
      exact ih h

theorem scanOps_write {rest : List IoOp} (h : owned modId ops = op :: rest)
    (hw : op.isWrite = true) :
    ∃ next, scanOps data modId opState ops i false p = .ok (next, true, p.fill data opState op) ∧
      GoesOn modId ops i rest next := by
  induction ops generalizing i with
  | nil => cases h
  | cons op' ops ih =>
    rw [owned_cons] at h
    split at h
    · rename_i hm
      obtain ⟨rfl, rfl⟩ := List.cons.inj h
      obtain ⟨next, hscan, hgo⟩ := @scanOps_found data modId opState ops (p.fill data opState op') (i + 1)
      exact ⟨next, by simpa [scanOps, hm, hw] using hscan, hgo.cons⟩
    · rename_i hm
      obtain ⟨next, hscan, hgo⟩ := @ih (i + 1) h
      exact ⟨next, by simpa [scanOps, hm] using hscan, hgo.cons⟩

theorem scanOps_read {rest : List IoOp} (h : owned modId ops = op :: rest)
    (hw : op.isWrite ≠ true) :
    scanOps data modId opState ops i false p = .error .assertFailed := by
  induction ops generalizing i with
  | nil => cases h
  | cons op' ops ih =>
    rw [owned_cons] at h
    split at h
    · rename_i hm
      obtain ⟨rfl, -⟩ := List.cons.inj h
      rw [scanOps, if_pos hm, if_pos rfl, if_neg hw]
    · rename_i hm
      rw [scanOps, if_neg hm]
      exact ih h

section

variable {itCtx : Option ℕ}

theorem getOpRanges_eq (hc : t.Callable) :
    getOpRanges data modId opState t itCtx p =
      match (t.opsIn opState).drop (itCtx.getD 0) with
      | [] => .ok (.itEnd, none, { p with isParamsValid := false })
      | op :: ops =>
          match scanOps data modId opState (op :: ops) (itCtx.getD 0) false
            { p with data := 0, isParamsValid := false } with
          | .error e => .error e
          | .ok (next, found, p) =>
              if found = true then .ok (if next = none then .itEnd else .success, next, p)
              else .error .assertFailed := by
  rw [getOpRanges, if_pos hc.quiet, if_pos hc.success]

theorem getOpRanges_empty (hc : t.Callable) (h : (t.opsIn opState).drop (itCtx.getD 0) = []) :
    getOpRanges data modId opState t itCtx p =
      .ok (.itEnd, none, { p with isParamsValid := false }) := by
  rw [getOpRanges_eq hc, h]

theorem getOpRanges_foreign (hc : t.Callable) (hne : (t.opsIn opState).drop (itCtx.getD 0) ≠ [])
    (h : owned modId ((t.opsIn opState).drop (itCtx.getD 0)) = []) :
    getOpRanges data modId opState t itCtx p = .error .assertFailed := by
  rw [getOpRanges_eq hc]
  split
  · contradiction
  · rename_i op ops hl
    rw [hl] at h
    rw [scanOps_none h]
    rfl

theorem getOpRanges_read {rest : List IoOp} (hc : t.Callable)
    (h : owned modId ((t.opsIn opState).drop (itCtx.getD 0)) = op :: rest)
    (hw : op.isWrite ≠ true) :
    getOpRanges data modId opState t itCtx p = .error .assertFailed := by
  rw [getOpRanges_eq hc]
  split
  · rename_i hl
    rw [hl] at h
    cases h
  · rename_i op' ops hl
    rw [hl] at h
    rw [scanOps_read h hw]

variable (data p) in
/-- A call that comes to a write of the owner gives it to the caller, and the iterator goes on with
the operations of the owner behind it. -/
theorem getOpRanges_write {rest : List IoOp} (hc : t.Callable)
    (h : owned modId ((t.opsIn opState).drop (itCtx.getD 0)) = op :: rest)
    (hw : op.isWrite = true) :
    ∃ next, getOpRanges data modId opState t itCtx p =
        .ok (if rest = [] then .itEnd else .success, next, paramsOf data opState op) ∧
      (rest ≠ [] → owned modId ((t.opsIn opState).drop (next.getD 0)) = rest) := by
  rw [getOpRanges_eq hc]
  split
  · rename_i hl
    rw [hl] at h
    cases h
  · rename_i op' ops hl
    rw [hl] at h
    obtain ⟨next, hscan, hgo⟩ := @scanOps_write data modId opState _ op
      { p with data := 0, isParamsValid := false } (itCtx.getD 0) rest h hw
    refine ⟨next, ?_, fun hne => ?_⟩
    · rw [hscan]
      rw [fill_of_cleared rfl]
      by_cases hr : rest = []
      · simp [hr, hgo.1 hr]
      · obtain ⟨k, hk, -⟩ := hgo.2 hr
        simp [hr, hk]
    · obtain ⟨k, hk, ho⟩ := hgo.2 hne
      rw [hk, Option.getD_some, ← List.drop_drop, hl]
      exact ho

theorem opRanges_writes {o : List IoOp} (hc : t.Callable)
    (h : owned modId ((t.opsIn opState).drop (itCtx.getD 0)) = o) (hne : o ≠ [])
    (hw : ∀ op ∈ o, op.isWrite = true) :
    opRanges data modId opState t o.length itCtx p =
      some (.ok (o.map (paramsOf data opState))) := by
  induction o generalizing itCtx p with
  | nil => contradiction
  | cons op rest ih =>
    obtain ⟨next, hcall, hnext⟩ := getOpRanges_write data p hc h
      (hw op List.mem_cons_self)
    rw [List.length_cons, opRanges, hcall]
    by_cases hr : rest = []
    · simp [hr]
    · have hrest := @ih (paramsOf data opState op) next (hnext hr) hr
        fun op' hop' => hw op' (List.mem_cons_of_mem _ hop')
      simp [hr, hrest, Except.map]

theorem opRanges_read {o : List IoOp} {n : ℕ} {out : List OpParams} (hc : t.Callable)
    (h : owned modId ((t.opsIn opState).drop (itCtx.getD 0)) = o)
    (hr : ∃ op ∈ o, op.isWrite ≠ true) :
    opRanges data modId opState t n itCtx p ≠ some (.ok out) := by
  induction o generalizing itCtx p n out with
  | nil => simp at hr
  | cons op rest ih =>
    cases n with
    | zero => exact fun h => by cases h
    | succ n =>
      by_cases hw : op.isWrite = true
      · obtain ⟨next, hcall, hnext⟩ := getOpRanges_write data p hc h hw
        have hrest : ∃ op' ∈ rest, op'.isWrite ≠ true := by
          obtain ⟨op', hop', hw'⟩ := hr
          rcases List.mem_cons.1 hop' with rfl | hop'
          · exact absurd hw hw'
          · exact ⟨op', hop', hw'⟩
        have hne : rest ≠ [] := by
          obtain ⟨op', hop', -⟩ := hrest
          exact List.ne_nil_of_mem hop'
        rw [opRanges, hcall]
        simp only [if_neg hne]
        intro heq
        obtain ⟨r, hr', he⟩ := Option.map_eq_some_iff.1 heq
        cases r with
        | error e => cases he
        | ok out' => exact ih (hnext hne) hrest hr'
      · rw [opRanges, getOpRanges_read hc h hw]
        exact fun h => by cases h

end

/-- **When an iteration sees the operations of the owner**: all of them are writes, and there is
one unless the list is empty. -/
theorem enumerates_iff (hc : t.Callable) : Enumerates data modId opState t ↔
    (∀ op ∈ t.opsIn opState, op.modId = modId → op.isWrite = true) ∧
      (t.opsIn opState ≠ [] → ∃ op ∈ t.opsIn opState, op.modId = modId) := by
  have hown : ∀ op, op ∈ owned modId (t.opsIn opState) ↔
      op ∈ t.opsIn opState ∧ op.modId = modId := fun op => by simp [owned]
  have hstart : owned modId ((t.opsIn opState).drop ((none : Option ℕ).getD 0)) =
      owned modId (t.opsIn opState) := rfl
  constructor
  · intro he
    refine ⟨fun op hop hm => ?_, fun hne => ?_⟩
    · by_contra hw
      exact opRanges_read hc hstart ⟨op, (hown op).2 ⟨hop, hm⟩, hw⟩ (he ⟨0, 0, 0, false⟩)
    · by_contra hno
      have hnil : owned modId (t.opsIn opState) = [] := by
        rw [List.eq_nil_iff_forall_not_mem]
        exact fun op hop => hno ⟨op, (hown op).1 hop⟩
      have h := he ⟨0, 0, 0, false⟩
      rw [hnil, List.length_nil, show max 1 0 = 0 + 1 from rfl, opRanges,
        getOpRanges_foreign hc
          (show (t.opsIn opState).drop ((none : Option ℕ).getD 0) ≠ [] from hne) hnil] at h
      cases h
  · rintro ⟨hw, hex⟩ p
    by_cases hne : t.opsIn opState = []
    · rw [hne, owned_nil, List.length_nil, show max 1 0 = 0 + 1 from rfl, opRanges,
        getOpRanges_empty hc (by rw [hne, List.drop_nil])]
      rfl
    · have hsome : owned modId (t.opsIn opState) ≠ [] := by
        obtain ⟨op, hop, hm⟩ := hex hne
        exact List.ne_nil_of_mem ((hown op).2 ⟨hop, hm⟩)
      rw [Nat.max_eq_right (List.length_pos_iff.2 hsome)]
      exact opRanges_writes hc hstart hsome fun op hop => hw op ((hown op).1 hop).1 ((hown op).1 hop).2

end

theorem blocks_multiple : (512 : UInt32) ≤ 4096 ∧ (4096 : UInt32) % 512 = 0 := by decide

/-- A task with operations of two owners to do, among them two writes of the block allocator. -/
def mixedTask : Task :=
  let op (n : ℕ) (owner : Owner) : IoOp :=
    ⟨⟨true, UInt64.ofNat n, 1, false, owner, ⟨4096, 512, blocks_multiple⟩⟩, n⟩
  { dssIoTaskGetNew true with
    numTotalOps := 4
    opTodoList := [op 0 .kvtrans, op 1 .ba, op 2 .kvtrans, op 3 .ba] }

theorem enumerates_mixed : Enumerates (fun _ => 0) .ba .forSubmission mixedTask ∧
    Enumerates (fun _ => 0) .kvtrans .forSubmission mixedTask :=
  ⟨(enumerates_iff ⟨by decide, by decide⟩).2 ⟨by decide, by decide⟩,
    (enumerates_iff ⟨by decide, by decide⟩).2 ⟨by decide, by decide⟩⟩

/-- The operations of that task have all another owner: the first call fails. -/
theorem not_enumerates_foreign : ¬ Enumerates (fun _ => 0) .none .forSubmission mixedTask := by
  intro h
  exact absurd (h ⟨0, 0, 0, false⟩) (by decide)

end DssSdk.IoTask
