import DssSdk.IoTask.Execution

/-!
# The progress of an I/O task

A task that was submitted goes on until its message is posted: the I/O module takes it, and the device
calls back for what it has.

* `nextOps`, `Task.sent`: the operations that go to the device together;
* `Task.submitted`, `Task.taken`, `Task.answered`: what a submission, the I/O module and a callback of the
  device make of a task;
* `Progresses`: each of these steps succeeds, and in every order of them at most `Task.left` are left
  until the message is posted, once;
* `executed_of_run`: the execution and the progress of a task in every run.
-/

namespace DssSdk.IoTask

open Program

/-! ### The steps of a task -/

/-- The operations that go to the device together: those up to a blocking one. -/
def nextOps : List IoOp → List IoOp
  | [] => []
  | op :: ops => if op.isBlocking = true then [op] else op :: nextOps ops

/-- The submission of an operation. -/
def IoOp.submission (op : IoOp) : Action := .submit op op.diskBlocks.1 op.diskBlocks.2

/-- The task when operations went to the device. -/
def Task.sent (t : Task) (ops : List IoOp) : Task :=
  { t with
    trace := t.trace ++ ops.map IoOp.submission
    opTodoList := t.opTodoList.drop ops.length
    opsInProgress := t.opsInProgress ++ ops
    numOutstandingOps := t.numOutstandingOps + ops.length }

/-- The task when it was submitted. -/
def Task.submitted (t : Task) : Task :=
  let t₁ : Task := { t with trace := t.trace ++ [.start t.numTotalOps], inProgress := true }
  if t.ioModule = true then { t₁ with toModule := t.toModule + 1 } else t₁.sent (nextOps t.opTodoList)

/-- The task when the I/O module took its message. -/
def Task.taken (t : Task) : Task :=
  { t with toModule := t.toModule - 1, inProgress := true }.sent (nextOps t.opTodoList)

/-- The task when an operation came back. -/
def Task.moved (t : Task) (op : IoOp) (success : Bool) : Task :=
  { t with
    numOpsDone := t.numOpsDone + 1
    numOutstandingOps := t.numOutstandingOps - 1
    opsInProgress := t.opsInProgress.erase op
    trace := t.trace ++ [.complete op success]
    opDone := if success = true then t.opDone ++ [op] else t.opDone
    failedOps := if success = true then t.failedOps else t.failedOps ++ [op]
    taskStatus := if success = true then t.taskStatus else .error }

/-- The task after a callback of the device: the last operation that comes back takes the next ones to
the device, or the message is posted. -/
def Task.answered (t : Task) (op : IoOp) (success : Bool) : Task :=
  if t.opsInProgress.erase op ≠ [] then t.moved op success
  else if t.opTodoList ≠ [] then (t.moved op success).sent (nextOps t.opTodoList)
  else { t.moved op success with
    inProgress := false
    trace := t.trace ++ [.complete op success, .post (t.cb.getD false)] }

/-- A bound on the steps that are left. -/
def Task.left (t : Task) : ℕ := 2 * t.opTodoList.length + t.opsInProgress.length + t.toModule

/-- The I/O module or the device has the task. -/
def Comes (t : Task) : Event → Prop
  | .ioModule => 0 < t.toModule
  | .deviceDone n _ => n < t.opsInProgress.length
  | _ => False

/-- A task that was submitted with operations to do. -/
structure Busy (t : Task) : Prop where
  inProgress : t.inProgress = true
  work : t.opsInProgress ≠ [] ∨ t.opTodoList ≠ []

/-- Every operation went to the device once and came back, and nobody has the task. -/
structure Finished (t : Task) : Prop where
  inProgress : t.inProgress = false
  submitted : (submittedOf t.trace).map IoOp.opId = List.range t.numTotalOps
  completed : ((completedOf t.trace).map IoOp.opId).Perm (List.range t.numTotalOps)
  idle : ∀ e, ¬ Comes t e

/-- What becomes of a busy task: it waits, or it finished and its message was posted. -/
structure Outcome (t t' : Task) : Prop where
  ops : t'.numTotalOps = t.numTotalOps
  outcome : Busy t' ∧ (∃ e, Comes t' e) ∧ posts t'.trace = posts t.trace ∨
    Finished t' ∧ posts t'.trace = posts t.trace + 1

/-- The progress of a task. -/
structure Progresses (t : Task) : Prop where
  submits : t.dreq = true → t.inProgress = false → t.opTodoList ≠ [] →
    step t .submit = some t.submitted ∧ Busy t.submitted
  takes : 0 < t.toModule → t.opTodoList ≠ [] → step t .ioModule = some t.taken
  moves : ∀ n op success, t.opsInProgress[n]? = some op →
    step t (.deviceDone n success) = some (t.answered op success)
  finishes : Busy t → ∀ events, Run.Admissible step Comes t events →
    ∃ t', Run.run step t events = some t' ∧ events.length + t'.left ≤ t.left ∧ Outcome t t'

section

variable {t t' : Task} {op : IoOp} {ops : List IoOp} {success : Bool} {e : Event}

theorem step_of_wp {t₁ : Task} (h : wp (fun _ => False) (handle e) (fun _ t' => t' = t₁) t) :
    step t e = some t₁ := by
  obtain ⟨_, t', hm, rfl⟩ := wp_false_iff.1 h
  exact step_eq_some.2 hm

/-! ### Operations go to the device -/

theorem length_nextOps_le (ops : List IoOp) : (nextOps ops).length ≤ ops.length := by
  induction ops with
  | nil => exact le_rfl
  | cons op ops ih =>
    unfold nextOps
    split_ifs
    · exact Nat.le_add_left _ _
    · exact Nat.succ_le_succ ih

theorem length_nextOps_pos (h : ops ≠ []) : 0 < (nextOps ops).length := by
  cases ops with
  | nil => exact absurd rfl h
  | cons op ops =>
    unfold nextOps
    split_ifs
    · exact Nat.one_pos
    · exact Nat.succ_pos _

@[simp] theorem sent_nil (t : Task) : t.sent [] = t := by simp [Task.sent]

theorem sent_sent (t : Task) (ops ops' : List IoOp) : (t.sent ops).sent ops' = t.sent (ops ++ ops') := by
  simp [Task.sent, List.append_assoc, Nat.add_assoc]

theorem submitOp_sent (htodo : t.opTodoList = op :: ops) :
    wp (fun _ => False) (submitOp op) (fun _ t' => t' = t.sent [op]) t := by
  unfold submitOp Task.sent IoOp.submission
  simp only [wp_bind, wp_dssAssert, wp_record, wp_modify]
  refine ⟨fun _ => ?_, fun hno => hno fun _ => op.device.multiple⟩
  rw [htodo, List.erase_cons_head]
  rfl

theorem submitLoop_sent (htodo : t.opTodoList = ops) :
    wp (fun _ => False) (submitLoop ops) (fun _ t' => t' = t.sent (nextOps ops)) t := by
  induction ops generalizing t with
  | nil => exact (sent_nil t).symm
  | cons op ops ih =>
    unfold submitLoop nextOps
    rw [wp_bind]
    refine wp_mono (submitOp_sent htodo) ?_
    rintro - t₁ rfl
    rw [wp_ite]
    refine ⟨fun hblock => ?_, fun hblock => ?_⟩
    · rw [if_pos hblock]
      rfl
    · rw [if_neg hblock]
      refine wp_mono (ih ?_) ?_
      · unfold Task.sent
        dsimp only
        rw [htodo]
        rfl
      · rintro - t₂ rfl
        rw [sent_sent]
        rfl

theorem submitToDevice_sent (hin : t.inProgress = true) (htodo : t.opTodoList ≠ []) :
    wp (fun _ => False) submitToDevice (fun _ t' => t' = t.sent (nextOps t.opTodoList)) t := by
  unfold submitToDevice
  rw [wp_bind, wp_get, wp_bind, wp_dssAssert]
  refine ⟨fun _ => ?_, fun hno => hno hin⟩
  rw [wp_bind, wp_get, wp_bind]
  refine wp_mono (submitLoop_sent rfl) ?_
  rintro - t₁ rfl
  rw [wp_bind, wp_get, wp_dssAssert]
  refine ⟨fun _ => rfl, fun hno => hno ?_⟩
  have hpos := length_nextOps_pos htodo
  unfold Task.sent
  dsimp only
  omega

/-! ### What each step does -/

theorem step_submit (hreq : t.dreq = true) (hin : t.inProgress = false) (htodo : t.opTodoList ≠ []) :
    step t .submit = some t.submitted := by
  apply step_of_wp
  unfold handle dssIoTaskSubmit Task.submitted
  simp only [wp_bind, wp_get, wp_dssAssert, wp_record, wp_modify, wp_ite]
  refine ⟨fun _ => ⟨fun _ => ⟨fun hmod => ?_, fun hmod => ?_⟩, fun hno => hno hin⟩, fun hno => hno hreq⟩
  · rw [if_pos hmod]
  · rw [if_neg hmod]
    apply submitToDevice_sent
    · rfl
    · exact htodo

theorem step_ioModule (hmod : 0 < t.toModule) (htodo : t.opTodoList ≠ []) :
    step t .ioModule = some t.taken := by
  apply step_of_wp
  unfold handle ioModuleTakes Task.taken
  rw [wp_bind, wp_get]
  obtain ⟨n, hn⟩ := Nat.exists_eq_succ_of_ne_zero hmod.ne'
  rw [hn]
  dsimp only
  unfold dssIoTaskSubmitToDevice
  rw [wp_bind, wp_modify, wp_bind, wp_modify]
  exact submitToDevice_sent rfl htodo

theorem moveOp_moved : wp (fun _ => False) (moveOp op success) (fun _ t' => t' = t.moved op success) t := by
  unfold moveOp Task.moved
  simp only [wp_bind, wp_modify, wp_record, wp_ite]
  cases success with
  | true => exact ⟨fun _ => rfl, fun hno => absurd rfl hno⟩
  | false => exact ⟨fun hno => (by cases hno), fun _ => rfl⟩

theorem step_deviceDone (h : Inv t) {n : ℕ} (hn : t.opsInProgress[n]? = some op) :
    step t (.deviceDone n success) = some (t.answered op success) := by
  have hmem : op ∈ t.opsInProgress := List.mem_of_getElem? hn
  have hin : t.inProgress = true := by
    by_contra hno
    rw [(h.idle (by simpa using hno)).1] at hmem
    exact List.not_mem_nil hmem
  have hout : (t.moved op success).numOutstandingOps = (t.opsInProgress.erase op).length := by
    rw [List.length_erase_of_mem hmem, ← h.outstanding]
    rfl
  apply step_of_wp
  unfold handle deviceDone
  rw [wp_bind, wp_get, hn]
  dsimp only
  unfold ioTaskOpComplete Task.answered
  rw [wp_bind]
  refine wp_mono moveOp_moved ?_
  rintro - t₁ rfl
  rw [wp_bind, wp_get, hout, wp_ite]
  refine ⟨fun hne => ?_, fun hzero => ?_⟩
  · rw [if_pos fun hnil => hne (by rw [hnil]; rfl)]
    rfl
  · rw [if_neg (not_not.2 (List.eq_nil_of_length_eq_zero (not_not.1 hzero))), wp_ite]
    refine ⟨fun htodo => ?_, fun htodo => ?_⟩
    · rw [if_pos (show t.opTodoList ≠ [] from htodo)]
      exact submitToDevice_sent hin htodo
    · rw [if_neg (show ¬ t.opTodoList ≠ [] from htodo)]
      unfold postToInstance Task.moved
      rw [wp_bind, wp_get]
      dsimp only
      cases hcb : t.cb with
      | none => exact h.cb (Or.inr hin) hcb
      | some toCq =>
        dsimp only
        rw [wp_bind, wp_modify, wp_record, List.append_assoc]
        rfl

/-! ### The end of a task -/

theorem left_sent (h : ops.length ≤ t.opTodoList.length) : (t.sent ops).left + ops.length = t.left := by
  unfold Task.left Task.sent
  dsimp only
  rw [List.length_drop, List.length_append]
  omega

theorem left_taken (hmod : 0 < t.toModule) : t.taken.left < t.left := by
  have hleft := left_sent (t := { t with toModule := t.toModule - 1, inProgress := true })
    (length_nextOps_le t.opTodoList)
  have hone : ({ t with toModule := t.toModule - 1, inProgress := true } : Task).left + 1 = t.left := by
    unfold Task.left
    dsimp only
    omega
  unfold Task.taken
  omega

theorem left_moved (hmem : op ∈ t.opsInProgress) : (t.moved op success).left + 1 = t.left := by
  have hlen := List.length_erase_of_mem hmem
  have hpos := List.length_pos_of_mem hmem
  unfold Task.left Task.moved
  dsimp only
  omega

theorem left_answered (hmem : op ∈ t.opsInProgress) : (t.answered op success).left < t.left := by
  have hmoved : (t.moved op success).left + 1 = t.left := left_moved hmem
  unfold Task.answered
  split_ifs with hmore htodo
  · omega
  · have hsent := left_sent (t := t.moved op success) (length_nextOps_le t.opTodoList)
    omega
  · change (t.moved op success).left < t.left
    omega

@[simp] theorem posts_submission (ops : List IoOp) : posts (ops.map IoOp.submission) = 0 := by
  unfold posts
  rw [List.countP_eq_zero]
  rintro a ha
  obtain ⟨op, -, rfl⟩ := List.mem_map.1 ha
  exact Bool.false_ne_true

theorem Inv.comes (h : Inv t) (hbusy : Busy t) : ∃ e, Comes t e := by
  rcases h.busy hbusy.inProgress with ⟨hne, -⟩ | ⟨-, hmod⟩
  · exact ⟨.deviceDone 0 true, List.length_pos_iff.2 hne⟩
  · exact ⟨.ioModule, by rw [Comes, hmod]; exact Nat.one_pos⟩

theorem Inv.finished (h : Inv t) (hin : t.inProgress = false) (htodo : t.opTodoList = []) : Finished t := by
  obtain ⟨hnone, hmod⟩ := h.idle hin
  have hids := h.ids
  rw [htodo, List.append_nil] at hids
  have hfly := h.flying
  rw [hnone, List.append_nil] at hfly
  refine ⟨hin, hids, ?_, fun e he => ?_⟩
  · rw [← hids]
    exact (hfly.map IoOp.opId).symm
  · cases e with
    | ioModule => exact absurd hmod (Nat.pos_iff_ne_zero.1 he)
    | deviceDone n success =>
      rw [Comes, hnone] at he
      exact Nat.not_lt_zero n he
    | setup _ _ | add _ _ | submit | reset => exact he

/-- One step of the I/O module or of the device. -/
theorem Inv.progress (h : Inv t) (hbusy : Busy t) (he : Comes t e) :
    ∃ t', IoTask.step t e = some t' ∧ t'.left < t.left ∧ t'.numTotalOps = t.numTotalOps ∧
      (Busy t' ∧ posts t'.trace = posts t.trace ∨
        Finished t' ∧ posts t'.trace = posts t.trace + 1) := by
  cases e with
  | setup _ _ | add _ _ | submit | reset => exact he.elim
  | ioModule =>
    have hnone : t.opsInProgress = [] := by
      rcases h.busy hbusy.inProgress with ⟨-, hmod⟩ | ⟨hnone, -⟩
      · exact absurd hmod (Nat.pos_iff_ne_zero.1 he)
      · exact hnone
    have htodo := hbusy.work.resolve_left (not_not.2 hnone)
    refine ⟨_, step_ioModule he htodo, left_taken he, rfl, .inl ⟨⟨rfl, .inl ?_⟩, ?_⟩⟩
    · exact fun hnil => (length_nextOps_pos htodo).ne'
        (List.length_eq_zero_iff.2 (List.append_eq_nil_iff.1 hnil).2)
    · unfold Task.taken Task.sent
      simp
  | deviceDone n success =>
    obtain ⟨op, hn⟩ : ∃ op, t.opsInProgress[n]? = some op := ⟨_, List.getElem?_eq_getElem he⟩
    have hstep : IoTask.step t (.deviceDone n success) = some (t.answered op success) :=
      step_deviceDone h hn
    have hinv := h.step hstep
    refine ⟨_, hstep, left_answered (List.mem_of_getElem? hn), ?_, ?_⟩
    · unfold Task.answered
      split_ifs <;> rfl
    · have hcomplete : posts [.complete op success] = 0 := rfl
      unfold Task.answered at hinv ⊢
      split_ifs at hinv ⊢ with hmore htodo
      · refine .inl ⟨⟨hbusy.inProgress, .inl hmore⟩, ?_⟩
        unfold Task.moved
        rw [posts_append, hcomplete, Nat.add_zero]
      · refine .inl ⟨⟨hbusy.inProgress, .inl fun hnil => ?_⟩, ?_⟩
        · exact (length_nextOps_pos htodo).ne'
            (List.length_eq_zero_iff.2 (List.append_eq_nil_iff.1 hnil).2)
        · unfold Task.sent Task.moved
          rw [posts_append, posts_append, hcomplete, posts_submission, Nat.add_zero]
      · refine .inr ⟨hinv.finished rfl (not_not.1 htodo), ?_⟩
        rw [posts_append]
        rfl

/-- Every order of the steps ends with the message. -/
theorem Inv.finishes (h : Inv t) (hbusy : Busy t) {events : List Event}
    (hcomes : Run.Admissible IoTask.step Comes t events) :
    ∃ t', Run.run IoTask.step t events = some t' ∧ events.length + t'.left ≤ t.left ∧ Outcome t t' := by
  induction events generalizing t with
  | nil => exact ⟨t, rfl, (Nat.zero_add _).le, rfl, .inl ⟨hbusy, h.comes hbusy, rfl⟩⟩
  | cons e events ih =>
    obtain ⟨he, hrest⟩ := hcomes
    obtain ⟨t₁, hstep, hleft, hops, hnext⟩ := h.progress hbusy he
    rcases hnext with ⟨hbusy₁, hposts⟩ | ⟨hfin, hposts⟩
    · obtain ⟨t', hrun, hle, hout⟩ := ih (h.step hstep) hbusy₁ (hrest t₁ hstep)
      refine ⟨t', ?_, ?_, hout.ops.trans hops, ?_⟩
      · rw [Run.run_cons, hstep]
        exact hrun
      · rw [List.length_cons]
        omega
      · rw [← hposts]
        exact hout.outcome
    · -- nobody has a finished task
      cases events with
      | nil =>
        refine ⟨t₁, ?_, ?_, hops, .inr ⟨hfin, hposts⟩⟩
        · rw [Run.run_cons, hstep]
          rfl
        · rw [List.length_singleton]
          omega
      | cons e' events => exact absurd (hrest t₁ hstep).1 (hfin.idle e')

theorem busy_submitted (htodo : t.opTodoList ≠ []) : Busy t.submitted := by
  unfold Task.submitted
  dsimp only
  split_ifs
  · exact ⟨rfl, .inr htodo⟩
  · refine ⟨rfl, .inl fun hnil => ?_⟩
    exact (length_nextOps_pos htodo).ne' (List.length_eq_zero_iff.2 (List.append_eq_nil_iff.1 hnil).2)

theorem Inv.progresses (h : Inv t) : Progresses t where
  submits := fun hreq hin htodo => ⟨step_submit hreq hin htodo, busy_submitted htodo⟩
  takes := step_ioModule
  moves := fun _ _ _ hn => step_deviceDone h hn
  finishes := fun hbusy _ => h.finishes hbusy

/-- The execution and the progress of a task in every run. -/
theorem executed_of_run {ioModule : Bool} {events : List Event}
    (hrun : Run.run step (dssIoTaskGetNew ioModule) events = some t) : Executed t ∧ Progresses t := by
  have h : Inv t := Run.run_inv (fun _ _ _ (h : Inv _) _ hs => h.step hs)
    (inv_dssIoTaskGetNew ioModule) (Run.admissible_true _ _) hrun
  exact ⟨h.executed, h.progresses⟩

end

/-- An operation on the first blocks of a device with blocks of 4096 bytes on sectors of 512. -/
def blockOp (lba : UInt64) (isBlocking : Bool) : BlkOp :=
  ⟨true, lba, 1, isBlocking, .kvtrans, ⟨4096, 512, by decide⟩⟩

/-- Two operations, a blocking one and another one: the device calls back for the second one first,
and one operation fails. -/
def fourOps : List Event :=
  [.setup true true, .add true (blockOp 0 false), .add true (blockOp 1 false),
    .add true (blockOp 2 true), .add false (blockOp 9 false), .add true (blockOp 3 false), .submit,
    .deviceDone 1 true, .deviceDone 1 false, .deviceDone 0 true, .deviceDone 0 true]

theorem executed_fourOps :
    ∃ t, Run.run step (dssIoTaskGetNew false) fourOps = some t ∧
      (submittedOf t.trace).map IoOp.opId = [0, 1, 2, 3] ∧
      (completedOf t.trace).map IoOp.opId = [1, 2, 0, 3] ∧ posts t.trace = 1 ∧
      Executed t ∧ Progresses t := by
  obtain ⟨t, ht⟩ : ∃ t, Run.run step (dssIoTaskGetNew false) fourOps = some t :=
    Option.isSome_iff_exists.1 (by decide +kernel)
  have hseen : (Run.run step (dssIoTaskGetNew false) fourOps).map (fun t =>
      ((submittedOf t.trace).map IoOp.opId, (completedOf t.trace).map IoOp.opId, posts t.trace)) =
      some ([0, 1, 2, 3], [1, 2, 0, 3], 1) := by decide +kernel
  rw [ht, Option.map_some, Option.some.injEq, Prod.mk.injEq, Prod.mk.injEq] at hseen
  exact ⟨t, ht, hseen.1, hseen.2.1, hseen.2.2, executed_of_run ht⟩

/-- A task without operations stops at the assertion that there is one, in the submission itself or when
the I/O module takes its message: no message is ever posted. -/
theorem not_executed_noOps :
    (∃ t, Run.run step (dssIoTaskGetNew false) [.setup true true] = some t ∧
      (t.dreq = true ∧ t.inProgress = false ∧ step t .submit = none)) ∧
    ∃ t, Run.run step (dssIoTaskGetNew true) [.setup true true, .submit] = some t ∧
      (0 < t.toModule ∧ posts t.trace = 0 ∧ step t .ioModule = none) :=
  ⟨by decide +kernel, by decide +kernel⟩

end DssSdk.IoTask
