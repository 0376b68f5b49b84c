import DssSdk.IoTask.Task

/-!
# The execution of an I/O task

What the device and the waiting module see of a task, for every order in which the device calls
back.

* `Executed`: operations are submitted once and in order, a blocking one separates those before it
  from those after it, the counters are right, and the message comes once and last;
* `Inv`: the invariant of a task, `Submitting`: the same within the loop over the operations to do;
* `Inv.step`, `Inv.executed`: every event keeps the invariant, which says all of this.
-/

namespace DssSdk.IoTask

open Program

/-! ### What is seen of a task -/

/-- The operation that goes to the device. -/
def Action.submitted : Action → Option IoOp
  | .submit op _ _ => some op
  | _ => none

/-- The operation that comes back. -/
def Action.completed : Action → Option IoOp
  | .complete op _ => some op
  | _ => none

/-- The number of operations that the task is submitted with. -/
def Action.started : Action → Option ℕ
  | .start n => some n
  | _ => none

/-- A message to the module that waits. -/
def Action.isPost : Action → Bool
  | .post _ => true
  | _ => false

/-- The operations that went to the device, in order. -/
def submittedOf (l : List Action) : List IoOp := l.filterMap Action.submitted

/-- The operations that came back, in order. -/
def completedOf (l : List Action) : List IoOp := l.filterMap Action.completed

/-- The number of operations of the last submission. -/
def startedWith (l : List Action) : ℕ := (l.filterMap Action.started).getLast?.getD 0

/-- How often the task was submitted. -/
def starts (l : List Action) : ℕ := (l.filterMap Action.started).length

/-- How often the module that waits got its message. -/
def posts (l : List Action) : ℕ := l.countP Action.isPost

/-- An operation goes to the device when every operation up to a blocking one before it came
back. `ops` are the operations of the task. -/
def AfterBlocking (ops : List IoOp) (before : List Action) (a : Action) : Prop :=
  ∀ op, a.submitted = some op → ∀ b ∈ ops, b.isBlocking = true → b.opId < op.opId →
    ∀ c ∈ ops, c.opId ≤ b.opId → c ∈ completedOf before

/-- The message comes when every operation of the task came back. -/
def AfterLast (before : List Action) (a : Action) : Prop :=
  a.isPost = true → ((completedOf before).map IoOp.opId).Perm (List.range (startedWith before))

/-- The execution of a task. `opId` is the place of an operation in the list of the task. -/
structure Executed (t : Task) : Prop where
  classes : ((t.opDone ++ t.failedOps ++ t.opsInProgress ++ t.opTodoList).map IoOp.opId).Perm
    (List.range t.numTotalOps)
  outstanding : t.numOutstandingOps = t.opsInProgress.length
  done : t.numOpsDone = t.opDone.length + t.failedOps.length
  cameBack : (completedOf t.trace).Perm (t.opDone ++ t.failedOps)
  inOrder : (submittedOf t.trace ++ t.opTodoList).map IoOp.opId = List.range t.numTotalOps
  blocking : Run.Always (AfterBlocking (submittedOf t.trace ++ t.opTodoList)) t.trace
  once : posts t.trace + (if t.inProgress = true then 1 else 0) = starts t.trace
  last : Run.Always AfterLast t.trace
  awaits : t.inProgress = true → t.opsInProgress ≠ [] ∨ 0 < t.toModule
  handled : ∀ n success, ∃ t', step t (.deviceDone n success) = some t'

/-! ### The invariant -/

/-- The rule for blocking operations in terms of those that went to the device before. -/
def Separated (before : List Action) (a : Action) : Prop :=
  ∀ op, a.submitted = some op → ∀ b ∈ submittedOf before, b.isBlocking = true →
    ∀ c ∈ submittedOf before, c.opId ≤ b.opId → c ∈ completedOf before

/-- The part of the invariant that holds also while operations are submitted. -/
structure Base (t : Task) : Prop where
  ids : (submittedOf t.trace ++ t.opTodoList).map IoOp.opId = List.range t.numTotalOps
  flying : (submittedOf t.trace).Perm (completedOf t.trace ++ t.opsInProgress)
  cameBack : (completedOf t.trace).Perm (t.opDone ++ t.failedOps)
  outstanding : t.numOutstandingOps = t.opsInProgress.length
  done : t.numOpsDone = (completedOf t.trace).length
  separated : Run.Always Separated t.trace
  last : Run.Always AfterLast t.trace
  once : posts t.trace + (if t.inProgress = true then 1 else 0) = starts t.trace
  started : t.inProgress = true → startedWith t.trace = t.numTotalOps
  cb : t.dreq = true ∨ t.inProgress = true → t.cb ≠ none

/-- The invariant: a task that is submitted waits for the device or for the I/O module. -/
structure Inv (t : Task) : Prop extends Base t where
  busy : t.inProgress = true → t.opsInProgress ≠ [] ∧ t.toModule = 0 ∨
    t.opsInProgress = [] ∧ t.toModule = 1
  idle : t.inProgress = false → t.opsInProgress = [] ∧ t.toModule = 0

/-- While operations are submitted: no blocking one of this round went to the device. -/
structure Submitting (t : Task) : Prop extends Base t where
  inProgress : t.inProgress = true
  toModule : t.toModule = 0
  free : ∀ b ∈ submittedOf t.trace, b.isBlocking = true → ∀ c ∈ submittedOf t.trace,
    c.opId ≤ b.opId → c ∈ completedOf t.trace

section

variable {t t' : Task} {l : List Action}

@[simp] theorem starts_append (l l' : List Action) : starts (l ++ l') = starts l + starts l' := by
  simp [starts]

@[simp] theorem posts_append (l l' : List Action) : posts (l ++ l') = posts l + posts l' := by
  simp [posts]

/-! ### Operations go to the device -/

theorem submitOp_spec {op : IoOp} {ops : List IoOp} (h : Submitting t)
    (htodo : t.opTodoList = op :: ops) :
    wp (fun _ => False) (submitOp op) (fun _ t' => Base t' ∧ t'.opTodoList = ops ∧
      t'.opsInProgress ≠ [] ∧ t'.inProgress = true ∧ t'.toModule = 0 ∧
      (op.isBlocking = false → Submitting t')) t := by
  unfold submitOp
  simp only [wp_bind, wp_dssAssert, wp_record, wp_modify]
  refine ⟨fun _ => ?_, fun hno => hno fun _ => op.device.multiple⟩
  have hnew : submittedOf (t.trace ++ [.submit op op.diskBlocks.1 op.diskBlocks.2]) =
      submittedOf t.trace ++ [op] := by
    simp [submittedOf, Action.submitted]
  have hback : completedOf (t.trace ++ [.submit op op.diskBlocks.1 op.diskBlocks.2]) =
      completedOf t.trace := by
    simp [completedOf, Action.completed]
  have hids := h.ids
  rw [htodo] at hids
  have hbase : Base { t with
      trace := t.trace ++ [.submit op op.diskBlocks.1 op.diskBlocks.2]
      opTodoList := t.opTodoList.erase op
      opsInProgress := t.opsInProgress ++ [op]
      numOutstandingOps := t.numOutstandingOps + 1 } := by
    constructor
    · dsimp only
      rw [hnew, htodo, List.erase_cons_head, List.append_assoc, List.singleton_append]
      exact hids
    · dsimp only
      rw [hnew, hback, ← List.append_assoc]
      exact h.flying.append_right [op]
    · dsimp only
      rw [hback]
      exact h.cameBack
    · dsimp only
      rw [List.length_append, h.outstanding]
      rfl
    · dsimp only
      rw [hback]
      exact h.done
    · refine Run.always_snoc.2 ⟨h.separated, fun op' hop' b hb hblock c hc hle => ?_⟩
      exact h.free b hb hblock c hc hle
    · refine Run.always_snoc.2 ⟨h.last, fun hpost => ?_⟩
      cases hpost
    · dsimp only
      rw [posts_append, starts_append]
      exact h.once
    · intro hin
      have hstart := h.started hin
      simpa [startedWith, Action.started] using hstart
    · exact h.cb
  refine ⟨hbase, by rw [htodo, List.erase_cons_head], by simp, h.inProgress, h.toModule,
    fun hnb => ⟨hbase, h.inProgress, h.toModule, ?_⟩⟩
  intro b hb hblock c hc hle
  dsimp only at hb hc ⊢
  rw [hnew, List.mem_append, List.mem_singleton] at hb hc
  rw [hback]
  have hb' : b ∈ submittedOf t.trace := by
    rcases hb with hb | rfl
    · exact hb
    · rw [hnb] at hblock
      cases hblock
  -- the new operation has a larger number than every one before it
  have hpair : ((submittedOf t.trace ++ op :: ops).map IoOp.opId).Pairwise (· < ·) := by
    rw [hids]
    exact List.pairwise_lt_range
  rw [List.map_append, List.pairwise_append] at hpair
  have hlt : b.opId < op.opId :=
    hpair.2.2 b.opId (List.mem_map_of_mem hb') op.opId (by simp)
  rcases hc with hc | rfl
  · exact h.free b hb' hblock c hc hle
  · omega

theorem submitLoop_spec {ops : List IoOp} (h : Submitting t) (htodo : t.opTodoList = ops) :
    wp (fun _ => False) (submitLoop ops) (fun _ t' => Base t' ∧ t'.inProgress = true ∧
      t'.toModule = 0 ∧ (ops ≠ [] ∨ t.opsInProgress ≠ [] → t'.opsInProgress ≠ [])) t := by
  induction ops generalizing t with
  | nil => exact ⟨h.toBase, h.inProgress, h.toModule, fun hne => hne.resolve_left (by simp)⟩
  | cons op ops ih =>
    unfold submitLoop
    rw [wp_bind]
    refine wp_mono (submitOp_spec h htodo) fun _ t₁ h₁ => ?_
    obtain ⟨hbase, htodo₁, hne, hin, hmod, hsub⟩ := h₁
    rw [wp_ite]
    refine ⟨fun _ => ⟨hbase, hin, hmod, fun _ => hne⟩, fun hnb => ?_⟩
    refine wp_mono (ih (hsub (by simpa using hnb)) htodo₁) fun _ t₂ h₂ => ?_
    exact ⟨h₂.1, h₂.2.1, h₂.2.2.1, fun _ => h₂.2.2.2 (Or.inr hne)⟩

theorem submitToDevice_spec {F : Fault → Prop} (h : Base t) (hin : t.inProgress = true)
    (hmod : t.toModule = 0) (hnone : t.opsInProgress = []) (hF : t.opTodoList = [] → F .assertFailed) :
    wp F submitToDevice (fun _ t' => Inv t') t := by
  have hfree : Submitting t := by
    refine ⟨h, hin, hmod, fun b _ _ c hc _ => ?_⟩
    have hperm := h.flying
    rw [hnone, List.append_nil] at hperm
    exact hperm.mem_iff.1 hc
  unfold submitToDevice
  rw [wp_bind, wp_get, wp_bind, wp_dssAssert]
  refine ⟨fun _ => ?_, fun hno => absurd hin hno⟩
  rw [wp_bind, wp_get, wp_bind]
  have hspec := submitLoop_spec hfree rfl
  obtain ⟨_, t₁, hm, hbase₁, hin₁, hmod₁, hne₁⟩ := wp_false_iff.1 hspec
  unfold wp
  rw [hm]
  change wp F (do dssAssert ((← get).numOutstandingOps ≠ 0)) (fun _ t' => Inv t') t₁
  rw [wp_bind, wp_get, wp_dssAssert, hbase₁.outstanding]
  refine ⟨fun hlen => ⟨hbase₁, fun _ => Or.inl ⟨?_, hmod₁⟩, fun hno => ?_⟩, fun hlen => hF ?_⟩
  · exact fun hnil => hlen (by rw [hnil]; rfl)
  · rw [hin₁] at hno
    cases hno
  · by_contra htodo
    exact hlen fun hzero => hne₁ (Or.inl htodo) (List.eq_nil_of_length_eq_zero hzero)

/-! ### Operations come back -/

theorem perm_move {α : Type} [DecidableEq α] {a : α} {l₁ l₂ l₃ : List α} (h : l₁.Perm (l₂ ++ l₃))
    (ha : a ∈ l₃) : l₁.Perm ((l₂ ++ [a]) ++ l₃.erase a) := by
  refine h.trans ?_
  rw [List.append_assoc, List.singleton_append]
  exact (List.perm_cons_erase ha).append_left l₂

theorem moveOp_spec {op : IoOp} {success : Bool} (h : Base t) (hin : t.inProgress = true)
    (hmem : op ∈ t.opsInProgress) :
    wp (fun _ => False) (moveOp op success) (fun _ t' => Base t' ∧ t'.inProgress = true ∧
      t'.toModule = t.toModule ∧ t'.opsInProgress = t.opsInProgress.erase op) t := by
  have hback : completedOf (t.trace ++ [.complete op success]) = completedOf t.trace ++ [op] := by
    simp [completedOf, Action.completed]
  have hsub : submittedOf (t.trace ++ [.complete op success]) = submittedOf t.trace := by
    simp [submittedOf, Action.submitted]
  have hsep : Run.Always Separated (t.trace ++ [.complete op success]) :=
    Run.always_snoc.2 ⟨h.separated, fun op' hop' => (by cases hop')⟩
  have hlast : Run.Always AfterLast (t.trace ++ [.complete op success]) :=
    Run.always_snoc.2 ⟨h.last, fun hpost => (by cases hpost)⟩
  have honce : posts (t.trace ++ [.complete op success]) + (if t.inProgress = true then 1 else 0) =
      starts (t.trace ++ [.complete op success]) := by
    rw [posts_append, starts_append]
    exact h.once
  have hstart : startedWith (t.trace ++ [.complete op success]) = t.numTotalOps := by
    rw [← h.started hin]
    simp [startedWith, Action.started]
  have hids := h.ids
  rw [← hsub] at hids
  have hfly : (submittedOf (t.trace ++ [.complete op success])).Perm
      (completedOf (t.trace ++ [.complete op success]) ++ t.opsInProgress.erase op) := by
    rw [hsub, hback]
    exact perm_move h.flying hmem
  have hout : t.numOutstandingOps - 1 = (t.opsInProgress.erase op).length := by
    rw [List.length_erase_of_mem hmem, h.outstanding]
  have hdone : t.numOpsDone + 1 = (completedOf (t.trace ++ [.complete op success])).length := by
    rw [hback, List.length_append, h.done]
    rfl
  unfold moveOp
  simp only [wp_bind, wp_modify, wp_record, wp_ite]
  constructor
  · intro _
    refine ⟨⟨hids, hfly, ?_, hout, hdone, hsep, hlast, honce, fun _ => hstart, h.cb⟩, hin, trivial, trivial⟩
    dsimp only
    rw [hback]
    refine (h.cameBack.append_right [op]).trans ?_
    rw [List.append_assoc, List.append_assoc]
    exact List.perm_append_comm.append_left t.opDone
  · intro _
    refine ⟨⟨hids, hfly, ?_, hout, hdone, hsep, hlast, honce, fun _ => hstart, h.cb⟩, hin, trivial, trivial⟩
    dsimp only
    rw [hback, ← List.append_assoc]
    exact h.cameBack.append_right [op]

theorem postToInstance_spec (h : Base t) (hin : t.inProgress = true) (hmod : t.toModule = 0)
    (hnone : t.opsInProgress = []) (htodo : t.opTodoList = []) :
    wp (fun _ => False) postToInstance (fun _ t' => Inv t') t := by
  unfold postToInstance
  rw [wp_bind, wp_get]
  cases hcb : t.cb with
  | none => exact h.cb (Or.inr hin) hcb
  | some toCq =>
    dsimp only
    rw [wp_bind, wp_modify, wp_record]
    have hperm := h.flying
    rw [hnone, List.append_nil] at hperm
    have hids := h.ids
    rw [htodo, List.append_nil] at hids
    have hsub : submittedOf (t.trace ++ [.post toCq]) = submittedOf t.trace := by
      simp [submittedOf, Action.submitted]
    have hback : completedOf (t.trace ++ [.post toCq]) = completedOf t.trace := by
      simp [completedOf, Action.completed]
    refine ⟨⟨?_, ?_, ?_, h.outstanding, ?_, ?_, ?_, ?_, fun hno => (by cases hno), ?_⟩,
      fun hno => (by cases hno), fun _ => ⟨hnone, hmod⟩⟩
    · dsimp only
      rw [hsub]
      exact h.ids
    · dsimp only
      rw [hsub, hback]
      exact h.flying
    · dsimp only
      rw [hback]
      exact h.cameBack
    · dsimp only
      rw [hback]
      exact h.done
    · exact Run.always_snoc.2 ⟨h.separated, fun op hop => (by cases hop)⟩
    · refine Run.always_snoc.2 ⟨h.last, fun _ => ?_⟩
      rw [h.started hin, ← hids]
      exact (hperm.map IoOp.opId).symm
    · have honce := h.once
      rw [if_pos hin] at honce
      dsimp only
      rw [posts_append, starts_append, if_neg (by simp)]
      exact honce
    · intro _
      dsimp only
      rw [hcb]
      exact Option.some_ne_none _

theorem deviceDone_spec (n : ℕ) (success : Bool) (h : Inv t) :
    wp (fun _ => False) (deviceDone n success) (fun _ t' => Inv t') t := by
  unfold deviceDone
  rw [wp_bind, wp_get]
  cases hn : t.opsInProgress[n]? with
  | none => exact h
  | some op =>
    have hmem : op ∈ t.opsInProgress := List.mem_of_getElem? hn
    have hne : t.opsInProgress ≠ [] := List.ne_nil_of_mem hmem
    have hin : t.inProgress = true := by
      by_contra hno
      exact hne (h.idle (by simpa using hno)).1
    have hmod : t.toModule = 0 := by
      rcases h.busy hin with hb | hb
      · exact hb.2
      · exact absurd hb.1 hne
    dsimp only
    unfold ioTaskOpComplete
    rw [wp_bind]
    refine wp_mono (moveOp_spec h.toBase hin hmem) fun _ t₁ h₁ => ?_
    obtain ⟨hbase₁, hin₁, hmod₁, _⟩ := h₁
    rw [hmod] at hmod₁
    rw [wp_bind, wp_get, wp_ite]
    refine ⟨fun hout => ⟨hbase₁, fun _ => Or.inl ⟨fun hnil => ?_, hmod₁⟩, fun hno => ?_⟩,
      fun hout => ?_⟩
    · rw [hbase₁.outstanding, hnil] at hout
      exact hout rfl
    · rw [hin₁] at hno
      cases hno
    · push Not at hout
      rw [hbase₁.outstanding] at hout
      have hnone := List.eq_nil_of_length_eq_zero hout
      rw [wp_ite]
      refine ⟨fun htodo => ?_, fun htodo => ?_⟩
      · exact submitToDevice_spec hbase₁ hin₁ hmod₁ hnone htodo
      · push Not at htodo
        exact postToInstance_spec hbase₁ hin₁ hmod₁ hnone htodo

/-! ### The other functions -/

theorem dssIoTaskSetup_spec {req toCq : Bool} (h : Inv t) :
    wp (fun _ => True) (dssIoTaskSetup req toCq) (fun _ t' => Inv t') t := by
  unfold dssIoTaskSetup
  rw [wp_modify]
  exact ⟨⟨h.ids, h.flying, h.cameBack, h.outstanding, h.done, h.separated, h.last, h.once,
    h.started, fun _ => Option.some_ne_none _⟩, h.busy, h.idle⟩

theorem addBlkOp_spec {memory : Bool} {op : BlkOp} (h : Inv t) :
    wp (fun _ => True) (addBlkOp memory op) (fun _ t' => Inv t') t := by
  unfold addBlkOp
  rw [wp_bind, wp_get, wp_bind, wp_dssAssert]
  refine ⟨fun hin => ?_, fun _ => trivial⟩
  rw [wp_ite]
  refine ⟨fun _ => ?_, fun _ => h⟩
  rw [wp_modify]
  refine ⟨⟨?_, h.flying, h.cameBack, h.outstanding, h.done, h.separated, h.last, h.once,
    fun hno => ?_, h.cb⟩, h.busy, h.idle⟩
  · dsimp only
    rw [← List.append_assoc, List.map_append, h.ids, List.range_succ]
    rfl
  · rw [hin] at hno
    cases hno

theorem dssIoTaskSubmit_spec (h : Inv t) :
    wp (fun _ => True) dssIoTaskSubmit (fun _ t' => Inv t') t := by
  unfold dssIoTaskSubmit
  simp only [wp_bind, wp_get, wp_dssAssert, wp_record, wp_modify]
  refine ⟨fun hreq => ⟨fun hin => ?_, fun _ => trivial⟩, fun _ => trivial⟩
  obtain ⟨hnone, hmod⟩ := h.idle hin
  have honce := h.once
  rw [hin, if_neg (by simp)] at honce
  have hsub : submittedOf (t.trace ++ [.start t.numTotalOps]) = submittedOf t.trace := by
    simp [submittedOf, Action.submitted]
  have hback : completedOf (t.trace ++ [.start t.numTotalOps]) = completedOf t.trace := by
    simp [completedOf, Action.completed]
  have hbase : Base { t with trace := t.trace ++ [.start t.numTotalOps], inProgress := true } := by
    refine ⟨?_, ?_, ?_, h.outstanding, ?_, ?_, ?_, ?_, fun _ => ?_, fun _ => h.cb (Or.inl hreq)⟩
    · dsimp only
      rw [hsub]
      exact h.ids
    · dsimp only
      rw [hsub, hback]
      exact h.flying
    · dsimp only
      rw [hback]
      exact h.cameBack
    · dsimp only
      rw [hback]
      exact h.done
    · exact Run.always_snoc.2 ⟨h.separated, fun op hop => (by cases hop)⟩
    · exact Run.always_snoc.2 ⟨h.last, fun hpost => (by cases hpost)⟩
    · dsimp only
      rw [posts_append, starts_append, if_pos rfl, ← honce]
      rfl
    · simp [startedWith, Action.started]
  rw [wp_ite]
  refine ⟨fun _ => ?_, fun _ => submitToDevice_spec hbase rfl hmod hnone fun _ => trivial⟩
  refine ⟨⟨hbase.ids, hbase.flying, hbase.cameBack, hbase.outstanding, hbase.done, hbase.separated,
    hbase.last, hbase.once, hbase.started, hbase.cb⟩, fun _ => Or.inr ⟨hnone, ?_⟩,
    fun hno => (by cases hno)⟩
  dsimp only
  rw [hmod]

theorem ioModuleTakes_spec (h : Inv t) :
    wp (fun _ => True) ioModuleTakes (fun _ t' => Inv t') t := by
  unfold ioModuleTakes
  rw [wp_bind, wp_get]
  cases hmod : t.toModule with
  | zero => exact h
  | succ n =>
    dsimp only
    unfold dssIoTaskSubmitToDevice
    rw [wp_bind, wp_modify, wp_bind, wp_modify]
    have hin : t.inProgress = true := by
      by_contra hno
      rw [(h.idle (by simpa using hno)).2] at hmod
      cases hmod
    rcases h.busy hin with hb | hb
    · rw [hb.2] at hmod
      cases hmod
    · have hn : n = 0 := by omega
      refine submitToDevice_spec ?_ rfl hn hb.1 fun _ => trivial
      exact ⟨h.ids, h.flying, h.cameBack, h.outstanding, h.done, h.separated, h.last,
        by simpa [hin] using h.once, fun _ => h.started hin, fun _ => h.cb (Or.inr hin)⟩

theorem dssIoTaskResetOps_spec (h : Inv t) :
    wp (fun _ => True) dssIoTaskResetOps (fun _ t' => Inv t') t := by
  unfold dssIoTaskResetOps
  simp only [wp_bind, wp_get, wp_dssAssert, wp_modify]
  refine ⟨fun hin => ⟨fun htodo => ⟨fun hnone => ⟨fun hfail => ⟨fun hout => ⟨fun hdone =>
    ⟨fun hlen => ?_, fun _ => trivial⟩, fun _ => trivial⟩, fun _ => trivial⟩, fun _ => trivial⟩,
    fun _ => trivial⟩, fun _ => trivial⟩, fun _ => trivial⟩
  refine ⟨⟨?_, ?_, ?_, h.outstanding, rfl, Run.always_nil _, Run.always_nil _, ?_, ?_, h.cb⟩, h.busy,
    h.idle⟩
  · simp [htodo, submittedOf]
  · simp [hnone, submittedOf, completedOf]
  · simp [hfail, completedOf]
  · simp [hin, posts, starts]
  · intro hno
    rw [hin] at hno
    cases hno

/-! ### Runs -/

theorem inv_dssIoTaskGetNew (ioModule : Bool) : Inv (dssIoTaskGetNew ioModule) := by
  refine ⟨⟨rfl, .nil, .nil, rfl, rfl, Run.always_nil _, Run.always_nil _, rfl, ?_, ?_⟩, ?_, ?_⟩
  all_goals simp [dssIoTaskGetNew]

/-- Every event keeps the invariant. -/
theorem Inv.step {e : Event} (h : Inv t) (hs : step t e = some t') : Inv t' := by
  rw [step_eq_some] at hs
  have hspec : wp (fun _ => True) (handle e) (fun _ t' => Inv t') t := by
    cases e with
    | setup req toCq => exact dssIoTaskSetup_spec h
    | add memory op => exact addBlkOp_spec h
    | submit => exact dssIoTaskSubmit_spec h
    | ioModule => exact ioModuleTakes_spec h
    | deviceDone n success =>
      obtain ⟨_, t₁, hm, hinv⟩ := wp_false_iff.1 (deviceDone_spec n success h)
      exact wp_true_iff.2 fun _ t₂ hm₂ => by
        rw [show handle (.deviceDone n success) t = deviceDone n success t from rfl, hm] at hm₂
        cases hm₂
        exact hinv
    | reset => exact dssIoTaskResetOps_spec h
  exact wp_ok hspec hs

theorem Base.mem_before (h : Base t) {l r : List Action} {op b : IoOp} {a : Action}
    (ha : a.submitted = some op) (htrace : t.trace = l ++ a :: r)
    (hb : b ∈ submittedOf t.trace ++ t.opTodoList) (hlt : b.opId < op.opId) :
    b ∈ submittedOf l := by
  have hsplit : submittedOf t.trace ++ t.opTodoList =
      submittedOf l ++ op :: (submittedOf r ++ t.opTodoList) := by
    rw [htrace]
    simp [submittedOf, ha]
  have hpair : ((submittedOf t.trace ++ t.opTodoList).map IoOp.opId).Pairwise (· < ·) := by
    rw [h.ids]
    exact List.pairwise_lt_range
  rw [hsplit] at hb hpair
  rcases List.mem_append.1 hb with hb | hb
  · exact hb
  · exfalso
    rw [List.map_append, List.pairwise_append, List.map_cons, List.pairwise_cons] at hpair
    rcases List.mem_cons.1 hb with rfl | hb
    · exact lt_irrefl _ hlt
    · have := hpair.2.1.1 b.opId (List.mem_map_of_mem hb)
      omega

/-- What the invariant says of the execution. -/
theorem Inv.executed (h : Inv t) : Executed t where
  classes := by
    rw [← h.ids]
    refine List.Perm.map _ (List.Perm.append_right _ ?_)
    exact (h.flying.trans (h.cameBack.append_right _)).symm
  outstanding := h.outstanding
  done := by
    rw [h.done, h.cameBack.length_eq, List.length_append]
  cameBack := h.cameBack
  inOrder := h.ids
  blocking := by
    intro l a r htrace op hop b hb hblock hlt c hc hle
    have hb' := h.mem_before hop htrace hb hlt
    have hc' := h.mem_before hop htrace hc (lt_of_le_of_lt hle hlt)
    exact h.separated l a r htrace op hop b hb' hblock c hc' hle
  once := h.once
  last := h.last
  awaits := by
    intro hin
    rcases h.busy hin with hb | hb
    · exact Or.inl hb.1
    · exact Or.inr (by omega)
  handled := by
    intro n success
    obtain ⟨_, t', hm, -⟩ := wp_false_iff.1 (deviceDone_spec n success h)
    exact ⟨t', step_eq_some.2 hm⟩

end

end DssSdk.IoTask
