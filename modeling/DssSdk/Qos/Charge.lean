import DssSdk.Lib.Run
import DssSdk.Qos.Poller

/-!
# What the operations of a session are charged

`dfly_poller.c`: an operation moves the tags of its session when it is received, and a retrieve once
more, by the bytes that were transferred, when it has succeeded.

* `updateTagNops`, `qosUpdateNops`: `dfly_poller_update_tag_nops`, `dfly_qos_update_nops`;
* `Account`, `chargeStep`: the tags of a session over the operations that are received and completed;
* `StepCharges`: a step pays for its operation; `Payable`: when it does;
* `charged_of_run`: in every run of payable steps the tags grow by a credit for each operation and for
  each 4096 bytes, and the limit tags up to a time are paid for by the credits up to it.

The bytes are divided by 4096 and the result is used less one: an operation with fewer bytes is given its
credit back when it is a store, and fails an assertion when it is a retrieve. The tags wrap at 64 bits.
-/

namespace DssSdk.Qos

open Run

/-! ### The completion -/

/-- `dfly_poller_update_tag_nops`. -/
def updateTagNops (otag credits nops : ℕ) : ℕ := (otag + (nops + 2 ^ 64 - 1) % 2 ^ 64 * credits) % 2 ^ 64

/-- `dfly_qos_update_nops` for a session: the tags after a request that succeeded. -/
def qosUpdateNops (credits tags : Attr → ℕ) (isRetrieve : Bool) (cdw0 : ℕ) : Option (Attr → ℕ) :=
  if isRetrieve then
    if cdw0 / 4096 = 0 then none
    else some fun a => updateTagNops (tags a) (credits a) (cdw0 / 4096)
  else some tags

/-! ### The account of a session -/

/-- The tags of a session, with a record of the limit tags that were given, of the credits that are
due, and of the retrieves that are in flight. -/
structure Account where
  tags : Attr → ℕ
  limTags : List ℕ
  due : ℕ
  inFlight : ℕ

/-- A request of the session that is received, or one that succeeded. -/
inductive ChargeEvent
  | recv (e : Recv)
  | complete (isRetrieve : Bool) (cdw0 : ℕ)

/-- The credits of an event: one for an operation and one for each 4096 bytes; the first 4096 bytes of
a retrieve are those of the operation. -/
def ChargeEvent.charge : ChargeEvent → ℕ
  | .recv e => if e.isStore then max 1 (e.valueLength / 4096) else 1
  | .complete isRetrieve cdw0 => if isRetrieve then cdw0 / 4096 - 1 else 0

/-- One event. -/
def chargeStep (credits : Attr → ℕ) (s : Account) (ev : ChargeEvent) : Option Account :=
  match ev with
  | .recv e =>
      some
        { tags := fun a => (getTag (s.tags a) (credits a) e.nops (e.tick a)).2
          limTags := s.limTags ++ [(getTag (s.tags .lim) (credits .lim) e.nops (e.tick .lim)).1]
          due := s.due + ev.charge
          inFlight := if e.isStore then s.inFlight else s.inFlight + 1 }
  | .complete isRetrieve cdw0 =>
      (qosUpdateNops credits s.tags isRetrieve cdw0).map fun tags =>
        { s with
          tags := tags
          due := s.due + ev.charge
          inFlight := if isRetrieve then s.inFlight - 1 else s.inFlight }

/-- What `qosRecv` does to the tags of the session is the step of its account. -/
theorem qosRecv_account {conf : Conf} {p p' : Poller} {e : Recv} {ses : ℕ} {s s' : Account}
    (hses : e.session conf = some ses) (hrecv : qosRecv conf p e = some p')
    (htags : s.tags = p.currTags ses) (hstep : chargeStep (conf.credits ses) s (.recv e) = some s') :
    s'.tags = p'.currTags ses ∧ s'.limTags = s.limTags ++ [p'.qosTags e.req .lim] ∧
      ∀ other, other ≠ ses → p'.currTags other = p.currTags other := by
  rw [qosRecv, hses] at hrecv
  dsimp only at hrecv
  split_ifs at hrecv
  cases hrecv
  cases hstep
  refine ⟨?_, ?_, fun other hne => Function.update_of_ne hne _ _⟩
  · show _ = Function.update p.currTags ses _ ses
    rw [Function.update_self, htags]
    rfl
  · show _ = s.limTags ++ [Function.update p.qosTags e.req _ e.req Attr.lim]
    rw [Function.update_self, htags]
    rfl

/-- The values of an event fit their types, and a request that succeeded was received. -/
def LegalCharge (s : Account) : ChargeEvent → Prop
  | .recv e => e.valueLength < 2 ^ 64 ∧ ∀ a, e.tick a < 2 ^ 64
  | .complete isRetrieve cdw0 => cdw0 < 2 ^ 32 ∧ (isRetrieve = true → 0 < s.inFlight)

/-- A step pays for its event: it does not stop, the subtraction does not wrap, and every tag grows by
the credits. -/
def StepCharges (credits : Attr → ℕ) (s : Account) (ev : ChargeEvent) : Prop :=
  ∃ s', chargeStep credits s ev = some s' ∧
    (match ev with
      | .recv e => e.nops ≠ 0
      | .complete isRetrieve cdw0 => isRetrieve = true → cdw0 / 4096 ≠ 0) ∧
    ∀ a, s.tags a + ev.charge * credits a ≤ s'.tags a

/-- A store, and a retrieve that succeeds, has 4096 bytes, and no tag reaches 2 ^ 64. -/
def Payable (credits : Attr → ℕ) (s : Account) : ChargeEvent → Prop
  | .recv e => (e.isStore = true → 4096 ≤ e.valueLength) ∧
      ∀ a, max (e.tick a) (s.tags a + credits a) + (e.nops - 1) * credits a < 2 ^ 64
  | .complete isRetrieve cdw0 => isRetrieve = true →
      4096 ≤ cdw0 ∧ ∀ a, s.tags a + (cdw0 / 4096 - 1) * credits a < 2 ^ 64

/-! ### One step -/

theorem nops_ne_zero {e : Recv} : e.nops ≠ 0 ↔ e.isStore = true → 4096 ≤ e.valueLength := by
  rw [Recv.nops]
  by_cases hs : e.isStore = true
  · rw [if_pos hs]
    simp only [hs, forall_const]
    omega
  · rw [if_neg hs]
    simp [hs]

theorem charge_recv {e : Recv} (h : e.nops ≠ 0) : (ChargeEvent.recv e).charge = e.nops := by
  rw [ChargeEvent.charge]
  rw [Recv.nops] at h ⊢
  split_ifs at h ⊢
  · omega
  · rfl

theorem pred_mod {n : ℕ} (h0 : n ≠ 0) (h : n < 2 ^ 64) : (n + 2 ^ 64 - 1) % 2 ^ 64 = n - 1 := by
  rw [show n + 2 ^ 64 - 1 = (n - 1) + 2 ^ 64 by omega, Nat.add_mod_right]
  exact Nat.mod_eq_of_lt (by omega)

theorem getTag_eq {otag credits nops tick : ℕ} (h0 : nops ≠ 0) (h : nops < 2 ^ 64)
    (hfits : max tick (otag + credits) + (nops - 1) * credits < 2 ^ 64) :
    getTag otag credits nops tick =
      (max tick (otag + credits), max tick (otag + credits) + (nops - 1) * credits) := by
  have hle := le_max_right tick (otag + credits)
  rw [getTag, pred_mod h0 h, Nat.mod_eq_of_lt (show otag + credits < 2 ^ 64 by omega)]
  split_ifs with h1
  · simp [h1]
  · rw [Nat.mod_eq_of_lt hfits]

theorem getTag_wraps {otag credits nops tick : ℕ} (h0 : nops ≠ 0) (h : nops < 2 ^ 64)
    (htick : tick < 2 ^ 64)
    (hwraps : 2 ^ 64 ≤ max tick (otag + credits) + (nops - 1) * credits) :
    (getTag otag credits nops tick).2 < otag + nops * credits := by
  obtain ⟨n, rfl⟩ : ∃ n, nops = n + 1 := ⟨nops - 1, by omega⟩
  rw [Nat.add_sub_cancel] at hwraps
  have hsucc : (n + 1) * credits = n * credits + credits := Nat.succ_mul n credits
  have hlt : (getTag otag credits (n + 1) tick).2 < 2 ^ 64 := by
    rw [getTag]
    split_ifs
    · exact max_lt htick (Nat.mod_lt _ (by norm_num))
    · exact Nat.mod_lt _ (by norm_num)
  by_cases hover : 2 ^ 64 ≤ otag + credits
  · show (getTag otag credits (n + 1) tick).2 < otag + (n + 1) * credits
    omega
  · -- the clock carries the tag over the bound
    have hmod : (otag + credits) % 2 ^ 64 = otag + credits := Nat.mod_eq_of_lt (by omega)
    have hmax : max tick (otag + credits) < 2 ^ 64 := max_lt htick (by omega)
    have hne : n + 1 ≠ 1 := by
      intro h1
      rw [show n = 0 by omega] at hwraps
      omega
    have hvalue : (getTag otag credits (n + 1) tick).2 =
        (max tick (otag + credits) + n * credits) % 2 ^ 64 := by
      rw [getTag, pred_mod (by omega) h, hmod, if_neg hne]
      rfl
    have hle : (max tick (otag + credits) + n * credits) % 2 ^ 64 ≤
        max tick (otag + credits) + n * credits - 2 ^ 64 := by
      rw [Nat.mod_eq_sub_mod (by omega)]
      exact Nat.mod_le _ _
    show (getTag otag credits (n + 1) tick).2 < otag + (n + 1) * credits
    omega

theorem stepCharges_iff {credits : Attr → ℕ} {s : Account} {ev : ChargeEvent} (hl : LegalCharge s ev) :
    StepCharges credits s ev ↔ Payable credits s ev := by
  cases ev with
  | recv e =>
    obtain ⟨hlen, htick⟩ := hl
    have hn : e.nops < 2 ^ 64 := by
      rw [Recv.nops]
      split_ifs
      · omega
      · norm_num
    constructor
    · rintro ⟨s', hs', h0, hadv⟩
      cases hs'
      refine ⟨nops_ne_zero.1 h0, fun a => ?_⟩
      by_contra hover
      have hwraps := getTag_wraps h0 hn (htick a) (not_lt.1 hover)
      have hadv : s.tags a + (ChargeEvent.recv e).charge * credits a ≤
        (getTag (s.tags a) (credits a) e.nops (e.tick a)).2 := hadv a
      rw [charge_recv h0] at hadv
      omega
    · rintro ⟨hlen, hfits⟩
      have h0 := nops_ne_zero.2 hlen
      refine ⟨_, rfl, h0, fun a => ?_⟩
      show s.tags a + (ChargeEvent.recv e).charge * credits a ≤
        (getTag (s.tags a) (credits a) e.nops (e.tick a)).2
      rw [charge_recv h0, getTag_eq h0 hn (hfits a)]
      obtain ⟨n, hnops⟩ := Nat.exists_eq_succ_of_ne_zero h0
      have hle := le_max_right (e.tick a) (s.tags a + credits a)
      rw [hnops, Nat.succ_mul]
      show _ ≤ _ + n * credits a
      omega
  | complete isRetrieve cdw0 =>
    obtain ⟨hcdw0, -⟩ := hl
    cases isRetrieve with
    | false =>
      refine iff_of_true ⟨_, rfl, by simp, fun a => ?_⟩ (by simp [Payable])
      show s.tags a + 0 * credits a ≤ s.tags a
      omega
    | true =>
      constructor
      · rintro ⟨s', hs', h0, hadv⟩
        have h0 : cdw0 / 4096 ≠ 0 := h0 rfl
        rw [chargeStep, qosUpdateNops, if_pos rfl, if_neg h0] at hs'
        cases hs'
        intro _
        refine ⟨by omega, fun a => ?_⟩
        have hlt : updateTagNops (s.tags a) (credits a) (cdw0 / 4096) < 2 ^ 64 :=
          Nat.mod_lt _ (by norm_num)
        have hadv : s.tags a + (cdw0 / 4096 - 1) * credits a ≤
          updateTagNops (s.tags a) (credits a) (cdw0 / 4096) := hadv a
        omega
      · intro hp
        obtain ⟨hlen, hfits⟩ := hp rfl
        have h0 : cdw0 / 4096 ≠ 0 := by omega
        refine ⟨_, by rw [chargeStep, qosUpdateNops, if_pos rfl, if_neg h0]; rfl, fun _ => h0,
          fun a => ?_⟩
        show s.tags a + (cdw0 / 4096 - 1) * credits a ≤
          updateTagNops (s.tags a) (credits a) (cdw0 / 4096)
        rw [updateTagNops, pred_mod h0 (by omega), Nat.mod_eq_of_lt (hfits a)]

/-! ### Runs -/

/-- What a run has paid: the tags grew by the credits that were due, an operation for each limit tag
among them, and the operations with a limit tag up to a time have the credits up to it. -/
structure Charged (credits init : Attr → ℕ) (s : Account) : Prop where
  advanced : ∀ a, init a + s.due * credits a ≤ s.tags a
  operations : s.limTags.length ≤ s.due
  limited : ∀ T, (s.limTags.filter fun x => x ≤ T).length * credits .lim ≤ T - init .lim

/-- The invariant: besides, no limit tag is beyond the tag of the session. -/
structure ChargeInv (credits init : Attr → ℕ) (s : Account) : Prop extends Charged credits init s where
  below : ∀ x ∈ s.limTags, x ≤ s.tags .lim

theorem chargeInv_init (credits init : Attr → ℕ) : ChargeInv credits init ⟨init, [], 0, 0⟩ :=
  ⟨⟨fun a => by simp, le_rfl, fun T => by simp⟩, by simp⟩

theorem limited_snoc {l : List ℕ} {c t₀ t x : ℕ} (hbelow : ∀ y ∈ l, y ≤ t)
    (hlim : ∀ T, (l.filter fun y => y ≤ T).length * c ≤ T - t₀) (hpaid : t₀ + l.length * c ≤ t)
    (hx : t + c ≤ x) (T : ℕ) : ((l ++ [x]).filter fun y => y ≤ T).length * c ≤ T - t₀ := by
  rw [List.filter_append, List.length_append]
  by_cases hT : x ≤ T
  · have hall : l.filter (fun y => y ≤ T) = l := by
      apply List.filter_eq_self.2
      intro y hy
      have := hbelow y hy
      simp only [decide_eq_true_eq]
      omega
    rw [hall, show [x].filter (fun y => decide (y ≤ T)) = [x] by simp [hT], List.length_singleton,
      Nat.succ_mul]
    omega
  · rw [show [x].filter (fun y => decide (y ≤ T)) = [] by simp [hT]]
    exact hlim T

theorem chargeStep_inv {credits init : Attr → ℕ} (s : Account) (ev : ChargeEvent)
    (h : ChargeInv credits init s) (hok : LegalCharge s ev ∧ Payable credits s ev) :
    ∃ s', chargeStep credits s ev = some s' ∧ ChargeInv credits init s' := by
  obtain ⟨hl, hp⟩ := hok
  obtain ⟨s', hs', -, hadv⟩ := (stepCharges_iff hl).2 hp
  refine ⟨s', hs', ?_⟩
  have hgrow : ∀ a, init a + (s.due + ev.charge) * credits a ≤ s'.tags a := by
    intro a
    have h1 := h.advanced a
    have h2 := hadv a
    rw [Nat.add_mul]
    omega
  have hmono : s.tags .lim ≤ s'.tags .lim := (Nat.le_add_right _ _).trans (hadv .lim)
  cases ev with
  | recv e =>
    have h0 := nops_ne_zero.2 hp.1
    have hpos : 1 ≤ (ChargeEvent.recv e).charge := by
      rw [charge_recv h0]
      omega
    have hn : e.nops < 2 ^ 64 := by
      have := hl.1
      rw [Recv.nops]
      split_ifs
      · omega
      · norm_num
    have htag := getTag_eq h0 hn (hp.2 .lim)
    cases hs'
    have hx := le_max_right (e.tick .lim) (s.tags .lim + credits .lim)
    refine ⟨⟨hgrow, ?_, ?_⟩, ?_⟩
    · show (s.limTags ++ [_]).length ≤ s.due + _
      have := h.operations
      rw [List.length_append, List.length_singleton]
      omega
    · intro T
      show ((s.limTags ++ [(getTag _ _ _ _).1]).filter _).length * _ ≤ _
      rw [htag]
      refine limited_snoc h.below h.limited ?_ hx T
      exact (Nat.add_le_add_left (Nat.mul_le_mul_right _ h.operations) _).trans (h.advanced .lim)
    · intro x hx'
      have hx' : x ∈ s.limTags ++ [_] := hx'
      rcases List.mem_append.1 hx' with hx' | hx'
      · exact (h.below x hx').trans hmono
      · rw [List.mem_singleton.1 hx']
        show (getTag _ _ _ _).1 ≤ (getTag _ _ _ _).2
        rw [htag]
        exact Nat.le_add_right _ _
  | complete isRetrieve cdw0 =>
    obtain ⟨tags, -, rfl⟩ := Option.map_eq_some_iff.1 hs'
    exact ⟨⟨hgrow, h.operations.trans (Nat.le_add_right _ _), h.limited⟩,
      fun x hx => (h.below x hx).trans hmono⟩

/-- **Every operation of a payable run is charged.** In every state of the run the tags grew by the
credits that were due and the limit tags are paid for, and the next event is charged, without a stop
and without a wrap, if and only if it is payable. -/
theorem charged_of_run {credits init : Attr → ℕ} {evs : List ChargeEvent}
    (hok : Admissible (chargeStep credits) (fun s ev => LegalCharge s ev ∧ Payable credits s ev)
      ⟨init, [], 0, 0⟩ evs) :
    ∃ s, run (chargeStep credits) ⟨init, [], 0, 0⟩ evs = some s ∧ Charged credits init s ∧
      ∀ ev, LegalCharge s ev → (StepCharges credits s ev ↔ Payable credits s ev) := by
  obtain ⟨s, hrun, hinv⟩ := run_total chargeStep_inv (chargeInv_init credits init) hok
  exact ⟨s, hrun, hinv.toCharged, fun ev hl => stepCharges_iff hl⟩

instance : Fintype Attr := ⟨{.resv, .lim, .prop}, by intro a; cases a <;> decide⟩

instance (s : Account) (ev : ChargeEvent) : Decidable (LegalCharge s ev) := by
  unfold LegalCharge
  split <;> infer_instance

instance (credits : Attr → ℕ) (s : Account) (ev : ChargeEvent) : Decidable (Payable credits s ev) := by
  unfold Payable
  split <;> infer_instance

/-- A store of two pages and a retrieve of three. -/
theorem charged_of_run_five :
    ∃ s, run (chargeStep fun _ => 10) ⟨fun _ => 0, [], 0, 0⟩
        [.recv ⟨1, true, 8192, some (some 0), fun _ => 100⟩,
          .recv ⟨2, false, 0, some (some 0), fun _ => 110⟩, .complete true 12288] = some s ∧
      Charged (fun _ => 10) (fun _ => 0) s ∧
      ∀ ev, LegalCharge s ev → (StepCharges (fun _ => 10) s ev ↔ Payable (fun _ => 10) s ev) :=
  charged_of_run (by decide)

/-- Three stores of a hundred bytes get the same limit tag, which pays for two operations, and a
retrieve of a hundred bytes stops. -/
theorem not_charged_small :
    (Admissible (chargeStep fun _ => 10) LegalCharge ⟨fun _ => 0, [], 0, 0⟩
        (List.replicate 3 (.recv ⟨1, true, 100, some (some 0), fun _ => 20⟩)) ∧
      ∃ s, run (chargeStep fun _ => 10) ⟨fun _ => 0, [], 0, 0⟩
          (List.replicate 3 (.recv ⟨1, true, 100, some (some 0), fun _ => 20⟩)) = some s ∧
        ¬ Charged (fun _ => 10) (fun _ => 0) s) ∧
    Admissible (chargeStep fun _ => 10) LegalCharge ⟨fun _ => 0, [], 0, 0⟩
        [.recv ⟨1, false, 0, some (some 0), fun _ => 20⟩, .complete true 100] ∧
      run (chargeStep fun _ => 10) ⟨fun _ => 0, [], 0, 0⟩
        [.recv ⟨1, false, 0, some (some 0), fun _ => 20⟩, .complete true 100] = none := by
  refine ⟨⟨by decide, _, rfl, fun h => ?_⟩, by decide, rfl⟩
  exact absurd (h.limited 20) (by decide)

end DssSdk.Qos
