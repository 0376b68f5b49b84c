import DssSdk.Lib.Extents
import DssSdk.Kvtrans.BlockStates
import DssSdk.Kvtrans.Frames

/-!
# The blocks of a deleted value

`_blk_del_value` splits each extent into the runs between the blocks of the data-collision table.

* `FreeCall`, `Performs`: the calls that it makes, one after the other;
* `delCalls`, `clears_delCalls`, `marks_delCalls`: the calls for one extent; each block is in one of them;
* `blkDelValue_frees`: what a deletion does to the states of the blocks and to the table.
-/

namespace DssSdk.Kvtrans

open BlockAllocator Program Extents

/-- A call of `_blk_del_value`: blocks are set to `EMPTY`, or a registered block is marked. -/
inductive FreeCall
  | clear (b n : ℕ)
  | mark (b : ℕ)
  deriving DecidableEq, Repr

namespace FreeCall

/-- The call. -/
def run : FreeCall → M Status
  | clear b n => setBlkState true b n .empty
  | mark b => dcTableUpdate b .empty

/-- The call sets the block to `EMPTY`. -/
def Clears (x : ℕ) : FreeCall → Prop
  | clear b n => Holds (b, n) x
  | mark _ => False

instance (x : ℕ) : DecidablePred (Clears x)
  | clear b n => inferInstanceAs (Decidable (Holds (b, n) x))
  | mark _ => isFalse not_false

/-- The call marks the block. -/
def Marks (x : ℕ) : FreeCall → Prop
  | clear _ _ => False
  | mark b => b = x

instance (x : ℕ) : DecidablePred (Marks x)
  | clear _ _ => isFalse not_false
  | mark b => inferInstanceAs (Decidable (b = x))

end FreeCall

open FreeCall

/-- The calls are made one after the other, and each of them succeeds. -/
inductive Performs : Sys → List FreeCall → Sys → Prop
  | nil (s : Sys) : Performs s [] s
  | cons {s s₁ s₂ : Sys} {c : FreeCall} {cs : List FreeCall} (hrun : c.run s = .ok (.success, s₁))
      (hrest : Performs s₁ cs s₂) : Performs s (c :: cs) s₂

theorem Performs.append {s s₁ s₂ : Sys} {cs ds : List FreeCall} (h : Performs s cs s₁)
    (h' : Performs s₁ ds s₂) : Performs s (cs ++ ds) s₂ := by
  induction h with
  | nil s => exact h'
  | cons hrun hrest ih => exact .cons hrun (ih h')

/-- The run before `eIdx`, if there is one. -/
def clearRun (sIdx eIdx : ℕ) : List FreeCall := if sIdx ≠ eIdx then [.clear sIdx (eIdx - sIdx)] else []

/-- The calls for the blocks of an extent from `eIdx` on, where the blocks from `sIdx` on were passed. -/
def delCalls (dc : ℕ → Bool) (last : ℕ) : ℕ → ℕ → ℕ → List FreeCall
  | 0, sIdx, eIdx => clearRun sIdx eIdx
  | fuel + 1, sIdx, eIdx =>
      if dc eIdx then clearRun sIdx eIdx ++ .mark eIdx :: delCalls dc last fuel (eIdx + 1) (eIdx + 1)
      else if eIdx = sIdx ∧ eIdx = last then [.clear eIdx 1]
      else delCalls dc last fuel sIdx (eIdx + 1)

/-- The calls for an extent. -/
def extentCalls (dc : ℕ → Bool) (loc : ValueLoc) : List FreeCall :=
  delCalls dc (loc.valueIndex + loc.numChunks - 1) loc.numChunks loc.valueIndex loc.valueIndex

/-! ### Each block is in one call -/

section

variable {dc : ℕ → Bool} {last fuel sIdx eIdx x : ℕ}

theorem clears_clearRun (hle : sIdx ≤ eIdx) :
    (clearRun sIdx eIdx).countP (Clears x ·) = if sIdx ≤ x ∧ x < eIdx then 1 else 0 := by
  unfold clearRun
  by_cases hrun : sIdx ≠ eIdx
  · rw [if_pos hrun, List.countP_singleton]
    have hiff : Clears x (.clear sIdx (eIdx - sIdx)) ↔ sIdx ≤ x ∧ x < eIdx := by
      show (sIdx ≤ x ∧ x < sIdx + (eIdx - sIdx)) ↔ _
      omega
    simp only [hiff, decide_eq_true_eq]
  · rw [if_neg hrun, if_neg (by omega)]
    rfl

theorem marks_clearRun : (clearRun sIdx eIdx).countP (FreeCall.Marks x ·) = 0 := by
  unfold clearRun
  split_ifs <;> rfl

/-- A block of an extent is cleared once if it is not registered, and never otherwise. -/
theorem clears_delCalls (hle : sIdx ≤ eIdx) (hpassed : ∀ y, sIdx ≤ y → y < eIdx → dc y = false)
    (hlast : fuel ≠ 0 → last + 1 = eIdx + fuel) :
    (delCalls dc last fuel sIdx eIdx).countP (Clears x ·) =
      if (sIdx ≤ x ∧ x < eIdx + fuel) ∧ dc x = false then 1 else 0 := by
  induction fuel generalizing sIdx eIdx with
  | zero =>
    unfold delCalls
    rw [clears_clearRun hle, Nat.add_zero]
    by_cases hx : sIdx ≤ x ∧ x < eIdx
    · rw [if_pos hx, if_pos ⟨hx, hpassed x hx.1 hx.2⟩]
    · rw [if_neg hx, if_neg fun h => hx h.1]
  | succ fuel ih =>
    unfold delCalls
    by_cases hdc : dc eIdx = true
    · rw [if_pos hdc, List.countP_append, List.countP_cons, clears_clearRun hle,
        ih le_rfl (fun y h1 h2 => by omega) (by omega)]
      have hmark : decide (Clears x (.mark eIdx)) = false := rfl
      rw [hmark, if_neg Bool.false_ne_true, Nat.add_zero]
      -- the run before the registered block, and the blocks behind it
      by_cases hdcx : dc x = false
      · have hne : x ≠ eIdx := by
          rintro rfl
          rw [hdc] at hdcx
          cases hdcx
        simp only [hdcx, and_true]
        split_ifs <;> omega
      · have hout : ¬ (sIdx ≤ x ∧ x < eIdx) := fun h => hdcx (hpassed x h.1 h.2)
        rw [if_neg hout, if_neg fun h => hdcx h.2, if_neg fun h => hdcx h.2]
    · rw [if_neg hdc]
      by_cases hend : eIdx = sIdx ∧ eIdx = last
      · obtain ⟨rfl, rfl⟩ := hend
        have hzero : fuel = 0 := by
          have := hlast (by omega)
          omega
        subst hzero
        rw [if_pos ⟨rfl, rfl⟩, List.countP_singleton]
        have hiff : Clears x (.clear eIdx 1) ↔ (eIdx ≤ x ∧ x < eIdx + (0 + 1)) ∧ dc x = false := by
          show (eIdx ≤ x ∧ x < eIdx + 1) ↔ _
          constructor
          · intro hx
            refine ⟨by omega, ?_⟩
            rw [show x = eIdx by omega]
            exact Bool.eq_false_iff.2 hdc
          · exact fun h => h.1
        simp only [hiff, decide_eq_true_eq]
      · rw [if_neg hend, ih (by omega) (fun y h1 h2 => ?_) (fun h => by have := hlast (by omega); omega),
          show eIdx + 1 + fuel = eIdx + (fuel + 1) by omega]
        by_cases hy : y = eIdx
        · rw [hy]
          exact Bool.eq_false_iff.2 hdc
        · exact hpassed y h1 (by omega)

/-- A block of an extent is marked once if it is registered, and never otherwise. -/
theorem marks_delCalls (hle : sIdx ≤ eIdx) (hpassed : ∀ y, sIdx ≤ y → y < eIdx → dc y = false)
    (hlast : fuel ≠ 0 → last + 1 = eIdx + fuel) :
    (delCalls dc last fuel sIdx eIdx).countP (FreeCall.Marks x ·) =
      if (sIdx ≤ x ∧ x < eIdx + fuel) ∧ dc x = true then 1 else 0 := by
  induction fuel generalizing sIdx eIdx with
  | zero =>
    unfold delCalls
    rw [marks_clearRun, Nat.add_zero, if_neg]
    rintro ⟨⟨h1, h2⟩, h3⟩
    rw [hpassed x h1 h2] at h3
    cases h3
  | succ fuel ih =>
    have hout : dc x = true → ¬ (sIdx ≤ x ∧ x < eIdx) := by
      intro hx h
      rw [hpassed x h.1 h.2] at hx
      cases hx
    unfold delCalls
    by_cases hdc : dc eIdx = true
    · rw [if_pos hdc, List.countP_append, List.countP_cons, marks_clearRun,
        ih le_rfl (fun y h1 h2 => by omega) (by omega), Nat.zero_add]
      have hmark : decide (FreeCall.Marks x (.mark eIdx)) = decide (eIdx = x) := rfl
      rw [hmark]
      simp only [decide_eq_true_eq]
      by_cases hdcx : dc x = true
      · have := hout hdcx
        simp only [hdcx, and_true]
        split_ifs <;> omega
      · have hne : eIdx ≠ x := by
          rintro rfl
          exact hdcx hdc
        rw [if_neg fun h => hdcx h.2, if_neg hne, if_neg fun h => hdcx h.2]
    · rw [if_neg hdc]
      by_cases hend : eIdx = sIdx ∧ eIdx = last
      · have hzero : fuel = 0 := by
          have := hlast (by omega)
          omega
        rw [if_pos hend, if_neg]
        · rfl
        · rintro ⟨h1, h2⟩
          rw [show x = eIdx by omega] at h2
          exact hdc h2
      · rw [if_neg hend, ih (by omega) (fun y h1 h2 => ?_) (fun h => by have := hlast (by omega); omega),
          show eIdx + 1 + fuel = eIdx + (fuel + 1) by omega]
        by_cases hy : y = eIdx
        · rw [hy]
          exact Bool.eq_false_iff.2 hdc
        · exact hpassed y h1 (by omega)

end

/-! ### What the calls do -/

/-- The block is in the data-collision table. -/
def Sys.isDc (s : Sys) (x : ℕ) : Bool := (s.ctx.dcTbl x).isSome

/-- The blocks of the extents are free, or, if they are registered, data collisions without data. Nothing
else changed, in the allocator or in the table. -/
structure Frees (P : Params) (s : Sys) (es : List (ℕ × ℕ)) (s' : Sys) : Prop where
  chain : s'.req.chain = s.req.chain
  serves : Serves P s'
  dcTbl : ∀ x, s'.ctx.dcTbl x =
    if Covers es x then (s.ctx.dcTbl x).map fun it => { it with oriState := .empty } else s.ctx.dcTbl x
  cell : ∀ x, P.blkOffset ≤ x → s'.cell x =
    if Covers es x then
      if s.isDc x then BlkState.dataCollisionEmpty.toCell else BlkState.empty.toCell
    else s.cell x

section

variable {P : Params} {s s₁ s₂ : Sys} {es fs : List (ℕ × ℕ)}

theorem Frees.refl (hs : Serves P s) : Frees P s [] s := by
  refine ⟨rfl, hs, fun x => ?_, fun x _ => ?_⟩
  · rw [if_neg not_covers_nil]
  · rw [if_neg not_covers_nil]

theorem Frees.isDc (h : Frees P s es s₁) : s₁.isDc = s.isDc := by
  funext x
  unfold Sys.isDc
  rw [h.dcTbl x]
  split_ifs
  · exact Option.isSome_map ..
  · rfl

theorem Frees.congr (h : Frees P s es s₁) (hes : ∀ x, Covers es x ↔ Covers fs x) : Frees P s fs s₁ := by
  refine ⟨h.chain, h.serves, fun x => ?_, fun x hx => ?_⟩
  · rw [h.dcTbl x]
    simp only [hes]
  · rw [h.cell x hx]
    simp only [hes]

theorem Frees.append (h : Frees P s es s₁) (h' : Frees P s₁ fs s₂)
    (hdisj : ∀ x, Covers es x → ¬ Covers fs x) : Frees P s (es ++ fs) s₂ := by
  refine ⟨h'.chain.trans h.chain, h'.serves, fun x => ?_, fun x hx => ?_⟩
  · rw [h'.dcTbl x, h.dcTbl x]
    have := hdisj x
    simp only [covers_append]
    split_ifs <;> tauto
  · rw [h'.cell x hx, h.cell x hx, h.isDc]
    have := hdisj x
    simp only [covers_append]
    split_ifs <;> tauto

/-- Blocks that are not registered were cleared. -/
theorem SetsState.frees {b n : ℕ} (h : SetsState P s b n blockStateFree s₁)
    (hdc : ∀ x, Holds (b, n) x → s.isDc x = false) : Frees P s [(b, n)] s₁ := by
  refine ⟨h.frame.chain, h.serves, fun x => ?_, fun x hx => ?_⟩
  · rw [h.frame.dcTbl]
    by_cases hc : Covers [(b, n)] x
    · have hnone := hdc x (by simpa using hc)
      unfold Sys.isDc at hnone
      rw [if_pos hc, Option.isSome_eq_false_iff.1 hnone |> Option.isNone_iff_eq_none.1]
      rfl
    · rw [if_neg hc]
  · rw [h.cell x hx]
    show (if Holds (b, n) x then _ else _) = _
    simp only [covers_cons, not_covers_nil, or_false]
    by_cases hx' : Holds (b, n) x
    · rw [if_pos hx', if_pos hx', hdc x hx', if_neg Bool.false_ne_true]
      rfl
    · rw [if_neg hx', if_neg hx']

/-- A registered block was marked. -/
theorem SetsDc.frees {b : ℕ} (h : SetsDc P s b s₁) (hdc : s.isDc b = true) : Frees P s [(b, 1)] s₁ := by
  have hiff : ∀ x, Covers [(b, 1)] x ↔ x = b := by
    intro x
    simp only [covers_cons, not_covers_nil, or_false]
    show (b ≤ x ∧ x < b + 1) ↔ _
    omega
  refine ⟨h.chain, h.serves, fun x => ?_, fun x hx => ?_⟩
  · rw [h.dcTbl x]
    simp only [hiff]
  · rw [h.cell x hx]
    simp only [hiff]
    by_cases hxb : x = b
    · rw [if_pos hxb, if_pos hxb, hxb, hdc, if_pos rfl]
    · rw [if_neg hxb, if_neg hxb]

/-- The run before `eIdx` is cleared, if there is one. -/
theorem clearRun_run (hs : Serves P s) {sIdx eIdx : ℕ} (hle : sIdx ≤ eIdx)
    (hin : P.InRange sIdx (eIdx - sIdx))
    (hused : ∀ x, sIdx ≤ x → x < eIdx → s.cell x ≠ blockStateFree)
    (hdc : ∀ x, sIdx ≤ x → x < eIdx → s.isDc x = false) :
    ∃ s₁, (if sIdx ≠ eIdx then setBlkState true sIdx (eIdx - sIdx) .empty else pure .success) s =
        .ok (.success, s₁) ∧ Performs s (clearRun sIdx eIdx) s₁ ∧
      Frees P s [(sIdx, eIdx - sIdx)] s₁ := by
  unfold clearRun
  by_cases hrun : sIdx ≠ eIdx
  · obtain ⟨rc, s₁, hok, rfl, hset⟩ := wp_false_iff.1 (clearBlkState_spec hs true
      (show 0 < eIdx - sIdx by omega) hin fun x h1 h2 => hused x h1 (by omega))
    rw [if_pos hrun, if_pos hrun]
    exact ⟨s₁, hok, .cons hok (.nil _), hset.frees fun x hx => hdc x hx.1 (by
      obtain ⟨h1, h2⟩ := hx
      dsimp only at h1 h2
      omega)⟩
  · rw [if_neg hrun, if_neg hrun]
    refine ⟨s, rfl, .nil s, (Frees.refl hs).congr fun x => ?_⟩
    simp only [covers_cons, not_covers_nil, or_false]
    refine iff_of_false not_false fun h => ?_
    obtain ⟨h1, h2⟩ := h
    dsimp only at h1 h2
    omega

theorem delExtent_performs (hs : Serves P s) {last fuel sIdx eIdx : ℕ} (hle : sIdx ≤ eIdx)
    (hin : P.InRange sIdx (eIdx + fuel - sIdx))
    (hused : ∀ x, sIdx ≤ x → x < eIdx + fuel → s.cell x ≠ blockStateFree)
    (hpassed : ∀ x, sIdx ≤ x → x < eIdx → s.isDc x = false)
    (hlast : fuel ≠ 0 → last + 1 = eIdx + fuel) :
    wp (fun _ => False) (delExtent last fuel sIdx eIdx .success) (fun r s' =>
      r = (.success, false) ∧ Performs s (delCalls s.isDc last fuel sIdx eIdx) s' ∧
        Frees P s [(sIdx, eIdx + fuel - sIdx)] s') s := by
  induction fuel generalizing s sIdx eIdx with
  | zero =>
    obtain ⟨s₁, hok, hcalls, hfrees⟩ := clearRun_run hs hle (by simpa using hin)
      (fun x h1 h2 => hused x h1 (by omega)) hpassed
    unfold delExtent delCalls
    by_cases hrun : sIdx ≠ eIdx
    · rw [if_pos hrun] at hok ⊢
      rw [wp_bind_ok hok]
      exact ⟨rfl, hcalls, hfrees⟩
    · rw [if_neg hrun] at hok ⊢
      cases hok
      exact ⟨rfl, hcalls, hfrees⟩
  | succ fuel ih =>
    have hin' := hin
    obtain ⟨hin1, hin2⟩ := hin'
    unfold delExtent delCalls dcTableExist
    rw [wp_bind, wp_bind, wp_get, wp_pure]
    change wp _ (if s.isDc eIdx = true then _ else _) _ _
    by_cases hdc : s.isDc eIdx = true
    · -- the run before the registered block, its mark, and the rest of the extent
      rw [if_pos hdc, if_pos hdc]
      obtain ⟨s₁, hok, hcalls, hfrees⟩ := clearRun_run hs hle ⟨hin1, by omega⟩
        (fun x h1 h2 => hused x h1 (by omega)) hpassed
      refine (wp_ite_bind_ok hok).2 ?_
      dsimp only
      rw [if_neg (by decide)]
      have hdc₁ : s₁.isDc eIdx = true := by rw [hfrees.isDc, hdc]
      obtain ⟨rc, s₂, hok₂, rfl, hmark⟩ := wp_false_iff.1
        (dcTableUpdate_spec hfrees.serves (b := eIdx) ⟨by omega, by omega⟩ hdc₁)
      rw [wp_bind_ok hok₂]
      have hmarked := hmark.frees hdc₁
      have hdc₂ : s₂.isDc = s.isDc := hmarked.isDc.trans hfrees.isDc
      have hused₂ : ∀ x, eIdx + 1 ≤ x → x < eIdx + 1 + fuel → s₂.cell x ≠ blockStateFree := by
        intro x h1 h2
        have hno : ∀ b n, b + n ≤ eIdx + 1 → ¬ Covers [(b, n)] x := by
          intro b n hend hx
          simp only [covers_cons, not_covers_nil, or_false] at hx
          obtain ⟨h3, h4⟩ := hx
          dsimp only at h3 h4
          omega
        rw [hmarked.cell x (by omega), if_neg (hno _ _ (by omega)), hfrees.cell x (by omega),
          if_neg (hno _ _ (by omega))]
        exact hused x (by omega) (by omega)
      refine wp_mono (ih hmarked.serves le_rfl ⟨by omega, by omega⟩ hused₂
        (fun x h1 h2 => by omega) (fun _ => by have := hlast (by omega); omega)) ?_
      rintro r s' ⟨rfl, hcalls', hfrees'⟩
      rw [hdc₂] at hcalls'
      refine ⟨rfl, hcalls.append (.cons hok₂ hcalls'), ?_⟩
      have hall := (hfrees.append hmarked fun x hx => ?_).append hfrees' fun x hx => ?_
      · refine hall.congr fun x => ?_
        simp only [covers_append, covers_cons, not_covers_nil, or_false]
        unfold Holds
        dsimp only
        omega
      all_goals
        simp only [covers_append, covers_cons, not_covers_nil, or_false] at hx ⊢
        unfold Holds at *
        dsimp only at *
        omega
    · rw [if_neg hdc, if_neg hdc]
      by_cases hend : eIdx = sIdx ∧ eIdx = last
      · obtain ⟨rfl, rfl⟩ := hend
        have hzero : fuel = 0 := by
          have := hlast (by omega)
          omega
        subst hzero
        obtain ⟨rc, s₁, hok, rfl, hset⟩ := wp_false_iff.1 (clearBlkState_spec hs true
          (b := eIdx) (n := 1) one_pos ⟨hin1, by omega⟩ fun x h1 h2 => hused x h1 (by omega))
        rw [if_pos ⟨rfl, rfl⟩, if_pos ⟨rfl, rfl⟩, wp_bind_ok hok]
        refine ⟨rfl, .cons hok (.nil _), ?_⟩
        rw [show eIdx + (0 + 1) - eIdx = 1 by omega]
        refine hset.frees fun x hx => ?_
        obtain ⟨h1, h2⟩ := hx
        dsimp only at h1 h2
        rw [show x = eIdx by omega]
        exact Bool.eq_false_iff.2 hdc
      · rw [if_neg hend, if_neg hend, show eIdx + (fuel + 1) - sIdx = eIdx + 1 + fuel - sIdx by omega]
        refine ih hs (by omega) ⟨hin1, by omega⟩ (fun x h1 h2 => hused x h1 (by omega)) (fun x h1 h2 => ?_)
          (fun _ => by have := hlast (by omega); omega)
        by_cases hx : x = eIdx
        · rw [hx]
          exact Bool.eq_false_iff.2 hdc
        · exact hpassed x h1 (by omega)

/-- The calls for a list of extents. -/
def valueCalls (dc : ℕ → Bool) (locs : List ValueLoc) : List FreeCall := locs.flatMap (extentCalls dc)

theorem delExtents_performs (hs : Serves P s) {locs : List ValueLoc}
    (hapart : (locs.map extentOf).Pairwise Apart)
    (hlocs : ∀ loc ∈ locs, P.InRange loc.valueIndex loc.numChunks ∧
      ∀ x, Holds (extentOf loc) x → s.cell x ≠ blockStateFree) :
    wp (fun _ => False) (delExtents locs .success) (fun r s' => r = (.success, false) ∧
      Performs s (valueCalls s.isDc locs) s' ∧ Frees P s (locs.map extentOf) s') s := by
  induction locs generalizing s with
  | nil => exact ⟨rfl, .nil s, Frees.refl hs⟩
  | cons loc locs ih =>
    rw [List.map_cons, List.pairwise_cons] at hapart
    obtain ⟨hin, hused⟩ := hlocs loc (List.mem_cons_self ..)
    unfold delExtents
    rw [wp_bind]
    have hone : wp (fun _ => False) (delExtent (loc.valueIndex + loc.numChunks - 1) loc.numChunks
        loc.valueIndex loc.valueIndex .success) (fun r s' => r = (.success, false) ∧
          Performs s (extentCalls s.isDc loc) s' ∧
          Frees P s [(loc.valueIndex, loc.valueIndex + loc.numChunks - loc.valueIndex)] s') s :=
      delExtent_performs hs (le_refl loc.valueIndex) (by rwa [Nat.add_sub_cancel_left])
        (fun x h1 h2 => hused x ⟨h1, h2⟩) (fun x h1 h2 => by omega) (fun h => by omega)
    refine wp_mono hone ?_
    rintro r s₁ ⟨rfl, hcalls, hfrees⟩
    rw [Nat.add_sub_cancel_left] at hfrees
    dsimp only
    rw [if_neg Bool.false_ne_true]
    have hdisj : ∀ x, Covers [extentOf loc] x → ¬ Covers (locs.map extentOf) x := by
      intro x hx
      simp only [covers_cons, not_covers_nil, or_false] at hx
      exact not_covers_of_apart hapart.1 hx
    refine wp_mono (ih hfrees.serves hapart.2 fun l hl => ?_) ?_
    · obtain ⟨hin', hused'⟩ := hlocs l (List.mem_cons_of_mem _ hl)
      refine ⟨hin', fun x hx => ?_⟩
      have hno : ¬ Covers [extentOf loc] x := fun hc => hdisj x hc ⟨_, List.mem_map_of_mem hl, hx⟩
      rw [hfrees.cell x (hin'.1.trans hx.1)]
      change (if Covers [extentOf loc] x then _ else _) ≠ _
      rw [if_neg hno]
      exact hused' x hx
    · rintro r s' ⟨rfl, hcalls', hfrees'⟩
      rw [hfrees.isDc] at hcalls'
      refine ⟨rfl, ?_, ?_⟩
      · rw [valueCalls, List.flatMap_cons]
        exact hcalls.append hcalls'
      · exact hfrees.append hfrees' hdisj

end

/-! ### The deletion of a value -/

section

variable {dc : ℕ → Bool} {locs : List ValueLoc} {x : ℕ}

/-- A count over the calls of disjoint extents, where each extent has one call for a block with `A`. -/
theorem countP_valueCalls {q : FreeCall → Bool} {A : Prop} [Decidable A]
    (hone : ∀ loc, (extentCalls dc loc).countP q = if Holds (extentOf loc) x ∧ A then 1 else 0)
    (hapart : (locs.map extentOf).Pairwise Apart) :
    (valueCalls dc locs).countP q = if Covers (locs.map extentOf) x ∧ A then 1 else 0 := by
  induction locs with
  | nil =>
    rw [if_neg fun h => not_covers_nil h.1]
    rfl
  | cons loc locs ih =>
    rw [List.map_cons, List.pairwise_cons] at hapart
    have hdisj : Holds (extentOf loc) x → ¬ Covers (locs.map extentOf) x :=
      not_covers_of_apart hapart.1
    unfold valueCalls at ih ⊢
    rw [List.flatMap_cons, List.countP_append, hone, ih hapart.2, List.map_cons]
    simp only [covers_cons]
    split_ifs <;> tauto

theorem clears_extentCalls (loc : ValueLoc) : (extentCalls dc loc).countP (Clears x ·) =
    if Holds (extentOf loc) x ∧ dc x = false then 1 else 0 :=
  clears_delCalls le_rfl (fun y h1 h2 => by omega) fun h => by omega

theorem marks_extentCalls (loc : ValueLoc) : (extentCalls dc loc).countP (FreeCall.Marks x ·) =
    if Holds (extentOf loc) x ∧ dc x = true then 1 else 0 :=
  marks_delCalls le_rfl (fun y h1 h2 => by omega) fun h => by omega

end

/-- The extents of the value of a block context; a value inline has none. -/
def Sys.extents (s : Sys) (p : ℕ) : List ValueLoc :=
  let blk := (s.req.chain.getD p BlkCtx.zero).blk
  if blk.valueLocation = .inline then [] else blk.placeValue

/-- The deletion of a value whose disjoint extents are in use: every block of the extents is cleared once, or
marked once if it is registered, and nothing else changes. -/
theorem blkDelValue_frees {P : Params} {s : Sys} {p : ℕ} (hs : Serves P s)
    (hapart : ((s.extents p).map extentOf).Pairwise Apart)
    (hin : ∀ loc ∈ s.extents p, P.InRange loc.valueIndex loc.numChunks)
    (hused : ∀ x, Covers ((s.extents p).map extentOf) x → s.cell x ≠ BlkState.empty.toCell) :
    wp (fun _ => False) (blkDelValue p) (fun rc s' => rc = .success ∧
      ∃ s₁, Performs s (valueCalls s.isDc (s.extents p)) s₁ ∧ s'.ctx = s₁.ctx ∧
        Frees P s ((s.extents p).map extentOf) s₁ ∧
        ∀ x, (valueCalls s.isDc (s.extents p)).countP (Clears x ·) =
            (if Covers ((s.extents p).map extentOf) x ∧ s.isDc x = false then 1 else 0) ∧
          (valueCalls s.isDc (s.extents p)).countP (FreeCall.Marks x ·) =
            (if Covers ((s.extents p).map extentOf) x ∧ s.isDc x = true then 1 else 0)) s := by
  have hrun : wp (fun _ => False) (if (s.req.chain.getD p BlkCtx.zero).blk.valueLocation = .inline then
        pure (.success, false)
      else delExtents (s.req.chain.getD p BlkCtx.zero).blk.placeValue .success)
      (fun r s' => r = (.success, false) ∧ Performs s (valueCalls s.isDc (s.extents p)) s' ∧
        Frees P s ((s.extents p).map extentOf) s') s := by
    have hall := delExtents_performs hs hapart fun loc hloc => ⟨hin loc hloc, fun x hx =>
      hused x ⟨_, List.mem_map_of_mem hloc, hx⟩⟩
    unfold Sys.extents at hall ⊢
    dsimp only at hall ⊢
    split_ifs at hall ⊢
    · exact hall
    · exact hall
  unfold blkDelValue
  obtain ⟨r, s₁, hok, rfl, hcalls, hfrees⟩ := wp_false_iff.1 hrun
  rw [wp_bind, wp_blkAt]
  refine (wp_ite_bind_ok hok).2 ?_
  dsimp only
  rw [if_neg Bool.false_ne_true]
  unfold modifyBlk
  rw [wp_bind, wp_modify, wp_pure]
  exact ⟨rfl, s₁, hcalls, rfl, hfrees, fun x =>
    ⟨countP_valueCalls clears_extentCalls hapart, countP_valueCalls marks_extentCalls hapart⟩⟩

theorem exists_registered : ∃ s : Sys, Serves ⟨.memory, 1, 2, 4096, false, fun _ => 1⟩ s ∧
    s.extents 0 = [⟨1, 2⟩] ∧ s.isDc 1 = false ∧ s.isDc 2 = true ∧ s.cell 1 = 2 ∧ s.cell 2 = 4 := by
  obtain ⟨c, hc⟩ : ∃ c, dssBlkAllocatorInit ⟨2, 8, 1, 1⟩ = some c := ⟨_, rfl⟩
  obtain ⟨hinv, hopts, -⟩ := Context.inv_of_init hc ⟨by decide, by decide, by decide⟩
  have hon : ∀ {c : Context} {x : ℕ}, Context.Inv c → c.opts = ⟨2, 8, 1, 1⟩ → 1 ≤ x → x ≤ 2 →
      c.alloc.OnDevice x 1 := by
    intro c x hinv hopts h1 h2
    unfold QwordVector64Cell.OnDevice
    rw [hinv.agrees.offset, hinv.agrees.cells, hopts]
    dsimp only
    omega
  obtain ⟨r₁, -, -, -, hup₁⟩ := Context.setBlocksState_accepted hinv (hon hinv hopts le_rfl (by decide))
    (show 0 < 2 by decide) (by rw [hopts]; decide)
  have hopts₁ := hup₁.opts.trans hopts
  obtain ⟨r₂, -, -, -, hup₂⟩ := Context.setBlocksState_accepted hup₁.inv
    (hon hup₁.inv hopts₁ (show 1 ≤ 2 by decide) le_rfl) (show 0 < 4 by decide)
    (by rw [hopts₁]; decide)
  have hopts₂ := hup₂.opts.trans hopts₁
  have hstart : c.alloc.logicalStartBlockOffset = 1 := by rw [hinv.agrees.offset, hopts]
  have hstart₁ : r₁.ctx.alloc.logicalStartBlockOffset = 1 := by rw [hup₁.inv.agrees.offset, hopts₁]
  refine ⟨⟨{ initKvtransCtx r₂.ctx with
      dcTbl := fun x => if x = 2 then some ⟨9, .data⟩ else none },
    { initKvtransReq 0 ⟨.delete, [1], 1, []⟩ with
      chain := [{ BlkCtx.zero with
        blk := { OndiskMeta.zero with valueLocation := .contig, placeValue := [⟨1, 2⟩] } }] }⟩,
    ⟨hup₂.inv, congrArg Opts.logicalStartBlockOffset hopts₂, congrArg Opts.numTotalBlocks hopts₂,
      congrArg Opts.numBlockStates hopts₂⟩, rfl, rfl, rfl, ?_, ?_⟩
  · show r₂.ctx.alloc.cellOf 1 = 2
    rw [hup₂.cell 1 (by omega), if_neg (by omega), hup₁.cell 1 (by omega), if_pos (by omega)]
  · show r₂.ctx.alloc.cellOf 2 = 4
    rw [hup₂.cell 2 (by omega), if_pos (by omega)]

theorem blkDelValue_frees_registered : ∃ s : Sys, s.extents 0 = [⟨1, 2⟩] ∧ s.isDc 2 = true ∧
    wp (fun _ => False) (blkDelValue 0) (fun rc s' => rc = .success ∧
      ∃ s₁, Performs s (valueCalls s.isDc (s.extents 0)) s₁ ∧ s'.ctx = s₁.ctx ∧
        Frees ⟨.memory, 1, 2, 4096, false, fun _ => 1⟩ s ((s.extents 0).map extentOf) s₁ ∧
        ∀ x, (valueCalls s.isDc (s.extents 0)).countP (Clears x ·) =
            (if Covers ((s.extents 0).map extentOf) x ∧ s.isDc x = false then 1 else 0) ∧
          (valueCalls s.isDc (s.extents 0)).countP (FreeCall.Marks x ·) =
            (if Covers ((s.extents 0).map extentOf) x ∧ s.isDc x = true then 1 else 0)) s := by
  obtain ⟨s, hs, hext, -, hdc, hone, htwo⟩ := exists_registered
  refine ⟨s, hext, hdc, blkDelValue_frees hs ?_ ?_ ?_⟩
  · rw [hext]
    exact List.pairwise_singleton _ _
  · intro loc hloc
    rw [hext] at hloc
    obtain rfl := List.mem_singleton.1 hloc
    exact ⟨le_rfl, le_rfl⟩
  · intro x hx
    rw [hext] at hx
    simp only [List.map_cons, List.map_nil, covers_cons, not_covers_nil, or_false] at hx
    obtain ⟨h1, h2⟩ := hx
    have hx' : x = 1 ∨ x = 2 := by
      change 1 ≤ x at h1
      change x < 1 + 2 at h2
      omega
    rcases hx' with rfl | rfl
    · rw [hone]
      decide
    · rw [htwo]
      decide

end DssSdk.Kvtrans
