import DssSdk.Lib.Run

/-!
# Session identifiers

`dfly_ctrl.cpp` numbers its sessions by the bits of a map of four words: `dfly_ses_id_alloc` takes
the first bit that is clear, `dfly_ses_id_free` clears it again. The mask for a bit is the `int`
constant one shifted by the place of the bit in its word.

* `sesMask`, `dflySesIdAlloc`, `dflySesIdFree`: the functions of the source;
* `Op`, `step`: one call, `none` when a shift is too wide or the assertion fails;
* `sessions_served_iff`: which runs number their sessions well.

`P2PHASE` is a macro of a header that is not part of the repository, a parameter here.
-/

namespace DssSdk.Framework.SessionIds

/-- `BMAP_SIZE`. -/
abbrev bmapSize : ℕ := 4

/-- `bmap`. -/
abbrev Bmap := Vector (BitVec 64) bmapSize

/-- `bsize` of both functions. -/
abbrev bsize : ℕ := 8 * bmapSize * 8

/-- `1 << sh` as the code stores it in a word of 64 bits: the constant has 32 bits and a sign, and
a shift of all its bits or more is not defined. -/
def sesMask (sh : ℕ) : Option (BitVec 64) :=
  if sh < 32 then some ((1#32 <<< sh).signExtend 64) else none

section

variable (p2phase : ℕ → ℕ → ℕ)

/-- The word and the mask for an identifier. -/
def blockAndMask (bmap : Bmap) (i : ℕ) : Option (BitVec 64 × BitVec 64) :=
  match bmap[i >>> 6]?, sesMask (p2phase i 64) with
  | some block, some mask => some (block, mask)
  | _, _ => none

/-- The loop of `dfly_ses_id_alloc` from `i` on. Behind its last round `assert(!i)` fails. -/
def allocLoop (bmap : Bmap) : ℕ → ℕ → Option (ℕ × Bmap)
  | 0, _ => none
  | n + 1, i =>
      match blockAndMask p2phase bmap i with
      | none => none
      | some (block, mask) =>
          if block &&& mask = 0#64 then some (i, bmap.setIfInBounds (i >>> 6) (block ||| mask))
          else allocLoop bmap n (i + 1)

/-- `dfly_ses_id_alloc`. -/
def dflySesIdAlloc (bmap : Bmap) : Option (ℕ × Bmap) := allocLoop p2phase bmap bsize 0

/-- `dfly_ses_id_free`. An identifier that is too large or not allocated is only logged. -/
def dflySesIdFree (bmap : Bmap) (id : ℕ) : Option Bmap :=
  if id ≥ bsize then some bmap
  else
    match blockAndMask p2phase bmap id with
    | none => none
    | some (block, mask) =>
        if block &&& mask ≠ 0#64 then some (bmap.setIfInBounds (id >>> 6) (block &&& ~~~mask))
        else some bmap

end

/-- The map, and the identifiers that were handed out and not freed. -/
structure State where
  bmap : Bmap
  live : List ℕ
  deriving DecidableEq

/-- A call. -/
inductive Op
  | alloc
  | free (id : ℕ)
  deriving DecidableEq, Repr

section

variable (p2phase : ℕ → ℕ → ℕ)

/-- One call. -/
def step (s : State) : Op → Option State
  | .alloc => (dflySesIdAlloc p2phase s.bmap).map fun r => ⟨r.2, s.live ++ [r.1]⟩
  | .free id => (dflySesIdFree p2phase s.bmap id).map fun bmap => ⟨bmap, s.live.erase id⟩

/-- No session yet. -/
def State.init : State := ⟨.replicate bmapSize 0#64, []⟩

/-- What a caller may do: there is a number left, and only numbers in use are freed. -/
def Legal (s : State) : Op → Prop
  | .alloc => s.live.length < bsize
  | .free id => id ∈ s.live

instance (s : State) : ∀ a, Decidable (Legal s a)
  | .alloc => inferInstanceAs (Decidable (s.live.length < bsize))
  | .free id => inferInstanceAs (Decidable (id ∈ s.live))

/-- The code takes an identifier as free when it looks at it. -/
def Available (s : State) (id : ℕ) : Prop :=
  ∃ block mask, blockAndMask p2phase s.bmap id = some (block, mask) ∧ block &&& mask = 0#64

/-- What a call has to do: it returns, all shifts are defined, the identifiers in use are distinct,
an allocation takes one that was available, and a release makes exactly its own available. -/
def Served (s : State) (a : Op) : Prop :=
  ∃ s', step p2phase s a = some s' ∧ s'.live.Nodup ∧
    match a with
    | .alloc => ∃ id, s'.live = s.live ++ [id] ∧
        ∀ j, Available p2phase s' j ↔ Available p2phase s j ∧ j ≠ id
    | .free id => ∀ j, Available p2phase s' j ↔ Available p2phase s j ∨ j = id

/-- `P2PHASE` of a number in a word of 64 bits is its place there. -/
def PlaceInWord : Prop := ∀ i, p2phase i 64 = i % 64

end

section

variable {p2phase : ℕ → ℕ → ℕ} {s s' : State} {i j id : ℕ} {bmap : Bmap}

/-- The mask of the `i`-th bit, for the shifts that are defined. -/
def bitMask (i : ℕ) : BitVec 64 := (1#32 <<< i).signExtend 64

theorem sesMask_of_lt (h : i < 32) : sesMask i = some (bitMask i) := if_pos h

theorem sesMask_of_le (h : 32 ≤ i) : sesMask i = none := if_neg (by omega)

theorem bitMask_disjoint (hi : i < 32) (hj : j < 32) (hij : i ≠ j) : bitMask i &&& bitMask j = 0#64 := by
  have h : ∀ a b : Fin 32, a ≠ b → bitMask a &&& bitMask b = 0#64 := by decide +kernel
  exact h ⟨i, hi⟩ ⟨j, hj⟩ fun he => hij (Fin.ext_iff.1 he)

theorem bitMask_ne_zero (hi : i < 32) : bitMask i ≠ 0#64 := by
  have h : ∀ a : Fin 32, bitMask a ≠ 0#64 := by decide +kernel
  exact h ⟨i, hi⟩

theorem blockAndMask_of_lt (hp : PlaceInWord p2phase) (h : i < 32) :
    blockAndMask p2phase bmap i = some (bmap[0], bitMask i) := by
  have hword : i >>> 6 = 0 := by rw [Nat.shiftRight_eq_div_pow]; omega
  rw [blockAndMask, hp, hword, sesMask_of_lt (by omega), Nat.mod_eq_of_lt (by omega)]
  rfl

theorem blockAndMask_of_le (hp : PlaceInWord p2phase) (h : 32 ≤ i % 64) :
    blockAndMask p2phase bmap i = none := by
  rw [blockAndMask, hp, sesMask_of_le h]
  split
  · contradiction
  · rfl

theorem blockAndMask_set (h : 64 ≤ i) (w : BitVec 64) :
    blockAndMask p2phase (bmap.setIfInBounds 0 w) i = blockAndMask p2phase bmap i := by
  have hword : 0 ≠ i >>> 6 := by rw [Nat.shiftRight_eq_div_pow]; omega
  rw [blockAndMask, blockAndMask, Vector.getElem?_setIfInBounds_ne hword]

theorem available_set {w : BitVec 64} {l : List ℕ} (hp : PlaceInWord p2phase) :
    Available p2phase ⟨s.bmap.setIfInBounds 0 w, l⟩ j ↔
      (j < 32 ∧ w &&& bitMask j = 0#64) ∨ (32 ≤ j ∧ Available p2phase s j) := by
  unfold Available
  rcases Nat.lt_or_ge j 32 with hj | hj
  · rw [blockAndMask_of_lt hp hj]
    simp [hj]
  · simp only [hj, hj.not_gt, false_and, true_and, false_or]
    rcases Nat.lt_or_ge j 64 with hj' | hj'
    · have h : 32 ≤ j % 64 := by omega
      simp [blockAndMask_of_le hp h]
    · rw [blockAndMask_set hj']

theorem available_of_lt (hp : PlaceInWord p2phase) (hj : j < 32) :
    Available p2phase s j ↔ s.bmap[0] &&& bitMask j = 0#64 := by
  simp [Available, blockAndMask_of_lt hp hj]

/-- The identifiers in use are the first ones of the first word, and its bits tell which. -/
structure Inv (s : State) : Prop where
  nodup : s.live.Nodup
  lt : ∀ id ∈ s.live, id < 32
  bits : ∀ j < 32, (s.bmap[0] &&& bitMask j = 0#64 ↔ j ∉ s.live)

theorem inv_init : Inv .init where
  nodup := List.nodup_nil
  lt := by simp [State.init]
  bits := by
    intro j _
    simp [State.init]

theorem exists_notMem (hl : s.live.length < 32) :
    ∃ id < 32, id ∉ s.live ∧ ∀ j < id, j ∈ s.live := by
  have hex : ∃ id, id < 32 ∧ id ∉ s.live := by
    by_contra hno
    have hsub : List.range 32 ⊆ s.live := fun j hj => by
      by_contra hj'
      exact hno ⟨j, List.mem_range.1 hj, hj'⟩
    have := (List.nodup_range.subperm hsub).length_le
    rw [List.length_range] at this
    omega
  refine ⟨Nat.find hex, (Nat.find_spec hex).1, (Nat.find_spec hex).2, fun j hj => ?_⟩
  have hmin := Nat.find_min hex hj
  have hlt := (Nat.find_spec hex).1
  by_contra hj'
  exact hmin ⟨by omega, hj'⟩

theorem Inv.mem_of_full (h : Inv s) (hl : 32 ≤ s.live.length) (hj : j < 32) : j ∈ s.live := by
  have hsub : s.live ⊆ List.range 32 := fun id hid => List.mem_range.2 (h.lt id hid)
  have hperm := (h.nodup.subperm hsub).perm_of_length_le (by simpa using hl)
  exact hperm.mem_iff.2 (List.mem_range.2 hj)

theorem allocLoop_first {n : ℕ} (hp : PlaceInWord p2phase) (hid : id < 32)
    (hfree : bmap[0] &&& bitMask id = 0#64) (hbefore : ∀ j < id, bmap[0] &&& bitMask j ≠ 0#64)
    (hi : i ≤ id) (hn : id < i + n) :
    allocLoop p2phase bmap n i =
      some (id, bmap.setIfInBounds 0 (bmap[0] ||| bitMask id)) := by
  induction n generalizing i with
  | zero => omega
  | succ n ih =>
    rw [allocLoop, blockAndMask_of_lt hp (by omega)]
    rcases Nat.eq_or_lt_of_le hi with rfl | hlt
    · have hword : i >>> 6 = 0 := by rw [Nat.shiftRight_eq_div_pow]; omega
      simp only [if_pos hfree, hword]
    · simp only [if_neg (hbefore i hlt)]
      exact ih hlt (by omega)

theorem allocLoop_full {n : ℕ} (hp : PlaceInWord p2phase)
    (hset : ∀ j < 32, bmap[0] &&& bitMask j ≠ 0#64) (hi : i ≤ 32) :
    allocLoop p2phase bmap n i = none := by
  induction n generalizing i with
  | zero => rfl
  | succ n ih =>
    rw [allocLoop]
    rcases Nat.eq_or_lt_of_le hi with rfl | hlt
    · rw [blockAndMask_of_le hp (by decide)]
    · rw [blockAndMask_of_lt hp hlt]
      simp only [if_neg (hset i hlt)]
      exact ih hlt

theorem Inv.alloc (hp : PlaceInWord p2phase) (h : Inv s) (hl : s.live.length < 32) :
    ∃ id < 32, id ∉ s.live ∧
      step p2phase s .alloc =
        some ⟨s.bmap.setIfInBounds 0 (s.bmap[0] ||| bitMask id), s.live ++ [id]⟩ := by
  obtain ⟨id, hid, hnot, hbefore⟩ := exists_notMem hl
  refine ⟨id, hid, hnot, ?_⟩
  have hloop := @allocLoop_first p2phase 0 id s.bmap bsize hp hid ((h.bits id hid).2 hnot)
    (fun j hj hz => (h.bits j (by omega)).1 hz (hbefore j hj)) (Nat.zero_le _)
    (show id < 0 + 256 by omega)
  rw [step, dflySesIdAlloc, hloop]
  rfl

theorem Inv.alloc_full (hp : PlaceInWord p2phase) (h : Inv s) (hl : 32 ≤ s.live.length) :
    step p2phase s .alloc = none := by
  rw [step, dflySesIdAlloc,
    allocLoop_full hp (fun j hj hz => (h.bits j hj).1 hz (h.mem_of_full hl hj)) (by omega)]
  rfl

/-- A release of a number in use. -/
theorem Inv.free (hp : PlaceInWord p2phase) (h : Inv s) (hid : id ∈ s.live) :
    step p2phase s (.free id) =
      some ⟨s.bmap.setIfInBounds 0 (s.bmap[0] &&& ~~~bitMask id), s.live.erase id⟩ := by
  have hlt := h.lt id hid
  have hword : id >>> 6 = 0 := by rw [Nat.shiftRight_eq_div_pow]; omega
  have hne : s.bmap[0] &&& bitMask id ≠ 0#64 := fun hz => (h.bits id hlt).1 hz hid
  have hsize : ¬ id ≥ bsize := show ¬ 256 ≤ id by omega
  rw [step, dflySesIdFree, if_neg hsize, blockAndMask_of_lt hp hlt]
  simp only [if_pos hne, hword, Option.map_some]

theorem or_bitMask {w : BitVec 64} (hid : id < 32) (hj : j < 32) :
    (w ||| bitMask id) &&& bitMask j = 0#64 ↔ w &&& bitMask j = 0#64 ∧ j ≠ id := by
  rw [BitVec.and_comm, BitVec.and_or_distrib_left, BitVec.or_eq_zero_iff, BitVec.and_comm (bitMask j)]
  constructor
  · rintro ⟨hw, hm⟩
    refine ⟨hw, ?_⟩
    rintro rfl
    rw [BitVec.and_self] at hm
    exact bitMask_ne_zero hj hm
  · rintro ⟨hw, hne⟩
    exact ⟨hw, bitMask_disjoint hj hid hne⟩

theorem andNot_bitMask {w : BitVec 64} (hid : id < 32) (hj : j < 32) :
    (w &&& ~~~bitMask id) &&& bitMask j = 0#64 ↔ w &&& bitMask j = 0#64 ∨ j = id := by
  rcases eq_or_ne j id with rfl | hne
  · rw [BitVec.and_assoc, BitVec.and_comm (~~~ _)]
    simp
  · have hkeep : ~~~bitMask id &&& bitMask j = bitMask j := by
      have hd := bitMask_disjoint hj hid hne
      calc ~~~bitMask id &&& bitMask j
          = (~~~bitMask id &&& bitMask j) ||| (bitMask id &&& bitMask j) := by
            rw [BitVec.and_comm (bitMask id), hd, BitVec.or_zero]
        _ = bitMask j := by
            ext k hk
            simp only [BitVec.getElem_or, BitVec.getElem_and, BitVec.getElem_not]
            cases (bitMask id)[k] <;> cases (bitMask j)[k] <;> rfl
    rw [BitVec.and_assoc, hkeep]
    simp [hne]

theorem Inv.served_alloc (hp : PlaceInWord p2phase) (h : Inv s) (hl : s.live.length < 32) :
    Served p2phase s .alloc ∧ ∀ s', step p2phase s .alloc = some s' → Inv s' := by
  obtain ⟨id, hid, hnot, hstep⟩ := h.alloc hp hl
  have hnodup : (s.live ++ [id]).Nodup := by
    rw [List.nodup_append]
    exact ⟨h.nodup, List.nodup_singleton id, fun a ha b hb => by
      rw [List.mem_singleton.1 hb]
      exact fun he => hnot (he ▸ ha)⟩
  refine ⟨⟨_, hstep, hnodup, id, rfl, fun j => ?_⟩, fun s' hs => ?_⟩
  · rw [available_set hp]
    rcases Nat.lt_or_ge j 32 with hj | hj
    · rw [or_bitMask hid hj, available_of_lt hp hj]
      simp [hj]
    · have hne : j ≠ id := by omega
      simp [hj, hne]
  · rw [hstep, Option.some.injEq] at hs
    subst hs
    refine ⟨hnodup, fun a ha => ?_, fun j hj => ?_⟩
    · rcases List.mem_append.1 ha with ha | ha
      · exact h.lt a ha
      · rwa [List.mem_singleton.1 ha]
    · rw [Vector.getElem_setIfInBounds_self, or_bitMask hid hj, h.bits j hj]
      simp [not_or]

theorem Inv.served_free (hp : PlaceInWord p2phase) (h : Inv s) (hid : id ∈ s.live) :
    Served p2phase s (.free id) ∧ ∀ s', step p2phase s (.free id) = some s' → Inv s' := by
  have hstep := h.free hp hid
  have hlt := h.lt id hid
  refine ⟨⟨_, hstep, h.nodup.erase id, fun j => ?_⟩, fun s' hs => ?_⟩
  · rw [available_set hp]
    rcases Nat.lt_or_ge j 32 with hj | hj
    · rw [andNot_bitMask hlt hj, available_of_lt hp hj]
      simp [hj]
    · have hne : j ≠ id := by omega
      simp [hj, hne]
  · rw [hstep, Option.some.injEq] at hs
    subst hs
    refine ⟨h.nodup.erase id, fun a ha => h.lt a (List.mem_of_mem_erase ha), fun j hj => ?_⟩
    rw [Vector.getElem_setIfInBounds_self, andNot_bitMask hlt hj, h.bits j hj,
      h.nodup.mem_erase_iff]
    tauto

theorem Inv.served_step {a : Op} (hp : PlaceInWord p2phase) (h : Inv s) (hlegal : Legal s a) :
    (Served p2phase s a ↔ (a = .alloc → s.live.length < 32)) ∧
      ∀ s', step p2phase s a = some s' → Inv s' := by
  cases a with
  | alloc =>
    rcases Nat.lt_or_ge s.live.length 32 with hl | hl
    · exact ⟨iff_of_true (h.served_alloc hp hl).1 fun _ => hl, (h.served_alloc hp hl).2⟩
    · have hnone := h.alloc_full hp hl
      refine ⟨iff_of_false ?_ fun hno => absurd (hno rfl) (Nat.not_lt.2 hl), fun s' hs => ?_⟩
      · rintro ⟨s', hs, -⟩
        rw [hnone] at hs
        cases hs
      · rw [hnone] at hs
        cases hs
  | free id =>
    have hserved := h.served_free hp hlegal
    exact ⟨iff_of_true hserved.1 fun hno => (by cases hno), hserved.2⟩

/-- **When the identifiers of sessions are unique and come back**: in a run of legal calls every
call does its work if and only if no allocation finds 32 identifiers in use. -/
theorem sessions_served_iff {ops : List Op} (hp : PlaceInWord p2phase)
    (hlegal : Run.Admissible (step p2phase) Legal .init ops) :
    Run.Admissible (step p2phase) (Served p2phase) .init ops ↔
      Run.Admissible (step p2phase) (fun s a => a = .alloc → s.live.length < 32) .init ops := by
  refine Run.admissible_iff (fun s a hs hl => ?_) inv_init hlegal
  obtain ⟨hserved, hinv⟩ := hs.served_step hp hl
  exact ⟨hserved, fun _ => hinv⟩

theorem run_of_served {ops : List Op}
    (h : Run.Admissible (step p2phase) (Served p2phase) s ops) :
    ∃ s', Run.run (step p2phase) s ops = some s' := by
  induction ops generalizing s with
  | nil => exact ⟨s, rfl⟩
  | cons a ops ih =>
    obtain ⟨⟨s₁, hstep, -⟩, hrest⟩ := h
    obtain ⟨s', hrun⟩ := ih (hrest s₁ hstep)
    exact ⟨s', by rw [Run.run_cons, hstep, Option.bind_some, hrun]⟩

end

/-- `P2PHASE` for alignments that are powers of two. -/
def maskPhase (x align : ℕ) : ℕ := x &&& (align - 1)

theorem placeInWord_maskPhase : PlaceInWord maskPhase := fun i =>
  Nat.and_two_pow_sub_one_eq_mod i 6

theorem served_reuse :
    Run.Admissible (step maskPhase) (Served maskPhase) .init [.alloc, .alloc, .free 0, .alloc] :=
  (sessions_served_iff placeInWord_maskPhase (by decide +kernel)).2 (by decide +kernel)

/-- The 33rd of 256 sessions stops the run. -/
theorem not_served_thirtyThree :
    Run.Admissible (step maskPhase) Legal .init (List.replicate 33 .alloc) ∧
      ¬ Run.Admissible (step maskPhase) (Served maskPhase) .init (List.replicate 33 .alloc) := by
  refine ⟨by decide +kernel, fun h => ?_⟩
  obtain ⟨s', hrun⟩ := run_of_served h
  have hnone : Run.run (step maskPhase) .init (List.replicate 33 .alloc) = none := by
    decide +kernel
  rw [hnone] at hrun
  cases hrun

end DssSdk.Framework.SessionIds
