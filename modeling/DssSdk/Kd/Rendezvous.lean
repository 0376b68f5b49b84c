import DssSdk.Lib.Run

/-!
# Placement of keys by weight

`dfly_rh.cpp` keeps the devices of a pool in a table. A key goes to the device with the largest
weight for it, which two functions look for: one gives the disk and one the place in the table.

* `Ctx`, `addDevice`, `findObjectDisk`, `findObjectDiskIndex`, `listObjectDisk`: the source;
* `placed`: the placement as the first maximum of the devices that were added;
* `stable_iff`: which sequences of additions keep the placement stable.

The weight of a device for a key, a float of a hash of both, is any function into a linear order.
-/

namespace DssSdk.Kd

/-- `MAX_RH_DEVICES`. -/
abbrev maxRhDevices : ℕ := 64

/-- `MAX_RH_DEV_STR`. -/
abbrev maxRhDevStr : ℕ := 256

/-- `dfly_rh_device_s`. Its `id` is a hash of the name, and its disk is not `NULL`: the code asserts
this and that the name fits. -/
structure RhDevice (Disk : Type) where
  name : List UInt8
  disk : Disk
  name_lt : name.length < maxRhDevStr
  deriving DecidableEq

/-- A key, the bytes of `in`. -/
abbrev Key := List UInt8

/-- `dfly_rh_instance_t`; a slot without a device was not written yet. -/
structure Ctx (Disk : Type) where
  devices : Vector (Option (RhDevice Disk)) maxRhDevices
  numDevices : UInt32
  deriving DecidableEq

section

variable {Disk : Type}

/-- `dfly_init_kd_rh_context`. -/
def Ctx.init : Ctx Disk := ⟨.replicate maxRhDevices none, 0⟩

/-- The device in a slot, `none` beyond the table. -/
def Ctx.slot (ctx : Ctx Disk) (i : ℕ) : Option (RhDevice Disk) := ctx.devices[i]?.join

/-- `dfly_rh_add_device`: what it returns, or `none` when it writes outside of the table. The count
is an `int` in the comparison. -/
def addDevice (ctx : Ctx Disk) (dev : RhDevice Disk) : Option (Ctx Disk × Bool) :=
  let currDeviceIndex := ctx.numDevices.toInt32.toInt
  let ctx := { ctx with numDevices := ctx.numDevices + 1 }
  if currDeviceIndex ≥ maxRhDevices then some (ctx, false)
  else if currDeviceIndex < 0 then none
  else
    some ({ ctx with devices := ctx.devices.setIfInBounds currDeviceIndex.toNat (some dev) }, true)

/-- The loop of `dfly_rh_list_object_disk` from slot `i` on. -/
def listLoop (ctx : Ctx Disk) : ℕ → ℕ → Option (List Disk)
  | 0, _ => some []
  | n + 1, i =>
      match ctx.slot i with
      | none => none
      | some dev => (listLoop ctx n (i + 1)).map (dev.disk :: ·)

/-- `dfly_rh_list_object_disk` for a list of `nrDev` places, or `none` when the assertion fails or
a slot beyond the table is read. -/
def listObjectDisk (ctx : Ctx Disk) (nrDev : ℕ) : Option (List Disk) :=
  if ctx.numDevices.toNat ≤ nrDev then listLoop ctx ctx.numDevices.toNat 0 else none

variable {W : Type} [LinearOrder W] (weight : Key → RhDevice Disk → W)

/-- The loop of `dfly_rh_find_object_disk` from slot `i` on, with `max_rh_dev` and `max_wt`. -/
def findLoop (ctx : Ctx Disk) (key : Key) :
    ℕ → ℕ → Option (RhDevice Disk × W) → Option (Option (RhDevice Disk × W))
  | 0, _, best => some best
  | n + 1, i, best =>
      match ctx.slot i with
      | none => none
      | some dev =>
          findLoop ctx key n (i + 1) <|
            match best with
            | some (_, maxWt) => if weight key dev > maxWt then some (dev, weight key dev) else best
            | none => some (dev, weight key dev)

/-- `dfly_rh_find_object_disk`. Without a device it reads through `NULL`. -/
def findObjectDisk (ctx : Ctx Disk) (key : Key) : Option Disk :=
  match findLoop weight ctx key ctx.numDevices.toNat 0 none with
  | some (some (dev, _)) => some dev.disk
  | _ => none

/-- The loop of `dfly_rh_find_object_disk_index`, with `max_dev_index` as well. -/
def findIndexLoop (ctx : Ctx Disk) (key : Key) :
    ℕ → ℕ → Option (RhDevice Disk × W) → ℤ → Option ℤ
  | 0, _, _, maxDevIndex => some maxDevIndex
  | n + 1, i, best, maxDevIndex =>
      match ctx.slot i with
      | none => none
      | some dev =>
          match best with
          | some (_, maxWt) =>
              if weight key dev > maxWt then
                findIndexLoop ctx key n (i + 1) (some (dev, weight key dev)) i
              else findIndexLoop ctx key n (i + 1) best maxDevIndex
          | none => findIndexLoop ctx key n (i + 1) (some (dev, weight key dev)) i

/-- `dfly_rh_find_object_disk_index`. The assertion compares unsigned numbers, and fails for an
index of minus one. -/
def findObjectDiskIndex (ctx : Ctx Disk) (key : Key) : Option ℕ :=
  match findIndexLoop weight ctx key ctx.numDevices.toNat 0 none (-1) with
  | some (.ofNat i) => if i < ctx.numDevices.toNat then some i else none
  | _ => none

/-- The table, and the devices that were added. -/
structure State (Disk : Type) where
  ctx : Ctx Disk
  added : List (RhDevice Disk)
  deriving DecidableEq

/-- A new context. -/
def State.init : State Disk := ⟨.init, []⟩

/-- One call of `dfly_rh_add_device`. -/
def step (s : State Disk) (dev : RhDevice Disk) : Option (State Disk) :=
  (addDevice s.ctx dev).map fun r => ⟨r.1, if r.2 = true then s.added ++ [dev] else s.added⟩

/-- Both functions choose the same device for every key, one of largest weight. -/
def Placed (s : State Disk) : Prop :=
  ∀ key, ∃ i dev, s.added[i]? = some dev ∧ s.ctx.slot i = some dev ∧
    findObjectDiskIndex weight s.ctx key = some i ∧ findObjectDisk weight s.ctx key = some dev.disk ∧
    ∀ dev' ∈ s.added, weight key dev' ≤ weight key dev

/-- The devices that were added are listed. -/
def Listed (s : State Disk) : Prop :=
  ∀ nrDev ≥ s.added.length, listObjectDisk s.ctx nrDev = some (s.added.map RhDevice.disk)

/-- An addition keeps the placement stable: a key stays where it was or goes to the new device, and
a refused device changes nothing. -/
def Stable (s : State Disk) (dev : RhDevice Disk) : Prop :=
  ∃ s', step s dev = some s' ∧ Placed weight s' ∧ Listed s' ∧
    (s'.added = s.added ++ [dev] ∧
        (∀ key i, findObjectDiskIndex weight s.ctx key = some i →
          findObjectDiskIndex weight s'.ctx key = some i ∨
            findObjectDiskIndex weight s'.ctx key = some s.added.length) ∨
      s'.added = s.added ∧
        (∀ key, findObjectDiskIndex weight s'.ctx key = findObjectDiskIndex weight s.ctx key ∧
          findObjectDisk weight s'.ctx key = findObjectDisk weight s.ctx key) ∧
        ∀ nrDev, listObjectDisk s'.ctx nrDev = listObjectDisk s.ctx nrDev)

/-- Every addition of a sequence keeps the placement stable, and keys have a place behind them. -/
def Consistent (devs : List (RhDevice Disk)) : Prop :=
  Run.Admissible step (Stable weight) .init devs ∧
    ∃ s, Run.run step .init devs = some s ∧ Placed weight s

end

section

variable {Disk W : Type} [LinearOrder W] {weight : Key → RhDevice Disk → W} {s s' : State Disk}
  {ctx : Ctx Disk} {key : Key} {dev : RhDevice Disk}

/-- The table holds the devices that were added, and nothing else. -/
structure Inv (s : State Disk) : Prop where
  slots : ∀ i, s.ctx.slot i = s.added[i]?
  count : s.ctx.numDevices.toNat = s.added.length
  bound : s.added.length ≤ maxRhDevices

/-- The first device of largest weight, with its place. -/
def placed (weight : Key → RhDevice Disk → W) (key : Key) (devs : List (RhDevice Disk)) :
    Option (RhDevice Disk × ℕ) :=
  devs.zipIdx.argmax fun p => weight key p.1

/-- What the loops keep of a choice. -/
def withWeight (weight : Key → RhDevice Disk → W) (key : Key) :
    Option (RhDevice Disk × ℕ) → Option (RhDevice Disk × W) :=
  Option.map fun p => (p.1, weight key p.1)

/-- `max_dev_index` of a choice. -/
def indexOf (best : Option (RhDevice Disk × ℕ)) : ℤ := best.elim (-1) fun p => p.2

/-- One round of `argmax`. -/
abbrev choose (weight : Key → RhDevice Disk → W) (key : Key) :
    Option (RhDevice Disk × ℕ) → RhDevice Disk × ℕ → Option (RhDevice Disk × ℕ) :=
  List.argAux fun b c => weight key c.1 < weight key b.1

theorem findLoop_eq {l : List (RhDevice Disk)} {i : ℕ} {best : Option (RhDevice Disk × ℕ)}
    (hl : ∀ k, ctx.slot (i + k) = l[k]?) :
    findLoop weight ctx key l.length i (withWeight weight key best) =
      some (withWeight weight key ((l.zipIdx i).foldl (choose weight key) best)) := by
  induction l generalizing i best with
  | nil => rfl
  | cons dev l ih =>
    have hslot : ctx.slot i = some dev := hl 0
    have hrest : ∀ k, ctx.slot (i + 1 + k) = l[k]? := fun k => by
      rw [Nat.add_assoc, Nat.add_comm 1 k, hl, List.getElem?_cons_succ]
    rw [List.length_cons, findLoop, hslot, List.zipIdx_cons, List.foldl_cons,
      ← @ih (i + 1) (choose weight key best (dev, i)) hrest]
    dsimp only
    congr 1
    cases best with
    | none => rfl
    | some p =>
      simp only [withWeight, Option.map_some, choose, List.argAux, gt_iff_lt]
      split <;> rfl

theorem findIndexLoop_eq {l : List (RhDevice Disk)} {i : ℕ} {best : Option (RhDevice Disk × ℕ)}
    (hl : ∀ k, ctx.slot (i + k) = l[k]?) :
    findIndexLoop weight ctx key l.length i (withWeight weight key best) (indexOf best) =
      some (indexOf ((l.zipIdx i).foldl (choose weight key) best)) := by
  induction l generalizing i best with
  | nil => rfl
  | cons dev l ih =>
    have hslot : ctx.slot i = some dev := hl 0
    have hrest : ∀ k, ctx.slot (i + 1 + k) = l[k]? := fun k => by
      rw [Nat.add_assoc, Nat.add_comm 1 k, hl, List.getElem?_cons_succ]
    rw [List.length_cons, findIndexLoop, hslot, List.zipIdx_cons, List.foldl_cons,
      ← @ih (i + 1) (choose weight key best (dev, i)) hrest]
    cases best with
    | none => rfl
    | some p =>
      simp only [withWeight, indexOf, Option.map_some, Option.elim_some, choose, List.argAux,
        gt_iff_lt]
      split <;> rfl

theorem Inv.slots_from_zero (h : Inv s) (k : ℕ) : s.ctx.slot (0 + k) = s.added[k]? := by
  rw [Nat.zero_add]
  exact h.slots k

/-- The disk of a key. -/
theorem Inv.findObjectDisk (h : Inv s) :
    findObjectDisk weight s.ctx key = (placed weight key s.added).map fun p => p.1.disk := by
  have hloop := @findLoop_eq Disk W _ weight s.ctx key s.added 0 none h.slots_from_zero
  rw [Kd.findObjectDisk, h.count]
  rw [show (none : Option (RhDevice Disk × W)) = withWeight weight key none from rfl, hloop]
  change _ = Option.map _ ((s.added.zipIdx 0).foldl (choose weight key) none)
  cases (s.added.zipIdx 0).foldl (choose weight key) none <;> rfl

/-- The place in the table of the device of a key. -/
theorem Inv.findObjectDiskIndex (h : Inv s) :
    findObjectDiskIndex weight s.ctx key = (placed weight key s.added).map fun p => p.2 := by
  have hloop := @findIndexLoop_eq Disk W _ weight s.ctx key s.added 0 none h.slots_from_zero
  rw [Kd.findObjectDiskIndex, h.count]
  rw [show (none : Option (RhDevice Disk × W)) = withWeight weight key none from rfl,
    show (-1 : ℤ) = indexOf (none : Option (RhDevice Disk × ℕ)) from rfl, hloop]
  cases hp : placed weight key s.added with
  | none =>
    change (s.added.zipIdx 0).foldl (choose weight key) none = none at hp
    rw [hp]
    rfl
  | some p =>
    have hlt : p.2 < s.added.length := by
      have hmem := List.argmax_mem (Option.mem_def.2 hp)
      simpa using List.snd_lt_of_mem_zipIdx hmem
    change (s.added.zipIdx 0).foldl (choose weight key) none = some p at hp
    rw [hp]
    exact if_pos hlt

theorem placed_eq_some {devs : List (RhDevice Disk)} {i : ℕ}
    (h : placed weight key devs = some (dev, i)) :
    devs[i]? = some dev ∧ ∀ dev' ∈ devs, weight key dev' ≤ weight key dev := by
  refine ⟨List.mk_mem_zipIdx_iff_getElem?.1 (List.argmax_mem h), fun dev' hdev => ?_⟩
  obtain ⟨k, hk⟩ := List.mem_iff_getElem?.1 hdev
  exact List.le_of_mem_argmax (f := fun p : RhDevice Disk × ℕ => weight key p.1)
    (List.mk_mem_zipIdx_iff_getElem?.2 hk) h

theorem placed_concat (devs : List (RhDevice Disk)) :
    placed weight key (devs ++ [dev]) =
      match placed weight key devs with
      | none => some (dev, devs.length)
      | some p => if weight key p.1 < weight key dev then some (dev, devs.length) else some p := by
  rw [placed, List.zipIdx_append, List.zipIdx_singleton, List.argmax_concat, Nat.zero_add]
  unfold placed
  cases List.argmax (fun p : RhDevice Disk × ℕ => weight key p.1) devs.zipIdx <;> rfl

theorem Inv.placed (h : Inv s) (hne : s.added ≠ []) : Placed weight s := by
  intro key
  cases hp : Kd.placed weight key s.added with
  | none =>
    rw [Kd.placed, List.argmax_eq_none, List.zipIdx_eq_nil_iff] at hp
    contradiction
  | some p =>
    obtain ⟨hget, hmax⟩ := placed_eq_some hp
    exact ⟨p.2, p.1, hget, (h.slots _).trans hget, by rw [h.findObjectDiskIndex, hp]; rfl,
      by rw [h.findObjectDisk, hp]; rfl, hmax⟩

theorem listLoop_eq {l : List (RhDevice Disk)} {i : ℕ} (hl : ∀ k, ctx.slot (i + k) = l[k]?) :
    listLoop ctx l.length i = some (l.map RhDevice.disk) := by
  induction l generalizing i with
  | nil => rfl
  | cons dev l ih =>
    have hslot : ctx.slot i = some dev := hl 0
    have hrest : ∀ k, ctx.slot (i + 1 + k) = l[k]? := fun k => by
      rw [Nat.add_assoc, Nat.add_comm 1 k, hl, List.getElem?_cons_succ]
    rw [List.length_cons, listLoop, hslot, ih hrest]
    rfl

theorem Inv.listed (h : Inv s) : Listed s := by
  intro nrDev hnr
  rw [listObjectDisk, h.count, if_pos hnr, listLoop_eq h.slots_from_zero]

theorem findIndexLoop_none {n i k : ℕ} {best : Option (RhDevice Disk × W)} {m : ℤ} (hk : k < n)
    (hnone : ctx.slot (i + k) = none) : findIndexLoop weight ctx key n i best m = none := by
  induction n generalizing i k best m with
  | zero => omega
  | succ n ih =>
    rw [findIndexLoop]
    split
    · rfl
    · rename_i dev hslot
      cases k with
      | zero =>
        rw [Nat.add_zero, hslot] at hnone
        cases hnone
      | succ k =>
        have hrest : ctx.slot (i + 1 + k) = none := by
          rwa [Nat.add_assoc, Nat.add_comm 1 k]
        split
        · split
          · exact ih (Nat.lt_of_succ_lt_succ hk) hrest
          · exact ih (Nat.lt_of_succ_lt_succ hk) hrest
        · exact ih (Nat.lt_of_succ_lt_succ hk) hrest

theorem inv_init : Inv (State.init : State Disk) where
  slots := by
    intro i
    simp only [State.init, Ctx.init, Ctx.slot, Vector.getElem?_replicate, List.getElem?_nil]
    split <;> rfl
  count := rfl
  bound := Nat.zero_le _

theorem toInt_numDevices (ctx : Ctx Disk) (h : ctx.numDevices.toNat ≤ 64) :
    ctx.numDevices.toInt32.toInt = ctx.numDevices.toNat :=
  BitVec.toInt_eq_toNat_of_lt (show 2 * ctx.numDevices.toNat < 2 ^ 32 by omega)

theorem Inv.step_room (h : Inv s) (hl : s.added.length < maxRhDevices) (dev : RhDevice Disk) :
    ∃ s', step s dev = some s' ∧ Inv s' ∧ s'.added = s.added ++ [dev] := by
  have hcurr := toInt_numDevices s.ctx (by rw [h.count]; exact h.bound)
  rw [h.count] at hcurr
  refine ⟨⟨⟨s.ctx.devices.setIfInBounds s.added.length (some dev), s.ctx.numDevices + 1⟩,
    s.added ++ [dev]⟩, ?_, ⟨fun i => ?_, ?_, ?_⟩, rfl⟩
  · rw [step, addDevice]
    simp only [hcurr]
    rw [if_neg (by omega), if_neg (by omega), Int.toNat_natCast]
    rfl
  · have hslot := h.slots i
    simp only [Ctx.slot] at hslot ⊢
    rw [Vector.getElem?_setIfInBounds]
    rcases eq_or_ne s.added.length i with rfl | hne
    · simp [hl]
    · rw [if_neg hne, hslot, List.getElem?_append]
      split
      · rfl
      · rename_i hi
        rw [List.getElem?_eq_none (by omega), List.getElem?_eq_none (by simp; omega)]
  · rw [List.length_append, List.length_singleton, UInt32.toNat_add, h.count]
    have hsize : s.added.length < 64 := hl
    exact Nat.mod_eq_of_lt (show s.added.length + 1 < 2 ^ 32 by omega)
  · rw [List.length_append, List.length_singleton]
    exact hl

theorem Inv.stable (h : Inv s) (hl : s.added.length < maxRhDevices) : Stable weight s dev := by
  obtain ⟨s', hstep, hinv, hadded⟩ := h.step_room hl dev
  refine ⟨s', hstep, hinv.placed (by simp [hadded]), hinv.listed, Or.inl ⟨hadded, fun key i hi => ?_⟩⟩
  rw [h.findObjectDiskIndex] at hi
  rw [hinv.findObjectDiskIndex, hadded, placed_concat]
  cases hp : Kd.placed weight key s.added with
  | none =>
    rw [hp] at hi
    cases hi
  | some p =>
    rw [hp] at hi
    dsimp only
    split
    · exact Or.inr rfl
    · exact Or.inl hi

theorem Inv.not_stable (h : Inv s) (hl : s.added.length = maxRhDevices) : ¬ Stable weight s dev := by
  rintro ⟨s', hstep, hplaced, -⟩
  have hcurr := toInt_numDevices s.ctx (by rw [h.count]; exact h.bound)
  rw [h.count, hl] at hcurr
  rw [step, addDevice] at hstep
  simp only [hcurr] at hstep
  rw [if_pos le_rfl, Option.map_some, Option.some.injEq] at hstep
  obtain ⟨i, dev', -, -, hindex, -⟩ := hplaced []
  have hcount : s'.ctx.numDevices.toNat = maxRhDevices + 1 := by
    rw [← hstep, UInt32.toNat_add, h.count, hl]
    rfl
  have hslot : s'.ctx.slot (0 + maxRhDevices) = none := by
    rw [← hstep]
    simp [Ctx.slot]
  rw [Kd.findObjectDiskIndex, hcount, findIndexLoop_none (Nat.lt_succ_self _) hslot] at hindex
  cases hindex

/-- A sequence of additions that fits in the table. -/
theorem Inv.run (weight : Key → RhDevice Disk → W) (h : Inv s) (devs : List (RhDevice Disk))
    (hl : s.added.length + devs.length ≤ maxRhDevices) :
    Run.Admissible step (Stable weight) s devs ∧
      ∃ s', Run.run step s devs = some s' ∧ Inv s' ∧ s'.added = s.added ++ devs := by
  induction devs generalizing s with
  | nil => exact ⟨trivial, s, rfl, h, (List.append_nil _).symm⟩
  | cons dev devs ih =>
    rw [List.length_cons] at hl
    obtain ⟨s₁, hstep, hinv, hadded⟩ := h.step_room (by omega) dev
    have hlen : s₁.added.length + devs.length ≤ maxRhDevices := by
      rw [hadded, List.length_append, List.length_singleton]
      omega
    obtain ⟨hok, s', hrun, hinv', hadded'⟩ := ih hinv hlen
    refine ⟨⟨h.stable (by omega), fun s₂ hs₂ => ?_⟩, s', ?_, hinv', ?_⟩
    · rw [hstep, Option.some.injEq] at hs₂
      exact hs₂ ▸ hok
    · rw [Run.run_cons, hstep, Option.bind_some, hrun]
    · rw [hadded', hadded, List.append_assoc, List.singleton_append]

/-- **When the placement of keys is stable**: when at least one device is added, and no more than
the table has slots. -/
theorem consistent_iff {devs : List (RhDevice Disk)} :
    Consistent weight devs ↔ devs ≠ [] ∧ devs.length ≤ maxRhDevices := by
  constructor
  · rintro ⟨hok, s, hrun, hplaced⟩
    refine ⟨?_, ?_⟩
    · rintro rfl
      cases hrun
      obtain ⟨i, dev, hget, -⟩ := hplaced []
      simp [State.init] at hget
    · by_contra hl
      have hsplit : devs = devs.take maxRhDevices ++ devs.drop maxRhDevices :=
        (List.take_append_drop _ _).symm
      have hlen : (devs.take maxRhDevices).length = maxRhDevices := by
        rw [List.length_take]
        omega
      obtain ⟨-, s₁, hrun₁, hinv, hadded⟩ :=
        inv_init.run weight (devs.take maxRhDevices) (by rw [hlen]; exact le_rfl)
      rw [hsplit] at hok
      have hrest := hok.append.2 s₁ hrun₁
      cases hd : devs.drop maxRhDevices with
      | nil =>
        rw [List.drop_eq_nil_iff] at hd
        omega
      | cons dev rest =>
        rw [hd] at hrest
        exact hinv.not_stable (by rw [hadded]; simpa [State.init] using hlen) hrest.1
  · rintro ⟨hne, hl⟩
    obtain ⟨hok, s', hrun, hinv, hadded⟩ :=
      inv_init.run weight devs (by simpa [State.init] using hl)
    refine ⟨hok, s', hrun, hinv.placed ?_⟩
    rw [hadded]
    simpa [State.init] using hne

end

/-- A device of one disk. -/
def oneDisk : RhDevice Unit := ⟨[100], (), by decide⟩

/-- The 65th device is refused, and the next search for a key reads beyond the table. -/
theorem not_consistent_sixtyFive :
    ¬ Consistent (fun _ _ => (0 : ℕ)) (List.replicate 65 oneDisk) := by
  rintro ⟨-, s, hrun, hplaced⟩
  obtain ⟨i, dev, -, -, hindex, -⟩ := hplaced []
  have hnone : ((Run.run step State.init (List.replicate 65 oneDisk)).bind fun s =>
      findObjectDiskIndex (fun _ _ => (0 : ℕ)) s.ctx []) = none := by decide +kernel
  rw [hrun, Option.bind_some, hindex] at hnone
  cases hnone

end DssSdk.Kd
