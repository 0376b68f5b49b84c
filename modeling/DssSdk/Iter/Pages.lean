import DssSdk.Iter.Pool

/-!
# The copy of the pages

What `iter_sg_read_data` does with the pages of the devices.

* `IsPage`, `EndsWell`: a page, and a page whose last key is neither lost nor read too far;
* `Holds`, `Unread`: the keys of a buffer from its read position on;
* `Filled`: the keys in the buffer of the request;
* `copyUnits_spec`, `copyDevs_spec`: the copied keys and the ones that stay are the unread ones.
-/

namespace DssSdk.Iter

open ByteMemory

/-- The bytes of a page. -/
def pageSize (keys : List Bytes) : ℕ := 4 + encodedSize keys

theorem pageSize_append (l l' : List Bytes) : pageSize (l ++ l') = pageSize l + encodedSize l' := by
  rw [pageSize, encodedSize_append, pageSize, Nat.add_assoc]

/-- The bytes `mem` of a device and their number `cdw0` are a page of keys. Without a key there may be
no data at all. -/
structure IsPage (keys : List Bytes) (mem : Memory) (cdw0 : ℕ) : Prop where
  lengths : ∀ k ∈ keys, 1 ≤ k.length ∧ k.length ≤ 255
  count : getWord mem 0 = keys.length
  encodes : Encodes mem 4 keys
  size : cdw0 = pageSize keys ∨ keys = [] ∧ cdw0 = 0
  cap : cdw0 ≤ 32 * 1024

/-- The last key of a page has more than one word, unless it is the only one, and a zero byte in it or
behind it. -/
def EndsWell (keys : List Bytes) (mem : Memory) : Prop :=
  ∀ k ∈ keys.getLast?, (keys.length ≠ 1 → 4 < k.length) ∧
    0 ∈ getBytes mem (pageSize keys - round4 k.length) (round4 k.length)

instance (keys : List Bytes) (mem : Memory) (cdw0 : ℕ) : Decidable (IsPage keys mem cdw0) :=
  decidable_of_iff
    ((∀ k ∈ keys, 1 ≤ k.length ∧ k.length ≤ 255) ∧ getWord mem 0 = keys.length ∧ Encodes mem 4 keys ∧
      (cdw0 = pageSize keys ∨ keys = [] ∧ cdw0 = 0) ∧ cdw0 ≤ 32 * 1024)
    ⟨fun ⟨h₁, h₂, h₃, h₄, h₅⟩ => ⟨h₁, h₂, h₃, h₄, h₅⟩, fun ⟨h₁, h₂, h₃, h₄, h₅⟩ => ⟨h₁, h₂, h₃, h₄, h₅⟩⟩

instance (keys : List Bytes) (mem : Memory) : Decidable (EndsWell keys mem) :=
  inferInstanceAs (Decidable (∀ k ∈ keys.getLast?, _))

/-- The read position behind the keys `l` of a page. -/
def posAfter (l : List Bytes) : ℕ := if l = [] then 0 else pageSize l

/-- The buffer has a page of keys, and `rest` is behind its read position. -/
structure Holds (d : Dev) (keys rest : List Bytes) : Prop where
  lengths : ∀ k ∈ keys, 1 ≤ k.length ∧ k.length ≤ 255
  encodes : Encodes d.itBuff 4 keys
  ends : EndsWell keys d.itBuff
  size : d.itDataSz = pageSize keys
  cap : d.itDataSz ≤ 32 * 1024
  pos : ∃ l, keys = l ++ rest ∧ d.readPos = posAfter l

/-- The keys of a device that have not been copied. -/
def Unread (d : Dev) (rest : List Bytes) : Prop :=
  if d.inFlight then rest = [] ∧ d.readPos = 0
  else (∃ keys, Holds d keys rest) ∨ rest = [] ∧ d.itDataSz = 0 ∧ d.readPos = 0

variable {d : Dev} {keys rest ks : List Bytes} {k : Bytes} {req : Req} {o : Out}

theorem eight_le_unitSize (h : 1 ≤ k.length) : 8 ≤ unitSize k := by
  unfold unitSize round4
  omega

theorem twelve_le_unitSize (h : 4 < k.length) : 12 ≤ unitSize k := by
  unfold unitSize round4
  omega

theorem posAfter_add_head (l : List Bytes) : posAfter l + (if posAfter l = 0 then 4 else 0) = pageSize l := by
  unfold posAfter
  split
  · rename_i h
    rw [h]
    rfl
  · rw [if_neg (by unfold pageSize; omega), Nat.add_zero]

theorem posAfter_le_pageSize (l : List Bytes) : posAfter l ≤ pageSize l := by
  unfold posAfter
  split <;> omega

/-! ### The test for unread keys -/

theorem Holds.hasUnread_cons (h : Holds d keys (k :: rest)) : d.hasUnread = true := by
  obtain ⟨l, rfl, hpos⟩ := h.pos
  have hk := eight_le_unitSize (h.lengths k (by simp)).1
  have hlen : 0 < l.length → rest = [] → 12 ≤ unitSize k := by
    rintro hl rfl
    refine twelve_le_unitSize ((h.ends k (by simp)).1 ?_)
    simp only [List.length_append, List.length_cons, List.length_nil]
    omega
  have hrest : rest ≠ [] → 8 ≤ encodedSize rest := by
    intro hne
    obtain ⟨k', rest, rfl⟩ := List.exists_cons_of_ne_nil hne
    have := eight_le_unitSize (h.lengths k' (by simp)).1
    rw [encodedSize_cons]
    omega
  unfold Dev.hasUnread
  rw [decide_eq_true_iff, hpos, h.size, pageSize_append, encodedSize_cons, posAfter]
  split
  · unfold pageSize
    omega
  · rename_i hl
    by_cases hr : rest = []
    · have := hlen (List.length_pos_iff.2 hl) hr
      omega
    · have := hrest hr
      omega

theorem Holds.hasUnread_nil (h : Holds d keys []) : d.hasUnread = false := by
  obtain ⟨l, hl, hpos⟩ := h.pos
  rw [List.append_nil] at hl
  subst hl
  unfold Dev.hasUnread
  rw [decide_eq_false_iff_not, hpos, h.size, posAfter]
  split
  · rename_i hl
    rw [hl]
    decide
  · omega

theorem Unread.eq_nil (h : Unread d rest) (hd : d.inFlight = true ∨ d.hasUnread = false) : rest = [] := by
  unfold Unread at h
  split at h
  · exact h.1
  · rename_i hfl
    obtain ⟨keys, hk⟩ | ⟨hr, -⟩ := h
    · cases rest with
      | nil => rfl
      | cons k rest =>
        rw [hk.hasUnread_cons] at hd
        simp [hfl] at hd
    · exact hr

/-- The bytes of the unread keys. -/
def Dev.unreadBytes (d : Dev) : ℕ :=
  if d.readPos = 0 then d.itDataSz - 4 else d.itDataSz - d.readPos

theorem Unread.unreadBytes_eq (h : Unread d rest) (hd : d.inFlight = false) :
    d.unreadBytes = encodedSize rest := by
  unfold Unread at h
  rw [if_neg (by simp [hd])] at h
  obtain ⟨keys, hk⟩ | ⟨rfl, hsz, hpos⟩ := h
  · obtain ⟨l, rfl, hpos⟩ := hk.pos
    have hhead := posAfter_add_head l
    unfold Dev.unreadBytes
    rw [hpos, hk.size, pageSize_append]
    split
    · rename_i h0
      rw [h0, if_pos rfl] at hhead
      omega
    · rename_i h0
      rw [if_neg h0] at hhead
      omega
  · simp [Dev.unreadBytes, hsz, hpos]

/-! ### One unit -/

section

variable {l : List Bytes}

theorem Holds.encodes_next (h : Holds d (l ++ k :: rest) (k :: rest)) :
    Encodes d.itBuff (pageSize l) (k :: rest) := (encodes_append.1 h.encodes).2

theorem Holds.getIterListUnit_eq (h : Holds d (l ++ k :: rest) (k :: rest))
    (hpos : d.readPos = posAfter l) :
    ∃ u, getIterListUnit d = some u ∧ u.addr = pageSize l ∧ u.unitSz = unitSize k ∧
      d.readPos + u.readSz = posAfter (l ++ [k]) := by
  have hun := h.hasUnread_cons
  unfold Dev.hasUnread at hun
  rw [decide_eq_true_iff] at hun
  have hk := (h.lengths k (by simp)).2
  have haddr : d.readPos + (if d.readPos = 0 then 4 else 0) = pageSize l := by
    rw [hpos]
    exact posAfter_add_head l
  have hdata : (k.length + 4 - 1) / 4 * 4 % 2 ^ 16 + 4 = unitSize k := by
    unfold unitSize round4
    omega
  have hnext : posAfter (l ++ [k]) = pageSize l + unitSize k := by
    rw [posAfter, if_neg (by simp), pageSize_append, encodedSize_cons, encodedSize_nil, Nat.add_zero]
  unfold getIterListUnit
  rw [if_pos (by omega)]
  simp only [haddr, h.encodes_next.1]
  refine ⟨_, rfl, rfl, hdata, ?_⟩
  rw [hnext]
  dsimp only
  omega

theorem Holds.zero_mem (h : Holds d (l ++ k :: rest) (k :: rest)) :
    0 ∈ getBytes d.itBuff (pageSize l + 4) (d.itDataSz - (pageSize l + 4)) := by
  have hsz := h.size
  rw [pageSize_append, encodedSize_cons] at hsz
  cases rest with
  | nil =>
    have hend := (h.ends k (by simp)).2
    rw [← h.size] at hend
    rw [encodedSize_nil, unitSize] at hsz
    have h₁ : d.itDataSz - round4 k.length = pageSize l + 4 := by omega
    have h₂ : d.itDataSz - (pageSize l + 4) = round4 k.length := by omega
    rw [h₁] at hend
    rwa [h₂]
  | cons k' rest =>
    have hword := h.encodes_next.2.2.1
    have hk' := (h.lengths k' (by simp)).2
    rw [encodedSize_cons, unitSize, unitSize] at hsz
    refine mem_getBytes.2 ⟨round4 k.length + 1, by omega, ?_⟩
    have hbyte := byte_of_getWord_lt (m := d.itBuff) (a := pageSize l + unitSize k) (by omega)
    rw [← hbyte, unitSize]
    congr 1
    omega

theorem Holds.advance (h : Holds d (l ++ k :: rest) (k :: rest)) {pos : ℕ}
    (hpos : pos = posAfter (l ++ [k])) : Holds { d with readPos := pos } (l ++ k :: rest) rest where
  lengths := h.lengths
  encodes := h.encodes
  ends := h.ends
  size := h.size
  cap := h.cap
  pos := ⟨l ++ [k], by simp, hpos⟩

end

/-! ### The buffer of the request -/

/-- The keys `ks` are in the buffer of the request, and nothing is written behind its end. -/
structure Filled (req : Req) (o : Out) (ks : List Bytes) : Prop where
  pos : o.pos = pageSize ks
  left : o.left = (req.length : ℤ) - pageSize ks
  room : pageSize ks ≤ req.length
  nr : o.nrUnit = ks.length
  encodes : Encodes o.mem 4 ks
  outside : ∀ i, req.length ≤ i → o.mem i = req.buffer i
  inPage : o.inPage = true

theorem filled_nil (h : 4 ≤ req.length) :
    Filled req ⟨req.buffer, 4, (req.length : ℤ) - 4, 0, true⟩ [] where
  pos := rfl
  left := rfl
  room := h
  nr := rfl
  encodes := trivial
  outside := fun _ _ => rfl
  inPage := rfl

theorem Filled.put {l : List Bytes} {u : IterUnit} (hf : Filled req o ks)
    (h : Holds d (l ++ k :: rest) (k :: rest)) (haddr : u.addr = pageSize l)
    (hsz : u.unitSz = unitSize k) (hlt : (u.unitSz : ℤ) < o.left) :
    Filled req (o.put d u) (ks ++ [k]) := by
  have hsize : pageSize (ks ++ [k]) = pageSize ks + unitSize k := by
    rw [pageSize_append, encodedSize_cons, encodedSize_nil, Nat.add_zero]
  have hroom : pageSize ks + unitSize k ≤ req.length := by
    have := hf.left
    omega
  have hlen : (getBytes d.itBuff u.addr u.unitSz).length = unitSize k := by rw [length_getBytes, hsz]
  refine ⟨?_, ?_, ?_, ?_, ?_, ?_, ?_⟩
  · show o.pos + u.unitSz = _
    rw [hf.pos, hsz, hsize]
  · show o.left - u.unitSz = _
    rw [hf.left, hsz, hsize]
    push_cast
    ring
  · rw [hsize]
    exact hroom
  · show o.nrUnit + 1 = _
    rw [hf.nr, List.length_append, List.length_singleton]
  · show Encodes (putBytes o.mem o.pos (getBytes d.itBuff u.addr u.unitSz)) 4 (ks ++ [k])
    refine encodes_append.2 ⟨hf.encodes.congr fun i _ hi => putBytes_of_disjoint ?_, ?_⟩
    · left
      rw [hf.pos]
      exact hi
    · rw [hf.pos, haddr, hsz]
      have hone : Encodes d.itBuff (pageSize l) [k] := ⟨h.encodes_next.1, h.encodes_next.2.1, trivial⟩
      exact encodes_copy hone
  · intro i hi
    rw [← hf.outside i hi]
    refine putBytes_of_disjoint (Or.inr ?_)
    rw [hlen, hf.pos]
    omega
  · have hend : pageSize l + unitSize k ≤ d.itDataSz := by
      rw [h.size, pageSize_append, encodedSize_cons]
      omega
    show (o.inPage && u.inPage d) = true
    rw [hf.inPage, Bool.true_and, IterUnit.inPage, haddr, hsz, decide_eq_true hend,
      decide_eq_true h.zero_mem, Bool.and_self]

/-- The loop over the units of a page. -/
theorem copyUnits_spec {fuel : ℕ} (h : Holds d keys rest) (hfuel : rest.length ≤ fuel)
    (hf : Filled req o ks) :
    ∃ pos o' full l rest', copyUnits fuel d o = some ({ d with readPos := pos }, o', full) ∧
      rest = l ++ rest' ∧ Holds { d with readPos := pos } keys rest' ∧ Filled req o' (ks ++ l) ∧
      (full = false → rest' = []) ∧ ((encodedSize rest : ℤ) < o.left → full = false) := by
  induction rest generalizing d o ks fuel with
  | nil =>
    refine ⟨d.readPos, o, false, [], [], ?_, rfl, h, ?_, fun _ => rfl, fun _ => rfl⟩
    · cases fuel with
      | zero => rfl
      | succ fuel => rw [copyUnits, if_neg (by simp [h.hasUnread_nil])]
    · rwa [List.append_nil]
  | cons k rest ih =>
    obtain ⟨fuel, rfl⟩ : ∃ f, fuel = f + 1 := ⟨fuel - 1, by rw [List.length_cons] at hfuel; omega⟩
    obtain ⟨done, rfl, hpos⟩ := h.pos
    obtain ⟨u, hu, haddr, hsz, hnext⟩ := h.getIterListUnit_eq hpos
    have hword : getWord d.itBuff u.addr = k.length := by
      rw [haddr]
      exact h.encodes_next.1
    have hk := h.lengths k (by simp)
    rw [copyUnits, if_pos h.hasUnread_cons, hu]
    dsimp only
    by_cases hlt : (u.unitSz : ℤ) < o.left
    · have hmod : (d.readPos + u.readSz) % 2 ^ 16 = posAfter (done ++ [k]) := by
        have hle := posAfter_le_pageSize (done ++ [k])
        have hcap := h.cap
        rw [h.size, pageSize_append, encodedSize_cons] at hcap
        rw [pageSize_append, encodedSize_cons, encodedSize_nil] at hle
        rw [hnext]
        omega
      obtain ⟨pos, o', full, l, rest', hcopy, hrest, hholds, hfill, hfull, hfits⟩ :=
        ih (h.advance hmod) (Nat.le_of_succ_le_succ hfuel) (hf.put h haddr hsz hlt)
      rw [if_pos hlt, hword, if_pos (show 0 < k.length ∧ k.length ≤ 255 from hk)]
      refine ⟨pos, o', full, k :: l, rest', hcopy, ?_, hholds, ?_, hfull, fun hlast => hfits ?_⟩
      · rw [hrest, List.cons_append]
      · rwa [List.append_cons]
      · rw [encodedSize_cons] at hlast
        show (encodedSize rest : ℤ) < o.left - u.unitSz
        rw [hsz]
        push_cast at hlast
        omega
    · rw [if_neg hlt]
      refine ⟨d.readPos, o, true, [], k :: rest, rfl, rfl, h, ?_, ?_, fun hlast => ?_⟩
      · rwa [List.append_nil]
      · intro hfalse
        cases hfalse
      · rw [encodedSize_cons] at hlast
        rw [hsz] at hlt
        push_cast at hlast
        omega

theorem copyUnits_unread (h : Unread d rest) (hd : d.inFlight = false) (hf : Filled req o ks) :
    ∃ pos o' full l rest',
      copyUnits d.itDataSz d o = some ({ d with readPos := pos }, o', full) ∧ rest = l ++ rest' ∧
      Unread { d with readPos := pos } rest' ∧ Filled req o' (ks ++ l) ∧
      (full = false → rest' = []) ∧ ((encodedSize rest : ℤ) < o.left → full = false) := by
  unfold Unread at h
  rw [if_neg (by simp [hd])] at h
  obtain ⟨keys, hk⟩ | ⟨rfl, hsz, hpos⟩ := h
  · obtain ⟨done, rfl, -⟩ := hk.pos
    have hfuel : rest.length ≤ d.itDataSz := by
      have := length_le_encodedSize rest
      rw [hk.size, pageSize_append]
      omega
    obtain ⟨pos, o', full, l, rest', hcopy, hrest, hholds, hfill, hfull, hfits⟩ :=
      copyUnits_spec hk hfuel hf
    refine ⟨pos, o', full, l, rest', hcopy, hrest, ?_, hfill, hfull, hfits⟩
    unfold Unread
    rw [if_neg (by simp [hd])]
    exact Or.inl ⟨_, hholds⟩
  · refine ⟨d.readPos, o, false, [], [], ?_, rfl, ?_, ?_, fun _ => rfl, fun _ => rfl⟩
    · have hzero : copyUnits 0 d o = some (d, o, false) := rfl
      rwa [← hsz] at hzero
    · unfold Unread
      rw [if_neg (by simp [hd])]
      exact Or.inr ⟨rfl, hsz, hpos⟩
    · rwa [List.append_nil]

/-! ### All devices -/

/-- The unread keys of the devices, one device after the other. -/
def Held : List Dev → List Bytes → Prop
  | [], ks => ks = []
  | d :: devs, ks => ∃ rest ks', ks = rest ++ ks' ∧ Unread d rest ∧ Held devs ks'

variable {devs : List Dev}

/-- The loop over the devices. -/
theorem copyDevs_spec {unread : List Bytes} (h : Held devs unread)
    (hd : ∀ d ∈ devs, d.inFlight = false) (hf : Filled req o ks) :
    ∃ devs' o' l unread', copyDevs devs o = some (devs', o') ∧ unread = l ++ unread' ∧
      Held devs' unread' ∧ Filled req o' (ks ++ l) ∧ devs'.map Dev.isEof = devs.map Dev.isEof ∧
      devs'.map Dev.inFlight = devs.map Dev.inFlight ∧
      ((encodedSize unread : ℤ) < o.left → unread' = []) := by
  induction devs generalizing o ks unread with
  | nil =>
    have hnil : unread = [] := h
    subst hnil
    exact ⟨[], o, [], [], rfl, rfl, rfl, by rwa [List.append_nil], rfl, rfl, fun _ => rfl⟩
  | cons d devs ih =>
    obtain ⟨rest, more, rfl, hrest, hmore⟩ := h
    obtain ⟨pos, o', full, l, rest', hcopy, rfl, hun, hfill, hfull, hfits⟩ :=
      copyUnits_unread hrest (hd d List.mem_cons_self) hf
    cases full with
    | true =>
      refine ⟨{ d with readPos := pos } :: devs, o', l, rest' ++ more, by rw [copyDevs, hcopy],
        List.append_assoc _ _ _, ⟨rest', more, rfl, hun, hmore⟩, hfill, rfl, rfl, fun hlt => ?_⟩
      rw [encodedSize_append] at hlt
      cases hfits (by push_cast at hlt; omega)
    | false =>
      have hnil := hfull rfl
      subst hnil
      obtain ⟨devs', o'', l', unread', hcopy', rfl, hun', hfill', heof, hfl, hall⟩ :=
        ih hmore (fun d' hd' => hd d' (List.mem_cons_of_mem _ hd')) hfill
      refine ⟨{ d with readPos := pos } :: devs', o'', l ++ l', unread', ?_, ?_,
        ⟨[], unread', rfl, hun, hun'⟩, ?_, ?_, ?_, fun hlt => hall ?_⟩
      · rw [copyDevs, hcopy]
        show Option.map _ (copyDevs devs o') = _
        rw [hcopy']
        rfl
      · rw [List.append_nil, List.append_assoc]
      · rwa [← List.append_assoc]
      · rw [List.map_cons, List.map_cons, heof]
      · rw [List.map_cons, List.map_cons, hfl]
      · have h₁ := hf.left
        have h₂ := hfill.left
        rw [pageSize_append] at h₂
        rw [List.append_nil, encodedSize_append] at hlt
        push_cast at hlt h₂
        omega

theorem Held.unreadBytes_sum {unread : List Bytes} (h : Held devs unread)
    (hd : ∀ d ∈ devs, d.inFlight = false) :
    (devs.map Dev.unreadBytes).sum = encodedSize unread := by
  induction devs generalizing unread with
  | nil =>
    have hnil : unread = [] := h
    rw [hnil]
    rfl
  | cons d devs ih =>
    obtain ⟨rest, more, rfl, hrest, hmore⟩ := h
    rw [List.map_cons, List.sum_cons, hrest.unreadBytes_eq (hd d List.mem_cons_self),
      ih hmore fun d' hd' => hd d' (List.mem_cons_of_mem _ hd'), encodedSize_append]

open scoped List in
/-- A device without unread keys gets some. -/
theorem Held.set {unread new : List Bytes} {i : ℕ} {d' : Dev} (h : Held devs unread)
    (hi : devs[i]? = some d) (hnil : ∀ rest, Unread d rest → rest = []) (hnew : Unread d' new) :
    ∃ unread', Held (devs.set i d') unread' ∧ unread' ~ unread ++ new := by
  induction devs generalizing unread i with
  | nil => cases hi
  | cons e devs ih =>
    obtain ⟨rest, more, rfl, hrest, hmore⟩ := h
    cases i with
    | zero =>
      cases hi
      have hr := hnil rest hrest
      subst hr
      exact ⟨new ++ more, ⟨new, more, rfl, hnew, hmore⟩, List.perm_append_comm⟩
    | succ i =>
      obtain ⟨unread', hheld, hperm⟩ := ih hmore hi
      refine ⟨rest ++ unread', ⟨rest, unread', rfl, hrest, hheld⟩, ?_⟩
      rw [List.append_assoc]
      exact hperm.append_left rest

end DssSdk.Iter
