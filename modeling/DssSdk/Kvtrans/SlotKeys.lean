import Mathlib.Data.List.TakeWhile
import DssSdk.Kvtrans.Handlers

/-!
# The keys of the collision slots

Keys are byte strings with a length. A request buffer gets its key by `strncpy`, a slot of the collision
table by one of two `memcpy`s, and slots are compared by `strnlen`.

* `strncpy`, `setupKey`: the key buffer of a request, as `dss_setup_kvtrans_req` leaves it;
* `SlotOp`, `applySlot`: what happens to a slot, with the handlers that do it;
* `cstr_setupKey`, `cstr_assigned`: the C strings in a request and in a slot;
* `identifies_iff`: exactly when the two comparisons identify keys.

`update_meta_blk` copies the bytes of the key only, so that the end of a longer key that was there before
remains, and no comparison of slots looks behind a zero byte.
-/

namespace DssSdk.Kvtrans

/-! ### Requests -/

/-- `strncpy` of `n` bytes: the source up to its first zero byte, and zeros after it. -/
def strncpy (dst src : List UInt8) (n : ℕ) : List UInt8 :=
  bytes ((src.take n).takeWhile (· ≠ 0)) n ++ dst.drop n

/-- The key buffer after `dss_setup_kvtrans_req`, over what an earlier request left in it. -/
def setupKey (old key : List UInt8) : List UInt8 :=
  let buf := strncpy old key key.length
  if key.length < keyLen then buf.set key.length 0 else buf

/-- The request for a key. -/
def keyReq (opc : Opc) (old key value : List UInt8) : Req := ⟨opc, setupKey old key, key.length, value⟩

/-! ### Slots -/

/-- What happens to a slot: a key is assigned, by `_new_write_ops` with the whole buffer of the request or
by `update_meta_blk` with the bytes of the key, or the entry is removed. -/
inductive SlotOp
  | assign (whole : Bool) (req : Req) (colIndex : ℕ) (dc : Bool)
  | remove

/-- The slot after it. -/
def applySlot (e : ColEntry) : SlotOp → ColEntry
  | .assign whole req colIndex dc =>
      ⟨if whole then req.key else memcpy e.key req.key req.length, colIndex,
        if dc then .dataColEntry else .metaColEntry⟩
  | .remove => { e with state := .deleted }

/-- `_col_tbl_remove_entry` removes a slot. -/
theorem colTblRemoveEntry_slot (blk : OndiskMeta) (i : Fin maxColTblSize) :
    (colTblRemoveEntry blk i).collisionTbl =
      Function.update blk.collisionTbl i (applySlot (blk.collisionTbl i) .remove) := rfl

/-- `update_meta_blk` assigns the first slot. -/
theorem addFirstEntry_slot (P : Params) (p : ℕ) : addFirstEntry P p = (do
    let s ← get
    let b ← blkAt p
    let (rc, colIndex) ← openFreeBlk P p
    checked (pure rc) do
      modifyBlk p fun b => { b with
        blk := { b.blk with
          collisionTbl := Function.update b.blk.collisionTbl 0
            (applySlot (b.blk.collisionTbl 0) (.assign false s.req.req colIndex (b.dcIndex > 0)))
          numValidColEntry := (b.blk.numValidColEntry + 1) % 256
          numValidDcColEntry :=
            if b.dcIndex > 0 then (b.blk.numValidDcColEntry + 1) % 256
            else b.blk.numValidDcColEntry } }
      checked (firstEntryState b colIndex) do
        writeOndiskBlk P p
        return .success) := by
  unfold addFirstEntry applySlot
  simp only [decide_eq_true_eq, Bool.false_eq_true, if_false]

/-- `_new_write_ops` assigns a free slot. -/
theorem fillSlot_slot (p : ℕ) (i : Fin maxColTblSize) (colIndex : ℕ) : fillSlot p i colIndex = (do
    let s ← get
    let b ← blkAt p
    modifyBlk p fun b => { b with
      blk := { b.blk with
        collisionTbl := Function.update b.blk.collisionTbl i
          (applySlot (b.blk.collisionTbl i) (.assign true s.req.req colIndex (b.dcIndex > 0)))
        numValidDcColEntry :=
          if b.dcIndex > 0 then (b.blk.numValidDcColEntry + 1) % 256
          else b.blk.numValidDcColEntry } }
    checked (if b.dcIndex > 0 then setBlkState true colIndex 1 .metaDataCollision
      else pure .success) do
      modifyBlk p fun b => { b with
        blk := { b.blk with numValidColEntry := (b.blk.numValidColEntry + 1) % 256 } }
      return .success) := by
  unfold fillSlot applySlot
  simp only [decide_eq_true_eq, if_true]

/-! ### C strings -/

/-- The part of a key before its first zero byte. -/
def stringPart (key : List UInt8) : List UInt8 := key.takeWhile (· ≠ 0)

/-- The C string in a key buffer. -/
def cstr (buf : List UInt8) : List UInt8 := stringPart (buf.take keyLen)

section

variable {buf old key key' c rest : List UInt8} {n : ℕ}

theorem stringPart_ne_zero : ∀ b ∈ stringPart key, b ≠ 0 := by
  intro b hb
  have := List.mem_takeWhile_imp hb
  simpa using this

theorem length_stringPart_le : (stringPart key).length ≤ key.length :=
  (List.takeWhile_prefix _).length_le

theorem stringPart_eq_self (h : 0 ∉ key) : stringPart key = key := by
  unfold stringPart
  rw [List.takeWhile_eq_self_iff]
  intro b hb
  simpa using fun h0 : b = 0 => h (h0 ▸ hb)

theorem length_stringPart_lt (h : 0 ∈ key) : (stringPart key).length < key.length := by
  refine lt_of_le_of_ne length_stringPart_le fun heq => ?_
  have hself : stringPart key = key := (List.takeWhile_prefix _).eq_of_length heq
  rw [← hself] at h
  exact stringPart_ne_zero 0 h rfl

theorem stringPart_append (hc : ∀ b ∈ c, b ≠ 0) : stringPart (c ++ rest) = c ++ stringPart rest := by
  unfold stringPart
  exact List.takeWhile_append_of_pos fun b hb => by simpa using hc b hb

@[simp] theorem stringPart_zeros (n : ℕ) : stringPart (List.replicate n 0 ++ rest) =
    if n = 0 then stringPart rest else [] := by
  cases n with
  | zero => simp
  | succ n =>
    rw [List.replicate_succ, if_neg (Nat.succ_ne_zero n)]
    exact List.takeWhile_cons_of_neg (by simp)

theorem strnlen_eq : strnlen buf = (cstr buf).length := rfl

theorem bytes_strnlen : bytes buf (strnlen buf) = cstr buf := by
  have hprefix : cstr buf <+: buf := (List.takeWhile_prefix _).trans (List.take_prefix _ _)
  have hlen := hprefix.length_le
  unfold bytes
  rw [strnlen_eq, Nat.sub_eq_zero_of_le hlen, List.replicate_zero, List.append_nil]
  exact (List.prefix_iff_eq_take.1 hprefix).symm

theorem isEntryMatch_iff {e : ColEntry} : isEntryMatch e key = true ↔ cstr e.key = cstr key := by
  unfold isEntryMatch iskeysame
  rw [decide_eq_true_eq]
  constructor
  · rintro ⟨hlen, hbytes⟩
    rwa [← hlen, bytes_strnlen, hlen, bytes_strnlen] at hbytes
  · intro h
    have hlen : strnlen e.key = strnlen key := congrArg List.length h
    refine ⟨hlen, ?_⟩
    rw [← hlen, bytes_strnlen, hlen, bytes_strnlen, h]

theorem bytes_stringPart : bytes (stringPart key) key.length =
    stringPart key ++ List.replicate (key.length - (stringPart key).length) 0 := by
  unfold bytes
  rw [List.take_of_length_le length_stringPart_le]

theorem stringPart_bytes : stringPart (bytes (stringPart key) key.length) = stringPart key := by
  rw [bytes_stringPart, stringPart_append stringPart_ne_zero,
    ← List.append_nil (List.replicate _ _), stringPart_zeros]
  split_ifs
  · exact List.append_nil _
  · exact List.append_nil _

theorem strncpy_key :
    strncpy old key key.length = bytes (stringPart key) key.length ++ old.drop key.length := by
  unfold strncpy stringPart
  rw [List.take_length]

theorem bytes_setupKey : bytes (setupKey old key) key.length = bytes (stringPart key) key.length := by
  have hlen := length_bytes (stringPart key) key.length
  have htake : ∀ l : List UInt8, l.take key.length = bytes (stringPart key) key.length →
      bytes l key.length = bytes (stringPart key) key.length := by
    intro l hl
    have hle : key.length ≤ l.length := by
      have := congrArg List.length hl
      rw [List.length_take, hlen] at this
      omega
    conv_lhs => unfold bytes
    rw [hl, Nat.sub_eq_zero_of_le hle, List.replicate_zero, List.append_nil]
  apply htake
  unfold setupKey
  dsimp only
  rw [strncpy_key]
  split_ifs
  · rw [List.take_set_of_le le_rfl, List.take_left' hlen]
  · exact List.take_left' hlen

theorem stringPart_padded : stringPart (bytes (stringPart key) key.length ++ rest) =
    stringPart key ++ if 0 ∈ key then [] else stringPart rest := by
  rw [bytes_stringPart, List.append_assoc, stringPart_append stringPart_ne_zero, stringPart_zeros]
  by_cases hzero : 0 ∈ key
  · have := length_stringPart_lt hzero
    rw [if_pos hzero, if_neg (by omega)]
  · rw [if_neg hzero, stringPart_eq_self hzero, Nat.sub_self, if_pos rfl]

theorem setupKey_eq (h : key.length ≤ keyLen) : ∃ rest, stringPart (rest.take (keyLen - key.length)) = [] ∧
    setupKey old key = bytes (stringPart key) key.length ++ rest := by
  have hlen := length_bytes (stringPart key) key.length
  unfold setupKey
  dsimp only
  rw [strncpy_key]
  split_ifs with hroom
  · refine ⟨(old.drop key.length).set 0 0, ?_, ?_⟩
    · obtain ⟨m, hm⟩ := Nat.exists_eq_succ_of_ne_zero (show keyLen - key.length ≠ 0 by omega)
      cases old.drop key.length with
      | nil => rw [List.set_nil, List.take_nil]; rfl
      | cons b l =>
        rw [List.set_cons_zero, hm, List.take_succ_cons]
        exact List.takeWhile_cons_of_neg (by simp)
    · rw [List.set_append_right _ _ hlen.le, hlen, Nat.sub_self]
  · refine ⟨old.drop key.length, ?_, rfl⟩
    rw [Nat.sub_eq_zero_of_le (by omega), List.take_zero]
    rfl

theorem cstr_padded (h : key.length ≤ keyLen) :
    cstr (bytes (stringPart key) key.length ++ rest) =
      stringPart key ++ if 0 ∈ key then [] else stringPart (rest.take (keyLen - key.length)) := by
  have hlen := length_bytes (stringPart key) key.length
  unfold cstr
  rw [List.take_append, hlen, List.take_of_length_le (by omega), stringPart_padded]

/-- The C string in the buffer of a request is the string of its key. -/
theorem cstr_setupKey (h : key.length ≤ keyLen) : cstr (setupKey old key) = stringPart key := by
  obtain ⟨rest, hrest, heq⟩ : ∃ rest, stringPart (rest.take (keyLen - key.length)) = [] ∧
      setupKey old key = bytes (stringPart key) key.length ++ rest := setupKey_eq h
  rw [heq, cstr_padded h, hrest]
  split_ifs
  · exact List.append_nil _
  · exact List.append_nil _

end

/-! ### A slot after a history -/

/-- The slot after a history, in a block that was filled with zeros. -/
def slotAfter (hist : List SlotOp) : ColEntry := hist.foldl applySlot ⟨[], 0, .invalid⟩

/-- What an earlier key leaves behind a key that is assigned. -/
def leftBehind (whole : Bool) (slotKey key : List UInt8) : List UInt8 :=
  if whole ∨ 0 ∈ key then [] else stringPart ((slotKey.drop key.length).take (keyLen - key.length))

/-- The last key of a history, removed or not. -/
def lastAssign (whole : Bool) (req : Req) (colIndex : ℕ) (dc : Bool) (removes : ℕ) : List SlotOp :=
  .assign whole req colIndex dc :: List.replicate removes .remove

section

variable {hist : List SlotOp} {whole dc : Bool} {opc opc' : Opc} {colIndex removes : ℕ}
  {old old' key key' value value' blkKey : List UInt8}

theorem removes_key (e : ColEntry) (n : ℕ) : ((List.replicate n .remove).foldl applySlot e).key = e.key := by
  induction n generalizing e with
  | zero => rfl
  | succ n ih =>
    rw [List.replicate_succ, List.foldl_cons]
    exact ih _

theorem slotAfter_lastAssign (req : Req) :
    (slotAfter (hist ++ lastAssign whole req colIndex dc removes)).key =
      if whole then req.key else memcpy (slotAfter hist).key req.key req.length := by
  unfold slotAfter lastAssign
  rw [List.foldl_append, List.foldl_cons, removes_key]
  rfl

/-- The C string in a slot is the string of the key it was assigned last, and what is left behind it. -/
theorem cstr_assigned (h : key.length ≤ keyLen) :
    cstr (slotAfter (hist ++ lastAssign whole (keyReq opc old key value) colIndex dc removes)).key =
      stringPart key ++ leftBehind whole (slotAfter hist).key key := by
  rw [slotAfter_lastAssign]
  unfold leftBehind
  cases whole with
  | true =>
    rw [if_pos rfl, if_pos (Or.inl rfl), List.append_nil]
    exact cstr_setupKey h
  | false =>
    rw [if_neg Bool.false_ne_true]
    unfold memcpy
    show cstr (bytes (setupKey old key) key.length ++ _) = _
    rw [bytes_setupKey, cstr_padded h]
    simp only [Bool.false_eq_true, false_or]
    rfl

theorem iskeysame_blkKey :
    iskeysame (memcpy blkKey (setupKey old key) key.length) key.length (setupKey old' key') key'.length =
      true ↔ key.length = key'.length ∧ stringPart key = stringPart key' := by
  unfold iskeysame
  rw [decide_eq_true_eq]
  refine and_congr_right fun hlen => ?_
  rw [← hlen, bytes_memcpy, bytes_setupKey, hlen, bytes_setupKey, ← hlen]
  constructor
  · intro h
    have := congrArg stringPart h
    rwa [stringPart_bytes, hlen, stringPart_bytes] at this
  · exact fun h => by rw [h]

end

/-! ### Identity -/

/-- The comparisons with the request for `key'` identify `key`: in a slot whose last key, by `req`, was
`key`, and in a meta block that holds `key`. -/
def Identifies (slot : ColEntry) (blkKey : List UInt8) (req req' : Req) (key key' : List UInt8) : Prop :=
  (isEntryMatch slot req'.key = true ↔ key' = key) ∧
    (iskeysame (memcpy blkKey req.key req.length) req.length req'.key req'.length = true ↔ key' = key)

/-- When they do, with `tail` left behind in the slot: nothing is left behind the key itself, and for
another key the string in the slot and the padded key are not its own. -/
def KeyFits (tail key key' : List UInt8) : Prop :=
  (key' = key → tail = []) ∧
    (key' ≠ key → stringPart key' ≠ stringPart key ++ tail ∧
      (key'.length = key.length → stringPart key' ≠ stringPart key))

instance (tail key key' : List UInt8) : Decidable (KeyFits tail key key') := by
  unfold KeyFits
  infer_instance

theorem keyFits_iff {tail key key' : List UInt8} : KeyFits tail key key' ↔
    (stringPart key ++ tail = stringPart key' ↔ key' = key) ∧
      (key.length = key'.length ∧ stringPart key = stringPart key' ↔ key' = key) := by
  unfold KeyFits
  by_cases hkey : key' = key
  · subst hkey
    simp
  · constructor
    · rintro ⟨-, h⟩
      obtain ⟨hslot, hblk⟩ := h hkey
      exact ⟨iff_of_false (fun heq => hslot heq.symm) hkey,
        iff_of_false (fun ⟨hlen, heq⟩ => hblk hlen.symm heq.symm) hkey⟩
    · rintro ⟨hslot, hblk⟩
      exact ⟨fun heq => absurd heq hkey, fun _ => ⟨fun heq => hkey (hslot.1 heq.symm),
        fun hlen heq => hkey (hblk.1 ⟨hlen.symm, heq.symm⟩)⟩⟩

section

variable {hist : List SlotOp} {whole dc : Bool} {opc opc' : Opc} {colIndex removes : ℕ}
  {old old' key key' value value' blkKey : List UInt8}

/-- After any history, the keys are identified exactly when nothing tells them apart from what the slot
and the padded buffers hold. -/
theorem identifies_iff (h : key.length ≤ keyLen) (h' : key'.length ≤ keyLen) :
    Identifies
        (slotAfter (hist ++ lastAssign whole (keyReq opc old key value) colIndex dc removes)) blkKey
        (keyReq opc old key value) (keyReq opc' old' key' value') key key' ↔
      KeyFits (leftBehind whole (slotAfter hist).key key) key key' := by
  rw [keyFits_iff]
  unfold Identifies
  rw [isEntryMatch_iff, cstr_assigned h]
  have hreq : cstr (keyReq opc' old' key' value').key = stringPart key' := cstr_setupKey h'
  rw [hreq]
  exact and_congr_right fun _ => iff_congr iskeysame_blkKey Iff.rfl

/-- The slot of `abc`, used again for `wxyz`. -/
def reusedSlot : ColEntry :=
  slotAfter ([.assign false (keyReq .store [] [97, 98, 99] []) 5 false, .remove] ++
    lastAssign false (keyReq .store [] [119, 120, 121, 122] []) 5 false 0)

/-- It is found for `wxyz`, and not for `wx` or `abc`. -/
theorem identifies_reusedSlot :
    Identifies reusedSlot [] (keyReq .store [] [119, 120, 121, 122] [])
        (keyReq .retrieve [] [119, 120, 121, 122] []) [119, 120, 121, 122] [119, 120, 121, 122] ∧
      Identifies reusedSlot [] (keyReq .store [] [119, 120, 121, 122] [])
        (keyReq .retrieve [] [119, 120] []) [119, 120, 121, 122] [119, 120] ∧
      Identifies reusedSlot [] (keyReq .store [] [119, 120, 121, 122] [])
        (keyReq .retrieve [] [97, 98, 99] []) [119, 120, 121, 122] [97, 98, 99] := by
  refine ⟨?_, ?_, ?_⟩
  · exact (identifies_iff (by decide) (by decide)).2 (by decide +kernel)
  · exact (identifies_iff (by decide) (by decide)).2 (by decide +kernel)
  · exact (identifies_iff (by decide) (by decide)).2 (by decide +kernel)

/-- `abc` and then `x` in one slot, which then holds `xbc`; and a slot that holds `a`, looked up for `a`
followed by a zero byte. -/
theorem not_identifies_shorter :
    ¬ Identifies
        (slotAfter ([.assign false (keyReq .store [] [97, 98, 99] []) 5 false, .remove] ++
          lastAssign false (keyReq .store [] [120] []) 5 false 0)) []
        (keyReq .store [] [120] []) (keyReq .retrieve [] [120] []) [120] [120] ∧
      ¬ Identifies
        (slotAfter ([] ++ lastAssign true (keyReq .store [] [97] []) 5 false 0)) []
        (keyReq .store [] [97] []) (keyReq .retrieve [] [97, 0] []) [97] [97, 0] := by
  constructor
  · rintro ⟨hslot, -⟩
    exact absurd (hslot.2 rfl) (by decide)
  · rintro ⟨hslot, -⟩
    exact absurd (hslot.1 (by decide)) (by decide)

end

end DssSdk.Kvtrans
