import DssSdk.Lib.IntFields
import DssSdk.Wal.Zone

/-!
# The records of the log in bytes

`[hdr|key|val|chksum]`, as `wal_cache_insert_object` writes it, and the two functions that read it back:
`log_object_parse` at the recovery, and `wal_log_read_object`.

* `ObjHdr`, `ObjChecksum`: `wal_obj_hdr_t` and `wal_obj_checksum_t`, with their places in memory;
* `prepareObjectRecord`, `writeRecord`: the record of an object;
* `logVerifyObjectHdr`, `logObjectParse`, `logReadObject`: the readers;
* `roundTrip_iff`, `readersAgree_iff`: when a record is read back, and when the readers agree;
* `readersAgree_writeRecord`: the same on the record of an object.

The functions of `Wal.Map` hold a record in one cell; here it is in bytes, with the signed fields of the
header. The bytes of its padding are left as they are. Reads of the device succeed, but for a negative
number of bytes.
-/

namespace DssSdk.Wal.RecordCodec

open ByteMemory

/-! ### The header and the checksum -/

/-- A conversion to `int16_t`. -/
def int16 (x : ℤ) : ℤ := x.bmod (256 ^ 2)

/-- A conversion to `int32_t`. -/
def int32 (x : ℤ) : ℤ := x.bmod (256 ^ 4)

/-- `wal_obj_hdr_t`. -/
structure ObjHdr where
  szBlk : ℤ
  keySz : ℤ
  valSz : ℤ
  state : ℤ
  addr : ℤ
  deriving DecidableEq, Repr

/-- `wal_obj_checksum_t`. -/
structure ObjChecksum where
  chksum : ℤ
  paddingSz : ℤ
  deriving DecidableEq, Repr

/-- A header in memory; four bytes before the address are padding. -/
def getObjHdr (m : Memory) (a : ℕ) : ObjHdr :=
  ⟨getInt m a 2, getInt m (a + 2) 2, getInt m (a + 4) 4, getInt m (a + 8) 4, getInt m (a + 16) 8⟩

def putObjHdr (m : Memory) (a : ℕ) (oh : ObjHdr) : Memory :=
  putInt (putInt (putInt (putInt (putInt m a 2 oh.szBlk) (a + 2) 2 oh.keySz) (a + 4) 4 oh.valSz)
    (a + 8) 4 oh.state) (a + 16) 8 oh.addr

def getChksum (m : Memory) (a : ℕ) : ℤ := getInt m a 4

def putObjChecksum (m : Memory) (a : ℕ) (ch : ObjChecksum) : Memory :=
  putInt (putInt m a 4 ch.chksum) (a + 4) 4 ch.paddingSz

/-- `WAL_ITEM_VALID`. -/
def walItemValid : ℤ := 0

/-- `WAL_ITEM_INVALID`. -/
def walItemInvalid : ℤ := 1

/-- `WAL_ITEM_DELETED`. -/
def walItemDeleted : ℤ := 4

/-! ### The writer -/

/-- `wal_prepare_object_record`. -/
def prepareObjectRecord (obj : Object) (seq : ℤ) (isDel : Bool) : ObjHdr × ObjChecksum :=
  let keySz := int16 obj.key.length
  let valSz := if isDel then 0 else int32 obj.val.length
  let state := if isDel then walItemDeleted else walItemValid
  let recordSz := int32 (objHdrSz + objChksumSz + keySz + valSz)
  let szBlk := int16 ((recordSz + walAlign - 1) / walAlign)
  (⟨szBlk, keySz, valSz, state, objHdrSz⟩, ⟨seq, int32 (szBlk * walAlign - recordSz)⟩)

/-- The record that `wal_cache_insert_object` writes at `pos` when there is a log. -/
def writeRecord (m : Memory) (pos : ℕ) (obj : Object) (seq : ℤ) (isDel : Bool) : Memory :=
  let (oh, ch) := prepareObjectRecord obj seq isDel
  let m := putObjHdr m pos oh
  let pos := pos + objHdrSz
  let m := putBytes m pos obj.key
  let pos := pos + obj.key.length
  let (m, pos) :=
    if oh.valSz ≠ 0 then (putBytes m pos obj.val, pos + obj.val.length) else (m, pos)
  putObjChecksum m pos ch

/-! ### The readers -/

/-- `WAL_ERROR_*` of the readers. -/
inductive RecordError
  | badChksum
  | rdLess
  | badAddr
  | recordSz
  deriving DecidableEq, Repr

/-- What is read: key and value of the object, and the size that is returned. -/
structure Parsed where
  key : Bytes
  val : Bytes
  size : ℤ
  deriving DecidableEq, Repr

/-- `log_verify_object_hdr`. -/
def logVerifyObjectHdr (oh : ObjHdr) : Bool :=
  decide (oh.addr = objHdrSz) &&
    decide (oh.szBlk = int32 (objHdrSz + objChksumSz + oh.keySz + oh.valSz + walAlign - 1) / walAlign)

/-- `log_object_parse`, with `size` bytes at `data`. The lengths of key and value are unsigned. -/
def logObjectParse (m : Memory) (data : ℕ) (size sequence : ℤ) : Except RecordError Parsed :=
  let oh := getObjHdr m data
  if !logVerifyObjectHdr oh then .error .badChksum
  else
    let recordSz := oh.szBlk * walAlign
    if size < recordSz then .error .rdLess
    else if getChksum m (data + objHdrSz + oh.keySz + oh.valSz).toNat ≠ sequence then .error .badChksum
    else
      let valLen := if oh.state = walItemInvalid then 0 else (oh.valSz % 2 ^ 32).toNat
      .ok ⟨getBytes m (data + objHdrSz) (oh.keySz % 2 ^ 16).toNat,
        getBytes m (data + objHdrSz + oh.keySz).toNat valLen, recordSz⟩

/-- `log_recover_data_read_comp`: a record without a value is a deletion. -/
def recoverIsDel (p : Parsed) : Bool := p.val.length = 0

/-- `buffer_read` of `nbytes`, and what it returns: a negative number of them is none that the device has,
with `-WAL_ERROR_BDEV`. -/
def bufferRead (m : Memory) (addr nbytes : ℤ) : ℤ × Bytes :=
  if 0 ≤ nbytes then (nbytes, getBytes m addr.toNat nbytes.toNat) else (-0x1006, [])

/-- The read of the value, which is made only for `is_data_read`. -/
def dataRead (m : Memory) (addr valSz : ℤ) (isDataRead : Bool) : ℤ × Bytes :=
  if isDataRead then bufferRead m addr valSz else (valSz, [])

/-- `wal_log_read_object`, in a buffer that ends at `endAddr`. -/
def logReadObject (m : Memory) (srcAddr : ℕ) (endAddr sequence : ℤ) (isDataRead : Bool) :
    Except RecordError Parsed :=
  let oh := getObjHdr m srcAddr
  let addr : ℤ := srcAddr + objHdrSz
  let addr2 := addr + oh.keySz + oh.valSz
  if endAddr ≤ addr2 then .error .badAddr
  else if getChksum m addr2.toNat ≠ sequence then .error .badChksum
  else
    let key := bufferRead m addr oh.keySz
    if key.1 < oh.keySz then .error .rdLess
    else
      let addr := addr + key.1
      let val := dataRead m addr oh.valSz isDataRead
      if val.1 < oh.valSz then .error .rdLess
      else
        let rc := int32 (addr + oh.valSz - srcAddr)
        -- the sum without the checksum
        if (rc + walAlign - 1).tdiv walAlign ≠ oh.szBlk then .error .recordSz
        else .ok ⟨key.2, val.2, oh.szBlk * walAlign⟩

/-! ### Conversions -/

section

variable {x y : ℤ}

theorem int32_bounds : -2 ^ 31 ≤ int32 x ∧ int32 x < 2 ^ 31 :=
  ⟨Int.le_bmod (by decide), Int.bmod_lt (by decide)⟩

theorem int16_of_lt (h : -2 ^ 15 ≤ x) (h' : x < 2 ^ 15) : int16 x = x :=
  Int.bmod_eq_of_le h h'

theorem int32_of_lt (h : -2 ^ 31 ≤ x) (h' : x < 2 ^ 31) : int32 x = x :=
  Int.bmod_eq_of_le h h'

@[simp] theorem int16_int16 : int16 (int16 x) = int16 x := Int.bmod_bmod

@[simp] theorem int32_int32 : int32 (int32 x) = int32 x := Int.bmod_bmod

/-- A sum of sizes that is too large for an `int32_t` is negative. -/
theorem int32_of_ge (h : 2 ^ 31 ≤ x) (h' : x < 2 ^ 31 + 2 ^ 17) : int32 x = x - 2 ^ 32 := by
  have hwrap : int32 (x - 2 ^ 32) = int32 x := by
    unfold int32
    exact Int.sub_mul_bmod_self_right x 1 (256 ^ 4)
  rw [← hwrap]
  exact int32_of_lt (by omega) (by omega)

/-- The blocks of `log_verify_object_hdr`: the sum does not fit exactly where no field holds its blocks. -/
theorem blocks_of_verify (hx : 0 ≤ x) (hx' : x < 2 ^ 31 + 2 ^ 17) (hy : -2 ^ 15 ≤ y) (hy' : y < 2 ^ 15) :
    y = int32 x / walAlign ↔ y = x / walAlign := by
  unfold walAlign
  by_cases h : x < 2 ^ 31
  · rw [int32_of_lt (by omega) h]
  · rw [int32_of_ge (by omega) hx']
    omega

/-- The blocks of `wal_log_read_object`. -/
theorem blocks_of_read (hx : 0 ≤ x) (hx' : x < 2 ^ 31 + 2 ^ 17) (hy : -2 ^ 15 ≤ y) (hy' : y < 2 ^ 15) :
    (int32 x + walAlign - 1).tdiv walAlign = y ↔ y = (x + walAlign - 1) / walAlign := by
  unfold walAlign
  by_cases h : x < 2 ^ 31
  · rw [int32_of_lt (by omega) h, Int.tdiv_eq_ediv_of_nonneg (by omega)]
    exact eq_comm
  · have hneg : (x - 2 ^ 32 + (1024 : ℕ) - 1).tdiv (1024 : ℕ) = -((2 ^ 32 - x - 1023) / 1024) := by
      rw [show x - 2 ^ 32 + (1024 : ℕ) - 1 = -(2 ^ 32 - x - 1023) by omega, Int.neg_tdiv,
        Int.tdiv_eq_ediv_of_nonneg (by omega)]
      rfl
    rw [int32_of_ge (by omega) hx', hneg]
    omega

end

/-! ### The fields in memory -/

section

variable {m : Memory} {a b w : ℕ} {bs : List UInt8} {oh : ObjHdr} {ch : ObjChecksum}

theorem getObjHdr_putObjHdr : getObjHdr (putObjHdr m a oh) a =
    ⟨int16 oh.szBlk, int16 oh.keySz, int32 oh.valSz, int32 oh.state, oh.addr.bmod (256 ^ 8)⟩ := by
  unfold getObjHdr putObjHdr
  rw [ObjHdr.mk.injEq]
  refine ⟨?_, ?_, ?_, ?_, ?_⟩
  · rw [getInt_putInt_of_disjoint (by omega), getInt_putInt_of_disjoint (by omega),
      getInt_putInt_of_disjoint (by omega), getInt_putInt_of_disjoint (by omega), getInt_putInt]
    rfl
  · rw [getInt_putInt_of_disjoint (by omega), getInt_putInt_of_disjoint (by omega),
      getInt_putInt_of_disjoint (by omega), getInt_putInt]
    rfl
  · rw [getInt_putInt_of_disjoint (by omega), getInt_putInt_of_disjoint (by omega), getInt_putInt]
    rfl
  · rw [getInt_putInt_of_disjoint (by omega), getInt_putInt]
    rfl
  · rw [getInt_putInt]

theorem getObjHdr_putBytes (h : a + objHdrSz ≤ b) : getObjHdr (putBytes m b bs) a = getObjHdr m a := by
  unfold objHdrSz at h
  unfold getObjHdr
  rw [ObjHdr.mk.injEq]
  refine ⟨?_, ?_, ?_, ?_, ?_⟩
  all_goals exact getInt_putBytes_of_disjoint (by omega)

theorem getObjHdr_putObjChecksum (h : a + objHdrSz ≤ b) :
    getObjHdr (putObjChecksum m b ch) a = getObjHdr m a := by
  unfold putObjChecksum putInt
  rw [getObjHdr_putBytes (by omega), getObjHdr_putBytes h]

theorem getChksum_putObjChecksum : getChksum (putObjChecksum m b ch) b = int32 ch.chksum := by
  unfold getChksum putObjChecksum
  rw [getInt_putInt_of_disjoint (by omega), getInt_putInt]
  rfl

theorem getBytes_putObjChecksum (h : a + w ≤ b) :
    getBytes (putObjChecksum m b ch) a w = getBytes m a w := by
  unfold putObjChecksum
  rw [getBytes_putInt_of_disjoint (by omega), getBytes_putInt_of_disjoint (by omega)]

theorem getObjHdr_bounds (m : Memory) (a : ℕ) :
    -2 ^ 15 ≤ (getObjHdr m a).szBlk ∧ (getObjHdr m a).szBlk < 2 ^ 15 ∧
      (getObjHdr m a).keySz < 2 ^ 15 ∧ (getObjHdr m a).valSz < 2 ^ 31 := by
  have hblk := getInt_bounds m a 2
  have hkey := getInt_bounds m (a + 2) 2
  have hval := getInt_bounds m (a + 4) 4
  unfold getObjHdr
  norm_num at hblk hkey hval ⊢
  exact ⟨hblk.1, hblk.2, hkey.2, hval.2⟩

end

/-! ### The record of an object -/

section

variable {m : Memory} {pos : ℕ} {obj : Object} {seq : ℤ} {isDel : Bool}

theorem getObjHdr_writeRecord :
    getObjHdr (writeRecord m pos obj seq isDel) pos = (prepareObjectRecord obj seq isDel).1 := by
  have hput : getObjHdr (putObjHdr m pos (prepareObjectRecord obj seq isDel).1) pos =
      (prepareObjectRecord obj seq isDel).1 := by
    rw [getObjHdr_putObjHdr]
    unfold prepareObjectRecord
    dsimp only
    rw [int16_int16, int16_int16]
    cases isDel
    · rw [if_neg Bool.false_ne_true, if_neg Bool.false_ne_true, int32_int32]
      rfl
    · rw [if_pos rfl, if_pos rfl]
      rfl
  unfold writeRecord
  dsimp only
  split_ifs
  · rw [getObjHdr_putObjChecksum (by omega), getObjHdr_putBytes (by omega), getObjHdr_putBytes le_rfl, hput]
  · rw [getObjHdr_putObjChecksum (by omega), getObjHdr_putBytes le_rfl, hput]

theorem length_recordVal : (Wal.prepareObjectRecord obj isDel).val.length =
    if isDel then 0 else obj.val.length := by
  unfold Wal.prepareObjectRecord
  cases isDel
  · rfl
  · rfl

theorem objectDumpBlk_eq : objectDumpBlk obj isDel =
    (32 + obj.key.length + (Wal.prepareObjectRecord obj isDel).val.length + 1023) / 1024 := by
  rw [length_recordVal]
  unfold objectDumpBlk blocks walAlign objHdrSz objChksumSz
  congr 1
  omega

theorem prepareObjectRecord_fits (hkey : obj.key.length < 2 ^ 15) (hblk : objectDumpBlk obj isDel < 2 ^ 15) :
    (prepareObjectRecord obj seq isDel).1 = ⟨objectDumpBlk obj isDel, obj.key.length,
      (Wal.prepareObjectRecord obj isDel).val.length,
      if isDel then walItemDeleted else walItemValid, objHdrSz⟩ := by
  rw [objectDumpBlk_eq] at hblk ⊢
  have hval : (if isDel then 0 else int32 obj.val.length) =
      ((Wal.prepareObjectRecord obj isDel).val.length : ℤ) := by
    rw [length_recordVal] at hblk ⊢
    split_ifs at hblk ⊢
    · rfl
    · exact int32_of_lt (by omega) (by omega)
  have hkeySz : int16 obj.key.length = obj.key.length := int16_of_lt (by omega) (by omega)
  generalize (Wal.prepareObjectRecord obj isDel).val.length = v at *
  have hsz : int32 (objHdrSz + objChksumSz + obj.key.length + v) = 32 + obj.key.length + v :=
    int32_of_lt (by unfold objHdrSz objChksumSz; omega) (by unfold objHdrSz objChksumSz; omega)
  have hblocks : (32 + obj.key.length + v + walAlign - 1 : ℤ) / walAlign =
      ((32 + obj.key.length + v + 1023) / 1024 : ℕ) := by
    unfold walAlign
    omega
  unfold prepareObjectRecord
  dsimp only
  rw [hval, hkeySz, hsz, hblocks, int16_of_lt (by omega) (by omega)]

theorem hdr_writeRecord (m : Memory) (pos : ℕ) (seq : ℤ) (hkey : obj.key.length < 2 ^ 15)
    (hblk : objectDumpBlk obj isDel < 2 ^ 15) :
    (getObjHdr (writeRecord m pos obj seq isDel) pos).keySz = obj.key.length ∧
      (getObjHdr (writeRecord m pos obj seq isDel) pos).valSz =
        (Wal.prepareObjectRecord obj isDel).val.length ∧
      (getObjHdr (writeRecord m pos obj seq isDel) pos).szBlk = objectDumpBlk obj isDel ∧
      (getObjHdr (writeRecord m pos obj seq isDel) pos).addr = objHdrSz ∧
      (getObjHdr (writeRecord m pos obj seq isDel) pos).state ≠ walItemInvalid := by
  rw [getObjHdr_writeRecord, prepareObjectRecord_fits hkey hblk]
  refine ⟨rfl, rfl, rfl, rfl, ?_⟩
  show (if isDel then walItemDeleted else walItemValid) ≠ walItemInvalid
  cases isDel
  · decide
  · decide

theorem writeRecord_fits (hkey : obj.key.length < 2 ^ 15) (hblk : objectDumpBlk obj isDel < 2 ^ 15) :
    writeRecord m pos obj seq isDel =
      putObjChecksum (putBytes (putBytes (putObjHdr m pos (prepareObjectRecord obj seq isDel).1)
        (pos + objHdrSz) obj.key) (pos + objHdrSz + obj.key.length) (Wal.prepareObjectRecord obj isDel).val)
        (pos + objHdrSz + obj.key.length + (Wal.prepareObjectRecord obj isDel).val.length)
        (prepareObjectRecord obj seq isDel).2 := by
  have hval : (prepareObjectRecord obj seq isDel).1.valSz =
      ((Wal.prepareObjectRecord obj isDel).val.length : ℤ) := by
    rw [prepareObjectRecord_fits hkey hblk]
  unfold writeRecord
  dsimp only
  rw [hval]
  split_ifs with hzero
  · have hval' : (Wal.prepareObjectRecord obj isDel).val = obj.val := by
      unfold Wal.prepareObjectRecord at hzero ⊢
      cases isDel
      · rfl
      · exact absurd rfl hzero
    rw [hval']
  · have hnil : (Wal.prepareObjectRecord obj isDel).val = [] :=
      List.length_eq_zero_iff.1 (by omega)
    rw [hnil, putBytes_nil]
    rfl

theorem writeRecord_parts (hkey : obj.key.length < 2 ^ 15) (hblk : objectDumpBlk obj isDel < 2 ^ 15)
    (hseq : int32 seq = seq) :
    getBytes (writeRecord m pos obj seq isDel) (pos + objHdrSz) obj.key.length = obj.key ∧
      getBytes (writeRecord m pos obj seq isDel) (pos + objHdrSz + obj.key.length)
        (Wal.prepareObjectRecord obj isDel).val.length = (Wal.prepareObjectRecord obj isDel).val ∧
      getChksum (writeRecord m pos obj seq isDel)
        (pos + objHdrSz + obj.key.length + (Wal.prepareObjectRecord obj isDel).val.length) = seq := by
  rw [writeRecord_fits hkey hblk]
  refine ⟨?_, ?_, ?_⟩
  · rw [getBytes_putObjChecksum (by omega), getBytes_putBytes_of_disjoint (by omega),
      getBytes_putBytes_self]
  · rw [getBytes_putObjChecksum (by omega), getBytes_putBytes_self]
  · rw [getChksum_putObjChecksum]
    exact hseq

end

/-! ### What the readers accept -/

section

variable {m : Memory} {a : ℕ} {size endAddr seq : ℤ} {isDataRead : Bool} {p : Parsed}

/-- `[hdr|key|val|chksum]`: the sizes in the header are not negative. -/
def IsRecord (m : Memory) (a : ℕ) : Prop := 0 ≤ (getObjHdr m a).keySz ∧ 0 ≤ (getObjHdr m a).valSz

/-- The place of the checksum. -/
def chksumAddr (m : Memory) (a : ℕ) : ℤ := a + objHdrSz + (getObjHdr m a).keySz + (getObjHdr m a).valSz

/-- The object of `log_object_parse`. -/
def parsedAt (m : Memory) (a : ℕ) : Parsed :=
  ⟨getBytes m (a + objHdrSz) ((getObjHdr m a).keySz % 2 ^ 16).toNat,
    getBytes m (a + objHdrSz + (getObjHdr m a).keySz).toNat
      (if (getObjHdr m a).state = walItemInvalid then 0 else ((getObjHdr m a).valSz % 2 ^ 32).toNat),
    (getObjHdr m a).szBlk * walAlign⟩

/-- The object of `wal_log_read_object`. -/
def readAt (m : Memory) (a : ℕ) (isDataRead : Bool) : Parsed :=
  ⟨getBytes m (a + objHdrSz) (getObjHdr m a).keySz.toNat,
    if isDataRead then
      getBytes m (a + objHdrSz + (getObjHdr m a).keySz).toNat (getObjHdr m a).valSz.toNat
    else [],
    (getObjHdr m a).szBlk * walAlign⟩

theorem chksumAddr_of_sizes {k v : ℕ} (hk : (getObjHdr m a).keySz = k) (hv : (getObjHdr m a).valSz = v) :
    chksumAddr m a = (a + objHdrSz + k + v : ℕ) := by
  unfold chksumAddr
  rw [hk, hv]
  push_cast
  rfl

theorem parsedAt_of_sizes {k v : ℕ} (hk : (getObjHdr m a).keySz = k) (hv : (getObjHdr m a).valSz = v) :
    parsedAt m a = ⟨getBytes m (a + objHdrSz) k,
      getBytes m (a + objHdrSz + k) (if (getObjHdr m a).state = walItemInvalid then 0 else v),
      (getObjHdr m a).szBlk * walAlign⟩ := by
  obtain ⟨-, -, hk', hv'⟩ := getObjHdr_bounds m a
  have haddr : (a + objHdrSz + k : ℤ).toNat = a + objHdrSz + k := by
    rw [← Nat.cast_add, ← Nat.cast_add, Int.toNat_natCast]
  have hklen : ((k : ℤ) % 2 ^ 16).toNat = k := by
    rw [Int.emod_eq_of_lt (by omega) (by omega), Int.toNat_natCast]
  have hvlen : ((v : ℤ) % 2 ^ 32).toNat = v := by
    rw [Int.emod_eq_of_lt (by omega) (by omega), Int.toNat_natCast]
  unfold parsedAt
  rw [hk, hv, haddr, hklen, hvlen]

theorem readAt_of_sizes {k v : ℕ} (hk : (getObjHdr m a).keySz = k) (hv : (getObjHdr m a).valSz = v) :
    readAt m a isDataRead = ⟨getBytes m (a + objHdrSz) k,
      if isDataRead then getBytes m (a + objHdrSz + k) v else [], (getObjHdr m a).szBlk * walAlign⟩ := by
  have haddr : (a + objHdrSz + k : ℤ).toNat = a + objHdrSz + k := by
    rw [← Nat.cast_add, ← Nat.cast_add, Int.toNat_natCast]
  unfold readAt
  rw [hk, hv, haddr, Int.toNat_natCast, Int.toNat_natCast]

/-- The tests of `log_object_parse`. -/
theorem logObjectParse_eq : logObjectParse m a size seq =
    if logVerifyObjectHdr (getObjHdr m a) = true then
      if size < (getObjHdr m a).szBlk * walAlign then .error .rdLess
      else if getChksum m (chksumAddr m a).toNat ≠ seq then .error .badChksum
      else .ok (parsedAt m a)
    else .error .badChksum := by
  unfold logObjectParse chksumAddr parsedAt
  dsimp only
  by_cases hverify : logVerifyObjectHdr (getObjHdr m a) = true
  · rw [hverify, Bool.not_true, if_neg Bool.false_ne_true, if_pos rfl]
  · rw [Bool.not_eq_true] at hverify
    rw [hverify, Bool.not_false, if_pos rfl, if_neg Bool.false_ne_true]

theorem logObjectParse_ok_iff : logObjectParse m a size seq = .ok p ↔
    logVerifyObjectHdr (getObjHdr m a) = true ∧ (getObjHdr m a).szBlk * walAlign ≤ size ∧
      getChksum m (chksumAddr m a).toNat = seq ∧ p = parsedAt m a := by
  rw [logObjectParse_eq]
  split_ifs with hverify hsize hchk
  · exact iff_of_false (by simp) fun h => absurd h.2.1 (not_le.2 hsize)
  · exact iff_of_false (by simp) fun h => hchk h.2.2.1
  · rw [Except.ok.injEq]
    exact ⟨fun h => ⟨hverify, not_lt.1 hsize, not_ne_iff.1 hchk, h.symm⟩, fun h => h.2.2.2.symm⟩
  · exact iff_of_false (by simp) fun h => hverify h.1

theorem logObjectParse_rdLess_iff : logObjectParse m a size seq = .error .rdLess ↔
    logVerifyObjectHdr (getObjHdr m a) = true ∧ size < (getObjHdr m a).szBlk * walAlign := by
  rw [logObjectParse_eq]
  split_ifs with hverify hsize hchk
  · exact iff_of_true rfl ⟨hverify, hsize⟩
  · exact iff_of_false (by simp) fun h => hsize h.2
  · exact iff_of_false (by simp) fun h => hsize h.2
  · exact iff_of_false (by simp) fun h => hverify h.1

theorem logVerifyObjectHdr_iff (hrec : IsRecord m a) : logVerifyObjectHdr (getObjHdr m a) = true ↔
    (getObjHdr m a).addr = objHdrSz ∧ (getObjHdr m a).szBlk =
      (32 + (getObjHdr m a).keySz + (getObjHdr m a).valSz + 1023) / 1024 := by
  obtain ⟨hkey, hval⟩ := hrec
  obtain ⟨hblk, hblk', hkey', hval'⟩ := getObjHdr_bounds m a
  unfold logVerifyObjectHdr
  rw [Bool.and_eq_true, decide_eq_true_eq, decide_eq_true_eq]
  refine and_congr_right fun _ => ?_
  have hsum : (objHdrSz + objChksumSz + (getObjHdr m a).keySz + (getObjHdr m a).valSz + walAlign - 1 : ℤ) =
      32 + (getObjHdr m a).keySz + (getObjHdr m a).valSz + 1023 := by
    unfold objHdrSz objChksumSz walAlign
    omega
  rw [hsum, blocks_of_verify (by omega) (by omega) hblk hblk']
  rfl

theorem ite_ne_eq {α : Type} {p q : Prop} [Decidable p] [Decidable q] (h : p ↔ q) (x y : α) :
    (if ¬ p then x else y) = if q then y else x := by
  by_cases hq : q
  · rw [if_neg (not_not.2 (h.2 hq)), if_pos hq]
  · rw [if_pos fun hp => hq (h.1 hp), if_neg hq]

/-- The tests of `wal_log_read_object`: the blocks are those without the checksum. -/
theorem logReadObject_eq (hrec : IsRecord m a) : logReadObject m a endAddr seq isDataRead =
    if endAddr ≤ chksumAddr m a then .error .badAddr
    else if getChksum m (chksumAddr m a).toNat ≠ seq then .error .badChksum
    else if (getObjHdr m a).szBlk = (24 + (getObjHdr m a).keySz + (getObjHdr m a).valSz + 1023) / 1024 then
      .ok (readAt m a isDataRead)
    else .error .recordSz := by
  obtain ⟨hkey, hval⟩ := hrec
  obtain ⟨hblk, hblk', hkey', hval'⟩ := getObjHdr_bounds m a
  have hkeyRead : bufferRead m (a + objHdrSz : ℤ) (getObjHdr m a).keySz =
      ((getObjHdr m a).keySz, (readAt m a isDataRead).key) := by
    unfold bufferRead readAt
    rw [if_pos hkey, ← Nat.cast_add, Int.toNat_natCast]
  have hvalRead : dataRead m (a + objHdrSz + (getObjHdr m a).keySz) (getObjHdr m a).valSz isDataRead =
      ((getObjHdr m a).valSz, (readAt m a isDataRead).val) := by
    unfold dataRead bufferRead readAt
    dsimp only
    rw [if_pos hval]
    cases isDataRead
    · rw [if_neg Bool.false_ne_true, if_neg Bool.false_ne_true]
    · rw [if_pos rfl, if_pos rfl]
  have hsum : (a + objHdrSz + (getObjHdr m a).keySz + (getObjHdr m a).valSz - a : ℤ) =
      24 + (getObjHdr m a).keySz + (getObjHdr m a).valSz := by
    unfold objHdrSz
    omega
  have hsz : (24 + (getObjHdr m a).keySz + (getObjHdr m a).valSz + walAlign - 1) / walAlign =
      (24 + (getObjHdr m a).keySz + (getObjHdr m a).valSz + 1023) / 1024 := by
    unfold walAlign
    omega
  have hblocks := blocks_of_read (show 0 ≤ 24 + (getObjHdr m a).keySz + (getObjHdr m a).valSz by omega)
    (by omega) hblk hblk'
  rw [hsz] at hblocks
  have hread : (⟨(readAt m a isDataRead).key, (readAt m a isDataRead).val,
      (getObjHdr m a).szBlk * walAlign⟩ : Parsed) = readAt m a isDataRead := by
    unfold readAt
    dsimp only
  unfold logReadObject chksumAddr
  simp only [hkeyRead, hvalRead, hsum, hread, lt_irrefl, if_false]
  simp only [ne_eq, ite_ne_eq hblocks]

end

/-! ### Round trip -/

section

variable {m : Memory} {pos a : ℕ} {obj : Object} {seq endAddr : ℤ} {isDel isDataRead : Bool}

/-- The record of an object, wherever it is written, is read at the recovery as its key, its value and its
operation, in the blocks that the zone counts for it. -/
def RoundTrip (m : Memory) (pos : ℕ) (obj : Object) (seq : ℤ) (isDel : Bool) : Prop :=
  ∀ size : ℤ, objectDumpBlk obj isDel * walAlign ≤ size →
    ∃ p, logObjectParse (writeRecord m pos obj seq isDel) pos size seq = .ok p ∧
      p.key = obj.key ∧ p.val = (Wal.prepareObjectRecord obj isDel).val ∧ recoverIsDel p = isDel ∧
      p.size = objectDumpBlk obj isDel * walAlign

/-- When it is: a deletion or a value that is not empty, whose blocks fit in their field. -/
def RecordFits (obj : Object) (isDel : Bool) : Prop :=
  (isDel = true ∨ obj.val ≠ []) ∧ objectDumpBlk obj isDel < 2 ^ 15

theorem roundTrip_iff (hkey : obj.key.length < 2 ^ 15) (hseq : int32 seq = seq) :
    RoundTrip m pos obj seq isDel ↔ RecordFits obj isDel := by
  constructor
  · intro h
    obtain ⟨p, hparse, -, hval, hdel, hsize⟩ := h _ le_rfl
    obtain ⟨-, -, -, rfl⟩ := logObjectParse_ok_iff.1 hparse
    constructor
    · unfold recoverIsDel at hdel
      rw [hval, length_recordVal] at hdel
      cases isDel
      · refine Or.inr fun hnil => ?_
        rw [if_neg Bool.false_ne_true, hnil] at hdel
        exact absurd hdel (by decide)
      · exact Or.inl rfl
    · have hblk : (getObjHdr (writeRecord m pos obj seq isDel) pos).szBlk * walAlign =
          objectDumpBlk obj isDel * walAlign := hsize
      have hbound := (getObjHdr_bounds (writeRecord m pos obj seq isDel) pos).2.1
      unfold walAlign at hblk
      omega
  · rintro ⟨hval, hblk⟩ size hsize
    obtain ⟨hkeyAt, hvalAt, hchk⟩ : _ ∧ _ ∧ getChksum (writeRecord m pos obj seq isDel) _ = seq :=
      writeRecord_parts hkey hblk hseq
    obtain ⟨hkeySz, hvalSz, hszBlk, haddr, hstate⟩ := hdr_writeRecord m pos seq hkey hblk
    generalize writeRecord m pos obj seq isDel = m' at *
    have hrec : IsRecord m' pos := by
      unfold IsRecord
      rw [hkeySz, hvalSz]
      exact ⟨Int.natCast_nonneg _, Int.natCast_nonneg _⟩
    have hparsed : parsedAt m' pos = ⟨obj.key, (Wal.prepareObjectRecord obj isDel).val,
        objectDumpBlk obj isDel * walAlign⟩ := by
      rw [parsedAt_of_sizes hkeySz hvalSz, if_neg hstate, hkeyAt, hvalAt, hszBlk]
    refine ⟨parsedAt m' pos, logObjectParse_ok_iff.2 ⟨(logVerifyObjectHdr_iff hrec).2 ⟨?_, ?_⟩, ?_, ?_, rfl⟩, ?_⟩
    · exact haddr
    · rw [hkeySz, hvalSz, hszBlk, objectDumpBlk_eq]
      push_cast
      rfl
    · rw [hszBlk]
      exact hsize
    · rw [chksumAddr_of_sizes hkeySz hvalSz, Int.toNat_natCast]
      exact hchk
    · rw [hparsed]
      refine ⟨rfl, rfl, ?_, rfl⟩
      unfold recoverIsDel
      dsimp only
      rw [length_recordVal]
      cases isDel
      · rw [if_neg Bool.false_ne_true]
        exact decide_eq_false fun hlen => (hval.resolve_left Bool.false_ne_true)
          (List.length_eq_zero_iff.1 hlen)
      · rw [if_pos rfl]
        rfl

end

/-! ### The two readers -/

/-- Both reject, or both accept with the same key, value and size. -/
def Agree (isDataRead : Bool) : Except RecordError Parsed → Except RecordError Parsed → Prop
  | .ok p, .ok q => p.key = q.key ∧ (isDataRead = true → p.val = q.val) ∧ p.size = q.size
  | .error _, .error _ => True
  | _, _ => False

section

variable {m : Memory} {a : ℕ} {endAddr seq : ℤ} {isDataRead : Bool}

/-- The readers agree on what is in memory: on a record, unless it is not there as a whole. -/
def ReadersAgree (m : Memory) (a : ℕ) (endAddr seq : ℤ) (isDataRead : Bool) : Prop :=
  IsRecord m a → ∀ size, logObjectParse m a size seq ≠ .error .rdLess →
    Agree isDataRead (logObjectParse m a size seq) (logReadObject m a endAddr seq isDataRead)

/-- What it takes of a header. Where the checksum begins no new block, a header with the right number of
blocks has the address of the key exactly if the record is in the buffer, and an invalid record has no value.
Where it begins one, neither reader may accept the header. -/
def HdrFits (oh : ObjHdr) (inBuffer : Prop) (isDataRead : Bool) : Prop :=
  if (32 + oh.keySz + oh.valSz + 1023) / 1024 = (24 + oh.keySz + oh.valSz + 1023) / 1024 then
    oh.szBlk = (24 + oh.keySz + oh.valSz + 1023) / 1024 →
      (oh.addr = objHdrSz ↔ inBuffer) ∧
        (oh.addr = objHdrSz → isDataRead = true → oh.state = walItemInvalid → oh.valSz = 0)
  else
    (oh.addr = objHdrSz → oh.szBlk ≠ (32 + oh.keySz + oh.valSz + 1023) / 1024) ∧
      (inBuffer → oh.szBlk ≠ (24 + oh.keySz + oh.valSz + 1023) / 1024)

/-- When the readers agree: the header of a record with the checksum `seq` fits. -/
def ReadersFit (m : Memory) (a : ℕ) (endAddr seq : ℤ) (isDataRead : Bool) : Prop :=
  IsRecord m a → getChksum m (chksumAddr m a).toNat = seq →
    HdrFits (getObjHdr m a) (chksumAddr m a < endAddr) isDataRead

theorem hdrFits_iff {oh : ObjHdr} {inBuffer : Prop} : HdrFits oh inBuffer isDataRead ↔
    (oh.addr = objHdrSz ∧ oh.szBlk = (32 + oh.keySz + oh.valSz + 1023) / 1024 ↔
      inBuffer ∧ oh.szBlk = (24 + oh.keySz + oh.valSz + 1023) / 1024) ∧
    (oh.addr = objHdrSz ∧ oh.szBlk = (32 + oh.keySz + oh.valSz + 1023) / 1024 →
      isDataRead = true → oh.state = walItemInvalid → oh.valSz = 0) := by
  unfold HdrFits
  generalize (32 + oh.keySz + oh.valSz + 1023) / 1024 = withChksum
  generalize (24 + oh.keySz + oh.valSz + 1023) / 1024 = without
  by_cases hblk : withChksum = without
  · subst hblk
    rw [if_pos rfl]
    constructor
    · intro h
      exact ⟨⟨fun ⟨haddr, hsz⟩ => ⟨(h hsz).1.1 haddr, hsz⟩, fun ⟨hin, hsz⟩ => ⟨(h hsz).1.2 hin, hsz⟩⟩,
        fun ⟨haddr, hsz⟩ => (h hsz).2 haddr⟩
    · rintro ⟨htests, hval⟩ hsz
      exact ⟨⟨fun haddr => (htests.1 ⟨haddr, hsz⟩).1, fun hin => (htests.2 ⟨hin, hsz⟩).1⟩,
        fun haddr => hval ⟨haddr, hsz⟩⟩
  · rw [if_neg hblk]
    constructor
    · rintro ⟨hparse, hread⟩
      exact ⟨iff_of_false (fun h => hparse h.1 h.2) fun h => hread h.1 h.2,
        fun h => absurd h.2 (hparse h.1)⟩
    · rintro ⟨htests, -⟩
      exact ⟨fun haddr hsz => hblk (hsz.symm.trans (htests.1 ⟨haddr, hsz⟩).2),
        fun hin hsz => hblk ((htests.2 ⟨hin, hsz⟩).2.symm.trans hsz)⟩

theorem agree_iff {P R : Prop} [Decidable P] [Decidable R] {p q : Parsed} {e e' : RecordError} :
    Agree isDataRead (if P then .ok p else .error e) (if R then .ok q else .error e') ↔
      (P ↔ R) ∧ (P → p.key = q.key ∧ (isDataRead = true → p.val = q.val) ∧ p.size = q.size) := by
  by_cases hP : P
  · by_cases hR : R
    · rw [if_pos hP, if_pos hR]
      exact ⟨fun h => ⟨iff_of_true hP hR, fun _ => h⟩, fun h => h.2 hP⟩
    · rw [if_pos hP, if_neg hR]
      exact iff_of_false id fun h => hR (h.1.1 hP)
  · by_cases hR : R
    · rw [if_neg hP, if_pos hR]
      exact iff_of_false id fun h => hP (h.1.2 hR)
    · rw [if_neg hP, if_neg hR]
      exact iff_of_true trivial ⟨iff_of_false hP hR, fun h => absurd h hP⟩

theorem parsedAt_readAt (hrec : IsRecord m a) :
    (parsedAt m a).key = (readAt m a isDataRead).key ∧
      (isDataRead = true → (parsedAt m a).val = (readAt m a isDataRead).val) ∧
      (parsedAt m a).size = (readAt m a isDataRead).size ↔
        (isDataRead = true → (getObjHdr m a).state = walItemInvalid → (getObjHdr m a).valSz = 0) := by
  obtain ⟨k, hk⟩ := Int.eq_ofNat_of_zero_le hrec.1
  obtain ⟨v, hv⟩ := Int.eq_ofNat_of_zero_le hrec.2
  rw [parsedAt_of_sizes hk hv, readAt_of_sizes hk hv, hv]
  dsimp only
  constructor
  · rintro ⟨-, hval, -⟩ hdata hstate
    have hlen := congrArg List.length (hval hdata)
    rw [if_pos hstate, if_pos hdata, length_getBytes, length_getBytes] at hlen
    omega
  · intro h
    refine ⟨rfl, fun hdata => ?_, rfl⟩
    rw [if_pos hdata]
    split_ifs with hstate
    · rw [Int.natCast_eq_zero.1 (h hdata hstate)]
    · rfl

theorem agree_of_chksum (hrec : IsRecord m a) (hchk : getChksum m (chksumAddr m a).toNat = seq) :
    (∀ size, logObjectParse m a size seq ≠ .error .rdLess →
      Agree isDataRead (logObjectParse m a size seq) (logReadObject m a endAddr seq isDataRead)) ↔
    HdrFits (getObjHdr m a) (chksumAddr m a < endAddr) isDataRead := by
  have hread : ∃ e, logReadObject m a endAddr seq isDataRead =
      if chksumAddr m a < endAddr ∧
          (getObjHdr m a).szBlk = (24 + (getObjHdr m a).keySz + (getObjHdr m a).valSz + 1023) / 1024 then
        .ok (readAt m a isDataRead) else .error e := by
    rw [logReadObject_eq hrec, if_neg (not_ne_iff.2 hchk)]
    by_cases hend : endAddr ≤ chksumAddr m a
    · refine ⟨.badAddr, ?_⟩
      rw [if_pos hend, if_neg fun h => absurd h.1 (not_lt.2 hend)]
    · refine ⟨.recordSz, ?_⟩
      rw [if_neg hend]
      simp only [not_le.1 hend, true_and]
  obtain ⟨e, hread⟩ := hread
  have hparse : ∀ size, (getObjHdr m a).szBlk * walAlign ≤ size → logObjectParse m a size seq =
      if (getObjHdr m a).addr = objHdrSz ∧
          (getObjHdr m a).szBlk = (32 + (getObjHdr m a).keySz + (getObjHdr m a).valSz + 1023) / 1024 then
        .ok (parsedAt m a) else .error .badChksum := by
    intro size hsize
    rw [logObjectParse_eq, if_neg (not_lt.2 hsize), if_neg (not_ne_iff.2 hchk)]
    simp only [logVerifyObjectHdr_iff hrec]
  rw [hdrFits_iff, hread]
  constructor
  · intro h
    have hwhole := h ((getObjHdr m a).szBlk * walAlign)
      fun hless => absurd (logObjectParse_rdLess_iff.1 hless).2 (lt_irrefl _)
    rw [hparse _ le_rfl, agree_iff] at hwhole
    exact ⟨hwhole.1, fun htest => (parsedAt_readAt hrec).1 (hwhole.2 htest)⟩
  · rintro ⟨htests, hval⟩ size hwhole
    by_cases hsize : (getObjHdr m a).szBlk * walAlign ≤ size
    · rw [hparse size hsize, agree_iff]
      exact ⟨htests, fun htest => (parsedAt_readAt hrec).2 (hval htest)⟩
    · -- a header that is rejected before its size is looked at
      have hverify : ¬ logVerifyObjectHdr (getObjHdr m a) = true := fun hverify =>
        hwhole (logObjectParse_rdLess_iff.2 ⟨hverify, not_le.1 hsize⟩)
      rw [logObjectParse_eq, if_neg hverify]
      rw [logVerifyObjectHdr_iff hrec] at hverify
      rw [if_neg fun h => hverify (htests.2 h)]
      exact True.intro

theorem readersAgree_iff : ReadersAgree m a endAddr seq isDataRead ↔
    ReadersFit m a endAddr seq isDataRead := by
  unfold ReadersAgree ReadersFit
  refine forall_congr' fun hrec => ?_
  by_cases hchk : getChksum m (chksumAddr m a).toNat = seq
  · rw [agree_of_chksum hrec hchk]
    exact ⟨fun h _ => h, fun h => h hchk⟩
  · constructor
    · intro _ h
      exact (hchk h).elim
    · intro _ size _
      rw [logObjectParse_eq, logReadObject_eq hrec, if_pos hchk, if_pos hchk]
      split_ifs
      · exact True.intro
      · exact True.intro
      · exact True.intro
      · exact True.intro
      · exact True.intro
      · exact True.intro

theorem blocks_cast {k v n : ℕ} :
    (n : ℤ) = (24 + k + v + 1023) / 1024 ↔ (24 + k + v + 1023) / 1024 = n := by omega

/-- A record that was written for an object: the readers agree exactly if its checksum begins no new block and
is in the buffer. -/
theorem readersAgree_writeRecord {pos : ℕ} {obj : Object} {isDel : Bool} (hkey : obj.key.length < 2 ^ 15)
    (hblk : objectDumpBlk obj isDel < 2 ^ 15) (hseq : int32 seq = seq) :
    ReadersAgree (writeRecord m pos obj seq isDel) pos endAddr seq isDataRead ↔
      (24 + obj.key.length + (Wal.prepareObjectRecord obj isDel).val.length + 1023) / 1024 =
          objectDumpBlk obj isDel ∧
        (pos + objHdrSz + obj.key.length + (Wal.prepareObjectRecord obj isDel).val.length : ℕ) < endAddr := by
  obtain ⟨-, -, hchk⟩ : _ ∧ _ ∧ getChksum (writeRecord m pos obj seq isDel) _ = seq :=
    writeRecord_parts hkey hblk hseq
  obtain ⟨hkeySz, hvalSz, hszBlk, haddr, hstate⟩ := hdr_writeRecord m pos seq hkey hblk
  rw [readersAgree_iff]
  generalize writeRecord m pos obj seq isDel = m' at *
  have hrec : IsRecord m' pos := by
    unfold IsRecord
    rw [hkeySz, hvalSz]
    exact ⟨Int.natCast_nonneg _, Int.natCast_nonneg _⟩
  have hplace := chksumAddr_of_sizes hkeySz hvalSz
  have hchk' : getChksum m' (chksumAddr m' pos).toNat = seq := by
    rw [hplace, Int.toNat_natCast]
    exact hchk
  have hblocks : (objectDumpBlk obj isDel : ℤ) =
      (32 + obj.key.length + (Wal.prepareObjectRecord obj isDel).val.length + 1023) / 1024 := by
    rw [objectDumpBlk_eq]
    push_cast
    rfl
  have hfit : ReadersFit m' pos endAddr seq isDataRead ↔
      HdrFits (getObjHdr m' pos) (chksumAddr m' pos < endAddr) isDataRead :=
    ⟨fun h => h hrec hchk', fun h _ _ => h⟩
  rw [hfit, hdrFits_iff, hkeySz, hvalSz, hszBlk, hplace, ← hblocks]
  constructor
  · rintro ⟨htests, -⟩
    obtain ⟨hin, hblk'⟩ := htests.1 ⟨haddr, rfl⟩
    exact ⟨blocks_cast.1 hblk', hin⟩
  · rintro ⟨hblk', hin⟩
    exact ⟨iff_of_true ⟨haddr, rfl⟩ ⟨hin, blocks_cast.2 hblk'⟩, fun _ _ h => absurd h hstate⟩

end

/-! ### The codec -/

section

variable {m m' : Memory} {pos a : ℕ} {obj : Object} {seq seq' endAddr : ℤ} {isDel isDataRead : Bool}

/-- The record of an object is read back, and the readers agree on whatever is in memory, exactly where the
object and the header fit. -/
theorem recordCodec_iff (hkey : obj.key.length < 2 ^ 15) (hseq : int32 seq = seq) :
    RoundTrip m pos obj seq isDel ∧ ReadersAgree m' a endAddr seq' isDataRead ↔
      RecordFits obj isDel ∧ ReadersFit m' a endAddr seq' isDataRead :=
  and_congr (roundTrip_iff hkey hseq) readersAgree_iff

/-- The record of a key and a value of one byte is read back, and the readers agree on it. -/
theorem recordCodec_written :
    RoundTrip (fun _ => 0) 1024 ⟨[97], [98], 0⟩ 7 false ∧
      ReadersAgree (writeRecord (fun _ => 0) 1024 ⟨[97], [98], 0⟩ 7 false) 1024 8192 7 true := by
  have hseq : int32 7 = 7 := int32_of_lt (by decide) (by decide)
  have hkey : ([97] : Bytes).length < 2 ^ 15 := by decide
  have hblk : objectDumpBlk ⟨[97], [98], 0⟩ false = 1 := by
    rw [objectDumpBlk_eq]
    rfl
  have hagree : ReadersAgree (writeRecord (fun _ => 0) 1024 ⟨[97], [98], 0⟩ 7 false) 1024 8192 7
      true := by
    refine (readersAgree_writeRecord hkey (by rw [hblk]; decide) hseq).2 ?_
    rw [hblk]
    decide
  exact (recordCodec_iff hkey hseq).2
    ⟨⟨Or.inr (by decide), by rw [hblk]; decide⟩, readersAgree_iff.1 hagree⟩

/-- The store of an empty value is not read back as one, and the readers do not agree on the record of a key of
one byte with a value of 992 bytes, whose checksum begins a second block. -/
theorem not_recordCodec :
    ¬ RoundTrip (fun _ => 0) 0 ⟨[97], [], 0⟩ 7 false ∧
      ¬ ReadersAgree (writeRecord (fun _ => 0) 0 ⟨[97], List.replicate 992 0, 0⟩ 7 false) 0 4096 7 true := by
  have hseq : int32 7 = 7 := int32_of_lt (by decide) (by decide)
  have hkey : ([97] : Bytes).length < 2 ^ 15 := by decide
  constructor
  · intro h
    obtain ⟨hval, -⟩ := (roundTrip_iff hkey hseq).1 h
    exact hval.elim Bool.false_ne_true fun hnil => hnil rfl
  · have hlen : (Wal.prepareObjectRecord ⟨[97], List.replicate 992 0, 0⟩ false).val.length = 992 :=
      List.length_replicate
    have hblk : objectDumpBlk ⟨[97], List.replicate 992 0, 0⟩ false = 2 := by
      rw [objectDumpBlk_eq, hlen]
      rfl
    intro h
    have hfits := (readersAgree_writeRecord hkey (by rw [hblk]; decide) hseq).1 h
    rw [hlen, hblk] at hfits
    exact absurd hfits.1 (by decide)

end

end DssSdk.Wal.RecordCodec
