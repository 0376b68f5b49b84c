import DssSdk.Wal.RecordCodec

/-!
# The recovery of a log buffer

`log_recover_data_read_comp` reads a log buffer in chunks and parses each of them. A record that
is not in the chunk as a whole is read again at the beginning of the next one.

* `parseChunk`, `recoverLoop`, `logRecoverBuffer`: the loop over a chunk, and over the reads;
* `bufferRecords`: the buffer parsed as a whole;
* `Records`: consecutive records;
* `recovers_iff`: the reads give the records of the buffer exactly when the chunks fit.

The bytes of a chunk are those of the device, which the parser sees at their own addresses. The
insertion into the cache and what it does after a miss are left out, and reads succeed.
-/

namespace DssSdk.Wal.LogRecovery

open ByteMemory RecordCodec

/-! ### The reads -/

/-- `RECOVER_DATA_SZ`. -/
def recoverDataSz : ℤ := 8 * 2 ^ 20

/-- `min_obj_record_sz`: the checksum, the header and a key of 16 bytes. -/
def minObjRecordSz : ℤ := objChksumSz + objHdrSz + 16

/-- `WAL_ERROR_BAD_CHKSUM`. -/
def walErrorBadChksum : ℤ := 0x3002

/-- `WAL_ERROR_RD_LESS`. -/
def walErrorRdLess : ℤ := 0x3003

/-- What `log_object_parse` returns. -/
def parseRc : Except RecordError Parsed → ℤ
  | .ok p => p.size
  | .error .rdLess => -walErrorRdLess
  | .error _ => -walErrorBadChksum

/-- The loop over a chunk: the records for the cache, the addresses that were parsed, what is left
of the chunk, and `rc`. -/
structure Chunk where
  records : List Parsed
  tried : List ℕ
  left : ℤ
  rc : ℤ

/-- One round of the loop of `log_recover_data_read_comp` at an address, with `left` bytes. -/
def chunkRound (a : ℕ) (left : ℤ) (rest : ℕ → ℤ → Chunk) : Except RecordError Parsed → Chunk
  | .ok p =>
      if 0 < p.size then
        if left - p.size < minObjRecordSz then ⟨[p], [a], left - p.size, -walErrorRdLess⟩
        else
          let c := rest (a + p.size.toNat) (left - p.size)
          ⟨p :: c.records, a :: c.tried, c.left, c.rc⟩
      else ⟨[], [a], left, parseRc (.ok p)⟩
  | .error e => ⟨[], [a], left, parseRc (.error e)⟩

/-- The loop. -/
def parseChunk (m : Memory) (sequence : ℤ) : ℕ → ℕ → ℤ → Chunk
  | 0, _, left => ⟨[], [], left, -walErrorRdLess⟩
  | fuel + 1, a, left =>
      chunkRound a left (parseChunk m sequence fuel) (logObjectParse m a left sequence)

/-- How the recovery of a buffer ends: it goes on with the next buffer, stops at the assertion, or
neither reads nor goes on. -/
inductive Outcome
  | done
  | assertFailed
  | stalled
  deriving DecidableEq, Repr

/-- A recovery: how it ends, the records for the cache, and the addresses that were parsed. -/
structure Recovery where
  outcome : Outcome
  records : List Parsed
  tried : List ℕ

/-- `log_recover_data_read_comp` after the loop over a chunk of `ioSize` bytes, which was read at
`currPos`. -/
def afterChunk (endAddr : ℕ) (read : ℕ → ℤ → Option Recovery) (currPos : ℕ) (ioSize : ℤ)
    (c : Chunk) : Option Recovery :=
  let currPos' := currPos + (ioSize - c.left).toNat
  -- `is_last_chunk`
  let rc := if ioSize < recoverDataSz then -walErrorBadChksum else c.rc
  if rc = -walErrorRdLess then
    let restBufferSpaceSz := int32 (endAddr - currPos')
    if restBufferSpaceSz < minObjRecordSz then some ⟨.assertFailed, c.records, c.tried⟩
    else
      (read currPos' (min recoverDataSz restBufferSpaceSz)).map fun r =>
        ⟨r.outcome, c.records ++ r.records, c.tried ++ r.tried⟩
  else if rc = -walErrorBadChksum then some ⟨.done, c.records, c.tried⟩
  else some ⟨.stalled, c.records, c.tried⟩

/-- `log_recover_data_read_comp` for a read of `ioSize` bytes at `currPos`, with the reads after it. -/
def recoverLoop (m : Memory) (sequence : ℤ) (endAddr : ℕ) : ℕ → ℕ → ℤ → Option Recovery
  | 0, _, _ => none
  | fuel + 1, currPos, ioSize =>
      afterChunk endAddr (recoverLoop m sequence endAddr fuel) currPos ioSize
        (parseChunk m sequence ioSize.toNat currPos ioSize)

/-- The first record of a buffer. -/
def firstPos (startAddr : ℕ) : ℕ := alignUp (startAddr + bufferHdrSz)

/-- `log_recover_buffer_read_comp`, with the reads it begins. -/
def logRecoverBuffer (m : Memory) (sequence : ℤ) (startAddr endAddr fuel : ℕ) : Option Recovery :=
  recoverLoop m sequence endAddr fuel (firstPos startAddr) recoverDataSz

/-! ### The records of a buffer -/

/-- A record of positive size, and those after it. -/
def recordRound (a : ℕ) (rest : ℕ → List Parsed) : Except RecordError Parsed → List Parsed
  | .ok p => if 0 < p.size then p :: rest (a + p.size.toNat) else []
  | .error _ => []

/-- Parse a buffer from an address to its end. -/
def parseWhole (m : Memory) (sequence : ℤ) (endAddr : ℕ) : ℕ → ℕ → List Parsed
  | 0, _ => []
  | fuel + 1, a =>
      recordRound a (parseWhole m sequence endAddr fuel) (logObjectParse m a (endAddr - a) sequence)

/-- The records of a buffer from an address on. -/
def bufferRecords (m : Memory) (sequence : ℤ) (endAddr a : ℕ) : List Parsed :=
  parseWhole m sequence endAddr (endAddr - a + 1) a

/-- The recovery ends, hands over exactly the records of the buffer, and parses nothing behind its
end. -/
def Recovers (m : Memory) (sequence : ℤ) (startAddr endAddr : ℕ) : Prop :=
  ∃ fuel tried, logRecoverBuffer m sequence startAddr endAddr fuel =
      some ⟨.done, bufferRecords m sequence endAddr (firstPos startAddr), tried⟩ ∧
    ∀ a ∈ tried, a < endAddr

/-- A record of positive size. -/
def RecordAt (m : Memory) (sequence : ℤ) (a : ℕ) (p : Parsed) : Prop :=
  0 < p.size ∧ logObjectParse m a p.size sequence = .ok p

/-- Consecutive records between two addresses. -/
inductive Records (m : Memory) (sequence : ℤ) : ℕ → List Parsed → ℕ → Prop
  | nil (a : ℕ) : Records m sequence a [] a
  | cons {a b : ℕ} {p : Parsed} {ps : List Parsed} : RecordAt m sequence a p →
      Records m sequence (a + p.size.toNat) ps b → Records m sequence a (p :: ps) b

/-- The chunk at `p` does not hold the whole record at `q`, or ends there. -/
def CutAt (m : Memory) (sequence : ℤ) (p q : ℕ) : Prop :=
  p + recoverDataSz < q + minObjRecordSz ∨
    logObjectParse m q (p + recoverDataSz - q) sequence = .error .rdLess

/-- The chunks from a read on fit the buffer: a full chunk ends with bytes before the end of the
buffer that are no record, or is cut at a record that the next chunk begins with. The next chunk is
not the same one, there is room in the buffer for another record, and no record is behind the last
chunk. -/
inductive ChunksFit (m : Memory) (sequence : ℤ) (endAddr : ℕ) : ℕ → ℤ → Prop
  | last {p : ℕ} {ioSize : ℤ} : ioSize < recoverDataSz →
      (∀ ps q, Records m sequence p ps q → q ≤ endAddr → (q : ℤ) ≤ p + ioSize) →
      ChunksFit m sequence endAddr p ioSize
  | stop {p q : ℕ} {ps : List Parsed} : Records m sequence p ps q →
      q + minObjRecordSz ≤ p + recoverDataSz → q < endAddr →
      logObjectParse m q (p + recoverDataSz - q) sequence = .error .badChksum →
      ChunksFit m sequence endAddr p recoverDataSz
  | next {p q : ℕ} {ps : List Parsed} : p < endAddr → Records m sequence p ps q →
      (q : ℤ) ≤ p + recoverDataSz → CutAt m sequence p q → minObjRecordSz ≤ int32 (endAddr - q) →
      (p < q ∨ int32 (endAddr - q) < recoverDataSz) →
      ChunksFit m sequence endAddr q (min recoverDataSz (int32 (endAddr - q))) →
      ChunksFit m sequence endAddr p recoverDataSz

/-! ### Consecutive records -/

section

variable {m : Memory} {seq : ℤ} {a b c c' : ℕ} {p p' : Parsed} {ps ps' : List Parsed} {size : ℤ}

theorem size_parsedAt (m : Memory) (a : ℕ) : (parsedAt m a).size = (getObjHdr m a).szBlk * 1024 := rfl

theorem recordAt_iff (hpos : 0 < p.size) :
    logObjectParse m a size seq = .ok p ↔ RecordAt m seq a p ∧ p.size ≤ size := by
  unfold RecordAt
  rw [logObjectParse_ok_iff, logObjectParse_ok_iff]
  have hsize : p = parsedAt m a → p.size = (getObjHdr m a).szBlk * walAlign := by
    rintro rfl
    rfl
  constructor
  · rintro ⟨hverify, hle, hchk, hp⟩
    exact ⟨⟨hpos, hverify, (hsize hp).ge, hchk, hp⟩, (hsize hp).trans_le hle⟩
  · rintro ⟨⟨-, hverify, -, hchk, hp⟩, hle⟩
    exact ⟨hverify, (hsize hp).ge.trans hle, hchk, hp⟩

theorem RecordAt.size_ge (h : RecordAt m seq a p) : 1024 ≤ p.size := by
  obtain ⟨hpos, hp⟩ := h
  obtain ⟨-, -, -, rfl⟩ := logObjectParse_ok_iff.1 hp
  rw [size_parsedAt] at hpos ⊢
  omega

theorem RecordAt.unique (h : RecordAt m seq a p) (h' : RecordAt m seq a p') : p = p' := by
  obtain ⟨-, -, -, rfl⟩ := logObjectParse_ok_iff.1 h.2
  obtain ⟨-, -, -, rfl⟩ := logObjectParse_ok_iff.1 h'.2
  rfl

theorem Records.le (h : Records m seq a ps b) : a ≤ b := by
  induction h with
  | nil a => exact le_rfl
  | cons hp hps ih => exact (Nat.le_add_right _ _).trans ih

theorem Records.append (h : Records m seq a ps b) (h' : Records m seq b ps' c) :
    Records m seq a (ps ++ ps') c := by
  induction h with
  | nil a => exact h'
  | cons hp hps ih => exact .cons hp (ih h')

/-- No record at an address ends at a bound or before it. -/
def Stuck (m : Memory) (seq : ℤ) (a : ℕ) (bound : ℤ) : Prop :=
  ∀ p, RecordAt m seq a p → bound < a + p.size

theorem Records.le_stuck {bound : ℤ} (h : Records m seq a ps c) (h' : Records m seq a ps' c')
    (hc : (c : ℤ) ≤ bound) (hs' : Stuck m seq c' bound) : c ≤ c' := by
  induction h generalizing ps' with
  | nil a => exact h'.le
  | @cons a b p ps hp hps ih =>
    cases h' with
    | nil =>
      have hlt := hs' p hp
      have hle := hps.le
      have hpos := hp.1
      omega
    | cons hp' hps' =>
      obtain rfl := hp.unique hp'
      exact ih hps' hc

theorem Records.unique (h : Records m seq a ps c) (h' : Records m seq a ps' c) : ps = ps' := by
  induction h generalizing ps' with
  | nil a =>
    cases h' with
    | nil => rfl
    | cons hp' hps' =>
      have hle := hps'.le
      have hpos := hp'.1
      omega
  | @cons a b p ps hp hps ih =>
    cases h' with
    | nil =>
      have hle := hps.le
      have hpos := hp.1
      omega
    | cons hp' hps' =>
      obtain rfl := hp.unique hp'
      rw [ih hps']

theorem Records.end_unique (h : Records m seq a ps c) (h' : Records m seq a ps c') : c = c' := by
  induction h with
  | nil a =>
    cases h'
    rfl
  | cons hp hps ih =>
    cases h' with
    | cons hp' hps' => exact ih hps'

theorem Records.stuck_unique {bound : ℤ} (h : Records m seq a ps c) (h' : Records m seq a ps' c')
    (hc : (c : ℤ) ≤ bound) (hc' : (c' : ℤ) ≤ bound) (hs : Stuck m seq c bound)
    (hs' : Stuck m seq c' bound) : ps = ps' ∧ c = c' := by
  obtain rfl := le_antisymm (h.le_stuck h' hc hs') (h'.le_stuck h hc' hs)
  exact ⟨h.unique h', rfl⟩

theorem not_recordAt_of_bad (h : logObjectParse m a size seq = .error .badChksum) :
    ¬ RecordAt m seq a p := by
  rintro ⟨-, hp⟩
  obtain ⟨hverify, -, hchk, -⟩ := logObjectParse_ok_iff.1 hp
  rw [logObjectParse_eq, if_pos hverify] at h
  split_ifs at h with hsize hne
  · cases h
  · exact hne hchk

theorem parse_error {e : RecordError} (h : logObjectParse m a size seq = .error e) :
    e = .badChksum ∨ e = .rdLess := by
  rw [logObjectParse_eq] at h
  split_ifs at h <;> cases h
  · exact Or.inr rfl
  · exact Or.inl rfl
  · exact Or.inl rfl

theorem parseRc_ok (h : logObjectParse m a size seq = .ok p) :
    parseRc (.ok p) ≠ -walErrorRdLess ∧ parseRc (.ok p) ≠ -walErrorBadChksum := by
  obtain ⟨-, -, -, rfl⟩ := logObjectParse_ok_iff.1 h
  unfold parseRc walErrorRdLess walErrorBadChksum
  dsimp only
  rw [size_parsedAt]
  omega

/-! ### The buffer as a whole -/

theorem parseWhole_succ (m : Memory) (seq : ℤ) (endAddr fuel a : ℕ) :
    parseWhole m seq endAddr (fuel + 1) a =
      recordRound a (parseWhole m seq endAddr fuel) (logObjectParse m a (endAddr - a) seq) := rfl

theorem parseWhole_spec {fuel endAddr : ℕ} (hfuel : endAddr - a < fuel) :
    ∃ q, Records m seq a (parseWhole m seq endAddr fuel a) q ∧ Stuck m seq q endAddr ∧
      (a ≤ endAddr → q ≤ endAddr) := by
  induction fuel generalizing a with
  | zero => exact absurd hfuel (Nat.not_lt_zero _)
  | succ fuel ih =>
    have hstuck : (∀ p, logObjectParse m a (endAddr - a) seq = .ok p → ¬ 0 < p.size) →
        Stuck m seq a endAddr := by
      intro hno p hp
      by_contra hle
      exact hno p ((recordAt_iff hp.1).2 ⟨hp, by omega⟩) hp.1
    obtain ⟨r, hparse⟩ : ∃ r, logObjectParse m a (endAddr - a) seq = r := ⟨_, rfl⟩
    rw [hparse] at hstuck
    rw [parseWhole_succ, hparse]
    unfold recordRound
    cases r with
    | error e =>
      exact ⟨a, .nil a, hstuck fun p hp => (by cases hp), fun hle => hle⟩
    | ok p =>
      dsimp only
      by_cases hpos : 0 < p.size
      · rw [if_pos hpos]
        obtain ⟨hrec, hle⟩ := (recordAt_iff hpos).1 hparse
        obtain ⟨q, hrecs, hs, hq⟩ := ih (a := a + p.size.toNat) (by omega)
        exact ⟨q, .cons hrec hrecs, hs, fun _ => hq (by omega)⟩
      · rw [if_neg hpos]
        refine ⟨a, .nil a, hstuck fun p' hp' => ?_, fun hle => hle⟩
        cases hp'
        exact hpos

variable {endAddr : ℕ}

theorem bufferRecords_spec (m : Memory) (seq : ℤ) (endAddr a : ℕ) :
    ∃ q, Records m seq a (bufferRecords m seq endAddr a) q ∧ Stuck m seq q endAddr ∧
      (a ≤ endAddr → q ≤ endAddr) :=
  parseWhole_spec (Nat.lt_succ_self _)

theorem bufferRecords_eq (h : Records m seq a ps c) (hc : c ≤ endAddr)
    (hs : Stuck m seq c endAddr) : bufferRecords m seq endAddr a = ps := by
  obtain ⟨q, hq, hstuck, hle⟩ := bufferRecords_spec m seq endAddr a
  have hq' := hle (h.le.trans hc)
  exact (hq.stuck_unique h (by exact_mod_cast hq') (by exact_mod_cast hc) hstuck hs).1

theorem bufferRecords_append (h : Records m seq a ps c) (hc : c ≤ endAddr) :
    bufferRecords m seq endAddr a = ps ++ bufferRecords m seq endAddr c := by
  obtain ⟨q, hq, hstuck, hle⟩ := bufferRecords_spec m seq endAddr c
  exact bufferRecords_eq (h.append hq) (hle hc) hstuck

/-! ### A chunk -/

/-- A chunk up to a bound was parsed from `a` to `q`, where its end is near or where no record is. -/
structure ParsedTo (m : Memory) (seq : ℤ) (bound : ℤ) (a : ℕ) (ch : Chunk) (q : ℕ) : Prop where
  records : Records m seq a ch.records q
  left : ch.left = bound - q
  le : (q : ℤ) ≤ bound
  first : a ∈ ch.tried
  tried : ∀ b ∈ ch.tried, b ≤ q
  ends : (bound < q + minObjRecordSz ∧ a < q ∧ ch.rc = -walErrorRdLess ∧ ∀ b ∈ ch.tried, b < q) ∨
    (q + minObjRecordSz ≤ bound ∧ q ∈ ch.tried ∧
      ch.rc = parseRc (logObjectParse m q (bound - q) seq) ∧
      ∀ p, logObjectParse m q (bound - q) seq = .ok p → p.size ≤ 0)

theorem ParsedTo.stuck {bound : ℤ} {ch : Chunk} {q : ℕ} (h : ParsedTo m seq bound a ch q) :
    Stuck m seq q bound := by
  intro p hp
  rcases h.ends with ⟨hnear, -⟩ | ⟨-, -, -, hno⟩
  · have hsize := hp.size_ge
    unfold minObjRecordSz objChksumSz objHdrSz at hnear
    omega
  · by_contra hle
    have hsize := hno p ((recordAt_iff hp.1).2 ⟨hp, by omega⟩)
    exact absurd hp.1 (not_lt.2 hsize)

theorem parseChunk_succ (m : Memory) (seq : ℤ) (fuel a : ℕ) (left : ℤ) :
    parseChunk m seq (fuel + 1) a left =
      chunkRound a left (parseChunk m seq fuel) (logObjectParse m a left seq) := rfl

theorem parseChunk_spec {fuel : ℕ} {left : ℤ} (hleft : minObjRecordSz ≤ left)
    (hfuel : left.toNat ≤ fuel) :
    ∃ q, ParsedTo m seq (a + left) a (parseChunk m seq fuel a left) q := by
  induction fuel generalizing a left with
  | zero =>
    unfold minObjRecordSz objChksumSz objHdrSz at hleft
    omega
  | succ fuel ih =>
    have hhere : (a + left - a : ℤ) = left := by omega
    have hstop : ∀ r, logObjectParse m a left seq = r → (∀ p, r = .ok p → p.size ≤ 0) →
        ParsedTo m seq (a + left) a ⟨[], [a], left, parseRc r⟩ a := by
      intro r hr hno
      refine ⟨.nil a, hhere.symm, ?_, List.mem_singleton_self a, ?_, Or.inr ⟨?_, ?_, ?_, ?_⟩⟩
      · unfold minObjRecordSz objChksumSz objHdrSz at hleft
        omega
      · exact fun b hb => (List.mem_singleton.1 hb).le
      · omega
      · exact List.mem_singleton_self a
      · rw [hhere, hr]
      · rw [hhere, hr]
        exact hno
    obtain ⟨r, hparse⟩ : ∃ r, logObjectParse m a left seq = r := ⟨_, rfl⟩
    rw [parseChunk_succ, hparse]
    unfold chunkRound
    cases r with
    | error e => exact ⟨a, hstop _ hparse fun p hp => (by cases hp)⟩
    | ok p =>
      dsimp only
      by_cases hpos : 0 < p.size
      · rw [if_pos hpos]
        obtain ⟨hrec, hle⟩ := (recordAt_iff hpos).1 hparse
        by_cases hnear : left - p.size < minObjRecordSz
        · rw [if_pos hnear]
          refine ⟨a + p.size.toNat, .cons hrec (.nil _), ?_, ?_, List.mem_singleton_self a, ?_,
            Or.inl ⟨?_, ?_, rfl, ?_⟩⟩
          · dsimp only
            omega
          · omega
          · exact fun b hb => (List.mem_singleton.1 hb).le.trans (Nat.le_add_right _ _)
          · omega
          · omega
          · intro b hb
            rw [List.mem_singleton.1 hb]
            omega
        · rw [if_neg hnear]
          obtain ⟨q, hq⟩ := ih (a := a + p.size.toNat) (not_lt.1 hnear) (by omega)
          have hbound : ((a + p.size.toNat : ℕ) + (left - p.size) : ℤ) = a + left := by omega
          rw [hbound] at hq
          have hge := hq.records.le
          refine ⟨q, .cons hrec hq.records, hq.left, hq.le, List.mem_cons_self, ?_, ?_⟩
          · intro b hb
            rcases List.mem_cons.1 hb with rfl | hb
            · omega
            · exact hq.tried b hb
          · rcases hq.ends with ⟨hnear', -, hrc, htried⟩ | ⟨hroom, hmem, hrc, hno⟩
            · refine Or.inl ⟨hnear', by omega, hrc, fun b hb => ?_⟩
              rcases List.mem_cons.1 hb with rfl | hb
              · omega
              · exact htried b hb
            · exact Or.inr ⟨hroom, List.mem_cons_of_mem a hmem, hrc, hno⟩
      · rw [if_neg hpos]
        refine ⟨a, hstop _ hparse fun p' hp' => ?_⟩
        cases hp'
        exact not_lt.1 hpos

/-! ### The reads of a buffer -/

theorem rest_spec {a q : ℕ} (ha : a < endAddr) (hq : (q : ℤ) ≤ a + recoverDataSz)
    (hrest : minObjRecordSz ≤ int32 (endAddr - q)) :
    q < endAddr ∧ int32 (endAddr - q) ≤ endAddr - q := by
  unfold minObjRecordSz objChksumSz objHdrSz at hrest
  unfold recoverDataSz at hq
  have hbounds := @int32_bounds (endAddr - q)
  by_cases hsmall : (endAddr - q : ℤ) < 2 ^ 31
  · rw [int32_of_lt (by omega) hsmall] at hrest ⊢
    omega
  · omega

theorem recoverLoop_succ (m : Memory) (seq : ℤ) (endAddr fuel currPos : ℕ) (ioSize : ℤ) :
    recoverLoop m seq endAddr (fuel + 1) currPos ioSize =
      afterChunk endAddr (recoverLoop m seq endAddr fuel) currPos ioSize
        (parseChunk m seq ioSize.toNat currPos ioSize) := rfl

variable {read : ℕ → ℤ → Option Recovery} {q : ℕ} {ioSize : ℤ} {ch : Chunk} {records : List Parsed}
  {tried : List ℕ}

theorem afterChunk_stop (h : ioSize < recoverDataSz ∨ ch.rc = -walErrorBadChksum) :
    afterChunk endAddr read a ioSize ch = some ⟨.done, ch.records, ch.tried⟩ := by
  have hrc : (if ioSize < recoverDataSz then -walErrorBadChksum else ch.rc) = -walErrorBadChksum := by
    split_ifs with hio
    · rfl
    · exact h.resolve_left hio
  unfold afterChunk
  dsimp only
  rw [hrc, if_neg (by decide), if_pos rfl]

theorem afterChunk_cut (hpos : a + (recoverDataSz - ch.left).toNat = q)
    (hrc : ch.rc = -walErrorRdLess) :
    afterChunk endAddr read a recoverDataSz ch =
      if int32 (endAddr - q) < minObjRecordSz then some ⟨.assertFailed, ch.records, ch.tried⟩
      else (read q (min recoverDataSz (int32 (endAddr - q)))).map fun r =>
        ⟨r.outcome, ch.records ++ r.records, ch.tried ++ r.tried⟩ := by
  unfold afterChunk
  dsimp only
  rw [if_neg (lt_irrefl _), if_pos hrc, hpos]

theorem afterChunk_stalled (hless : ch.rc ≠ -walErrorRdLess) (hbad : ch.rc ≠ -walErrorBadChksum) :
    afterChunk endAddr read a recoverDataSz ch = some ⟨.stalled, ch.records, ch.tried⟩ := by
  unfold afterChunk
  dsimp only
  rw [if_neg (lt_irrefl _), if_neg hless, if_neg hbad]

theorem ParsedTo.currPos (h : ParsedTo m seq (a + ioSize) a ch q) :
    a + (ioSize - ch.left).toNat = q := by
  have hle := h.records.le
  rw [h.left]
  omega

theorem cut_done (hch : ParsedTo m seq (a + recoverDataSz) a ch q) (hrc : ch.rc = -walErrorRdLess)
    (htried : ∀ b ∈ tried, b < endAddr)
    (hdone : afterChunk endAddr read a recoverDataSz ch =
      some ⟨.done, bufferRecords m seq endAddr a, tried⟩) :
    a < endAddr ∧ minObjRecordSz ≤ int32 (endAddr - q) ∧ ∃ tried',
      read q (min recoverDataSz (int32 (endAddr - q))) =
        some ⟨.done, bufferRecords m seq endAddr q, tried'⟩ ∧ tried = ch.tried ++ tried' := by
  rw [afterChunk_cut hch.currPos hrc] at hdone
  by_cases hassert : int32 (endAddr - q) < minObjRecordSz
  · rw [if_pos hassert] at hdone
    cases hdone
  rw [if_neg hassert] at hdone
  have hroom := not_lt.1 hassert
  obtain ⟨⟨outcome, records, tried'⟩, hread, heq⟩ := Option.map_eq_some_iff.1 hdone
  rw [Recovery.mk.injEq] at heq
  obtain ⟨houtcome, hrecords, rfl⟩ := heq
  have ha : a < endAddr := htried a (List.mem_append_left _ hch.first)
  obtain ⟨hlt, -⟩ := rest_spec ha hch.le hroom
  rw [bufferRecords_append hch.records hlt.le] at hrecords
  dsimp only at houtcome hrecords
  rw [houtcome, List.append_cancel_left hrecords] at hread
  exact ⟨ha, hroom, tried', hread, rfl⟩

theorem chunksFit_of_done {fuel : ℕ} (hio : ioSize = recoverDataSz ∨
      minObjRecordSz ≤ ioSize ∧ ioSize < recoverDataSz)
    (hdone : recoverLoop m seq endAddr fuel a ioSize =
      some ⟨.done, bufferRecords m seq endAddr a, tried⟩)
    (htried : ∀ b ∈ tried, b < endAddr) : ChunksFit m seq endAddr a ioSize := by
  induction fuel generalizing a ioSize tried with
  | zero => cases hdone
  | succ fuel ih =>
    have hmin : minObjRecordSz ≤ ioSize := by
      rcases hio with rfl | hio
      · decide
      · exact hio.1
    obtain ⟨q, hch⟩ := @parseChunk_spec m seq a ioSize.toNat ioSize hmin le_rfl
    rw [recoverLoop_succ] at hdone
    generalize parseChunk m seq ioSize.toNat a ioSize = ch at hdone hch
    rcases hio with rfl | ⟨-, hlast⟩
    · -- the chunk is cut at `q`
      have hcut : ch.rc = -walErrorRdLess → CutAt m seq a q →
          ChunksFit m seq endAddr a recoverDataSz := by
        intro hrc hcut
        obtain ⟨ha, hroom, tried', hread, rfl⟩ := cut_done hch hrc htried hdone
        have hnext : ChunksFit m seq endAddr q (min recoverDataSz (int32 (endAddr - q))) := by
          refine ih ?_ hread fun b hb => htried b (List.mem_append_right _ hb)
          rcases le_or_gt recoverDataSz (int32 (endAddr - q)) with hfull | hless
          · exact Or.inl (min_eq_left hfull)
          · rw [min_eq_right hless.le]
            exact Or.inr ⟨hroom, hless⟩
        by_cases hstep : a < q ∨ int32 (endAddr - q) < recoverDataSz
        · exact .next ha hch.records hch.le hcut hroom hstep hnext
        · -- the same read again, with less fuel
          push Not at hstep
          obtain rfl : a = q := le_antisymm hch.records.le hstep.1
          rw [min_eq_left hstep.2] at hnext
          exact hnext
      rcases hch.ends with ⟨hnear, -, hrc, -⟩ | ⟨hroom, hmem, hrc, -⟩
      · exact hcut hrc (Or.inl hnear)
      · obtain ⟨r, hparse⟩ : ∃ r, logObjectParse m q (a + recoverDataSz - q) seq = r := ⟨_, rfl⟩
        rw [hparse] at hrc
        cases r with
        | ok p =>
          obtain ⟨hless, hbad⟩ := parseRc_ok hparse
          rw [afterChunk_stalled (hrc ▸ hless) (hrc ▸ hbad)] at hdone
          cases hdone
        | error e =>
          rcases parse_error hparse with rfl | rfl
          · rw [afterChunk_stop (Or.inr hrc), Option.some.injEq, Recovery.mk.injEq] at hdone
            obtain ⟨-, -, rfl⟩ := hdone
            exact .stop hch.records hroom (htried q hmem) hparse
          · exact hcut hrc (Or.inr hparse)
    · rw [afterChunk_stop (Or.inl hlast), Option.some.injEq, Recovery.mk.injEq] at hdone
      obtain ⟨-, hrecords, -⟩ := hdone
      obtain ⟨q', hq', hstuck', -⟩ := bufferRecords_spec m seq endAddr a
      rw [← hrecords] at hq'
      obtain rfl := hch.records.end_unique hq'
      refine .last hlast fun ps c hps hc => ?_
      have hle := hps.le_stuck hq' (by exact_mod_cast hc) hstuck'
      have hbound := hch.le
      omega

theorem Stuck.of_cutAt (h : CutAt m seq a q) : Stuck m seq q (a + recoverDataSz) := by
  intro p hp
  rcases h with hnear | hless
  · have hsize := hp.size_ge
    unfold minObjRecordSz objChksumSz objHdrSz at hnear
    omega
  · by_contra hle
    have hok := (recordAt_iff hp.1).2 ⟨hp, show p.size ≤ a + recoverDataSz - q by omega⟩
    rw [hless] at hok
    cases hok

theorem ParsedTo.tried_lt {bound : ℤ} (h : ParsedTo m seq bound a ch q) (hend : bound ≤ endAddr) :
    ∀ b ∈ ch.tried, b < endAddr := by
  intro b hb
  have hle := h.le
  rcases h.ends with ⟨-, -, -, hlow⟩ | ⟨hroom, -⟩
  · have hlt := hlow b hb
    omega
  · have hb := h.tried b hb
    unfold minObjRecordSz objChksumSz objHdrSz at hroom
    omega

theorem ParsedTo.rc_of_cut (h : ParsedTo m seq (a + recoverDataSz) a ch q)
    (hcut : CutAt m seq a q) : ch.rc = -walErrorRdLess := by
  rcases h.ends with ⟨-, -, hrc, -⟩ | ⟨hroom, -, hrc, -⟩
  · exact hrc
  · rw [hrc, hcut.resolve_left (not_lt.2 hroom)]
    rfl

theorem done_of_chunksFit (h : ChunksFit m seq endAddr a ioSize) (hio : ioSize = recoverDataSz ∨
      minObjRecordSz ≤ ioSize ∧ ioSize < recoverDataSz ∧ a + ioSize ≤ endAddr) :
    ∃ fuel tried, recoverLoop m seq endAddr fuel a ioSize =
        some ⟨.done, bufferRecords m seq endAddr a, tried⟩ ∧ ∀ b ∈ tried, b < endAddr := by
  have hmin : minObjRecordSz ≤ ioSize := by
    rcases hio with rfl | hio
    · decide
    · exact hio.1
  induction h with
  | @last a ioSize hlast hrecs =>
    obtain ⟨-, -, hend⟩ := hio.resolve_left hlast.ne
    obtain ⟨q, hch⟩ := @parseChunk_spec m seq a ioSize.toNat ioSize hmin le_rfl
    refine ⟨1, (parseChunk m seq ioSize.toNat a ioSize).tried, ?_, ?_⟩
    · rw [recoverLoop_succ, afterChunk_stop (Or.inl hlast)]
      generalize parseChunk m seq ioSize.toNat a ioSize = ch at hch ⊢
      -- the records of the buffer end where the chunk is stuck
      obtain ⟨q', hq', hstuck', hle'⟩ := bufferRecords_spec m seq endAddr a
      have hbound := hch.le
      have hq := hch.records.le
      have hend' := hle' (by omega)
      have hin := hrecs _ q' hq' hend'
      obtain rfl : q = q' := le_antisymm (hch.records.le_stuck hq' (by omega) hstuck')
        (hq'.le_stuck hch.records hin hch.stuck)
      rw [hch.records.unique hq']
    · generalize parseChunk m seq ioSize.toNat a ioSize = ch at hch ⊢
      exact hch.tried_lt hend
  | @stop a q ps hps hroom hq hbad =>
    obtain ⟨q', hch⟩ := @parseChunk_spec m seq a recoverDataSz.toNat recoverDataSz hmin le_rfl
    have hno : ∀ bound, Stuck m seq q bound := fun bound p hp => absurd hp (not_recordAt_of_bad hbad)
    unfold minObjRecordSz objChksumSz objHdrSz at hroom
    obtain ⟨hrecords, rfl⟩ :=
      hch.records.stuck_unique hps hch.le (by omega) hch.stuck (hno _)
    refine ⟨1, (parseChunk m seq recoverDataSz.toNat a recoverDataSz).tried, ?_, ?_⟩
    · rw [recoverLoop_succ]
      generalize parseChunk m seq recoverDataSz.toNat a recoverDataSz = ch at hch hrecords ⊢
      have hrc : ch.rc = -walErrorBadChksum := by
        rcases hch.ends with ⟨hnear, -⟩ | ⟨-, -, hrc, -⟩
        · unfold minObjRecordSz objChksumSz objHdrSz at hnear
          omega
        · rw [hrc, hbad]
          rfl
      rw [afterChunk_stop (Or.inr hrc), hrecords, bufferRecords_eq hps hq.le (hno _)]
    · generalize parseChunk m seq recoverDataSz.toNat a recoverDataSz = ch at hch ⊢
      exact fun b hb => (hch.tried b hb).trans_lt hq
  | @next a q ps ha hps hle hcut hroom hstep hnext ih =>
    obtain ⟨q', hch⟩ := @parseChunk_spec m seq a recoverDataSz.toNat recoverDataSz hmin le_rfl
    obtain ⟨hrecords, rfl⟩ :=
      hch.records.stuck_unique hps hch.le hle hch.stuck (Stuck.of_cutAt hcut)
    obtain ⟨hlt, hrest⟩ := rest_spec ha hle hroom
    have hnextIo : min recoverDataSz (int32 (endAddr - q')) = recoverDataSz ∨
        minObjRecordSz ≤ min recoverDataSz (int32 (endAddr - q')) ∧
          min recoverDataSz (int32 (endAddr - q')) < recoverDataSz ∧
          q' + min recoverDataSz (int32 (endAddr - q')) ≤ endAddr := by
      rcases le_or_gt recoverDataSz (int32 (endAddr - q')) with hfull | hless
      · exact Or.inl (min_eq_left hfull)
      · rw [min_eq_right hless.le]
        exact Or.inr ⟨hroom, hless, by omega⟩
    obtain ⟨fuel, tried, hdone, htried⟩ := ih hnextIo (le_min hmin hroom)
    refine ⟨fuel + 1, (parseChunk m seq recoverDataSz.toNat a recoverDataSz).tried ++ tried, ?_, ?_⟩
    · rw [recoverLoop_succ]
      generalize parseChunk m seq recoverDataSz.toNat a recoverDataSz = ch at hch hrecords ⊢
      rw [afterChunk_cut hch.currPos (hch.rc_of_cut hcut), if_neg (not_lt.2 hroom), hdone,
        Option.map_some, hrecords, ← bufferRecords_append hps hlt.le]
    · generalize parseChunk m seq recoverDataSz.toNat a recoverDataSz = ch at hch ⊢
      intro b hb
      rcases List.mem_append.1 hb with hb | hb
      · exact (hch.tried b hb).trans_lt hlt
      · exact htried b hb

/-- The recovery of a buffer gives its records exactly when the chunks fit. -/
theorem recovers_iff (m : Memory) (seq : ℤ) (startAddr endAddr : ℕ) :
    Recovers m seq startAddr endAddr ↔
      ChunksFit m seq endAddr (firstPos startAddr) recoverDataSz := by
  constructor
  · rintro ⟨fuel, tried, hdone, htried⟩
    exact chunksFit_of_done (Or.inl rfl) hdone htried
  · exact fun h => done_of_chunksFit h (Or.inl rfl)

end

/-- The header and the checksum of a record with a key of one byte. -/
def putRecord (m : Memory) (a : ℕ) (szBlk : ℤ) (valSz : ℕ) (seq : ℤ) : Memory :=
  putObjChecksum (putObjHdr m a ⟨szBlk, 1, valSz, walItemValid, objHdrSz⟩) (a + objHdrSz + 1 + valSz)
    ⟨seq, 0⟩

/-- A buffer of 1 MB, whose last block is left free, with one record in all of its other blocks, and
the bytes of a record behind its end. -/
def fullBuffer : Memory := putRecord (putRecord (fun _ => 0) 1024 1022 1046495 7) 1047552 1 1 7

/-- The first read is longer than the buffer, and the record behind it is handed over too. -/
theorem not_recovers_fullBuffer : ¬ Recovers fullBuffer 7 0 1047552 := by
  rintro ⟨fuel, tried, hdone, -⟩
  have hfirst : firstPos 0 = 1024 := by decide +kernel
  have hrc : (parseChunk fullBuffer 7 recoverDataSz.toNat 1024 recoverDataSz).rc =
      -walErrorBadChksum := by decide +kernel
  have htwo : (parseChunk fullBuffer 7 recoverDataSz.toNat 1024 recoverDataSz).records.length =
      2 := by decide +kernel
  have hone : (bufferRecords fullBuffer 7 1047552 1024).length = 1 := by decide +kernel
  rw [logRecoverBuffer, hfirst] at hdone
  cases fuel with
  | zero => cases hdone
  | succ fuel =>
    rw [recoverLoop_succ, afterChunk_stop (Or.inr hrc), Option.some.injEq, Recovery.mk.injEq] at hdone
    rw [hdone.2.1, hone] at htwo
    cases htwo

end DssSdk.Wal.LogRecovery
