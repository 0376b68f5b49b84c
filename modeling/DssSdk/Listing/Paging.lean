import DssSdk.Listing.Read

/-!
# Prefix listing: pages

A LIST_READ command with its buffer, and a listing that goes on after the last entry of each page.

Source: `dfly_request.cpp` (`dfly_req_init_nvmf_info`) and `list_op.cpp` (`list_handle_read_op`), here
with the machine integers and with the offset of the value.

* `ListReadCmd`, `ReadRequest`, `dflyReqInitNvmfInfo`: the command, and what the target takes from it;
* `listHandleRead`: the handler;
* `decodePage`: what a client reads from the buffer; `listAll`: a client that lists page after page;
* `PagingOk`: the handler writes inside the value buffer, the pages are consecutive entries, and the
  client gets every entry once;
* `Fits`: the buffers for which this is so, `pagingOk_iff`.

The two lowest bits of the number of keys that is asked for are also the number of the invalid bytes of
the value, which the length of the value buffer is short of the size of the list.
-/

namespace DssSdk.Listing

open ByteMemory

/-! ### The command -/

/-- A LIST_READ command; the key is behind it. -/
structure ListReadCmd where
  cdw10 : UInt32
  cdw11 : UInt32
  mptr : UInt64
  key : Bytes
  hasValue : Bool
  deriving DecidableEq, Repr

/-- `int`. -/
def int32 (x : ℤ) : ℤ := x.bmod (2 ^ 32)

/-- The fields of the request that the handler reads. -/
structure ReadRequest where
  key : Bytes
  startKeyOffset : ℕ
  maxKeysRequested : ℕ
  listSize : ℤ
  hasValue : Bool
  valLength : ℕ
  valOffset : ℤ
  deriving DecidableEq, Repr

/-- `cmd->cdw11 >> 16`. -/
def ListReadCmd.maxKeys (c : ListReadCmd) : ℕ := c.cdw11.toNat / 2 ^ 16

/-- `cdw11->inval_bytes`. -/
def ListReadCmd.invalBytes (c : ListReadCmd) : ℕ := c.cdw11.toNat / 2 ^ 16 % 4

/-- `dfly_req_init_nvmf_info`. -/
def dflyReqInitNvmfInfo (c : ListReadCmd) : ReadRequest where
  key := c.key
  startKeyOffset := c.cdw11.toNat / 2 ^ 8 % 2 ^ 8
  maxKeysRequested := c.maxKeys
  listSize := int32 (c.cdw10.toNat * 4)
  hasValue := c.hasValue
  valLength := (((c.cdw10.toNat * 4 : ℤ) - c.invalBytes) % 2 ^ 32).toNat
  valOffset := int32 (c.mptr.toNat / 4)

/-- The prefix and the start key of a request. -/
def ReadRequest.target (root : Bytes) (r : ReadRequest) : Option (Bytes × Option Bytes) :=
  readTarget root ⟨r.key, r.startKeyOffset, r.maxKeysRequested, 0, 0, r.hasValue, r.valLength⟩

/-- The state of the copy before the loop; the memory begins at the offset of the value. -/
def ReadRequest.start (r : ReadRequest) (mem : Memory) : Fill := ⟨mem, 4, int32 (r.listSize - 4), 0⟩

/-- The label `done_list_read`. -/
def ReadRequest.done (r : ReadRequest) (s : Fill) (status : ReadStatus) : ReadReply :=
  ⟨putWord s.mem 0 s.nrKeys, status, int32 (r.listSize - s.bufferSz)⟩

/-- `list_handle_read_op`, `none` when an assertion fails. -/
def listHandleRead (root : Bytes) (zone : ZoneMap) (r : ReadRequest) (mem : Memory) : Option ReadReply :=
  if r.hasValue = false ∨ r.valLength < 12 then some ⟨mem, .invalidValueSize, 0⟩
  else
    match r.target root with
    | none => some (r.done (r.start mem) .unsupportedOption)
    | some (p, start) =>
      match zone p with
      | none => some (r.done (r.start mem) .nonexistPrefix)
      | some set =>
        if (r.listSize % 2 ^ 32).toNat < r.valLength then none
        else
          match startAfter start (entries set) with
          | none => some (r.done (r.start mem) .nonexistStartkey)
          | some es =>
            (fillLoop r.maxKeysRequested es (r.start mem)).map fun s =>
              r.done s.1 (if s.1.nrKeys = 0 ∧ s.2 = [] then .endOfList else .success)

/-! ### The client -/

/-- The entries that a number of sizes and strings stand for. -/
def decodeKeys (m : Memory) : ℕ → ℕ → List Bytes
  | 0, _ => []
  | n + 1, a =>
      let k := getBytes m (a + 4) (getWord m a)
      k :: decodeKeys m n (a + unitSize k)

/-- The entries of a page. -/
def decodePage (m : Memory) : List Bytes := decodeKeys m (getWord m 0) 4

/-- A listing page after page, with the command `f` for a start key: what it gives, and the status at its
end. -/
def listAll (root : Bytes) (zone : ZoneMap) (f : Option Bytes → ListReadCmd) (mem : ℕ → Memory) :
    ℕ → Option Bytes → Option (List Bytes × ReadStatus)
  | 0, _ => none
  | fuel + 1, start =>
      match listHandleRead root zone (dflyReqInitNvmfInfo (f start)) (mem fuel) with
      | none => none
      | some reply =>
          if reply.status = .success then
            (listAll root zone f mem fuel ((decodePage reply.mem).getLast?.or start)).map fun r =>
              (decodePage reply.mem ++ r.1, r.2)
          else some ([], reply.status)

/-! ### The property -/

/-- Two commands with one buffer and one number of keys. -/
structure SameBuffer (b c : ListReadCmd) : Prop where
  cdw10 : c.cdw10 = b.cdw10
  maxKeys : c.maxKeys = b.maxKeys
  mptr : c.mptr = b.mptr
  hasValue : c.hasValue = b.hasValue

/-- `val->length`. -/
def ListReadCmd.valLength (b : ListReadCmd) : ℕ := (dflyReqInitNvmfInfo b).valLength

/-- `val->offset`. -/
def ListReadCmd.valOffset (b : ListReadCmd) : ℤ := (dflyReqInitNvmfInfo b).valOffset

/-- The value buffer is accepted. -/
def ListReadCmd.Accepted (b : ListReadCmd) : Prop := b.hasValue = true ∧ 12 ≤ b.valLength

/-- The reply to a request: what is written is in the value buffer, and the page has consecutive entries
behind the start key. -/
structure ReplyOk (b : ListReadCmd) (set : Finset Bytes) (start : Option Bytes) (mem : Memory)
    (reply : ReadReply) : Prop where
  inside : ∀ i : ℕ, reply.mem i ≠ mem i → 0 ≤ b.valOffset + i ∧ b.valOffset + i < b.valLength
  page : b.Accepted → ∀ es, startAfter start (entries set) = some es →
    decodePage reply.mem <+: es ∧ (decodePage reply.mem).length ≤ max 1 b.maxKeys ∧
      reply.status = if es = [] then .endOfList else .success

/-- The buffer is accepted and can hold each of the entries. -/
def Holds (b : ListReadCmd) (set : Finset Bytes) : Prop :=
  b.Accepted ∧ ∀ e ∈ set, 4 + unitSize e ≤ b.valLength

/-- Every request on a prefix with this set of entries is answered in order, and a listing with a buffer
that can hold each of the entries gives all of them once, in order, and then the end of the list. -/
structure PagingOk (root : Bytes) (b : ListReadCmd) (p : Bytes) (set : Finset Bytes) : Prop where
  reply : ∀ zone : ZoneMap, zone p = some set → ∀ c, SameBuffer b c → ∀ start,
    (dflyReqInitNvmfInfo c).target root = some (p, start) → ∀ mem, ∃ reply,
      listHandleRead root zone (dflyReqInitNvmfInfo c) mem = some reply ∧ ReplyOk b set start mem reply
  paging : Holds b set → ∀ zone : ZoneMap, zone p = some set → ∀ f : Option Bytes → ListReadCmd,
    (∀ start, start ≠ some [] → SameBuffer b (f start) ∧
      (dflyReqInitNvmfInfo (f start)).target root = some (p, start)) →
    ∀ mem, ∃ fuel, listAll root zone f mem fuel none = some (entries set, .endOfList)

/-- The bytes that the copies of entries write. -/
def writtenSize : List Bytes → ℕ
  | [] => 0
  | [k] => 4 + k.length
  | k :: k' :: ks => unitSize k + writtenSize (k' :: ks)

/-- The words of the list, `cdw10` without the bits that are shifted out. -/
def ListReadCmd.words (b : ListReadCmd) : ℕ := b.cdw10.toNat % 2 ^ 30

/-- The buffer is not accepted; or its offset is not negative, the size of the list is not zero and not
above 2 GB (if there is an entry), and consecutive entries that fit in the size of the list end in the
value buffer. -/
def Fits (b : ListReadCmd) (set : Finset Bytes) : Prop :=
  b.Accepted → b.words ≠ 0 ∧ (b.words ≤ 2 ^ 29 ∨ set = ∅) ∧ 0 ≤ b.valOffset ∧
    ∀ ks, ks <:+: entries set → ks.length ≤ max 1 b.maxKeys → 4 + encodedSize ks ≤ 4 * b.words →
      b.valOffset + 4 + writtenSize ks ≤ b.valLength

/-! ### Machine integers -/

theorem int32_of_range {x : ℤ} (h : -2 ^ 31 ≤ x) (h' : x < 2 ^ 31) : int32 x = x := by
  rw [int32, Int.bmod_def]
  split <;> omega

theorem int32_emod (x : ℤ) : int32 x % 2 ^ 32 = x % 2 ^ 32 := by
  rw [int32, Int.bmod_def]
  split <;> omega

/-- With a list size that fits, the machine integers are the numbers, and the handler is the one of the
numbers. -/
theorem listHandleRead_eq {root : Bytes} {zone : ZoneMap} {r : ReadRequest} {n options : ℕ} (mem : Memory)
    (hsize : r.listSize = n) (hge : 4 ≤ n) (hlt : n < 2 ^ 31) :
    (listHandleRead root zone r mem).map (fun reply => (reply.mem, reply.status)) =
      (listHandleReadOp root zone
        ⟨r.key, r.startKeyOffset, r.maxKeysRequested, n, options, r.hasValue, r.valLength⟩ mem).map
          fun reply => (reply.mem, reply.status) := by
  have hbuf : r.start mem = Fill.start ⟨r.key, r.startKeyOffset, r.maxKeysRequested, n, options,
      r.hasValue, r.valLength⟩ mem := by
    rw [ReadRequest.start, hsize, int32_of_range (by omega) (by omega)]
    rfl
  have hmod : (r.listSize % 2 ^ 32).toNat = n := by omega
  have htarget : r.target root = readTarget root ⟨r.key, r.startKeyOffset, r.maxKeysRequested, n, options,
      r.hasValue, r.valLength⟩ := rfl
  unfold listHandleRead listHandleReadOp
  rw [htarget, hmod, hbuf]
  split_ifs
  · rfl
  · cases readTarget root _ with
    | none => rfl
    | some ps =>
      dsimp only
      cases zone ps.1 with
      | none => rfl
      | some set => rfl
  · cases readTarget root _ with
    | none => rfl
    | some ps =>
      dsimp only
      cases zone ps.1 with
      | none => rfl
      | some set =>
        dsimp only
        cases startAfter ps.2 (entries set) with
        | none => rfl
        | some es =>
          simp only [Option.map_map]
          rfl

/-! ### The numbers of a command -/

section
variable (c : ListReadCmd)

theorem ListReadCmd.invalBytes_lt : c.invalBytes < 4 := Nat.mod_lt _ (by norm_num)

theorem ListReadCmd.listSize_emod : (dflyReqInitNvmfInfo c).listSize % 2 ^ 32 = 4 * c.words := by
  rw [dflyReqInitNvmfInfo, int32_emod, ListReadCmd.words]
  omega

theorem ListReadCmd.valLength_def :
    c.valLength = (((c.cdw10.toNat * 4 : ℤ) - c.invalBytes) % 2 ^ 32).toNat := by
  rw [ListReadCmd.valLength, dflyReqInitNvmfInfo]

theorem ListReadCmd.valLength_eq (h : c.words ≠ 0) : c.valLength = 4 * c.words - c.invalBytes := by
  have hlt := c.invalBytes_lt
  rw [c.valLength_def]
  rw [ListReadCmd.words] at h ⊢
  omega

/-- What the loop may fill. -/
def ListReadCmd.cap : ℕ := if c.words ≤ 2 ^ 29 then 4 * c.words - 4 else 0

theorem ListReadCmd.bufferSz (h : c.words ≠ 0) (mem : Memory) :
    ((dflyReqInitNvmfInfo c).start mem).bufferSz =
      if c.words ≤ 2 ^ 29 then (c.cap : ℤ) else 4 * c.words - 4 - 2 ^ 32 := by
  have hmod := c.listSize_emod
  have hw : c.words < 2 ^ 30 := Nat.mod_lt _ (by norm_num)
  rw [ReadRequest.start, int32, Int.bmod_def, ListReadCmd.cap]
  dsimp only
  split_ifs <;> omega

variable {c} {b : ListReadCmd}

theorem SameBuffer.words (h : SameBuffer b c) : c.words = b.words := by
  rw [ListReadCmd.words, h.cdw10, ListReadCmd.words]

theorem SameBuffer.valLength (h : SameBuffer b c) : c.valLength = b.valLength := by
  have hinval : c.invalBytes = b.invalBytes := congrArg (· % 4) h.maxKeys
  rw [c.valLength_def, b.valLength_def, hinval, h.cdw10]

theorem SameBuffer.accepted (h : SameBuffer b c) : c.Accepted ↔ b.Accepted := by
  rw [ListReadCmd.Accepted, ListReadCmd.Accepted, h.hasValue, h.valLength]

theorem SameBuffer.cap (h : SameBuffer b c) : c.cap = b.cap := by
  rw [ListReadCmd.cap, ListReadCmd.cap, h.words]

end

/-! ### What is written -/

theorem writtenSize_snoc (l : List Bytes) (k : Bytes) :
    writtenSize (l ++ [k]) = encodedSize l + 4 + k.length := by
  induction l with
  | nil => simp [writtenSize]
  | cons k' l ih =>
    have hcons : ∃ x xs, l ++ [k] = x :: xs := List.exists_cons_of_ne_nil (by simp)
    obtain ⟨x, xs, hx⟩ := hcons
    rw [hx] at ih
    rw [List.cons_append, hx, writtenSize, ih, encodedSize_cons]
    omega

theorem writtenSize_le (ks : List Bytes) : writtenSize ks ≤ encodedSize ks := by
  rcases List.eq_nil_or_concat ks with rfl | ⟨l, k, rfl⟩
  · exact le_rfl
  · rw [List.concat_eq_append, writtenSize_snoc, encodedSize_append, encodedSize_cons, encodedSize_nil, unitSize]
    have := le_round4 k.length
    omega

theorem encodedSize_eq (ks : List Bytes) : keysSize ks = encodedSize ks := by
  rw [keysSize, encodedSize]
  congr 1
  exact List.map_congr_left fun k _ => four_mul_keyDw k

theorem push_mem_of_ge (s : Fill) (k : Bytes) {i : ℕ} (hi : s.keySz + 4 + k.length ≤ i) :
    (s.push k).mem i = s.mem i := by
  simp only [Fill.push, putWord]
  rw [putBytes_of_disjoint (Or.inr (by rw [length_wordBytes]; omega)), putBytes_of_disjoint (Or.inr hi)]

theorem pushAll_mem_of_ge (s : Fill) (ks : List Bytes) {i : ℕ} (hi : s.keySz + writtenSize ks ≤ i) :
    (s.pushAll ks).mem i = s.mem i := by
  induction ks generalizing s with
  | nil => rfl
  | cons k ks ih =>
    have hle : s.keySz + 4 + k.length ≤ i ∧ s.keySz + 4 * keyDw k + writtenSize ks ≤ i ∨
        ks = [] ∧ s.keySz + 4 + k.length ≤ i := by
      cases ks with
      | nil =>
        rw [writtenSize] at hi
        exact Or.inr ⟨rfl, by omega⟩
      | cons k' ks =>
        have hround := le_round4 k.length
        rw [writtenSize, unitSize] at hi
        rw [four_mul_keyDw, unitSize]
        exact Or.inl ⟨by omega, by omega⟩
    show ((s.push k).pushAll ks).mem i = s.mem i
    obtain ⟨hk, hrest⟩ | ⟨rfl, hk⟩ := hle
    · rw [ih (s.push k) hrest, push_mem_of_ge s k hk]
    · exact push_mem_of_ge s k hk

/-! ### A page in the buffer -/

/-- The memory with a page in it. -/
def ReadRequest.pageMem (r : ReadRequest) (mem : Memory) (page : List Bytes) : Memory :=
  putWord ((r.start mem).pushAll page).mem 0 page.length

section
variable {r : ReadRequest} {mem : Memory} {page ks : List Bytes}

theorem getWord_pageMem (h : page.length < 2 ^ 32) : getWord (r.pageMem mem page) 0 = page.length :=
  getWord_putWord_self h

theorem encodes_pageMem (h : ∀ k ∈ page, k.length < 2 ^ 32) : Encodes (r.pageMem mem page) 4 page := by
  apply (encodes_pushAll (r.start mem) page h).congr
  intro i hi _
  have hi' : 0 + (wordBytes page.length).length ≤ i := hi
  exact putBytes_of_disjoint (Or.inr hi')

theorem pageMem_of_ge {i : ℕ} (hi : 4 + writtenSize page ≤ i) : r.pageMem mem page i = mem i := by
  have hi' : 0 + (wordBytes page.length).length ≤ i := by
    rw [length_wordBytes]
    omega
  have hput : r.pageMem mem page i = ((r.start mem).pushAll page).mem i := putBytes_of_disjoint (Or.inr hi')
  rw [hput]
  exact pushAll_mem_of_ge (r.start mem) page hi

theorem byte_of_getBytes {m : Memory} {a j : ℕ} {k : Bytes} (h : getBytes m a k.length = k)
    (hj : j < k.length) : m (a + j) = k[j] := by
  have hget : (getBytes m a k.length)[j]? = some k[j] := by rw [h, List.getElem?_eq_getElem hj]
  simpa [getBytes, hj] using hget

theorem exists_byte (hlen : ∀ k ∈ page, k ≠ [] ∧ k.length < 2 ^ 32) (hks : ks <+: page) :
    ∃ v, ∀ mem, r.pageMem mem page (4 + writtenSize ks - 1) = v := by
  rcases List.eq_nil_or_concat ks with rfl | ⟨l, k, rfl⟩
  · exact ⟨UInt8.ofNat (page.length / 2 ^ 24), fun mem => rfl⟩
  · rw [List.concat_eq_append] at hks ⊢
    obtain ⟨t, rfl⟩ := hks
    have hk : 0 < k.length := List.length_pos_iff.2 (hlen k (by simp)).1
    refine ⟨k[k.length - 1], fun mem => ?_⟩
    have henc : Encodes (r.pageMem mem (l ++ [k] ++ t)) 4 (l ++ [k] ++ t) :=
      encodes_pageMem fun k' hk' => (hlen k' hk').2
    rw [List.append_assoc, encodes_append] at henc
    obtain ⟨-, -, hbytes, -⟩ := henc
    have hbyte := byte_of_getBytes hbytes (show k.length - 1 < k.length by omega)
    rw [writtenSize_snoc, List.append_assoc, ← hbyte]
    congr 1
    omega

theorem decodeKeys_of_encodes {m : Memory} {a : ℕ} (h : Encodes m a ks) :
    decodeKeys m ks.length a = ks := by
  induction ks generalizing a with
  | nil => rfl
  | cons k ks ih =>
    obtain ⟨hlen, hkey, hrest⟩ := h
    rw [List.length_cons, decodeKeys, hlen, hkey, ih hrest]

theorem decodePage_pageMem (hlen : page.length < 2 ^ 32) (h : ∀ k ∈ page, k.length < 2 ^ 32) :
    decodePage (r.pageMem mem page) = page := by
  rw [decodePage, getWord_pageMem hlen]
  exact decodeKeys_of_encodes (encodes_pageMem h)

end

/-! ### The page of a request -/

/-- The entries of the reply to a command. -/
def ListReadCmd.page (c : ListReadCmd) (es : List Bytes) : List Bytes := pageOf c.maxKeys c.cap 0 es

theorem prefix_pageOf {maxKeys cap n : ℕ} {ks t : List Bytes} (hn : n + ks.length ≤ max (n + 1) maxKeys)
    (hcap : encodedSize ks ≤ cap) : ks <+: pageOf maxKeys cap n (ks ++ t) := by
  induction ks generalizing n cap with
  | nil => exact List.nil_prefix
  | cons k ks ih =>
    rw [encodedSize_cons, ← four_mul_keyDw] at hcap
    rw [List.length_cons] at hn
    rw [List.cons_append, pageOf, if_neg (by omega), List.prefix_cons_inj]
    by_cases hmax : maxKeys ≤ n + 1
    · have hnil : ks = [] := List.length_eq_zero_iff.1 (by omega)
      rw [hnil]
      exact List.nil_prefix
    · rw [if_neg hmax]
      exact ih (by omega) (by omega)

theorem fillLoop_negative (maxKeys : ℕ) (es : List Bytes) {s : Fill} (h : s.bufferSz < 0) :
    fillLoop maxKeys es s = some (s, es) := by
  cases es with
  | nil => rfl
  | cons k ks => rw [fillLoop, if_pos (by omega)]

theorem pageOf_zero (maxKeys n : ℕ) (es : List Bytes) : pageOf maxKeys 0 n es = [] := by
  cases es with
  | nil => rfl
  | cons k ks => exact pageOf_eq_nil_iff.2 (by rw [keyDw]; omega)

section
variable {c : ListReadCmd} {root p : Bytes} {zone : ZoneMap} {start : Option Bytes} {set : Finset Bytes}
variable {es : List Bytes}

theorem fillLoop_page (hw : c.words ≠ 0) (hes : [] ∉ es) (mem : Memory) :
    ∃ rest, fillLoop c.maxKeys es ((dflyReqInitNvmfInfo c).start mem) =
        some (((dflyReqInitNvmfInfo c).start mem).pushAll (c.page es), rest) ∧
      (c.page es = [] → rest = es) := by
  have hbuf := c.bufferSz hw mem
  by_cases hle : c.words ≤ 2 ^ 29
  · rw [if_pos hle] at hbuf
    exact fillLoop_eq c.maxKeys _ hes hbuf
  · rw [if_neg hle] at hbuf
    have hlt : c.words < 2 ^ 30 := Nat.mod_lt _ (by norm_num)
    have hpage : c.page es = [] := by
      rw [ListReadCmd.page, ListReadCmd.cap, if_neg hle]
      exact pageOf_zero _ _ _
    rw [hpage, fillLoop_negative c.maxKeys es (by omega)]
    exact ⟨es, rfl, fun _ => rfl⟩

theorem ListReadCmd.Accepted.not_guarded (h : c.Accepted) :
    ¬((dflyReqInitNvmfInfo c).hasValue = false ∨ (dflyReqInitNvmfInfo c).valLength < 12) := by
  rintro (hno | hlt)
  · exact Bool.noConfusion (h.1.symm.trans hno)
  · exact absurd hlt (not_lt.2 h.2)

theorem listHandleRead_found (mem : Memory) (hacc : c.Accepted) (hw : c.words ≠ 0)
    (ht : (dflyReqInitNvmfInfo c).target root = some (p, start)) (hz : zone p = some set) :
    listHandleRead root zone (dflyReqInitNvmfInfo c) mem =
      match startAfter start (entries set) with
      | none => some ((dflyReqInitNvmfInfo c).done ((dflyReqInitNvmfInfo c).start mem) .nonexistStartkey)
      | some es =>
        (fillLoop c.maxKeys es ((dflyReqInitNvmfInfo c).start mem)).map fun s =>
          (dflyReqInitNvmfInfo c).done s.1 (if s.1.nrKeys = 0 ∧ s.2 = [] then .endOfList else .success) := by
  have hassert : ¬ ((dflyReqInitNvmfInfo c).listSize % 2 ^ 32).toNat < (dflyReqInitNvmfInfo c).valLength := by
    have hv : (dflyReqInitNvmfInfo c).valLength = 4 * c.words - c.invalBytes := c.valLength_eq hw
    rw [c.listSize_emod, hv]
    omega
  rw [listHandleRead, if_neg hacc.not_guarded, ht]
  dsimp only
  rw [hz]
  dsimp only
  rw [if_neg hassert]
  rfl

theorem listHandleRead_page (mem : Memory) (hacc : c.Accepted) (hw : c.words ≠ 0)
    (ht : (dflyReqInitNvmfInfo c).target root = some (p, start)) (hz : zone p = some set)
    (ha : startAfter start (entries set) = some es) (hes : [] ∉ es) :
    ∃ cdw0, listHandleRead root zone (dflyReqInitNvmfInfo c) mem =
      some ⟨(dflyReqInitNvmfInfo c).pageMem mem (c.page es), if es = [] then .endOfList else .success,
        cdw0⟩ := by
  obtain ⟨rest, hloop, hrest⟩ := fillLoop_page hw hes mem
  have hnr : (((dflyReqInitNvmfInfo c).start mem).pushAll (c.page es)).nrKeys = (c.page es).length := by
    rw [nrKeys_pushAll]
    exact Nat.zero_add _
  have hstatus : (if (c.page es).length = 0 ∧ rest = [] then ReadStatus.endOfList else .success) =
      if es = [] then .endOfList else .success := by
    by_cases hnil : c.page es = []
    · rw [hrest hnil, hnil]
      simp
    · have hes' : es ≠ [] := by
        rintro rfl
        exact hnil rfl
      rw [if_neg hes', if_neg fun h => hnil (List.length_eq_zero_iff.1 h.1)]
  refine ⟨int32 ((dflyReqInitNvmfInfo c).listSize -
    (((dflyReqInitNvmfInfo c).start mem).pushAll (c.page es)).bufferSz), ?_⟩
  rw [listHandleRead_found mem hacc hw ht hz, ha]
  dsimp only
  rw [hloop, Option.map_some, hnr, hstatus, ReadRequest.done, hnr]
  rfl

theorem page_isPrefix (c : ListReadCmd) (es : List Bytes) : c.page es <+: es := pageOf_isPrefix _ _ _ es

theorem length_page_le (c : ListReadCmd) (es : List Bytes) : (c.page es).length ≤ max 1 c.maxKeys :=
  length_pageOf_le _ _ _ es

theorem encodedSize_page_le (hw : c.words ≠ 0) (es : List Bytes) :
    4 + encodedSize (c.page es) ≤ 4 * c.words := by
  have hle : keysSize (c.page es) ≤ c.cap := keysSize_pageOf_le _ _ _ es
  rw [encodedSize_eq, ListReadCmd.cap] at hle
  split at hle <;> omega

theorem startAfter_suffix {es' : List Bytes} (h : startAfter start es = some es') : es' <:+ es := by
  unfold startAfter at h
  split at h
  · cases h
    exact List.suffix_rfl
  · split at h
    · cases h
      exact (List.tail_suffix _).trans (List.dropWhile_suffix _)
    · cases h

theorem startAfter_split {l : List Bytes} (h : entries set = l ++ es) :
    startAfter l.getLast? (entries set) = some es := by
  rcases List.eq_nil_or_concat l with rfl | ⟨l', k, rfl⟩
  · rw [h]
    rfl
  · rw [List.concat_eq_append] at h ⊢
    have hsplit : entries set = l' ++ k :: es := by rw [h, List.append_assoc, List.singleton_append]
    have hnd := entries_nodup set
    rw [hsplit] at hnd ⊢
    rw [List.getLast?_concat]
    exact startAfter_append hnd

end

/-! ### The buffers that fit -/

/-- The command for a prefix, with the buffer of another one. -/
def ListReadCmd.listFrom (b : ListReadCmd) (p : Bytes) (start : Option Bytes) : ListReadCmd :=
  { b with
    cdw11 := UInt32.ofNat (b.maxKeys * 2 ^ 16 + p.length * 2 ^ 8)
    key := p ++ start.getD [] }

section
variable {b c : ListReadCmd} {root p : Bytes} {zone : ZoneMap} {start : Option Bytes}
variable {set : Finset Bytes} {es : List Bytes}

theorem listFrom_cdw11 (hlen : p.length < 256) :
    (b.listFrom p start).cdw11.toNat = b.maxKeys * 2 ^ 16 + p.length * 2 ^ 8 := by
  have hmax : b.maxKeys < 2 ^ 16 := Nat.div_lt_of_lt_mul b.cdw11.toNat_lt
  rw [ListReadCmd.listFrom, UInt32.toNat_ofNat']
  exact Nat.mod_eq_of_lt (by omega)

theorem sameBuffer_listFrom (hlen : p.length < 256) : SameBuffer b (b.listFrom p start) := by
  refine ⟨rfl, ?_, rfl, rfl⟩
  rw [ListReadCmd.maxKeys, listFrom_cdw11 hlen]
  omega

theorem target_listFrom (hp : p = [] → root = []) (hlen : p.length < 256) (hstart : start ≠ some []) :
    (dflyReqInitNvmfInfo (b.listFrom p start)).target root = some (p, start) := by
  have hoff : (dflyReqInitNvmfInfo (b.listFrom p start)).startKeyOffset = p.length := by
    rw [dflyReqInitNvmfInfo, listFrom_cdw11 hlen]
    dsimp only
    omega
  have hkey : (dflyReqInitNvmfInfo (b.listFrom p start)).key = p ++ start.getD [] := rfl
  rw [ReadRequest.target, readTarget, hoff, hkey]
  dsimp only
  rcases eq_or_ne p [] with rfl | hne
  · -- a listing from the root prefix, once it is empty
    rw [hp rfl]
    cases start with
    | none => simp
    | some k =>
      have hk : k ≠ [] := fun h => hstart (h ▸ rfl)
      simp [hk]
  · have hpos : p.length ≠ 0 := fun h => hne (List.length_eq_zero_iff.1 h)
    cases start with
    | none => simp [hpos]
    | some k =>
      have hk : 0 < k.length := List.length_pos_iff.2 fun h => hstart (h ▸ rfl)
      have hlt : p.length < p.length + k.length := by omega
      simp [hpos, hlt]

/-- A zone with one prefix. -/
def onlyPrefix (p : Bytes) (set : Finset Bytes) : ZoneMap := fun q => if q = p then some set else none

theorem onlyPrefix_self (p : Bytes) (set : Finset Bytes) : onlyPrefix p set p = some set := if_pos rfl

theorem listHandleRead_refused (mem : Memory) (h : ¬ c.Accepted) :
    listHandleRead root zone (dflyReqInitNvmfInfo c) mem = some ⟨mem, .invalidValueSize, 0⟩ := by
  rw [listHandleRead, if_pos]
  by_contra hnot
  push Not at hnot
  have hval : c.hasValue ≠ false := hnot.1
  exact h ⟨by simpa using hval, hnot.2⟩

theorem ReplyOk.of_fits (hb : SameBuffer b c) (hfit : Fits b set)
    (hset : ∀ e ∈ set, e ≠ [] ∧ e.length < 2 ^ 16)
    (ht : (dflyReqInitNvmfInfo c).target root = some (p, start)) (hz : zone p = some set) (mem : Memory) :
    ∃ reply, listHandleRead root zone (dflyReqInitNvmfInfo c) mem = some reply ∧
      ReplyOk b set start mem reply := by
  by_cases hacc : c.Accepted
  · obtain ⟨hw, -, hoff, hroom⟩ := hfit (hb.accepted.1 hacc)
    have hw' : c.words ≠ 0 := hb.words ▸ hw
    have hinside : ∀ {ks : List Bytes} {i : ℕ}, ks <:+: entries set → ks.length ≤ max 1 b.maxKeys →
        4 + encodedSize ks ≤ 4 * b.words → i < 4 + writtenSize ks →
        0 ≤ b.valOffset + i ∧ b.valOffset + i < b.valLength := by
      intro ks i hks hlen hsize hi
      have := hroom ks hks hlen hsize
      omega
    cases ha : startAfter start (entries set) with
    | none =>
      refine ⟨_, by rw [listHandleRead_found mem hacc hw' ht hz, ha], fun i hi => ?_,
        fun _ es hes => by rw [ha] at hes; cases hes⟩
      apply @hinside [] i List.nil_infix (Nat.zero_le _) (by rw [encodedSize_nil]; omega)
      by_contra hge
      exact hi (@pageMem_of_ge _ mem [] i (not_lt.1 hge))
    | some es =>
      have hsuf := startAfter_suffix ha
      have hmem : ∀ e ∈ es, e ≠ [] ∧ e.length < 2 ^ 32 := by
        intro e he
        obtain ⟨h1, h2⟩ := hset e (mem_entries.1 (hsuf.subset he))
        exact ⟨h1, by omega⟩
      have hpage : ∀ e ∈ c.page es, e ≠ [] ∧ e.length < 2 ^ 32 :=
        fun e he => hmem e ((page_isPrefix c es).subset he)
      obtain ⟨cdw0, hreply⟩ := listHandleRead_page mem hacc hw' ht hz ha fun h => (hmem [] h).1 rfl
      have hsize := encodedSize_page_le hw' es
      have hcount : (c.page es).length < 2 ^ 32 := by
        have hle := length_le_encodedSize (c.page es)
        have hlt : c.words < 2 ^ 30 := Nat.mod_lt _ (by norm_num)
        omega
      have hdecode : decodePage ((dflyReqInitNvmfInfo c).pageMem mem (c.page es)) = c.page es :=
        decodePage_pageMem hcount fun e he => (hpage e he).2
      refine ⟨_, hreply, fun i hi => ?_, fun _ es' hes' => ?_⟩
      · apply hinside ((page_isPrefix c es).isInfix.trans hsuf.isInfix) (hb.maxKeys ▸ length_page_le c es)
          (hb.words ▸ hsize)
        by_contra hge
        exact hi (pageMem_of_ge (not_lt.1 hge))
      · rw [ha] at hes'
        cases hes'
        rw [hdecode]
        exact ⟨page_isPrefix c es, hb.maxKeys ▸ length_page_le c es, rfl⟩
  · exact ⟨_, listHandleRead_refused mem hacc, fun i hi => absurd rfl hi,
      fun hb' => absurd (hb.accepted.2 hb') hacc⟩

theorem listAll_of_holds {f : Option Bytes → ListReadCmd} {mem : ℕ → Memory} (hfit : Fits b set)
    (hset : ∀ e ∈ set, e ≠ [] ∧ e.length < 2 ^ 16) (hholds : Holds b set) (hz : zone p = some set)
    (hf : ∀ start, start ≠ some [] → SameBuffer b (f start) ∧
      (dflyReqInitNvmfInfo (f start)).target root = some (p, start)) {l : List Bytes} {fuel : ℕ}
    (hsplit : entries set = l ++ es) (hfuel : es.length < fuel) :
    listAll root zone f mem fuel l.getLast? = some (es, .endOfList) := by
  induction fuel generalizing l es with
  | zero => omega
  | succ fuel ih =>
    have hmem : ∀ e ∈ l ++ es, e ≠ [] ∧ e.length < 2 ^ 16 :=
      fun e he => hset e (mem_entries.1 (hsplit ▸ he))
    have hstart : l.getLast? ≠ some [] := by
      intro h
      exact (hmem [] (List.mem_append_left _ (List.mem_of_getLast? h))).1 rfl
    obtain ⟨hb, ht⟩ := hf l.getLast? hstart
    obtain ⟨hw, hbig, -⟩ := hfit hholds.1
    have hw' : (f l.getLast?).words ≠ 0 := hb.words ▸ hw
    have hpmem : ∀ e ∈ es, e ≠ [] ∧ e.length < 2 ^ 32 := by
      intro e he
      obtain ⟨h1, h2⟩ := hmem e (List.mem_append_right _ he)
      exact ⟨h1, by omega⟩
    obtain ⟨cdw0, hreply⟩ := listHandleRead_page (mem fuel) (hb.accepted.2 hholds.1) hw' ht hz
      (startAfter_split hsplit) fun h => (hpmem [] h).1 rfl
    rw [listAll, hreply]
    dsimp only
    by_cases hes : es = []
    · rw [if_pos hes, if_neg (fun h => by cases h), hes]
    · rw [if_neg hes, if_pos rfl]
      have hpre := page_isPrefix (f l.getLast?) es
      have hcount : ((f l.getLast?).page es).length < 2 ^ 32 := by
        have hle := length_le_encodedSize ((f l.getLast?).page es)
        have hsize := encodedSize_page_le hw' es
        have hlt : (f l.getLast?).words < 2 ^ 30 := Nat.mod_lt _ (by norm_num)
        omega
      rw [decodePage_pageMem hcount fun e he => (hpmem e (hpre.subset he)).2]
      -- the buffer can hold the first entry
      have hne : (f l.getLast?).page es ≠ [] := by
        obtain ⟨e, es', rfl⟩ := List.exists_cons_of_ne_nil hes
        have he : e ∈ set := mem_entries.1 (hsplit ▸ List.mem_append_right l List.mem_cons_self)
        have hroom := hholds.2 e he
        have hlow : b.words ≤ 2 ^ 29 := hbig.resolve_right fun h => by rw [h] at he; cases he
        rw [ne_eq, ListReadCmd.page, pageOf_eq_nil_iff, ListReadCmd.cap, hb.words, if_pos hlow]
        rw [b.valLength_eq hw, ← four_mul_keyDw] at hroom
        omega
      obtain ⟨rest, hrest⟩ := hpre
      have hlen : rest.length < fuel := by
        have hpos := List.length_pos_iff.2 hne
        have htotal := congrArg List.length hrest
        rw [List.length_append] at htotal
        omega
      have hlast : ((f l.getLast?).page es).getLast?.or l.getLast? =
          (l ++ (f l.getLast?).page es).getLast? := by
        rw [List.getLast?_append]
      rw [hlast, ih (by rw [List.append_assoc, hrest]; exact hsplit) hlen, Option.map_some, hrest]

theorem listAll_stuck {f : Option Bytes → ListReadCmd} {mem : ℕ → Memory}
    (h : ∀ m, ∃ cdw0, listHandleRead root zone (dflyReqInitNvmfInfo (f start)) m =
      some ⟨(dflyReqInitNvmfInfo (f start)).pageMem m [], .success, cdw0⟩) (fuel : ℕ) :
    listAll root zone f mem fuel start = none := by
  induction fuel with
  | zero => rfl
  | succ fuel ih =>
    obtain ⟨cdw0, hreply⟩ := h (mem fuel)
    have hpage : decodePage ((dflyReqInitNvmfInfo (f start)).pageMem (mem fuel) []) = [] :=
      decodePage_pageMem (by norm_num) fun e he => by cases he
    rw [listAll, hreply]
    dsimp only
    rw [if_pos rfl, hpage, List.getLast?_nil, Option.none_or, ih]
    rfl

/-- A byte of the reply that does not depend on what was in the buffer is written, and is inside. -/
theorem PagingOk.inside (h : PagingOk root b p set) (hp : p = [] → root = []) (hlen : p.length < 256)
    (hset : ∀ e ∈ set, e ≠ [] ∧ e.length < 2 ^ 16) (hacc : b.Accepted) (hw : b.words ≠ 0)
    {l : List Bytes} (hsplit : entries set = l ++ es) {i : ℕ} {v : UInt8}
    (hv : ∀ mem, (dflyReqInitNvmfInfo (b.listFrom p l.getLast?)).pageMem mem
      ((b.listFrom p l.getLast?).page es) i = v) :
    0 ≤ b.valOffset + i ∧ b.valOffset + i < b.valLength := by
  have hmem : ∀ e ∈ l ++ es, e ≠ [] := fun e he => (hset e (mem_entries.1 (hsplit ▸ he))).1
  have hstart : l.getLast? ≠ some [] :=
    fun h => hmem [] (List.mem_append_left _ (List.mem_of_getLast? h)) rfl
  have hb : SameBuffer b (b.listFrom p l.getLast?) := sameBuffer_listFrom hlen
  have ht := @target_listFrom b root p _ hp hlen hstart
  obtain ⟨reply, hreply, hok⟩ := h.reply _ (onlyPrefix_self p set) _ hb _ ht fun _ => v + 1
  obtain ⟨cdw0, hpage⟩ := listHandleRead_page (fun _ => v + 1) (hb.accepted.2 hacc) (hb.words ▸ hw) ht
    (onlyPrefix_self p set) (startAfter_split hsplit) fun h => hmem [] (List.mem_append_right _ h) rfl
  rw [hpage] at hreply
  cases hreply
  apply hok.inside i
  dsimp only
  rw [hv]
  simp

theorem listHandleRead_zero (mem : Memory) (hacc : c.Accepted) (hw : c.words = 0)
    (ht : (dflyReqInitNvmfInfo c).target root = some (p, start)) (hz : zone p = some set) :
    listHandleRead root zone (dflyReqInitNvmfInfo c) mem = none := by
  have hlen : 12 ≤ (dflyReqInitNvmfInfo c).valLength := hacc.2
  have hassert : ((dflyReqInitNvmfInfo c).listSize % 2 ^ 32).toNat < (dflyReqInitNvmfInfo c).valLength := by
    rw [c.listSize_emod, hw]
    omega
  rw [listHandleRead, if_neg hacc.not_guarded, ht]
  dsimp only
  rw [hz]
  dsimp only
  rw [if_pos hassert]

theorem PagingOk.words_ne_zero (h : PagingOk root b p set) (hp : p = [] → root = []) (hlen : p.length < 256)
    (hacc : b.Accepted) : b.words ≠ 0 := by
  intro hzero
  have hb : SameBuffer b (b.listFrom p none) := sameBuffer_listFrom hlen
  have ht := @target_listFrom b root p none hp hlen (fun h => by cases h)
  obtain ⟨reply, hreply, -⟩ := h.reply _ (onlyPrefix_self p set) _ hb none ht fun _ => 0
  rw [listHandleRead_zero _ (hb.accepted.2 hacc) (hb.words.trans hzero) ht (onlyPrefix_self p set)] at hreply
  cases hreply

theorem PagingOk.words_le (h : PagingOk root b p set) (hp : p = [] → root = []) (hlen : p.length < 256)
    (hset : ∀ e ∈ set, e ≠ [] ∧ e.length < 2 ^ 16) (hacc : b.Accepted) (hw : b.words ≠ 0) :
    b.words ≤ 2 ^ 29 ∨ set = ∅ := by
  by_contra hnot
  push Not at hnot
  obtain ⟨hlarge, e, he⟩ := hnot
  have hb : ∀ start, SameBuffer b (b.listFrom p start) := fun _ => sameBuffer_listFrom hlen
  have ht : ∀ start, start ≠ some [] →
      (dflyReqInitNvmfInfo (b.listFrom p start)).target root = some (p, start) :=
    fun start hstart => target_listFrom hp hlen hstart
  have hholds : Holds b set := by
    refine ⟨hacc, fun e he => ?_⟩
    have hsmall := (hset e he).2
    have hinval := b.invalBytes_lt
    rw [b.valLength_eq hw, unitSize, round4]
    omega
  have hpage : (b.listFrom p none).page (entries set) = [] := by
    rw [ListReadCmd.page, (hb none).cap, ListReadCmd.cap, if_neg (not_le.2 hlarge)]
    exact pageOf_zero _ _ _
  have hentries : entries set ≠ [] := List.ne_nil_of_mem (mem_entries.2 he)
  have hreply : ∀ m, ∃ cdw0, listHandleRead root (onlyPrefix p set)
      (dflyReqInitNvmfInfo (b.listFrom p none)) m =
        some ⟨(dflyReqInitNvmfInfo (b.listFrom p none)).pageMem m [], .success, cdw0⟩ := by
    intro m
    have hstart : startAfter none (entries set) = some (entries set) := rfl
    obtain ⟨cdw0, hreply⟩ := listHandleRead_page m ((hb none).accepted.2 hacc) ((hb none).words ▸ hw)
      (ht none (fun h => by cases h)) (onlyPrefix_self p set) hstart
      fun h => (hset [] (mem_entries.1 h)).1 rfl
    rw [hpage, if_neg hentries] at hreply
    exact ⟨cdw0, hreply⟩
  obtain ⟨fuel, hfuel⟩ := h.paging hholds _ (onlyPrefix_self p set) (b.listFrom p)
    (fun start hstart => ⟨hb start, ht start hstart⟩) fun _ _ => 0
  rw [listAll_stuck hreply fuel] at hfuel
  cases hfuel

theorem fits_of_pagingOk (h : PagingOk root b p set) (hp : p = [] → root = []) (hlen : p.length < 256)
    (hset : ∀ e ∈ set, e ≠ [] ∧ e.length < 2 ^ 16) : Fits b set := by
  intro hacc
  have hw := h.words_ne_zero hp hlen hacc
  have hbig := h.words_le hp hlen hset hacc hw
  refine ⟨hw, hbig, ?_, fun ks hks hcount hsize => ?_⟩
  · have hzero := @PagingOk.inside b root p set (entries set) h hp hlen hset hacc hw [] rfl 0 _
      fun mem => rfl
    simpa using hzero.1
  · obtain ⟨l, t, hsplit⟩ := hks
    rw [List.append_assoc] at hsplit
    have hb : SameBuffer b (b.listFrom p l.getLast?) := sameBuffer_listFrom hlen
    have hprefix : ks <+: (b.listFrom p l.getLast?).page (ks ++ t) := by
      rcases hbig with hlow | hempty
      · rw [ListReadCmd.page, hb.cap, hb.maxKeys, ListReadCmd.cap, if_pos hlow]
        exact prefix_pageOf (by omega) (by omega)
      · have hnone : entries ∅ = [] := Finset.sort_empty strLe
        rw [hempty, hnone, List.append_eq_nil_iff, List.append_eq_nil_iff] at hsplit
        rw [hsplit.2.1]
        exact List.nil_prefix
    have hpmem : ∀ e ∈ (b.listFrom p l.getLast?).page (ks ++ t), e ≠ [] ∧ e.length < 2 ^ 32 := by
      intro e he
      have hmem : e ∈ entries set := by
        rw [← hsplit]
        exact List.mem_append_right _ ((page_isPrefix _ _).subset he)
      obtain ⟨h1, h2⟩ := hset e (mem_entries.1 hmem)
      exact ⟨h1, by omega⟩
    obtain ⟨v, hv⟩ := exists_byte hpmem hprefix
    have hin := h.inside hp hlen hset hacc hw hsplit.symm hv
    omega

end

/-- **Paging through the map listing.** For every prefix that a command can name, also the empty root
prefix, and every set of entries, the requests with a buffer are answered in order and list everything once if and only if the
buffer fits the set. -/
theorem pagingOk_iff {root p : Bytes} {b : ListReadCmd} {set : Finset Bytes}
    (hp : p = [] → root = []) (hlen : p.length < 256) (hset : ∀ e ∈ set, e ≠ [] ∧ e.length < 2 ^ 16) :
    PagingOk root b p set ↔ Fits b set := by
  constructor
  · exact fun h => fits_of_pagingOk h hp hlen hset
  · intro hfit
    refine ⟨fun zone hz c hb start ht mem => ReplyOk.of_fits hb hfit hset ht hz mem,
      fun hholds zone hz f hf mem => ?_⟩
    exact ⟨(entries set).length + 1, @listAll_of_holds b root p zone set _ f mem hfit hset hholds hz hf []
      _ (List.nil_append _).symm (Nat.lt_succ_self _)⟩

theorem fits_of_whole {b : ListReadCmd} (hinval : b.invalBytes = 0) (hoff : b.valOffset = 0)
    (hw : b.words ≠ 0) (hlow : b.words ≤ 2 ^ 29) (set : Finset Bytes) : Fits b set := by
  refine fun _ => ⟨hw, Or.inl hlow, hoff.ge, fun ks _ _ hsize => ?_⟩
  have hle := writtenSize_le ks
  rw [hoff, b.valLength_eq hw, hinval]
  omega

/-- A list of 32 bytes for four keys under `d/`. -/
def wholeBuffer : ListReadCmd := ⟨8, 0x00040200, 0, [100, 47], true⟩

theorem pagingOk_whole : PagingOk [114, 47] wholeBuffer [100, 47] {[97], [98, 99, 100, 101, 102], [103]} :=
  (pagingOk_iff (by decide) (by decide) (by decide)).2
    (fits_of_whole (by decide) (by decide) (by decide) (by decide) _)

/-- A list of 16 bytes for one key: the value has 15 bytes. -/
def shortBuffer : ListReadCmd := ⟨4, 0x00010200, 0, [100, 47], true⟩

/-- An entry of eight bytes ends in the sixteenth byte of a value buffer of fifteen. -/
theorem not_pagingOk_short :
    shortBuffer.valLength = 15 ∧ ¬ PagingOk [114, 47] shortBuffer [100, 47] {[1, 2, 3, 4, 5, 6, 7, 8]} := by
  refine ⟨by decide, fun h => ?_⟩
  obtain ⟨reply, hreply, hok⟩ := h.reply _ (onlyPrefix_self _ _) shortBuffer ⟨rfl, rfl, rfl, rfl⟩ none
    (by decide) fun _ => 0
  have hentries : entries {[1, 2, 3, 4, 5, 6, 7, 8]} = [[1, 2, 3, 4, 5, 6, 7, 8]] :=
    Finset.sort_singleton strLe _
  obtain ⟨cdw0, hpage⟩ := @listHandleRead_page shortBuffer [114, 47] [100, 47] _ none _
    [[1, 2, 3, 4, 5, 6, 7, 8]] (fun _ => 0) ⟨rfl, by decide⟩ (by decide) (by decide) (onlyPrefix_self _ _)
    (congrArg some hentries) (by decide)
  rw [hpage] at hreply
  cases hreply
  have hbyte : (dflyReqInitNvmfInfo shortBuffer).pageMem (fun _ => 0)
      (shortBuffer.page [[1, 2, 3, 4, 5, 6, 7, 8]]) 15 = 8 := by decide
  have hin := hok.inside 15 (by dsimp only; rw [hbyte]; decide)
  revert hin
  decide

end DssSdk.Listing
