import DssSdk.Lib.ByteMemory
import DssSdk.Listing.Update
import Mathlib.Data.Finset.Sort
import Mathlib.Data.List.Lex

/-!
# Prefix listing: the reads

A LIST_READ request carries a prefix and, behind it, the entry after which the listing goes on. The
reply is the number of the keys in four bytes and, for every key, its size in four bytes and its
bytes up to a multiple of four.

Source: `list_op.cpp` (`list_handle_read_op`) and `list_module.cpp` (`list_get_module_ctx_on_read`).
A key that is not terminated in its buffer is taken to end there.

* `entries`: a set of entries in the order of `std::set`;
* `fillLoop`: the loop that copies the entries;
* `listHandleReadOp`: the handler;
* `pageOf`: the entries of a reply, the longest prefix that fits;
* `fillLoop_eq`, `encodes_pushAll`: the loop lays out the entries of the page;
* `listHandleReadOp_page`: the reply to a request that finds its prefix.
-/

namespace DssSdk.Listing

open ByteMemory

/-! ### The order of the entries -/

/-- `operator<=` of `std::string`: the bytes count as unsigned. -/
def strLe (a b : Bytes) : Prop := a.map UInt8.toNat ≤ b.map UInt8.toNat

instance : DecidableRel strLe := fun a b =>
  inferInstanceAs (Decidable (a.map UInt8.toNat ≤ b.map UInt8.toNat))

instance : IsTrans Bytes strLe := ⟨fun _ _ _ h₁ h₂ => le_trans h₁ h₂⟩

instance : Std.Total strLe := ⟨fun a b => le_total (a.map UInt8.toNat) (b.map UInt8.toNat)⟩

instance : Std.Antisymm strLe := ⟨fun _ _ h₁ h₂ =>
  List.map_injective_iff.2 (fun _ _ h => UInt8.toNat_inj.1 h) (le_antisymm h₁ h₂)⟩

/-- The entries of a set, as an iterator meets them. -/
def entries (s : Finset Bytes) : List Bytes := s.sort strLe

@[simp] theorem mem_entries {s : Finset Bytes} {e : Bytes} : e ∈ entries s ↔ e ∈ s :=
  Finset.mem_sort strLe

theorem entries_nodup (s : Finset Bytes) : (entries s).Nodup := Finset.sort_nodup s strLe

/-! ### The handler -/

/-- The NVMe status of a reply. -/
inductive ReadStatus
  | success
  | invalidValueSize
  | unsupportedOption
  | nonexistPrefix
  | nonexistStartkey
  | endOfList
deriving DecidableEq, Repr

/-- What a LIST_READ request carries: the key, the fields of `list_data` and the value buffer. -/
structure ReadCmd where
  key : Bytes
  startKeyOffset : ℕ
  maxKeysRequested : ℕ
  listSize : ℕ
  options : ℕ
  hasValue : Bool
  valLength : ℕ
deriving DecidableEq, Repr

/-- The reply: the value buffer, the status and the length in `cdw0`. -/
structure ReadReply where
  mem : Memory
  status : ReadStatus
  cdw0 : ℤ

/-- The words of an entry in the buffer, with its size. -/
def keyDw (k : Bytes) : ℕ := (k.length + 4 - 1) / 4 + 1

/-- The state of the copy: the buffer, where the size of the next key goes, the bytes left in the
buffer and the number of keys. -/
structure Fill where
  mem : Memory
  keySz : ℕ
  bufferSz : ℤ
  nrKeys : ℕ

/-- Copy one entry. -/
def Fill.push (s : Fill) (k : Bytes) : Fill where
  mem := putWord (putBytes s.mem (s.keySz + 4) k) s.keySz k.length
  keySz := s.keySz + 4 * keyDw k
  bufferSz := s.bufferSz - keyDw k * 4
  nrKeys := s.nrKeys + 1

/-- The loop over the entries: what it copied, and the entries from the iterator on. The size of an
entry is asserted not to be zero. -/
def fillLoop (maxKeys : ℕ) : List Bytes → Fill → Option (Fill × List Bytes)
  | [], s => some (s, [])
  | k :: ks, s =>
    if s.bufferSz < keyDw k * 4 then some (s, k :: ks)
    else if k = [] then none
    else if maxKeys ≤ s.nrKeys + 1 then some (s.push k, k :: ks)
    else fillLoop maxKeys ks (s.push k)

/-- The prefix and the start key of a request, `none` for an unsupported option. -/
def readTarget (root : Bytes) (c : ReadCmd) : Option (Bytes × Option Bytes) :=
  if c.startKeyOffset ≠ 0 ∧ c.startKeyOffset < c.key.length then
    some (c.key.take c.startKeyOffset, some (c.key.drop c.startKeyOffset))
  else if c.startKeyOffset ≠ 0 ∧ c.startKeyOffset = c.key.length then some (c.key, none)
  else if c.startKeyOffset = 0 ∧ c.key.length ≠ 0 then some (root, some c.key)
  else if c.startKeyOffset = 0 ∧ c.key.length = 0 then some (root, none)
  else none

/-- The entries from the iterator on, `none` when the start key is not found. -/
def startAfter (start : Option Bytes) (es : List Bytes) : Option (List Bytes) :=
  match start with
  | none => some es
  | some k => if k ∈ es then some (es.dropWhile (· ≠ k)).tail else none

/-- The state of the copy before the loop. -/
def Fill.start (c : ReadCmd) (mem : Memory) : Fill := ⟨mem, 4, (c.listSize : ℤ) - 4, 0⟩

/-- The label `done_list_read`. -/
def Fill.done (c : ReadCmd) (s : Fill) (status : ReadStatus) : ReadReply :=
  ⟨putWord s.mem 0 s.nrKeys, status, (c.listSize : ℤ) - s.bufferSz⟩

/-- The handler of a zone, `none` when an assertion fails. -/
def listHandleReadOp (root : Bytes) (zone : ZoneMap) (c : ReadCmd) (mem : Memory) :
    Option ReadReply :=
  if c.hasValue = false ∨ c.valLength < 12 then some ⟨mem, .invalidValueSize, 0⟩
  else
    match readTarget root c with
    | none => some ((Fill.start c mem).done c .unsupportedOption)
    | some (p, start) =>
      match zone p with
      | none => some ((Fill.start c mem).done c .nonexistPrefix)
      | some set =>
        if c.listSize < c.valLength then none
        else
          match startAfter start (entries set) with
          | none => some ((Fill.start c mem).done c .nonexistStartkey)
          | some es =>
            (fillLoop c.maxKeysRequested es (Fill.start c mem)).map fun r =>
              r.1.done c (if r.1.nrKeys = 0 ∧ r.2 = [] then .endOfList else .success)

/-- The zone that `list_get_module_ctx_on_read` sends a request to. The options are root from the
beginning, root from a start key, a prefix from the beginning and a prefix from a start key. -/
def readZone (conf : Conf) (root : Bytes) (c : ReadCmd) : ℕ :=
  zoneOf conf
    (if c.options = 0 ∨ c.options = 1 then root
    else if c.options = 2 then c.key.takeWhile (· ≠ 0)
    else c.key.take c.startKeyOffset)

/-! ### The entries of a reply -/

theorem startAfter_subset {start : Option Bytes} {es es' : List Bytes}
    (h : startAfter start es = some es') : es' ⊆ es := by
  unfold startAfter at h
  split at h
  · cases h
    exact List.Subset.refl es
  · split at h
    · cases h
      exact fun e he => List.dropWhile_sublist _ |>.subset (List.mem_of_mem_tail he)
    · cases h

theorem startAfter_append {l es : List Bytes} {k : Bytes} (hnd : (l ++ k :: es).Nodup) :
    startAfter (some k) (l ++ k :: es) = some es := by
  have hnot : k ∉ l := fun hmem => List.disjoint_of_nodup_append hnd hmem List.mem_cons_self
  have hdrop : (l ++ k :: es).dropWhile (· ≠ k) = k :: es := by
    rw [List.dropWhile_append_of_pos]
    · simp
    · intro x hx
      simp only [ne_eq, decide_not, Bool.not_eq_eq_eq_not, Bool.not_true, decide_eq_false_iff_not]
      rintro rfl
      exact hnot hx
  rw [startAfter, if_pos (by simp), hdrop]
  rfl

/-- The entries that fit into `cap` bytes, at most up to the number that was asked for. The first one
is copied before the number is tested. -/
def pageOf (maxKeys : ℕ) : ℕ → ℕ → List Bytes → List Bytes
  | _, _, [] => []
  | cap, n, k :: ks =>
    if cap < keyDw k * 4 then []
    else k :: if maxKeys ≤ n + 1 then [] else pageOf maxKeys (cap - keyDw k * 4) (n + 1) ks

/-- The copies of a page. -/
def Fill.pushAll (s : Fill) (ks : List Bytes) : Fill := ks.foldl Fill.push s

theorem fillLoop_eq (maxKeys : ℕ) {cap : ℕ} {es : List Bytes} (s : Fill) (hes : [] ∉ es)
    (hcap : s.bufferSz = cap) :
    ∃ rest, fillLoop maxKeys es s = some (s.pushAll (pageOf maxKeys cap s.nrKeys es), rest) ∧
      (pageOf maxKeys cap s.nrKeys es = [] → rest = es) := by
  induction es generalizing s cap with
  | nil => exact ⟨[], rfl, fun _ => rfl⟩
  | cons k ks ih =>
    have hk : k ≠ [] := fun h => hes (h ▸ List.mem_cons_self)
    have hks : [] ∉ ks := fun h => hes (List.mem_cons_of_mem k h)
    simp only [fillLoop, pageOf, hcap]
    by_cases hfit : cap < keyDw k * 4
    · have hfit' : (cap : ℤ) < keyDw k * 4 := by exact_mod_cast hfit
      rw [if_pos hfit', if_pos hfit]
      exact ⟨k :: ks, rfl, fun _ => rfl⟩
    · have hfit' : ¬(cap : ℤ) < keyDw k * 4 := by exact_mod_cast hfit
      rw [if_neg hfit', if_neg hfit, if_neg hk]
      by_cases hmax : maxKeys ≤ s.nrKeys + 1
      · rw [if_pos hmax, if_pos hmax]
        exact ⟨k :: ks, rfl, fun h => by cases h⟩
      · rw [if_neg hmax, if_neg hmax]
        have hcap' : (s.push k).bufferSz = ((cap - keyDw k * 4 : ℕ) : ℤ) := by
          show s.bufferSz - keyDw k * 4 = _
          rw [hcap]
          omega
        obtain ⟨rest, hloop, -⟩ := ih (s.push k) hks hcap'
        exact ⟨rest, hloop, fun h => by cases h⟩

@[simp] theorem nrKeys_pushAll (s : Fill) (ks : List Bytes) :
    (s.pushAll ks).nrKeys = s.nrKeys + ks.length := by
  induction ks generalizing s with
  | nil => rfl
  | cons k ks ih =>
    show ((s.push k).pushAll ks).nrKeys = _
    rw [ih]
    simp only [Fill.push, List.length_cons]
    omega

/-- The bytes of the keys in a buffer. -/
def keysSize (ks : List Bytes) : ℕ := (ks.map fun k => 4 * keyDw k).sum

theorem keysSize_pageOf_le (maxKeys cap n : ℕ) (es : List Bytes) :
    keysSize (pageOf maxKeys cap n es) ≤ cap := by
  induction es generalizing cap n with
  | nil => exact Nat.zero_le cap
  | cons k ks ih =>
    simp only [pageOf]
    split
    · exact Nat.zero_le cap
    · have hrest : keysSize (if maxKeys ≤ n + 1 then []
          else pageOf maxKeys (cap - keyDw k * 4) (n + 1) ks) ≤ cap - keyDw k * 4 := by
        split
        · exact Nat.zero_le _
        · exact ih _ _
      simp only [keysSize, List.map_cons, List.sum_cons] at hrest ⊢
      omega

theorem pageOf_isPrefix (maxKeys cap n : ℕ) (es : List Bytes) : pageOf maxKeys cap n es <+: es := by
  induction es generalizing cap n with
  | nil => exact List.prefix_rfl
  | cons k ks ih =>
    simp only [pageOf]
    split
    · exact List.nil_prefix
    · rw [List.prefix_cons_inj]
      split
      · exact List.nil_prefix
      · exact ih _ _

theorem length_pageOf_le (maxKeys cap n : ℕ) (es : List Bytes) :
    (pageOf maxKeys cap n es).length ≤ max 1 (maxKeys - n) := by
  induction es generalizing cap n with
  | nil => exact Nat.zero_le _
  | cons k ks ih =>
    simp only [pageOf]
    split
    · exact Nat.zero_le _
    · rw [List.length_cons]
      split
      · simp
      · have := ih (cap - keyDw k * 4) (n + 1)
        omega

theorem pageOf_eq_nil_iff {maxKeys cap n : ℕ} {k : Bytes} {ks : List Bytes} :
    pageOf maxKeys cap n (k :: ks) = [] ↔ cap < keyDw k * 4 := by
  simp only [pageOf]
  split <;> simp_all

/-! ### The layout of a reply -/

theorem four_mul_keyDw (k : Bytes) : 4 * keyDw k = unitSize k := by
  unfold keyDw unitSize round4
  omega

theorem push_mem_of_lt (s : Fill) (k : Bytes) {i : ℕ} (hi : i < s.keySz) :
    (s.push k).mem i = s.mem i := by
  simp only [Fill.push, putWord]
  rw [putBytes_of_disjoint (Or.inl hi), putBytes_of_disjoint (Or.inl (by omega))]

theorem pushAll_mem_of_lt (s : Fill) (ks : List Bytes) {i : ℕ} (hi : i < s.keySz) :
    (s.pushAll ks).mem i = s.mem i := by
  induction ks generalizing s with
  | nil => rfl
  | cons k ks ih =>
    show ((s.push k).pushAll ks).mem i = _
    rw [ih (s.push k) (Nat.lt_of_lt_of_le hi (Nat.le_add_right _ _)), push_mem_of_lt s k hi]

/-- The copies of a page lay it out from the first size field on. -/
theorem encodes_pushAll (s : Fill) (ks : List Bytes) (hlen : ∀ k ∈ ks, k.length < 2 ^ 32) :
    Encodes (s.pushAll ks).mem s.keySz ks := by
  induction ks generalizing s with
  | nil => trivial
  | cons k ks ih =>
    have hlt : ∀ i, i < s.keySz + 4 * keyDw k → ((s.push k).pushAll ks).mem i = (s.push k).mem i :=
      fun i hi => pushAll_mem_of_lt (s.push k) ks hi
    have hget : ∀ b n, b + n ≤ s.keySz + 4 * keyDw k →
        getBytes ((s.push k).pushAll ks).mem b n = getBytes (s.push k).mem b n := by
      intro b n hb
      refine List.map_congr_left fun i hi => hlt (b + i) ?_
      rw [List.mem_range] at hi
      omega
    have hdw : 4 + k.length ≤ 4 * keyDw k := by
      unfold keyDw
      omega
    show Encodes ((s.push k).pushAll ks).mem s.keySz (k :: ks)
    have hrest : Encodes ((s.push k).pushAll ks).mem (s.keySz + 4 * keyDw k) ks :=
      ih (s.push k) fun k' hk' => hlen k' (List.mem_cons_of_mem k hk')
    refine ⟨?_, ?_, four_mul_keyDw k ▸ hrest⟩
    · rw [getWord, hget s.keySz 4 (by omega)]
      exact getWord_putWord_self (hlen k List.mem_cons_self)
    · rw [hget (s.keySz + 4) k.length (by omega)]
      show getBytes (putWord _ s.keySz k.length) (s.keySz + 4) k.length = k
      rw [getBytes_putWord_of_disjoint (Or.inr le_rfl)]
      exact getBytes_putBytes_self s.mem (s.keySz + 4) k

/-- The copies of a page with their number before them. -/
theorem Fill.counted {s : Fill} {ks : List Bytes} (hkey : s.keySz = 4) (hnr : s.nrKeys = 0)
    (hnum : ks.length < 2 ^ 32) (hlen : ∀ k ∈ ks, k.length < 2 ^ 32) :
    getWord (putWord (s.pushAll ks).mem 0 (s.pushAll ks).nrKeys) 0 = ks.length ∧
      Encodes (putWord (s.pushAll ks).mem 0 (s.pushAll ks).nrKeys) 4 ks := by
  rw [nrKeys_pushAll, hnr, Nat.zero_add]
  refine ⟨getWord_putWord_self hnum, (hkey ▸ encodes_pushAll s ks hlen).congr fun i hi _ => ?_⟩
  have hi' : 0 + 4 ≤ i := hi
  exact putBytes_of_disjoint (Or.inr hi')

end DssSdk.Listing
