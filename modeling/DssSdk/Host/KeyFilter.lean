import DssSdk.Lib.Run
import DssSdk.Listing.Update

/-!
# The filter of the keys of an iterator

`nkv_framework.cpp`: the keys that the iterator of a device gives are filtered by a prefix and a
delimiter, in the slots of the output.

* `Slot`, `IterState`: the output, and what an iteration keeps;
* `filterAndPopulateKeysFromPath`, `findKeysFromPath`: the functions of these names, the second for one
  key of its loop;
* `reference`: the listing of a sequence of keys;
* `Clean`: the keys for which the output is the listing, except that a key that is the prefix gives no
  entry when there is a delimiter;
* `listing_of_run`: the output in every run of such keys.

A prefix and a delimiter are texts of C, so they have no zero. Texts that are not terminated in their
buffer, and writes behind a buffer, stop the run. Not modelled: the keys of the listing cache
(`cached_keys`).
-/

namespace DssSdk.Host.KeyFilter

open Run Listing

/-! ### Texts -/

/-- `strstr` on a buffer: the text ends at its first zero. `none` when the buffer has no zero and the text
was not found. -/
def strstr (buffer needle : Bytes) : Option Bool :=
  if needle <:+: buffer.takeWhile (· ≠ 0) then some true
  else if 0 ∈ buffer then some false
  else none

/-- `std::string::find`. -/
def findSub (needle : Bytes) : Bytes → Option ℕ
  | [] => if needle = [] then some 0 else none
  | x :: xs => if needle <+: x :: xs then some 0 else (findSub needle xs).map (· + 1)

/-- `strcpy` into a buffer, with the zero at the end. -/
def strcpy (buffer text : Bytes) : Option Bytes :=
  if (text.takeWhile (· ≠ 0)).length < buffer.length then
    some (text.takeWhile (· ≠ 0) ++ 0 :: buffer.drop ((text.takeWhile (· ≠ 0)).length + 1))
  else none

/-- `memcpy` into a buffer. -/
def memcpy (buffer text : Bytes) : Option Bytes :=
  if text.length ≤ buffer.length then some (text ++ buffer.drop text.length) else none

/-! ### The iteration -/

/-- A key of the output: its buffer, and its length, which is the one of the buffer at first. -/
structure Slot where
  key : Bytes
  length : ℕ
  deriving DecidableEq, Repr

/-- The output of a call with the number of its keys and the place of the first of them, the directories
and the excess keys of the iterator, and the local variables of `find_keys_from_path`. `listed` has the
output of the calls before. -/
structure IterState where
  keys : List Slot
  start : ℕ
  numKeysIterted : ℕ
  maxKeys : ℕ
  dirEntriesAdded : Finset Bytes
  excessKeys : Finset Bytes
  noSpace : Bool
  key : Bytes
  listed : List Bytes

/-- The key that the current slot gets, of this length. -/
def IterState.added (s : IterState) (slot : Slot) (keySize : ℕ) : IterState :=
  { s with
    keys := s.keys.set s.numKeysIterted { slot with length := keySize }
    numKeysIterted := s.numKeysIterted + 1 }

/-- A text that is copied into the current slot. -/
def IterState.copied (s : IterState) (slot : Slot) (text : Bytes) : Option IterState :=
  if slot.length < text.length then none
  else (strcpy slot.key text).map fun buffer => s.added { slot with key := buffer } text.length

/-- A directory, which is added once. -/
def IterState.dir (s : IterState) (slot : Slot) (text : Bytes) : Option IterState :=
  if text ∈ s.dirEntriesAdded then some s
  else (s.copied slot text).map fun s' => { s' with dirEntriesAdded := insert text s.dirEntriesAdded }

/-- `filter_and_populate_keys_from_path` for the key in the current slot; `none` when an assertion fails or
a buffer is left. -/
def filterAndPopulateKeysFromPath (pre : Option Bytes) (delimiter : Option UInt8) (s : IterState)
    (slot : Slot) (keySize : ℕ) : Option IterState :=
  match pre, delimiter with
  | none, none => some (s.added slot keySize)
  | some p, none => (strstr slot.key p).map fun found => if found then s.added slot keySize else s
  | none, some d =>
      match (slot.key.take keySize).findIdx? (· = d) with
      | none => some (s.added slot keySize)
      | some found => s.dir slot ((slot.key.take keySize).take (found + 1))
  | some p, some d =>
      match findSub p (slot.key.take keySize) with
      | none => some s
      | some found =>
          let rest := (slot.key.take keySize).drop (found + p.length)
          match rest.findIdx? (· = d) with
          | some found => s.dir slot (rest.take (found + 1))
          | none => if rest = [] then some s else s.copied slot rest

/-- The loop of `find_keys_from_path` for one key of the iterator. -/
def findKeysFromPath (pre : Option Bytes) (delimiter : Option UInt8) (s : IterState) (diskKey : Bytes) :
    Option IterState :=
  if s.noSpace ∨ s.maxKeys ≤ s.numKeysIterted then
    let s := if s.maxKeys ≤ s.numKeysIterted then { s with maxKeys := s.numKeysIterted } else s
    (memcpy s.key diskKey).bind fun key =>
      if 0 ∈ key then
        some { s with
          noSpace := true
          key := key
          excessKeys := insert (key.takeWhile (· ≠ 0)) s.excessKeys }
      else none
  else
    match s.keys[s.numKeysIterted]? with
    | none => none
    | some slot =>
        if slot.length < diskKey.length then none
        else
          (memcpy slot.key diskKey).bind fun buffer =>
            let slot := { slot with key := buffer }
            filterAndPopulateKeysFromPath pre delimiter
              { s with keys := s.keys.set s.numKeysIterted slot } slot diskKey.length

/-- What happens in an iteration: a call with a new output, a list of keys from the device, and a key of
this list. -/
inductive IterEvent
  | call (keys : List Slot) (num maxKeys : ℕ)
  | batch
  | feed (diskKey : Bytes)
  deriving DecidableEq, Repr

/-- The keys of the current output. -/
def IterState.current (s : IterState) : List Bytes :=
  ((s.keys.take s.numKeysIterted).drop s.start).map fun slot => slot.key.take slot.length

/-- The output of the whole iteration. -/
def IterState.output (s : IterState) : List Bytes := s.listed ++ s.current

/-- A step of the iteration. -/
def iterStep (pre : Option Bytes) (delimiter : Option UInt8) (s : IterState) : IterEvent → Option IterState
  | .call keys num maxKeys =>
      some { s with
        keys := keys
        start := num
        numKeysIterted := num
        maxKeys := maxKeys
        listed := s.output }
  | .batch => some { s with noSpace := false, key := List.replicate 256 0 }
  | .feed diskKey => findKeysFromPath pre delimiter s diskKey

/-- Before the first call. -/
def IterState.init : IterState := ⟨[], 0, 0, 0, ∅, ∅, false, List.replicate 256 0, []⟩

/-! ### The listing -/

/-- What a key contributes: the rest behind the prefix up to the delimiter, the whole rest, or the whole
key without a delimiter. -/
def contributes (pre : Option Bytes) (delimiter : Option UInt8) (k : Bytes) : Option Bytes :=
  if pre.getD [] <+: k then
    match delimiter with
    | none => some k
    | some d =>
        let rest := k.drop (pre.getD []).length
        some (if d ∈ rest then rest.takeWhile (· ≠ d) ++ [d] else rest)
  else none

/-- The text is a directory. -/
def IsDir (delimiter : Option UInt8) (c : Bytes) : Prop := ∃ d ∈ delimiter, d ∈ c

instance (delimiter : Option UInt8) (c : Bytes) : Decidable (IsDir delimiter c) :=
  inferInstanceAs (Decidable (∃ d ∈ delimiter, d ∈ c))

/-- A key is listed: each directory once. -/
def listKey (pre : Option Bytes) (delimiter : Option UInt8) (r : Finset Bytes × List Bytes) (k : Bytes) :
    Finset Bytes × List Bytes :=
  match contributes pre delimiter k with
  | none => r
  | some c =>
      if IsDir delimiter c then if c ∈ r.1 then r else (insert c r.1, r.2 ++ [c])
      else (r.1, r.2 ++ [c])

/-- The listing of a sequence of keys. -/
def reference (pre : Option Bytes) (delimiter : Option UInt8) (ks : List Bytes) : List Bytes :=
  (ks.foldl (listKey pre delimiter) (∅, [])).2

/-- The keys that are fed to the filter. -/
def fedKeys (evs : List IterEvent) : List Bytes :=
  evs.filterMap fun
    | .feed k => some k
    | _ => none

/-- A key that is the prefix has no text behind it, and is passed over when there is a delimiter. -/
def NotPassedOver (pre : Option Bytes) (delimiter : Option UInt8) (k : Bytes) : Prop :=
  ¬ (delimiter.isSome ∧ pre = some k)

instance (pre : Option Bytes) (delimiter : Option UInt8) (k : Bytes) :
    Decidable (NotPassedOver pre delimiter k) :=
  inferInstanceAs (Decidable (¬ _))

/-! ### The condition -/

/-- A key fits the buffer of its slot: the prefix is at its start or nowhere in the text that is searched,
and a text that is copied has no zero and leaves room for one. -/
def CleanKey (pre : Option Bytes) (delimiter : Option UInt8) (buffer k : Bytes) : Prop :=
  k.length ≤ buffer.length ∧
    match pre, delimiter with
    | none, none => True
    | some p, none =>
        p <+: k ∨ ¬ p <:+: (k ++ buffer.drop k.length).takeWhile (· ≠ 0) ∧
          0 ∈ k ++ buffer.drop k.length
    | none, some d => d ∈ k → (k.takeWhile (· ≠ d)).length + 1 < buffer.length
    | some p, some _ =>
        if p <+: k then ∀ c ∈ contributes pre delimiter k, 0 ∉ c ∧ c.length < buffer.length
        else ¬ p <:+: k

instance (pre : Option Bytes) (delimiter : Option UInt8) (buffer k : Bytes) :
    Decidable (CleanKey pre delimiter buffer k) := by
  unfold CleanKey
  split <;> infer_instance

/-- The output of a call has slots for its keys, with the lengths of their buffers; and the output has
room for a key, which fits its slot. -/
def Clean (pre : Option Bytes) (delimiter : Option UInt8) (s : IterState) : IterEvent → Prop
  | .call keys num maxKeys =>
      maxKeys ≤ keys.length ∧ num ≤ maxKeys ∧ ∀ slot ∈ keys.drop num, slot.length = slot.key.length
  | .batch => True
  | .feed k =>
      s.numKeysIterted < s.maxKeys ∧
        ∀ slot ∈ s.keys[s.numKeysIterted]?, CleanKey pre delimiter slot.key k

instance (pre : Option Bytes) (delimiter : Option UInt8) (s : IterState) (ev : IterEvent) :
    Decidable (Clean pre delimiter s ev) := by
  unfold Clean
  split <;> infer_instance

/-! ### The searches -/

section
variable {l needle buffer text : Bytes} {d : UInt8} {i : ℕ}

theorem take_of_findIdx (h : l.findIdx? (· = d) = some i) :
    d ∈ l ∧ l.take (i + 1) = l.takeWhile (· ≠ d) ++ [d] := by
  induction l generalizing i with
  | nil => cases h
  | cons x l ih =>
    rw [List.findIdx?_cons] at h
    by_cases hx : x = d
    · subst hx
      simp only [decide_true, if_true, Option.some.injEq] at h
      subst h
      simp
    · simp only [hx, decide_false, Bool.false_eq_true, if_false, Option.map_eq_some_iff] at h
      obtain ⟨j, hj, rfl⟩ := h
      obtain ⟨hmem, htake⟩ := ih hj
      refine ⟨List.mem_cons_of_mem x hmem, ?_⟩
      rw [List.take_succ_cons, htake, List.takeWhile_cons_of_pos (by simpa using hx), List.cons_append]

theorem not_mem_of_findIdx (h : l.findIdx? (· = d) = none) : d ∉ l := by
  intro hmem
  have hne := List.findIdx?_eq_none_iff.1 h d hmem
  simp at hne

theorem findSub_eq_zero (h : needle <+: l) : findSub needle l = some 0 := by
  cases l with
  | nil => rw [findSub, if_pos (List.prefix_nil.1 h)]
  | cons x l => rw [findSub, if_pos h]

theorem findSub_eq_none (h : ¬ needle <:+: l) : findSub needle l = none := by
  induction l with
  | nil =>
    rw [findSub, if_neg]
    rintro rfl
    exact h List.nil_infix
  | cons x l ih =>
    rw [findSub, if_neg fun hp => h hp.isInfix, ih fun hi => h (hi.trans (List.suffix_cons x l).isInfix)]
    rfl

theorem takeWhile_of_no_zero (h : 0 ∉ text) (t : Bytes) :
    (text ++ t).takeWhile (· ≠ 0) = text ++ t.takeWhile (· ≠ 0) := by
  apply List.takeWhile_append_of_pos
  intro x hx
  simp only [ne_eq, decide_not, Bool.not_eq_eq_eq_not, Bool.not_true, decide_eq_false_iff_not]
  rintro rfl
  exact h hx

theorem exists_zero (h : 0 ∈ text) : ∃ t, text = text.takeWhile (· ≠ 0) ++ 0 :: t := by
  induction text with
  | nil => cases h
  | cons x text ih =>
    by_cases hx : x = 0
    · subst hx
      exact ⟨text, by simp⟩
    · obtain ⟨t, ht⟩ := ih ((List.mem_cons.1 h).resolve_left (Ne.symm hx))
      refine ⟨t, ?_⟩
      rw [List.takeWhile_cons_of_pos (by simpa using hx), List.cons_append, ← ht]

theorem strstr_of_prefix (h : needle <+: buffer) (hzero : 0 ∉ needle) : strstr buffer needle = some true := by
  obtain ⟨t, rfl⟩ := h
  rw [strstr, takeWhile_of_no_zero hzero, if_pos (List.prefix_append needle _).isInfix]

theorem strcpy_spec (hroom : (text.takeWhile (· ≠ 0)).length < buffer.length)
    (hlen : text.length ≤ buffer.length) (h : 0 ∉ text ∨ text <+: buffer) :
    ∃ buffer', strcpy buffer text = some buffer' ∧ buffer'.length = buffer.length ∧
      buffer'.take text.length = text := by
  refine ⟨_, if_pos hroom, ?_, ?_⟩
  · simp only [List.length_append, List.length_cons, List.length_drop]
    omega
  · by_cases hzero : 0 ∈ text
    · obtain ⟨t, rfl⟩ := h.resolve_left fun hnot => hnot hzero
      obtain ⟨u, hu⟩ := exists_zero hzero
      -- the buffer is written as it is
      have hsame : text.takeWhile (· ≠ 0) ++ 0 :: (text ++ t).drop ((text.takeWhile (· ≠ 0)).length + 1) =
          text ++ t := by
        generalize text.takeWhile (· ≠ 0) = w at hu
        subst hu
        have hdrop : (w ++ 0 :: u ++ t).drop (w.length + 1) = u ++ t := by
          rw [List.append_assoc, ← List.drop_drop, List.drop_left]
          rfl
        rw [hdrop, List.append_assoc, List.cons_append]
      rw [hsame, List.take_left]
    · have hself := takeWhile_of_no_zero hzero []
      rw [List.append_nil, List.takeWhile_nil, List.append_nil] at hself
      rw [hself, List.take_left]

end

/-! ### The output -/

section
variable {pre : Option Bytes} {delimiter : Option UInt8} {s s' : IterState} {slot : Slot} {n : ℕ}
variable {r : Finset Bytes × List Bytes} {k text : Bytes}

/-- The iteration has listed these directories and entries. -/
structure IterInv (r : Finset Bytes × List Bytes) (s : IterState) : Prop where
  dirs : s.dirEntriesAdded = r.1
  output : s.output = r.2
  space : s.noSpace = false
  start : s.start ≤ s.numKeysIterted
  num : s.numKeysIterted ≤ s.maxKeys
  room : s.maxKeys ≤ s.keys.length
  slots : ∀ slot ∈ s.keys.drop s.numKeysIterted, slot.length = slot.key.length

theorem IterInv.nextSlot (h : IterInv r s) (hroom : s.numKeysIterted < s.maxKeys) :
    ∃ slot, s.keys[s.numKeysIterted]? = some slot ∧ slot.length = slot.key.length := by
  have hlt : s.numKeysIterted < s.keys.length := hroom.trans_le h.room
  refine ⟨_, List.getElem?_eq_getElem hlt, h.slots _ ?_⟩
  rw [List.drop_eq_getElem_cons hlt]
  exact List.mem_cons_self

theorem IterInv.fill (h : IterInv r s) (hroom : s.numKeysIterted < s.maxKeys)
    (hslot : slot.length = slot.key.length) :
    IterInv r { s with keys := s.keys.set s.numKeysIterted slot } := by
  refine ⟨h.dirs, ?_, h.space, h.start, h.num, ?_, ?_⟩
  · rw [← h.output]
    simp only [IterState.output, IterState.current, List.take_set_of_le le_rfl]
  · simpa using h.room
  · intro slot' hmem
    have hlt : s.numKeysIterted < s.keys.length := hroom.trans_le h.room
    have hdrop : (s.keys.set s.numKeysIterted slot).drop s.numKeysIterted =
        slot :: s.keys.drop (s.numKeysIterted + 1) := by
      rw [List.drop_eq_getElem_cons (by simpa using hlt), List.getElem_set_self,
        List.drop_set_of_lt (Nat.lt_succ_self _)]
    rw [hdrop] at hmem
    rcases List.mem_cons.1 hmem with rfl | hmem
    · exact hslot
    · apply h.slots slot'
      rw [List.drop_eq_getElem_cons hlt]
      exact List.mem_cons_of_mem _ hmem

/-- The next key is listed. -/
theorem IterInv.added (h : IterInv r s) (hroom : s.numKeysIterted < s.maxKeys) :
    IterInv (r.1, r.2 ++ [slot.key.take n]) (s.added slot n) := by
  have hlt : s.numKeysIterted < s.keys.length := hroom.trans_le h.room
  refine ⟨h.dirs, ?_, h.space, h.start.trans (Nat.le_succ _), hroom, ?_, ?_⟩
  · have htake : (s.keys.set s.numKeysIterted { slot with length := n }).take (s.numKeysIterted + 1) =
        s.keys.take s.numKeysIterted ++ [{ slot with length := n }] := by
      rw [List.take_add_one, List.take_set_of_le le_rfl, List.getElem?_set_self hlt]
      rfl
    have hdrop : s.start ≤ (s.keys.take s.numKeysIterted).length := by
      rw [List.length_take]
      exact le_min h.start (h.start.trans hlt.le)
    rw [← h.output]
    simp only [IterState.output, IterState.current, IterState.added, htake, List.drop_append_of_le_length hdrop,
      List.map_append, List.map_cons, List.map_nil, List.append_assoc]
  · simpa [IterState.added] using h.room
  · intro slot' hmem
    apply h.slots slot'
    simp only [IterState.added, List.drop_set_of_lt (Nat.lt_succ_self _)] at hmem
    rw [List.drop_eq_getElem_cons hlt]
    exact List.mem_cons_of_mem _ hmem

/-- A copied text is listed. -/
theorem IterInv.copied (h : IterInv r s) (hroom : s.numKeysIterted < s.maxKeys)
    (hslot : slot.length = slot.key.length) (hlen : text.length ≤ slot.key.length)
    (hzero : (text.takeWhile (· ≠ 0)).length < slot.key.length) (htext : 0 ∉ text ∨ text <+: slot.key) :
    ∃ s', s.copied slot text = some s' ∧ IterInv (r.1, r.2 ++ [text]) s' := by
  obtain ⟨buffer', hcopy, -, htake⟩ := strcpy_spec hzero hlen htext
  have hinv := @IterInv.added s { slot with key := buffer' } text.length r h hroom
  rw [show ({ slot with key := buffer' } : Slot).key.take text.length = text from htake] at hinv
  refine ⟨_, ?_, hinv⟩
  rw [IterState.copied, if_neg (by omega), hcopy]
  rfl

theorem IterInv.dir (h : IterInv r s) (hroom : s.numKeysIterted < s.maxKeys)
    (hslot : slot.length = slot.key.length) (hlen : text.length ≤ slot.key.length)
    (hzero : (text.takeWhile (· ≠ 0)).length < slot.key.length) (htext : 0 ∉ text ∨ text <+: slot.key) :
    ∃ s', s.dir slot text = some s' ∧
      IterInv (if text ∈ r.1 then r else (insert text r.1, r.2 ++ [text])) s' := by
  by_cases hmem : text ∈ r.1
  · exact ⟨s, if_pos (h.dirs ▸ hmem), by rw [if_pos hmem]; exact h⟩
  · obtain ⟨s', hs', hinv⟩ := h.copied hroom hslot hlen hzero htext
    refine ⟨{ s' with dirEntriesAdded := insert text s.dirEntriesAdded }, ?_, ?_⟩
    · rw [IterState.dir, if_neg (h.dirs ▸ hmem), hs']
      rfl
    · rw [if_neg hmem, h.dirs]
      exact ⟨rfl, hinv.output, hinv.space, hinv.start, hinv.num, hinv.room, hinv.slots⟩

/-- What is listed for a key, in the amended way. -/
def listKeyAmended (pre : Option Bytes) (delimiter : Option UInt8) (r : Finset Bytes × List Bytes)
    (k : Bytes) : Finset Bytes × List Bytes :=
  if NotPassedOver pre delimiter k then listKey pre delimiter r k else r

theorem listKey_of_contributes {c : Bytes} (hc : contributes pre delimiter k = some c)
    (hdir : ¬ IsDir delimiter c) : listKey pre delimiter r k = (r.1, r.2 ++ [c]) := by
  rw [listKey, hc]
  exact if_neg hdir

theorem listKey_of_dir {c : Bytes} (hc : contributes pre delimiter k = some c) (hdir : IsDir delimiter c) :
    listKey pre delimiter r k = if c ∈ r.1 then r else (insert c r.1, r.2 ++ [c]) := by
  rw [listKey, hc]
  exact if_pos hdir

theorem listKey_elsewhere (h : ¬ pre.getD [] <+: k) : listKey pre delimiter r k = r := by
  have hc : contributes pre delimiter k = none := if_neg h
  rw [listKey, hc]

/-- The key in the slot. -/
structure InSlot (slot : Slot) (buffer k : Bytes) : Prop where
  length : slot.length = slot.key.length
  key : slot.key = k ++ buffer.drop k.length
  buffer : slot.key.length = buffer.length

theorem InSlot.take {buffer : Bytes} (h : InSlot slot buffer k) : slot.key.take k.length = k := by
  rw [h.key, List.take_left]

theorem IterInv.filter_whole {buffer : Bytes} (h : IterInv r s) (hroom : s.numKeysIterted < s.maxKeys)
    (hin : InSlot slot buffer k) (hpre : ∀ p ∈ pre, 0 ∉ p) (hclean : CleanKey pre none buffer k) :
    ∃ s', filterAndPopulateKeysFromPath pre none s slot k.length = some s' ∧
      IterInv (listKeyAmended pre none r k) s' := by
  have hnot : NotPassedOver pre none k := fun hc => by cases hc.1
  have hadded := @IterInv.added s slot k.length r h hroom
  rw [hin.take] at hadded
  have hdir : ¬ IsDir none k := fun ⟨_, hd, _⟩ => by cases hd
  rw [listKeyAmended, if_pos hnot]
  cases pre with
  | none =>
    have hc : contributes none none k = some k := if_pos List.nil_prefix
    rw [listKey_of_contributes hc hdir]
    exact ⟨_, rfl, hadded⟩
  | some p =>
    obtain ⟨-, hprefix | ⟨hinside, hzero⟩⟩ := hclean
    · have hc : contributes (some p) none k = some k := if_pos hprefix
      have hfound : strstr slot.key p = some true :=
        strstr_of_prefix (hin.key ▸ hprefix.trans (List.prefix_append _ _)) (hpre p rfl)
      rw [listKey_of_contributes hc hdir]
      refine ⟨_, ?_, hadded⟩
      rw [filterAndPopulateKeysFromPath, hfound]
      rfl
    · have hno : ¬ p <+: k := by
        intro hp
        apply hinside
        obtain ⟨t, rfl⟩ := hp
        rw [List.append_assoc, takeWhile_of_no_zero (hpre p rfl)]
        exact (List.prefix_append p _).isInfix
      have hfound : strstr slot.key p = some false := by
        rw [strstr, hin.key, if_neg hinside, if_pos hzero]
      rw [@listKey_elsewhere (some p) none r k hno]
      refine ⟨s, ?_, h⟩
      rw [filterAndPopulateKeysFromPath, hfound]
      rfl

theorem isDir_of_mem {d : UInt8} {c : Bytes} (h : d ∈ c) : IsDir (some d) c := ⟨d, rfl, h⟩

theorem not_isDir {d : UInt8} {c : Bytes} (h : d ∉ c) : ¬ IsDir (some d) c := by
  rintro ⟨d', hd', hmem⟩
  cases hd'
  exact h hmem

theorem IterInv.filter_delimiter {d : UInt8} {buffer : Bytes} (h : IterInv r s)
    (hroom : s.numKeysIterted < s.maxKeys) (hin : InSlot slot buffer k)
    (hclean : CleanKey none (some d) buffer k) :
    ∃ s', filterAndPopulateKeysFromPath none (some d) s slot k.length = some s' ∧
      IterInv (listKeyAmended none (some d) r k) s' := by
  have hnot : NotPassedOver none (some d) k := fun hc => by cases hc.2
  have hc : contributes none (some d) k = some (if d ∈ k then k.takeWhile (· ≠ d) ++ [d] else k) :=
    if_pos List.nil_prefix
  obtain ⟨hlen, hcopy⟩ := hclean
  rw [listKeyAmended, if_pos hnot, filterAndPopulateKeysFromPath, hin.take]
  cases hfind : k.findIdx? (· = d) with
  | none =>
    have hd : d ∉ k := not_mem_of_findIdx hfind
    rw [if_neg hd] at hc
    have hadded := @IterInv.added s slot k.length r h hroom
    rw [hin.take] at hadded
    rw [listKey_of_contributes hc (not_isDir hd)]
    exact ⟨_, rfl, hadded⟩
  | some i =>
    obtain ⟨hd, htake⟩ := take_of_findIdx hfind
    rw [if_pos hd] at hc
    rw [listKey_of_dir hc (isDir_of_mem (by simp))]
    dsimp only
    rw [htake]
    have hpre : k.takeWhile (· ≠ d) ++ [d] <+: slot.key := by
      rw [← htake, hin.key]
      exact (List.take_prefix _ _).trans (List.prefix_append _ _)
    apply h.dir hroom hin.length hpre.length_le _ (Or.inr hpre)
    have hle := (List.takeWhile_prefix (l := k.takeWhile (· ≠ d) ++ [d]) (p := (· ≠ 0))).length_le
    have hroom' := hcopy hd
    rw [List.length_append, List.length_singleton] at hle
    rw [hin.buffer]
    omega

theorem IterInv.filter_both {d : UInt8} {p buffer : Bytes} (h : IterInv r s)
    (hroom : s.numKeysIterted < s.maxKeys) (hin : InSlot slot buffer k)
    (hclean : CleanKey (some p) (some d) buffer k) :
    ∃ s', filterAndPopulateKeysFromPath (some p) (some d) s slot k.length = some s' ∧
      IterInv (listKeyAmended (some p) (some d) r k) s' := by
  obtain ⟨hlen, hcopy⟩ := hclean
  simp only [filterAndPopulateKeysFromPath] at hcopy ⊢
  rw [hin.take]
  by_cases hprefix : p <+: k
  · rw [if_pos hprefix] at hcopy
    have hdrop : k.drop (0 + p.length) = k.drop p.length := by rw [Nat.zero_add]
    rw [findSub_eq_zero hprefix]
    dsimp only
    rw [hdrop]
    have hc : contributes (some p) (some d) k = some (if d ∈ k.drop p.length then
        (k.drop p.length).takeWhile (· ≠ d) ++ [d] else k.drop p.length) := if_pos hprefix
    have hcopies : ∀ c, contributes (some p) (some d) k = some c → c.length ≤ slot.key.length ∧
        (c.takeWhile (· ≠ 0)).length < slot.key.length ∧ (0 ∉ c ∨ c <+: slot.key) := by
      intro c hcc
      obtain ⟨hzero, hlt⟩ := hcopy c hcc
      have hle := (List.takeWhile_prefix (l := c) (p := (· ≠ 0))).length_le
      rw [hin.buffer]
      exact ⟨hlt.le, hle.trans_lt hlt, Or.inl hzero⟩
    have hnot : k.drop p.length ≠ [] → NotPassedOver (some p) (some d) k := by
      rintro hne ⟨-, heq⟩
      cases heq
      exact hne List.drop_length
    cases hfind : (k.drop p.length).findIdx? (· = d) with
    | some i =>
      obtain ⟨hd, htake⟩ := take_of_findIdx hfind
      rw [if_pos hd] at hc
      obtain ⟨h1, h2, h3⟩ := hcopies _ hc
      dsimp only
      rw [htake, listKeyAmended, if_pos (hnot (List.ne_nil_of_mem hd)),
        listKey_of_dir hc (isDir_of_mem (by simp))]
      exact h.dir hroom hin.length h1 h2 h3
    | none =>
      have hd := not_mem_of_findIdx hfind
      rw [if_neg hd] at hc
      dsimp only
      by_cases hnil : k.drop p.length = []
      · have hpass : ¬ NotPassedOver (some p) (some d) k := by
          obtain ⟨t, rfl⟩ := hprefix
          rw [List.drop_left] at hnil
          rw [hnil, List.append_nil]
          exact fun hn => hn ⟨rfl, rfl⟩
        rw [if_pos hnil, listKeyAmended, if_neg hpass]
        exact ⟨s, rfl, h⟩
      · obtain ⟨h1, h2, h3⟩ := hcopies _ hc
        rw [if_neg hnil, listKeyAmended, if_pos (hnot hnil), listKey_of_contributes hc (not_isDir hd)]
        exact h.copied hroom hin.length h1 h2 h3
  · rw [if_neg hprefix] at hcopy
    rw [findSub_eq_none hcopy]
    have hsame : listKeyAmended (some p) (some d) r k = r := by
      rw [listKeyAmended, @listKey_elsewhere (some p) (some d) r k hprefix]
      exact ite_self r
    rw [hsame]
    exact ⟨s, rfl, h⟩

theorem IterInv.filter {buffer : Bytes} (h : IterInv r s) (hroom : s.numKeysIterted < s.maxKeys)
    (hin : InSlot slot buffer k) (hpre : ∀ p ∈ pre, 0 ∉ p) (hclean : CleanKey pre delimiter buffer k) :
    ∃ s', filterAndPopulateKeysFromPath pre delimiter s slot k.length = some s' ∧
      IterInv (listKeyAmended pre delimiter r k) s' := by
  cases delimiter with
  | none => exact h.filter_whole hroom hin hpre hclean
  | some d =>
    cases pre with
    | none => exact h.filter_delimiter hroom hin hclean
    | some p => exact h.filter_both hroom hin hclean

/-- The directories and entries after an event. -/
def listEvent (pre : Option Bytes) (delimiter : Option UInt8) (r : Finset Bytes × List Bytes) :
    IterEvent → Finset Bytes × List Bytes
  | .feed k => listKeyAmended pre delimiter r k
  | _ => r

/-- A step that meets the condition lists its key. -/
theorem IterInv.step {ev : IterEvent} (h : IterInv r s) (hpre : ∀ p ∈ pre, 0 ∉ p)
    (hok : Clean pre delimiter s ev) :
    ∃ s', iterStep pre delimiter s ev = some s' ∧ IterInv (listEvent pre delimiter r ev) s' := by
  cases ev with
  | call keys num maxKeys =>
    obtain ⟨hlen, hnum, hslots⟩ := hok
    refine ⟨_, rfl, h.dirs, ?_, h.space, le_rfl, hnum, hlen, hslots⟩
    have hnone : (keys.take num).drop num = [] := by
      rw [List.drop_eq_nil_iff, List.length_take]
      exact min_le_left _ _
    show _ = r.2
    rw [← h.output, IterState.output, IterState.current]
    dsimp only
    rw [hnone, List.map_nil, List.append_nil]
  | batch => exact ⟨_, rfl, h.dirs, h.output, rfl, h.start, h.num, h.room, h.slots⟩
  | feed k =>
    obtain ⟨hroom, hkeys⟩ := hok
    obtain ⟨slot, hget, hslot⟩ := h.nextSlot hroom
    have hclean := hkeys slot hget
    have hcopy : memcpy slot.key k = some (k ++ slot.key.drop k.length) := if_pos hclean.1
    have hlen : (k ++ slot.key.drop k.length).length = slot.key.length := by
      have := hclean.1
      rw [List.length_append, List.length_drop]
      omega
    have hspace : ¬ (s.noSpace ∨ s.maxKeys ≤ s.numKeysIterted) := by
      rw [h.space]
      simpa using hroom
    have hfit : ¬ slot.length < k.length := by
      rw [hslot]
      exact not_lt.2 hclean.1
    have hfill := h.fill hroom (show ({ slot with key := k ++ slot.key.drop k.length } : Slot).length = _ from
      hslot.trans hlen.symm)
    have hin : InSlot { slot with key := k ++ slot.key.drop k.length } slot.key k :=
      ⟨hslot.trans hlen.symm, rfl, hlen⟩
    obtain ⟨s', hs', hinv⟩ := hfill.filter hroom hin hpre hclean
    refine ⟨s', ?_, hinv⟩
    rw [iterStep, findKeysFromPath, if_neg hspace, hget]
    dsimp only
    rw [if_neg hfit, hcopy]
    exact hs'

end

/-! ### Runs -/

theorem iterInv_init : IterInv (∅, []) IterState.init :=
  ⟨rfl, rfl, rfl, le_rfl, le_rfl, le_rfl, fun slot hmem => by cases hmem⟩

/-- A run lists its keys. -/
theorem IterInv.run {pre : Option Bytes} {delimiter : Option UInt8} {r : Finset Bytes × List Bytes}
    {s : IterState} {evs : List IterEvent} (h : IterInv r s) (hpre : ∀ p ∈ pre, 0 ∉ p)
    (hok : Admissible (iterStep pre delimiter) (Clean pre delimiter) s evs) :
    ∃ s', Run.run (iterStep pre delimiter) s evs = some s' ∧
      IterInv (evs.foldl (listEvent pre delimiter) r) s' := by
  induction evs generalizing r s with
  | nil => exact ⟨s, rfl, h⟩
  | cons ev evs ih =>
    obtain ⟨hev, hrest⟩ := hok
    obtain ⟨s₁, h₁, hinv⟩ := h.step hpre hev
    obtain ⟨s', hs', hinv'⟩ := ih hinv (hrest s₁ h₁)
    exact ⟨s', by rw [run_cons, h₁, Option.bind_some, hs'], hinv'⟩

theorem foldl_listEvent (pre : Option Bytes) (delimiter : Option UInt8) (evs : List IterEvent)
    (r : Finset Bytes × List Bytes) :
    evs.foldl (listEvent pre delimiter) r =
      ((fedKeys evs).filter fun k => NotPassedOver pre delimiter k).foldl (listKey pre delimiter) r := by
  induction evs generalizing r with
  | nil => rfl
  | cons ev evs ih =>
    rw [List.foldl_cons, ih]
    cases ev with
    | call keys num maxKeys => rfl
    | batch => rfl
    | feed k =>
      have hfed : fedKeys (.feed k :: evs) = k :: fedKeys evs := rfl
      rw [hfed, listEvent, listKeyAmended]
      by_cases hk : NotPassedOver pre delimiter k
      · rw [if_pos hk, List.filter_cons_of_pos (by simpa using hk), List.foldl_cons]
      · rw [if_neg hk, List.filter_cons_of_neg (by simpa using hk)]

/-- **The filter of the keys.** For every prefix and delimiter, in every iteration whose keys fit their
slots the output is the listing of the keys that are fed, without those that are the prefix when there is
a delimiter. -/
theorem listing_of_run {pre : Option Bytes} {delimiter : Option UInt8} {evs : List IterEvent}
    (hpre : ∀ p ∈ pre, 0 ∉ p)
    (hok : Admissible (iterStep pre delimiter) (Clean pre delimiter) IterState.init evs) :
    ∃ s, run (iterStep pre delimiter) IterState.init evs = some s ∧
      s.output = reference pre delimiter ((fedKeys evs).filter fun k => NotPassedOver pre delimiter k) := by
  obtain ⟨s, hs, hinv⟩ := iterInv_init.run hpre hok
  rw [foldl_listEvent] at hinv
  exact ⟨s, hs, hinv.output⟩

/-- An output of `n` keys of eight bytes. -/
def emptySlots (n : ℕ) : List Slot := List.replicate n ⟨List.replicate 8 0, 8⟩

/-- The keys `a/b`, `a/c/d`, `x`, `a/` and `a/c/e` with the prefix `a/`, in two calls. -/
def twoCalls : List IterEvent :=
  [.call (emptySlots 2) 0 2, .batch, .feed [97, 47, 98], .feed [97, 47, 99, 47, 100],
    .call (emptySlots 2) 0 2, .batch, .feed [120], .feed [97, 47], .feed [97, 47, 99, 47, 101]]

theorem listing_twoCalls :
    ∃ s, run (iterStep (some [97, 47]) (some 47)) IterState.init twoCalls = some s ∧
      s.output = reference (some [97, 47]) (some 47)
        ((fedKeys twoCalls).filter fun k => NotPassedOver (some [97, 47]) (some 47) k) :=
  listing_of_run (by decide) (by decide)

/-- The key `a/` starts with the prefix `a/`, and the rest behind the prefix has no delimiter: it is to be
contributed, and is passed over. -/
theorem not_listing_prefix :
    ∃ s, run (iterStep (some [97, 47]) (some 47)) IterState.init
        [.call (emptySlots 2) 0 2, .batch, .feed [97, 47]] = some s ∧
      s.output = [] ∧ reference (some [97, 47]) (some 47) [[97, 47]] = [[]] := by
  exact ⟨_, rfl, by decide, by decide⟩

end DssSdk.Host.KeyFilter
