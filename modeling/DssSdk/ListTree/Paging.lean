import DssSdk.ListTree.KeySet

/-!
# Paging through the list tree

A list command writes entries to its value buffer until the buffer or the number of keys is used up.
A reader goes on with the last entry that it got as the start key.

* `doListItemProcess`, `doListIoJudy`: the callback of a listing, and the command;
* `listPages`, `Paged`: a reader, and that its pages are the listing;
* `itemsFrom_cut`: what is left of a listing after a page;
* `paged_iff`: the pages are the listing exactly when no page ends between the two entries of a
  component, and the first key after a page is not also a directory.

A start key loses its delimiter before it reaches the tree, so a listing never begins at a directory
entry.
-/

namespace DssSdk.ListTree

open SortedTable

/-! ### List commands -/

/-- `delim_str[0]`, which is the terminating zero of a string without delimiters. -/
def Ctx.delim (c : Ctx) : Byte := c.delimStr.headD 0

/-- The bytes of an entry: a directory ends with the delimiter. -/
def Item.text (delim : Byte) (it : Item) : Str := if it.isLeaf then it.name else it.name ++ [delim]

/-- `k_dw * 4`: a word for the length, and the bytes in whole words. -/
def Item.size (it : Item) : ℕ :=
  (((if it.isLeaf then it.name.length else it.name.length + 1) + 4 - 1) / 4 + 1) * 4

/-- `dss_list_read_process_ctx_s`, with the entries that are in the value buffer. Their number is
`total_keys`. -/
structure ListReadCtx where
  maxKeys : ℕ
  remBufferLen : ℕ
  keys : List Item

/-- `do_list_item_process`. It returns something else than 0 without room for the entry, and after
the last entry that was asked for. -/
def doListItemProcess (lp : ListReadCtx) (it : Item) : ListReadCtx × Bool :=
  if lp.remBufferLen < it.size then (lp, true)
  else
    (⟨lp.maxKeys, lp.remBufferLen - it.size, lp.keys ++ [it]⟩,
      decide (lp.keys.length + 1 = lp.maxKeys))

/-- The listing context after items. -/
def ListReadCtx.after (lp : ListReadCtx) (passed : List Item) : ListReadCtx :=
  passed.foldl (fun lp it => (doListItemProcess lp it).1) lp

/-- `do_list_io_judy` for a read: the entries in the value buffer, `none` for a listing of the root,
which is not supported. The key is the prefix, and from the offset on a start key. -/
def doListIoJudy (c : Ctx) (maxKeys valLength : ℕ) (key : Str) (offset : ℕ) : Option (List Item) :=
  let lp : ListReadCtx := ⟨maxKeys, (valLength + 2 ^ 32 - 4) % 2 ^ 32, []⟩
  let cb := fun passed it => (doListItemProcess (lp.after passed) it).2
  if offset = 0 then none
  else if offset < key.length then
    let startKey :=
      if key.getLast? = some c.delim then (key.drop offset).dropLast
      else key.drop offset
    some (lp.after (dssHslList c (key.take offset) (some startKey) cb)).keys
  else some (lp.after (dssHslList c key none cb)).keys

/-! ### Readers -/

/-- A reader that begins at a start key, goes on with the last entry of every page, and ends with a
page without entries. -/
def listPages (c : Ctx) (maxKeys valLength : ℕ) (pre : Str) : ℕ → Str → Option (List Item)
  | 0, _ => none
  | fuel + 1, start =>
      (doListIoJudy c maxKeys valLength (pre ++ start) pre.length).bind fun page =>
        match page.getLast? with
        | none => some []
        | some last =>
            (listPages c maxKeys valLength pre fuel (last.text c.delim)).map
              fun rest => page ++ rest

/-- The listing obtained in one call. -/
def oneCall (c : Ctx) (pre : Str) : List Item := dssHslList c pre none fun _ _ => false

/-- The reader ends, and its pages are the listing, with every entry once. -/
def Paged (c : Ctx) (maxKeys valLength : ℕ) (pre : Str) : Prop :=
  (oneCall c pre).Nodup ∧ ∃ fuel, listPages c maxKeys valLength pre fuel [] = some (oneCall c pre)

/-- What a page takes of a listing. -/
def takePage : ℕ → ℕ → List Item → List Item
  | _, _, [] => []
  | maxKeys, rem, it :: l =>
      if rem < it.size then []
      else it :: if maxKeys = 1 then [] else takePage (maxKeys - 1) (rem - it.size) l

/-- A listing goes on after an entry: no entry of the same component is left, and the first key is
not also a directory. -/
def Resumes (last : Item) (rest : List Item) : Prop :=
  (∀ it ∈ rest, it.name ≠ last.name) ∧
    ∀ it, rest.find? Item.isLeaf = some it → ⟨it.name, false⟩ ∉ rest

/-- The listing goes on after every page of it. -/
inductive CleanCuts (maxKeys rem : ℕ) : List Item → Prop
  | done : CleanCuts maxKeys rem []
  | page {page rest : List Item} {last : Item} :
      takePage maxKeys rem (page ++ last :: rest) = page ++ [last] → Resumes last rest →
      CleanCuts maxKeys rem rest → CleanCuts maxKeys rem (page ++ last :: rest)

/-! ### A page -/

section

variable {lp : ListReadCtx} {passed items : List Item} {it : Item} {maxKeys rem : ℕ}

@[simp] theorem after_nil : lp.after [] = lp := rfl

theorem after_concat : lp.after (passed ++ [it]) = (doListItemProcess (lp.after passed) it).1 := by
  unfold ListReadCtx.after
  rw [List.foldl_concat]

theorem takePage_cons (h : it.size ≤ rem) : takePage maxKeys rem (it :: items) =
    it :: if maxKeys = 1 then [] else takePage (maxKeys - 1) (rem - it.size) items := by
  rw [takePage, if_neg (Nat.not_lt.2 h)]

theorem takePage_prefix (maxKeys rem : ℕ) (items : List Item) :
    takePage maxKeys rem items <+: items := by
  induction items generalizing maxKeys rem with
  | nil => exact List.prefix_rfl
  | cons it items ih =>
    unfold takePage
    split_ifs with hrem hmax
    · exact List.nil_prefix
    · exact List.cons_prefix_cons.2 ⟨rfl, List.nil_prefix⟩
    · exact List.cons_prefix_cons.2 ⟨rfl, ih _ _⟩

theorem keys_after_passTo (lp : ListReadCtx) (passed items : List Item)
    (hlen : (lp.after passed).maxKeys = 0 ∨
      (lp.after passed).keys.length < (lp.after passed).maxKeys) :
    (lp.after (passTo (fun passed it => (doListItemProcess (lp.after passed) it).2) passed
      items)).keys = (lp.after passed).keys ++
        takePage ((lp.after passed).maxKeys - (lp.after passed).keys.length)
          (lp.after passed).remBufferLen items := by
  induction items generalizing passed with
  | nil => simp [passTo, takePage]
  | cons it items ih =>
    have hnext := @after_concat lp passed it
    have hih := ih (passed ++ [it])
    rw [hnext] at hih
    unfold passTo takePage
    generalize lp.after passed = lp₁ at hlen hnext hih ⊢
    unfold doListItemProcess at hnext hih ⊢
    by_cases hrem : lp₁.remBufferLen < it.size
    · simp only [hrem, if_true] at hnext ⊢
      rw [hnext, List.append_nil]
    · simp only [hrem, if_false] at hnext hih ⊢
      rw [List.length_append, List.length_singleton] at hih
      by_cases hmax : lp₁.keys.length + 1 = lp₁.maxKeys
      · simp only [hmax, decide_true, if_true]
        rw [hnext, if_pos (by omega)]
      · simp only [hmax, decide_false, Bool.false_eq_true, if_false]
        rw [hih (by omega), if_neg (by omega), List.append_assoc, Nat.sub_sub]
        rfl

end

/-! ### What is left after a page -/

section

variable {skip : Bool} {e : Str × Node} {l : List (Str × Node)} {page rest items : List Item}
  {it last : Item}

theorem nodeItems_cases (skip : Bool) (e : Str × Node) :
    nodeItems skip e = [⟨e.1, true⟩, ⟨e.1, false⟩] ∨ nodeItems skip e = [⟨e.1, true⟩] ∨
      nodeItems skip e = [⟨e.1, false⟩] := by
  unfold nodeItems entryItems
  split_ifs <;> simp

theorem name_of_mem_nodeItems (h : it ∈ nodeItems skip e) : it.name = e.1 := by
  rcases nodeItems_cases skip e with hitems | hitems | hitems <;> rw [hitems] at h <;> simp at h
  · rcases h with rfl | rfl <;> rfl
  · rw [h]
  · rw [h]

theorem nodeItems_cut (h : nodeItems skip e = page ++ last :: rest) :
    rest = [] ∨ rest = [⟨e.1, false⟩] := by
  rcases nodeItems_cases skip e with hitems | hitems | hitems <;> rw [hitems] at h <;>
    rcases page with _ | ⟨i, _ | ⟨j, page⟩⟩ <;> simp at h <;> simp [h]

theorem exists_of_mem_itemsFrom (h : it ∈ itemsFrom skip l) : ∃ e ∈ l, it.name = e.1 := by
  induction l generalizing skip with
  | nil => cases h
  | cons e l ih =>
    rw [itemsFrom_cons, List.mem_append] at h
    rcases h with h | h
    · exact ⟨e, List.mem_cons_self, name_of_mem_nodeItems h⟩
    · obtain ⟨d, hd, hname⟩ := ih h
      exact ⟨d, List.mem_cons_of_mem e hd, hname⟩

theorem itemsFrom_sublist (skip : Bool) (l : List (Str × Node)) :
    (itemsFrom true l).Sublist (itemsFrom skip l) := by
  induction l with
  | nil => exact List.Sublist.refl _
  | cons e l ih =>
    cases skip with
    | true => exact List.Sublist.refl _
    | false =>
      rw [itemsFrom_cons, itemsFrom_cons, Bool.true_and, Bool.false_and]
      apply List.Sublist.append
      · unfold nodeItems entryItems
        cases e.2.type <;> simp [NodeType.isLeaf, NodeType.isBran]
      · cases e.2.type.isLeaf
        · exact ih
        · exact List.Sublist.refl _

theorem dropWhile_eq_self {b : Str} (h : ∀ e ∈ l, b < e.1) :
    (l.dropWhile fun e => decide (e.1 ≤ b)) = l := by
  cases l with
  | nil => rfl
  | cons e l =>
    rw [List.dropWhile_cons, if_neg]
    simpa using h e List.mem_cons_self

theorem lt_of_mem_dropWhile {b : Str} (h : Sorted l)
    (he : e ∈ l.dropWhile fun e => decide (e.1 ≤ b)) : b < e.1 := by
  induction l with
  | nil => cases he
  | cons d l ih =>
    obtain ⟨hhead, htail⟩ := List.pairwise_cons.1 h
    rw [List.dropWhile_cons] at he
    by_cases hd : d.1 ≤ b
    · rw [if_pos (by simpa using hd)] at he
      exact ih htail he
    · rw [if_neg (by simpa using hd)] at he
      have hd := not_le.1 hd
      rcases List.mem_cons.1 he with rfl | he
      · exact hd
      · exact hd.trans (hhead e he)

/-- The items of a table after one of its items: at most the directory form of the same entry, then
those of the entries after it. -/
theorem itemsFrom_cut (h : Sorted l) (heq : itemsFrom skip l = page ++ last :: rest) :
    ∃ extra s, rest = extra ++ itemsFrom s (l.dropWhile fun e => decide (e.1 ≤ last.name)) ∧
      (extra = [] ∨ extra = [⟨last.name, false⟩]) ∧ (skip = false → s = false) := by
  induction l generalizing skip page with
  | nil => simp at heq
  | cons e l ih =>
    obtain ⟨hhead, htail⟩ := List.pairwise_cons.1 h
    rw [itemsFrom_cons] at heq
    have hskip : skip = false → (skip && !e.2.type.isLeaf) = false := by
      rintro rfl
      rfl
    -- the page ends with an item of a later entry
    have hlater : ∀ page', itemsFrom (skip && !e.2.type.isLeaf) l = page' ++ last :: rest →
        ∃ extra s, rest = extra ++ itemsFrom s
          ((e :: l).dropWhile fun e => decide (e.1 ≤ last.name)) ∧
          (extra = [] ∨ extra = [⟨last.name, false⟩]) ∧ (skip = false → s = false) := by
      intro page' hpage
      obtain ⟨d, hd, hname⟩ := exists_of_mem_itemsFrom (show last ∈ _ by rw [hpage]; simp)
      obtain ⟨extra, s, hcut, hextra, hs⟩ := ih htail hpage
      have hle : e.1 ≤ last.name := by
        rw [hname]
        exact (hhead d hd).le
      refine ⟨extra, s, ?_, hextra, fun h => hs (hskip h)⟩
      rw [List.dropWhile_cons, if_pos (decide_eq_true hle)]
      exact hcut
    rcases List.append_eq_append_iff.1 heq with ⟨page', rfl, hrest⟩ | ⟨left, hnode, hrest⟩
    · exact hlater page' hrest
    · cases left with
      | nil => exact hlater [] hrest.symm
      | cons it left =>
        rw [List.cons_append, List.cons.injEq] at hrest
        obtain ⟨rfl, rfl⟩ := hrest
        have hname : last.name = e.1 := name_of_mem_nodeItems (by rw [hnode]; simp)
        refine ⟨left, _, ?_, ?_, hskip⟩
        · rw [List.dropWhile_cons, if_pos (decide_eq_true hname.ge), hname, dropWhile_eq_self hhead]
        · rw [hname]
          exact nodeItems_cut hnode

theorem itemsFrom_true_eq_iff (h : Sorted l) : itemsFrom true l = itemsFrom false l ↔
    ∀ it, (itemsFrom false l).find? Item.isLeaf = some it →
      ⟨it.name, false⟩ ∉ itemsFrom false l := by
  induction l with
  | nil => simp
  | cons e l ih =>
    obtain ⟨hhead, htail⟩ := List.pairwise_cons.1 h
    have hne : ∀ it ∈ itemsFrom false l, it.name ≠ e.1 := by
      intro it hit heq
      obtain ⟨d, hd, hname⟩ := exists_of_mem_itemsFrom hit
      exact (hhead d hd).ne (heq.symm.trans hname)
    rw [itemsFrom_cons, itemsFrom_cons, Bool.true_and, Bool.false_and]
    unfold nodeItems entryItems
    cases hty : e.2.type with
    | hybr =>
      refine iff_of_false (fun heq => ?_) fun hno => ?_
      · have hlen := congrArg List.length heq
        simp [NodeType.isLeaf, NodeType.isBran] at hlen
      · exact hno ⟨e.1, true⟩ (by simp [NodeType.isLeaf])
          (by simp [NodeType.isLeaf, NodeType.isBran])
    | leaf =>
      refine iff_of_true (by simp [NodeType.isLeaf]) fun it hit hmem => ?_
      simp [NodeType.isLeaf, NodeType.isBran] at hit hmem
      rw [← hit] at hmem
      exact hne _ hmem rfl
    | root | bran =>
      simp [NodeType.isLeaf, ih htail]
      refine forall_congr' fun it => imp_congr_right fun hit => ?_
      have hit := hne it (List.mem_of_find?_eq_some hit)
      simp [hit]

theorem resumes_iff {extra : List Item} (h : Sorted l) (hlast : ∀ e ∈ l, last.name < e.1)
    (hextra : extra = [] ∨ extra = [⟨last.name, false⟩]) :
    Resumes last (extra ++ itemsFrom false l) ↔ itemsFrom true l = extra ++ itemsFrom false l := by
  rcases hextra with rfl | rfl
  · rw [List.nil_append, itemsFrom_true_eq_iff h]
    refine and_iff_right fun it hit heq => ?_
    obtain ⟨d, hd, hname⟩ := exists_of_mem_itemsFrom hit
    exact (hlast d hd).ne (heq.symm.trans hname)
  · refine iff_of_false (fun hno => hno.1 ⟨last.name, false⟩ (by simp) rfl) fun heq => ?_
    have hle := (itemsFrom_sublist false l).length_le
    rw [heq] at hle
    simp at hle

theorem dropWhile_suffix {table : List (Str × Node)} (h : Sorted table) (hl : l <:+ table)
    (he : e ∈ l) : (table.dropWhile fun d => decide (d.1 ≤ e.1)) =
      l.dropWhile fun d => decide (d.1 ≤ e.1) := by
  obtain ⟨before, rfl⟩ := hl
  apply List.dropWhile_append_of_pos
  intro d hd
  exact decide_eq_true ((List.pairwise_append.1 h).2.2 d hd e he).le

theorem itemsFrom_suffix_cut {table : List (Str × Node)} (h : Sorted table) (hl : l <:+ table)
    (heq : itemsFrom skip l = page ++ last :: rest) :
    ∃ extra s,
      rest = extra ++ itemsFrom s (table.dropWhile fun e => decide (e.1 ≤ last.name)) ∧
      (extra = [] ∨ extra = [⟨last.name, false⟩]) ∧ (skip = false → s = false) := by
  have hsorted : Sorted l := List.Pairwise.sublist hl.sublist h
  obtain ⟨e, he, hname⟩ := exists_of_mem_itemsFrom (show last ∈ _ by rw [heq]; simp)
  rw [hname, dropWhile_suffix h hl he, ← hname]
  exact itemsFrom_cut hsorted heq

/-- After a page of a listing that begins with both forms, the listing goes on exactly when a start
key that names the last entry gives what is left. -/
theorem resumes_iff_of_cut {table : List (Str × Node)} (h : Sorted table) (hl : l <:+ table)
    (heq : itemsFrom false l = page ++ last :: rest) :
    (Resumes last rest ↔
      itemsFrom true (table.dropWhile fun e => decide (e.1 ≤ last.name)) = rest) ∧
    (itemsFrom false (table.dropWhile fun e => decide (e.1 ≤ last.name))).Sublist rest := by
  obtain ⟨extra, s, rfl, hextra, hs⟩ := itemsFrom_suffix_cut h hl heq
  rw [hs rfl]
  exact ⟨resumes_iff (List.Pairwise.sublist (List.dropWhile_suffix _).sublist h) (fun e he => lt_of_mem_dropWhile h he) hextra,
    List.sublist_append_right _ _⟩

end

/-! ### Commands -/

/-- The table that a listing reads. -/
def listedNodes (c : Ctx) (pre : Str) : List (Str × Node) :=
  if maxKlen < pre.length then []
  else
    let toks := tokens c.delimStr pre
    let toks' := if toks.head? = some c.rootPrefix then toks.tail else toks
    ((findNode c.lnode toks').map Node.subtree).getD []

/-- The room that a command has for entries. -/
def room (valLength : ℕ) : ℕ := (valLength + 2 ^ 32 - 4) % 2 ^ 32

section

variable {c : Ctx} {pre : Str} {maxKeys valLength : ℕ}

theorem dssHslList_none (c : Ctx) (pre : Str) (cb : List Item → Item → Bool) :
    dssHslList c pre none cb = passTo cb [] (itemsFrom false (listedNodes c pre)) := by
  unfold dssHslList listedNodes
  split_ifs with hlen
  · rfl
  · dsimp only
    rw [← listLoop_eq]
    cases findNode c.lnode _ <;> rfl

theorem dssHslList_some (c : Ctx) (pre start : Str) (cb : List Item → Item → Bool) :
    dssHslList c pre (some start) cb =
      passTo cb [] (itemsFrom (startAt c start (listedNodes c pre)).1
        (startAt c start (listedNodes c pre)).2) := by
  unfold dssHslList listedNodes
  split_ifs with hlen
  · unfold startAt
    split_ifs <;> rfl
  · dsimp only
    rw [← listLoop_eq]
    cases findNode c.lnode _ with
    | some n => rfl
    | none =>
      unfold startAt
      split_ifs <;> rfl

theorem oneCall_eq (c : Ctx) (pre : Str) : oneCall c pre = itemsFrom false (listedNodes c pre) := by
  unfold oneCall
  rw [dssHslList_none, passTo_all, List.nil_append]

theorem doListIoJudy_first (hpre : pre ≠ []) :
    doListIoJudy c maxKeys valLength (pre ++ []) pre.length =
      some (takePage maxKeys (room valLength) (oneCall c pre)) := by
  unfold doListIoJudy
  rw [List.append_nil, if_neg (by simpa using hpre), if_neg (Nat.lt_irrefl _), dssHslList_none,
    ← oneCall_eq]
  exact congrArg some (keys_after_passTo _ [] _ (Nat.eq_zero_or_pos maxKeys))

/-- The page of a command with an entry as its start key: the delimiter of a directory is lost, and
the listing begins after both forms of the component. -/
theorem doListIoJudy_next {last : Item} (hpre : pre ≠ [])
    (hname : last.name ≠ []) (hdelim : c.delim ∉ last.name) :
    doListIoJudy c maxKeys valLength (pre ++ last.text c.delim) pre.length =
      some (takePage maxKeys (room valLength)
        (itemsFrom true ((listedNodes c pre).dropWhile fun e => decide (e.1 ≤ last.name)))) := by
  have hlast : last.name.getLast? = some (last.name.getLast hname) := List.getLast?_eq_some_getLast _
  have hne : last.name.getLast hname ≠ c.delim := by
    intro heq
    exact hdelim (heq ▸ List.getLast_mem hname)
  have htext : last.text c.delim ≠ [] := by
    unfold Item.text
    split_ifs <;> simp [hname]
  have hstart : (if (pre ++ last.text c.delim).getLast? = some c.delim
      then ((pre ++ last.text c.delim).drop pre.length).dropLast
      else (pre ++ last.text c.delim).drop pre.length) = last.name := by
    rw [List.drop_left, List.getLast?_append_of_ne_nil _ htext]
    unfold Item.text
    cases last.isLeaf with
    | false => simp
    | true =>
      simp only [if_true]
      rw [if_neg fun heq => hne (Option.some.inj (hlast.symm.trans heq))]
  have hat : startAt c last.name (listedNodes c pre) =
      (true, (listedNodes c pre).dropWhile fun e => decide (e.1 ≤ last.name)) := by
    unfold startAt
    rw [if_neg]
    rw [hlast]
    intro heq
    apply hne
    rw [Ctx.delim, List.headD_eq_head?_getD, ← heq]
    rfl
  unfold doListIoJudy
  dsimp only
  rw [if_neg (by simpa using hpre), if_pos, hstart, List.take_left, dssHslList_some, hat]
  · exact congrArg some (keys_after_passTo _ [] _ (Nat.eq_zero_or_pos maxKeys))
  · rw [List.length_append]
    have := List.length_pos_of_ne_nil htext
    omega

end

/-! ### Components -/

section

variable {delim : List Byte} {tok : Str}

theorem not_mem_of_splitOnPPrepend {p : Byte → Bool} {s acc : Str}
    (h : tok ∈ List.splitOnPPrepend p s acc) (hacc : ∀ b ∈ acc, p b = false) :
    ∀ b ∈ tok, p b = false := by
  induction s generalizing acc with
  | nil =>
    rw [List.splitOnPPrepend_nil, List.mem_singleton] at h
    rw [h]
    exact fun b hb => hacc b (List.mem_reverse.1 hb)
  | cons x s ih =>
    rw [List.splitOnPPrepend_cons_eq_if] at h
    split_ifs at h with hx
    · rcases List.mem_cons.1 h with rfl | h
      · exact fun b hb => hacc b (List.mem_reverse.1 hb)
      · exact ih h fun b hb => (nomatch hb)
    · apply ih h
      intro b hb
      rcases List.mem_cons.1 hb with rfl | hb
      · simpa using hx
      · exact hacc b hb

theorem component_of_mem_tokens {s : Str} (h : tok ∈ tokens delim s) :
    tok ≠ [] ∧ ∀ b ∈ tok, b ∉ delim := by
  obtain ⟨hmem, hne⟩ := List.mem_filter.1 h
  refine ⟨by simpa using hne, fun b hb => ?_⟩
  simpa using not_mem_of_splitOnPPrepend hmem (fun b hb => (nomatch hb)) b hb

theorem length_tokens_nil (s : Str) : (tokens [] s).length ≤ 1 := by
  unfold tokens
  rw [List.splitOnP_eq_singleton (by simp)]
  exact List.length_filter_le _ _

theorem exists_tokens_of_mem {rootPrefix : Str} {calls : List Call} {path : List Str}
    (h : path ∈ keysAfter rootPrefix delim calls) : ∃ key, path = tokens delim key := by
  unfold keysAfter at h
  have hgen : ∀ keys : Set (List Str), (∀ p ∈ keys, ∃ key, p = tokens delim key) →
      ∀ p ∈ calls.foldl (keysStep rootPrefix delim) keys, ∃ key, p = tokens delim key := by
    clear h
    induction calls with
    | nil => exact fun keys hkeys => hkeys
    | cons call calls ih =>
      intro keys hkeys
      apply ih
      intro p hp
      cases call with
      | insert key =>
        rcases hp with hp | ⟨-, hp, -⟩
        · exact hkeys p hp
        · exact ⟨key, hp⟩
      | delete key => exact hkeys p hp.1
  exact hgen ∅ (fun p hp => (nomatch hp)) path h

theorem name_of_mem_keys {rootPrefix : Str} {calls : List Call} {path : List Str}
    (h : path ∈ keysAfter rootPrefix delim calls) (htok : tok ∈ path) (hlen : 2 ≤ path.length) :
    tok ≠ [] ∧ delim.headD 0 ∉ tok := by
  obtain ⟨key, rfl⟩ := exists_tokens_of_mem h
  obtain ⟨hne, hdelim⟩ := component_of_mem_tokens htok
  refine ⟨hne, fun hmem => ?_⟩
  cases delim with
  | nil =>
    have := length_tokens_nil key
    omega
  | cons d delim => exact hdelim d hmem List.mem_cons_self

end

/-! ### The pages of a listing -/

/-- A listing that can be read in pages: the table is sorted, the names of its entries can be told
from their delimiter, and there is room for every entry. -/
structure Pageable (c : Ctx) (maxKeys valLength : ℕ) (pre : Str) : Prop where
  sorted : Sorted (listedNodes c pre)
  name : ∀ it ∈ oneCall c pre, it.name ≠ [] ∧ c.delim ∉ it.name
  pre_ne : pre ≠ []
  maxKeys_pos : 1 ≤ maxKeys
  fits : ∀ it ∈ oneCall c pre, it.size ≤ room valLength

/-- A command with this start key takes its page of these items. -/
def Reads (c : Ctx) (maxKeys valLength : ℕ) (pre start : Str) (items : List Item) : Prop :=
  doListIoJudy c maxKeys valLength (pre ++ start) pre.length =
    some (takePage maxKeys (room valLength) items)

section

variable {c : Ctx} {maxKeys valLength fuel : ℕ} {pre start : Str} {skip : Bool}
  {l : List (Str × Node)} {page rest items res : List Item} {last it : Item}

theorem mem_oneCall (hl : l <:+ listedNodes c pre) (h : it ∈ itemsFrom skip l) :
    it ∈ oneCall c pre := by
  have hfalse : it ∈ itemsFrom false l := by
    cases skip with
    | false => exact h
    | true => exact (itemsFrom_sublist false l).subset h
  rw [oneCall_eq]
  obtain ⟨before, hl⟩ := hl
  rw [itemsFrom_false] at hfalse ⊢
  rw [← hl, List.flatMap_append]
  exact List.mem_append_right _ hfalse

theorem Pageable.takePage_eq_nil (h : Pageable c maxKeys valLength pre)
    (hl : l <:+ listedNodes c pre) (hpage : takePage maxKeys (room valLength) (itemsFrom skip l) = []) :
    itemsFrom skip l = [] := by
  cases hitems : itemsFrom skip l with
  | nil => rfl
  | cons it items =>
    rw [hitems, takePage_cons (h.fits it (mem_oneCall hl (by rw [hitems]; simp)))] at hpage
    cases hpage

theorem Pageable.reads_next (h : Pageable c maxKeys valLength pre) (hl : l <:+ listedNodes c pre)
    (hlast : last ∈ itemsFrom skip l) :
    Reads c maxKeys valLength pre (last.text c.delim)
      (itemsFrom true ((listedNodes c pre).dropWhile fun e => decide (e.1 ≤ last.name))) := by
  obtain ⟨hne, hdelim⟩ := h.name last (mem_oneCall hl hlast)
  exact doListIoJudy_next h.pre_ne hne hdelim

theorem listPages_succ (hreads : Reads c maxKeys valLength pre start items) :
    listPages c maxKeys valLength pre (fuel + 1) start =
      match (takePage maxKeys (room valLength) items).getLast? with
      | none => some []
      | some last =>
          (listPages c maxKeys valLength pre fuel (last.text c.delim)).map
            fun rest => takePage maxKeys (room valLength) items ++ rest := by
  rw [listPages, hreads, Option.bind_some]

theorem Pageable.pages_cases (h : Pageable c maxKeys valLength pre) (hl : l <:+ listedNodes c pre)
    (hreads : Reads c maxKeys valLength pre start (itemsFrom skip l))
    (hres : listPages c maxKeys valLength pre (fuel + 1) start = some res) :
    itemsFrom skip l = [] ∧ res = [] ∨
    ∃ page last rest res', itemsFrom skip l = page ++ last :: rest ∧
      takePage maxKeys (room valLength) (itemsFrom skip l) = page ++ [last] ∧
      res = page ++ last :: res' ∧
      listPages c maxKeys valLength pre fuel (last.text c.delim) = some res' := by
  rw [listPages_succ hreads] at hres
  rcases List.eq_nil_or_concat (takePage maxKeys (room valLength) (itemsFrom skip l)) with
    hnil | ⟨page, last, hpage⟩
  · rw [hnil] at hres
    cases hres
    exact Or.inl ⟨h.takePage_eq_nil hl hnil, rfl⟩
  · rw [List.concat_eq_append] at hpage
    obtain ⟨rest, hrest⟩ := takePage_prefix maxKeys (room valLength) (itemsFrom skip l)
    rw [hpage, List.append_assoc] at hrest
    rw [hpage, List.getLast?_concat] at hres
    obtain ⟨res', hres', rfl⟩ := Option.map_eq_some_iff.1 hres
    exact Or.inr ⟨page, last, rest, res', hrest.symm, hpage, List.append_assoc _ _ _, hres'⟩

theorem Pageable.sublist_of_pages (h : Pageable c maxKeys valLength pre)
    (hl : l <:+ listedNodes c pre)
    (hreads : Reads c maxKeys valLength pre start (itemsFrom skip l))
    (hres : listPages c maxKeys valLength pre fuel start = some res) :
    res.Sublist (itemsFrom skip l) := by
  induction fuel generalizing l skip start res with
  | zero => cases hres
  | succ fuel ih =>
    rcases h.pages_cases hl hreads hres with ⟨-, rfl⟩ | ⟨page, last, rest, res', heq, -, rfl, hres'⟩
    · exact List.nil_sublist _
    · have hlast : last ∈ itemsFrom skip l := by simp [heq]
      obtain ⟨extra, s, hrest, -, -⟩ := itemsFrom_suffix_cut h.sorted hl heq
      rw [heq]
      refine (List.Sublist.refl page).append (List.Sublist.cons_cons last ?_)
      rw [hrest]
      exact (ih (List.dropWhile_suffix _) (h.reads_next hl hlast) hres').trans
        ((itemsFrom_sublist s _).trans (List.sublist_append_right _ _))

theorem Pageable.cleanCuts (h : Pageable c maxKeys valLength pre) (hl : l <:+ listedNodes c pre)
    (hreads : Reads c maxKeys valLength pre start (itemsFrom false l))
    (hres : listPages c maxKeys valLength pre fuel start = some (itemsFrom false l)) :
    CleanCuts maxKeys (room valLength) (itemsFrom false l) := by
  induction fuel generalizing l start with
  | zero => cases hres
  | succ fuel ih =>
    rcases h.pages_cases hl hreads hres with ⟨hnil, -⟩ | ⟨page, last, rest, res', heq, hpage, hall, hres'⟩
    · rw [hnil]
      exact .done
    · have hlast : last ∈ itemsFrom false l := by simp [heq]
      obtain ⟨hiff, hsub⟩ := resumes_iff_of_cut h.sorted hl heq
      have hnext := h.reads_next hl hlast
      -- what the reader gets after the page is all that is left
      obtain rfl : rest = res' := by
        rw [heq] at hall
        simpa using hall
      have hrest := h.sublist_of_pages (List.dropWhile_suffix _) hnext hres'
      have htrue := (((itemsFrom_sublist false _).trans hsub).antisymm hrest)
      have hfalse := hsub.antisymm (hrest.trans (itemsFrom_sublist false _))
      rw [htrue] at hnext
      rw [heq] at hpage ⊢
      refine .page hpage (hiff.2 htrue) ?_
      rw [← hfalse] at hnext hres' ⊢
      exact ih (List.dropWhile_suffix _) hnext hres'

theorem Pageable.pages_of_cleanCuts (h : Pageable c maxKeys valLength pre)
    (hcuts : CleanCuts maxKeys (room valLength) items) (hl : l <:+ listedNodes c pre)
    (heq : items = itemsFrom false l)
    (hreads : Reads c maxKeys valLength pre start items) :
    ∃ fuel, listPages c maxKeys valLength pre fuel start = some items := by
  induction hcuts generalizing l start with
  | done => exact ⟨1, by rw [listPages_succ hreads]; rfl⟩
  | @page page rest last hpage hresumes hcuts ih =>
    have hlast : last ∈ itemsFrom false l := by simp [← heq]
    obtain ⟨hiff, hsub⟩ := resumes_iff_of_cut h.sorted hl heq.symm
    have htrue := hiff.1 hresumes
    have hfalse := hsub.antisymm (htrue ▸ itemsFrom_sublist false _)
    have hnext := h.reads_next hl hlast
    rw [htrue] at hnext
    obtain ⟨fuel, hfuel⟩ := ih (List.dropWhile_suffix _) hfalse.symm hnext
    refine ⟨fuel + 1, ?_⟩
    rw [listPages_succ hreads, hpage, List.getLast?_concat]
    simp [hfuel]

theorem Pageable.paged_iff_cleanCuts (h : Pageable c maxKeys valLength pre) :
    Paged c maxKeys valLength pre ↔ CleanCuts maxKeys (room valLength) (oneCall c pre) := by
  have hreads : Reads c maxKeys valLength pre [] (oneCall c pre) :=
    doListIoJudy_first h.pre_ne
  have hnodup : (oneCall c pre).Nodup := by
    rw [oneCall_eq, itemsFrom_false]
    refine (pairwise_flatMap_entryItems h.sorted).imp fun hbefore heq => ?_
    rcases hbefore with hlt | ⟨-, hi, hj⟩
    · exact hlt.ne (congrArg Item.name heq)
    · rw [heq, hj] at hi
      cases hi
  constructor
  · rintro ⟨-, fuel, hfuel⟩
    rw [oneCall_eq] at hreads hfuel ⊢
    exact h.cleanCuts List.suffix_rfl hreads hfuel
  · exact fun hcuts =>
      ⟨hnodup, h.pages_of_cleanCuts hcuts List.suffix_rfl (oneCall_eq c pre) hreads⟩

end

/-! ### Runs -/

section

variable {rootPrefix : Str} {delimStr : List Byte} {calls : List Call} {c : Ctx}
  {maxKeys valLength : ℕ} {pre : Str}

theorem sorted_listedNodes (h : c.lnode.Wf) (pre : Str) : Sorted (listedNodes c pre) := by
  unfold listedNodes
  split_ifs with hlen
  · exact List.Pairwise.nil
  · dsimp only
    generalize (if (tokens c.delimStr pre).head? = some c.rootPrefix then
      (tokens c.delimStr pre).tail else tokens c.delimStr pre) = path
    rcases findNode_eq path h with ⟨m, -, hwf, hsub⟩ | ⟨-, hnone⟩
    · rw [hsub]
      exact hwf.sorted [] m rfl
    · rw [hnone]
      exact List.Pairwise.nil

theorem name_of_mem_oneCall {it : Item}
    (h : Inv rootPrefix delimStr c (keysAfter rootPrefix delimStr calls)) (hit : it ∈ oneCall c pre) :
    it.name ≠ [] ∧ c.delim ∉ it.name := by
  unfold Ctx.delim
  by_cases hlen : pre.length ≤ maxKlen
  · obtain ⟨items, hlist, hcb⟩ := h.listing hlen
    unfold oneCall at hit
    rw [hcb, passTo_all, List.nil_append] at hit
    rw [h.delimStr_eq]
    have hpath : 1 ≤ (listedPath rootPrefix delimStr pre).length := by
      unfold listedPath
      split_ifs with hhead
      · exact List.length_pos_of_ne_nil fun hnil => by rw [hnil] at hhead; cases hhead
      · simp
    obtain ⟨name, isLeaf⟩ := it
    cases isLeaf with
    | true => exact name_of_mem_keys ((hlist.leaf name).1 hit) (by simp) (by simpa using hpath)
    | false =>
      obtain ⟨e, toks, hkey⟩ := (hlist.directory name).1 hit
      exact name_of_mem_keys hkey (by simp) (by simp; omega)
  · rw [oneCall_eq] at hit
    unfold listedNodes at hit
    rw [if_pos (Nat.not_le.1 hlen)] at hit
    cases hit

/-- The pages of a tree that calls built are its listing exactly when the listing goes on after
every page. -/
theorem paged_iff (hrun : Run.run step (dssHslNewCtx rootPrefix delimStr) calls = some c)
    (hpre : pre ≠ []) (hmax : 1 ≤ maxKeys) (hval : valLength < 2 ^ 32)
    (hfits : ∀ it ∈ oneCall c pre, 4 + it.size ≤ valLength) :
    Paged c maxKeys valLength pre ↔ CleanCuts maxKeys (room valLength) (oneCall c pre) := by
  obtain ⟨c', hrun', hinv⟩ := (inv_new rootPrefix delimStr).run
    (Run.admissible_of_run (fun _ _ _ => callOk_of_step) hrun)
  obtain rfl : c' = c := Option.some.inj (hrun'.symm.trans hrun)
  refine Pageable.paged_iff_cleanCuts ⟨sorted_listedNodes hinv.wf pre,
    fun it hit => name_of_mem_oneCall hinv hit, hpre, hmax, fun it hit => ?_⟩
  have hroom := hfits it hit
  unfold room
  omega

end

/-- The tree of `r/a`, `r/a/x` and `r/b`. -/
def sampleCtx : Ctx :=
  ⟨[114], [47], .mk .root [([97], .mk .hybr [([120], .mk .leaf [])]), ([98], .mk .leaf [])]⟩

def sampleCalls : List Call :=
  [.insert [114, 47, 97], .insert [114, 47, 97, 47, 120], .insert [114, 47, 98]]

/-- `a`, `a/` and `b`, two at a time. -/
theorem paged_pairs : Paged sampleCtx 2 64 [114] := by
  have hall : oneCall sampleCtx [114] = [⟨[97], true⟩] ++ ⟨[97], false⟩ :: [⟨[98], true⟩] := by
    decide +kernel
  refine (@paged_iff [114] [47] sampleCalls sampleCtx 2 64 [114] rfl (by decide) (by decide)
    (by decide) (by decide +kernel)).2 ?_
  rw [hall]
  refine .page (by decide +kernel) ⟨by decide, by decide⟩ ?_
  exact @CleanCuts.page 2 (room 64) [] [] ⟨[98], true⟩ (by decide +kernel)
    ⟨by decide, by decide⟩ .done

/-- One at a time, the page after `a` has `b` and not `a/`. -/
theorem not_paged_single : Run.run step (dssHslNewCtx [114] [47]) sampleCalls = some sampleCtx ∧
    (∀ it ∈ oneCall sampleCtx [114], 4 + it.size ≤ 64) ∧ ¬ Paged sampleCtx 1 64 [114] := by
  refine ⟨rfl, by decide +kernel, ?_⟩
  rintro ⟨-, fuel, hfuel⟩
  have hall : oneCall sampleCtx [114] = [⟨[97], true⟩, ⟨[97], false⟩, ⟨[98], true⟩] := by
    decide +kernel
  have hfirst : doListIoJudy sampleCtx 1 64 [114] 1 = some [⟨[97], true⟩] := by decide +kernel
  have hsecond : doListIoJudy sampleCtx 1 64 [114, 97] 1 = some [⟨[98], true⟩] := by
    decide +kernel
  have hthird : doListIoJudy sampleCtx 1 64 [114, 98] 1 = some [] := by decide +kernel
  rw [hall] at hfuel
  rcases fuel with _ | _ | _ | fuel <;>
    simp [listPages, Item.text, hfirst, hsecond, hthird] at hfuel

end DssSdk.ListTree
