import DssSdk.ListTree.Tree

/-!
# The list tree as a set of keys

* `Node.walk`, `Node.Has`: the node of a path, and the keys of a tree as paths of components;
* `Node.Wf`: tables are sorted, the nodes with a subtree are the branches, and there is a key at or
  below every node;
* `insertTokens_has`, `deleteKey_has`: the keys after an insertion and a deletion;
* `listLoop_eq`, `listing_of_has`: what a listing passes to its callback;
* `listed_iff`: the tree lists the set of keys after calls, exactly when no call deletes the root
  prefix or a path that is only a directory.
-/

namespace DssSdk.ListTree

open SortedTable

/-! ### Paths -/

/-- The node of a path. -/
def Node.walk : Node → List Str → Option Node
  | n, [] => some n
  | n, tok :: toks => (get tok n.subtree).bind fun m => m.walk toks

/-- The path is a key of the tree. -/
def Node.Has (n : Node) (toks : List Str) : Prop :=
  ∃ m, n.walk toks = some m ∧ m.type.isLeaf = true

/-- A node below the root. -/
structure Node.Child (n : Node) : Prop where
  bran : n.type.isBran = true ↔ n.subtree ≠ []
  some : ∃ toks, n.Has toks

/-- A well-formed tree. -/
structure Node.Wf (n : Node) : Prop where
  sorted : ∀ toks m, n.walk toks = some m → Sorted m.subtree
  child : ∀ tok toks m, n.walk (tok :: toks) = some m → m.Child

section

variable {n m : Node} {tok : Str} {toks : List Str} {ty : NodeType} {sub : List (Str × Node)}

@[simp] theorem type_mk : (Node.mk ty sub).type = ty := rfl

@[simp] theorem subtree_mk : (Node.mk ty sub).subtree = sub := rfl

@[simp] theorem walk_nil (n : Node) : n.walk [] = some n := rfl

theorem walk_cons_iff :
    n.walk (tok :: toks) = some m ↔ ∃ c, get tok n.subtree = some c ∧ c.walk toks = some m :=
  Option.bind_eq_some_iff

@[simp] theorem has_nil : n.Has [] ↔ n.type.isLeaf = true := by
  constructor
  · rintro ⟨m, hm, hleaf⟩
    cases hm
    exact hleaf
  · exact fun h => ⟨n, rfl, h⟩

theorem has_cons : n.Has (tok :: toks) ↔ ∃ c, get tok n.subtree = some c ∧ c.Has toks := by
  constructor
  · rintro ⟨m, hm, hleaf⟩
    obtain ⟨c, hc, hm⟩ := walk_cons_iff.1 hm
    exact ⟨c, hc, m, hm, hleaf⟩
  · rintro ⟨c, hc, m, hm, hleaf⟩
    exact ⟨m, walk_cons_iff.2 ⟨c, hc, hm⟩, hleaf⟩

theorem has_cons_mk :
    (Node.mk ty sub).Has (tok :: toks) ↔ ∃ c, get tok sub = some c ∧ c.Has toks := has_cons

theorem wf_iff : n.Wf ↔ Sorted n.subtree ∧
    ∀ tok c, get tok n.subtree = some c → c.Child ∧ c.Wf := by
  constructor
  · intro h
    refine ⟨h.sorted [] n rfl, fun tok c hc => ⟨h.child tok [] c ?_, fun toks m hm => ?_,
      fun tok' toks m hm => ?_⟩⟩
    · exact walk_cons_iff.2 ⟨c, hc, rfl⟩
    · exact h.sorted (tok :: toks) m (walk_cons_iff.2 ⟨c, hc, hm⟩)
    · exact h.child tok (tok' :: toks) m (walk_cons_iff.2 ⟨c, hc, hm⟩)
  · rintro ⟨hsorted, hchild⟩
    refine ⟨fun toks m hm => ?_, fun tok toks m hm => ?_⟩
    · cases toks with
      | nil =>
        cases hm
        exact hsorted
      | cons tok toks =>
        obtain ⟨c, hc, hm⟩ := walk_cons_iff.1 hm
        exact (hchild tok c hc).2.sorted toks m hm
    · obtain ⟨c, hc, hm⟩ := walk_cons_iff.1 hm
      cases toks with
      | nil =>
        cases hm
        exact (hchild tok _ hc).1
      | cons tok' toks => exact (hchild tok c hc).2.child tok' toks m hm

theorem wf_mk : (Node.mk ty sub).Wf ↔ Sorted sub ∧
    ∀ tok c, get tok sub = some c → c.Child ∧ c.Wf := wf_iff

theorem wf_new : Node.new.Wf := by
  refine wf_iff.2 ⟨List.Pairwise.nil, fun tok c hc => ?_⟩
  cases hc

theorem wf_put {c : Node} (h : (Node.mk ty sub).Wf) (hc : c.Child) (hwf : c.Wf) :
    (Node.mk ty (put tok c sub)).Wf := by
  obtain ⟨hsorted, hchild⟩ := wf_mk.1 h
  refine wf_mk.2 ⟨hsorted.put tok c, fun tok' c' hc' => ?_⟩
  rw [get_put] at hc'
  split_ifs at hc' with heq
  · cases hc'
    exact ⟨hc, hwf⟩
  · exact hchild tok' c' hc'

theorem wf_del (h : (Node.mk ty sub).Wf) : (Node.mk ty (del tok sub)).Wf := by
  obtain ⟨hsorted, hchild⟩ := wf_mk.1 h
  refine wf_mk.2 ⟨hsorted.del tok, fun tok' c' hc' => ?_⟩
  rw [hsorted.get_del] at hc'
  split_ifs at hc' with heq
  exact hchild tok' c' hc'

theorem has_put {c : Node} {tok' : Str} :
    (Node.mk ty (put tok c sub)).Has (tok' :: toks) ↔
      if tok' = tok then c.Has toks else (Node.mk ty sub).Has (tok' :: toks) := by
  rw [has_cons_mk, has_cons_mk, get_put]
  split_ifs with heq
  · simp
  · rfl

theorem has_del {tok' : Str} (h : Sorted sub) :
    (Node.mk ty (del tok sub)).Has (tok' :: toks) ↔
      tok' ≠ tok ∧ (Node.mk ty sub).Has (tok' :: toks) := by
  rw [has_cons_mk, has_cons_mk, h.get_del]
  split_ifs with heq
  · simp [heq]
  · exact ⟨fun hc => ⟨heq, hc⟩, fun hc => hc.2⟩

theorem exists_has_cons (h : n.Wf) (hne : n.subtree ≠ []) : ∃ tok toks, n.Has (tok :: toks) := by
  obtain ⟨tok, c, hc⟩ := exists_get_of_ne_nil hne
  obtain ⟨toks, htoks⟩ := ((wf_iff.1 h).2 tok c hc).1.some
  exact ⟨tok, toks, has_cons.2 ⟨c, hc, htoks⟩⟩

theorem subtree_ne_nil_of_has (h : n.Has (tok :: toks)) : n.subtree ≠ [] := by
  obtain ⟨c, hc, -⟩ := has_cons.1 h
  exact ne_nil_of_get hc

theorem child_of_subtree (h : n.Wf) (hbran : n.type.isBran = true) (hne : n.subtree ≠ []) :
    n.Child := by
  obtain ⟨tok, toks, hhas⟩ := exists_has_cons h hne
  exact ⟨⟨fun _ => hne, fun _ => hbran⟩, tok :: toks, hhas⟩

theorem wf_type (ty' : NodeType) (h : (Node.mk ty sub).Wf) : (Node.mk ty' sub).Wf :=
  wf_mk.2 (wf_mk.1 h)

/-! ### Insertion -/

theorem insertTokens_nil : insertTokens n [] = n := by
  obtain ⟨ty, sub⟩ := n
  rfl

theorem insertTokens_type : (insertTokens n toks).type = n.type := by
  obtain ⟨ty, sub⟩ := n
  cases toks <;> rfl

theorem insertTokens_subtree_ne_nil : (insertTokens n (tok :: toks)).subtree ≠ [] := by
  obtain ⟨ty, sub⟩ := n
  exact put_ne_nil _ _ _

theorem has_getD (ty : NodeType) {path : List Str} :
    ((get tok sub).getD .new).Has path ↔ (Node.mk ty sub).Has (tok :: path) := by
  rw [has_cons_mk]
  cases hget : get tok sub with
  | some c => simp
  | none =>
    rw [Option.getD_none]
    cases path with
    | nil => simp [Node.new, NodeType.isLeaf]
    | cons tok' path => simp [Node.new, has_cons_mk]

theorem wf_getD (h : (Node.mk ty sub).Wf) : ((get tok sub).getD .new).Wf := by
  cases hget : get tok sub with
  | none => exact wf_new
  | some c => exact ((wf_mk.1 h).2 tok c hget).2

theorem bran_getD (h : (Node.mk ty sub).Wf) :
    ((get tok sub).getD .new).type.isBran = true ↔ ((get tok sub).getD .new).subtree ≠ [] := by
  cases hget : get tok sub with
  | none => simp [Node.new, NodeType.isBran]
  | some c => exact ((wf_mk.1 h).2 tok c hget).1.bran

theorem isLeaf_addLeaf (ty : NodeType) : ty.addLeaf.isLeaf = true := by cases ty <;> rfl

theorem isBran_addLeaf (ty : NodeType) : ty.addLeaf.isBran = ty.isBran := by cases ty <;> rfl

theorem isLeaf_addBran (ty : NodeType) : ty.addBran.isLeaf = ty.isLeaf := by cases ty <;> rfl

theorem isBran_addBran (ty : NodeType) : ty.addBran.isBran = true := by cases ty <;> rfl

theorem has_mk_type {ty' : NodeType} {path : List Str} :
    (Node.mk ty' n.subtree).Has path ↔
      if path = [] then ty'.isLeaf = true else n.Has path := by
  cases path with
  | nil => simp
  | cons tok path => simp [has_cons]

/-- The keys after an insertion. -/
theorem insertTokens_has {path : List Str} :
    (insertTokens n (tok :: toks)).Has path ↔ n.Has path ∨ path = tok :: toks := by
  induction toks generalizing n tok path with
  | nil =>
    obtain ⟨ty, sub⟩ := n
    cases path with
    | nil => simp [insertTokens]
    | cons tok' path =>
      simp only [insertTokens, if_true]
      rw [has_put, List.cons.injEq]
      split_ifs with heq
      · rw [has_mk_type, isLeaf_addLeaf, has_getD ty, heq]
        split_ifs with hpath <;> simp [hpath]
      · simp [heq]
  | cons next toks ih =>
    obtain ⟨ty, sub⟩ := n
    cases path with
    | nil => simp [insertTokens]
    | cons tok' path =>
      rw [insertTokens, if_neg (List.cons_ne_nil _ _), has_put, List.cons.injEq]
      split_ifs with heq
      · rw [ih, has_mk_type, isLeaf_addBran, ← has_nil, heq, ← has_getD ty]
        split_ifs with hpath <;> simp [hpath]
      · simp [heq]

theorem insertTokens_wf (h : n.Wf) : (insertTokens n toks).Wf := by
  induction toks generalizing n with
  | nil =>
    obtain ⟨ty, sub⟩ := n
    exact h
  | cons tok toks ih =>
    obtain ⟨ty, sub⟩ := n
    unfold insertTokens
    have hwf : ∀ ty', (Node.mk ty' ((get tok sub).getD .new).subtree).Wf := by
      intro ty'
      have this : ((get tok sub).getD .new).Wf := wf_getD h
      generalize (get tok sub).getD .new = c at this ⊢
      obtain ⟨ty'', sub'⟩ := c
      exact wf_type ty' this
    refine wf_put h ?_ (ih (hwf _))
    cases toks with
    | nil =>
      refine ⟨?_, [], ?_⟩
      · simp only [insertTokens, if_true, type_mk, subtree_mk, isBran_addLeaf]
        exact bran_getD h
      · simp [insertTokens, isLeaf_addLeaf]
    | cons next toks =>
      refine child_of_subtree (ih (hwf _)) ?_ insertTokens_subtree_ne_nil
      rw [insertTokens_type, type_mk, if_neg (List.cons_ne_nil _ _), isBran_addBran]

/-! ### Deletion -/

/-- The path is not only a directory. -/
def Node.Deletable (n : Node) (toks : List Str) : Prop :=
  ∀ m, n.walk toks = some m → m.type ≠ .bran

/-- What a deletion gives. -/
structure Deleted (n : Node) (path : List Str) (n' : Node) (rc : Bool) : Prop where
  type : n'.type = n.type
  wf : n'.Wf
  has : ∀ path', n'.Has path' ↔ n.Has path' ∧ path' ≠ path
  found : n' = n ∧ rc = false ∨ n.subtree ≠ [] ∧ (rc = false → n'.subtree ≠ [])

theorem deleted_absent {path : List Str} (h : n.Wf) (hno : ¬ n.Has path) : Deleted n path n false :=
  ⟨rfl, h, fun _ => ⟨fun hhas => ⟨hhas, fun heq => hno (heq ▸ hhas)⟩, fun hhas => hhas.1⟩,
    Or.inl ⟨rfl, rfl⟩⟩

theorem deleted_put {c c' : Node} {rc : Bool} (h : (Node.mk ty sub).Wf)
    (hget : get tok sub = some c) (hchild : c'.Child) (hwf : c'.Wf)
    (hhas : ∀ path, c'.Has path ↔ c.Has path ∧ path ≠ toks) :
    Deleted (Node.mk ty sub) (tok :: toks) (Node.mk ty (put tok c' sub)) rc := by
  refine ⟨rfl, wf_put h hchild hwf, fun path => ?_, Or.inr ⟨ne_nil_of_get hget,
    fun _ => put_ne_nil _ _ _⟩⟩
  cases path with
  | nil => simp
  | cons tok' path =>
    rw [has_put]
    split_ifs with heq
    · subst heq
      rw [hhas, has_cons_mk, hget]
      simp
    · simp [heq]

theorem deleted_del {c : Node} (h : (Node.mk ty sub).Wf) (hget : get tok sub = some c)
    (hhas : ∀ path, c.Has path → path = toks) :
    Deleted (Node.mk ty sub) (tok :: toks) (Node.mk ty (del tok sub)) true := by
  have hsorted := (wf_mk.1 h).1
  refine ⟨rfl, wf_del h, fun path => ?_, Or.inr ⟨ne_nil_of_get hget, fun hno => (nomatch hno)⟩⟩
  cases path with
  | nil => simp
  | cons tok' path =>
    rw [has_del hsorted]
    by_cases heq : tok' = tok
    · subst heq
      rw [has_cons_mk, hget]
      refine ⟨fun hno => absurd rfl hno.1, fun hno => ?_⟩
      obtain ⟨⟨c', hc', hc⟩, hne⟩ := hno
      cases hc'
      exact absurd (by rw [hhas path hc]) hne
    · simp [heq]

theorem not_has_of_get_none (h : get tok sub = none) : ¬ (Node.mk ty sub).Has (tok :: toks) := by
  rw [has_cons_mk, h]
  simp

theorem eq_nil_of_has (h : n.subtree = []) {path : List Str} (hhas : n.Has path) : path = [] := by
  cases path with
  | nil => rfl
  | cons tok path => exact absurd h (subtree_ne_nil_of_has hhas)

theorem type_eq_leaf (h : n.Child) (hbran : n.type ≠ .bran) (hhybr : n.type ≠ .hybr) :
    n.type = .leaf ∧ n.subtree = [] := by
  have hsub : n.subtree = [] := by
    by_contra hne
    have := h.bran.2 hne
    cases hty : n.type <;> simp_all [NodeType.isBran]
  obtain ⟨path, hhas⟩ := h.some
  obtain rfl := eq_nil_of_has hsub hhas
  rw [has_nil] at hhas
  refine ⟨?_, hsub⟩
  cases hty : n.type <;> simp_all [NodeType.isLeaf]

theorem deleteKey_last (h : n.Wf) (hdel : n.Deletable [tok]) :
    ∃ n' rc, deleteKey n tok [] = .ok (n', rc) ∧ Deleted n [tok] n' rc := by
  obtain ⟨ty, sub⟩ := n
  unfold deleteKey
  cases hget : get tok sub with
  | none => exact ⟨_, _, rfl, deleted_absent h (not_has_of_get_none hget)⟩
  | some c =>
    obtain ⟨hchild, hwf⟩ := (wf_mk.1 h).2 tok c hget
    have hbran : c.type ≠ .bran := hdel c (walk_cons_iff.2 ⟨c, hget, rfl⟩)
    dsimp only
    by_cases hhybr : c.type = .hybr
    · rw [if_pos hhybr]
      have hne : c.subtree ≠ [] := hchild.bran.1 (by rw [hhybr]; rfl)
      have hwf' : (Node.mk .bran c.subtree).Wf := by
        obtain ⟨ty', sub'⟩ := c
        exact wf_type .bran hwf
      refine ⟨_, _, rfl, deleted_put h hget (child_of_subtree hwf' rfl hne) hwf' fun path => ?_⟩
      rw [has_mk_type]
      split_ifs with hpath <;> simp [hpath, NodeType.isLeaf]
    · rw [if_neg hhybr]
      obtain ⟨hleaf, hsub⟩ := type_eq_leaf hchild hbran hhybr
      rw [if_pos ⟨hleaf, by rw [hsub]; rfl⟩]
      exact ⟨_, _, rfl, deleted_del h hget fun path hhas => eq_nil_of_has hsub hhas⟩

theorem deleted_pruned {c c' : Node} {next : Str} (h : (Node.mk ty sub).Wf)
    (hget : get tok sub = some c) (hchild : c.Child) (hdel : Deleted c (next :: toks) c' true)
    (hsub : c'.subtree = []) :
    if c'.type = .hybr then
      Deleted (Node.mk ty sub) (tok :: next :: toks) (Node.mk ty (put tok (.mk .leaf []) sub)) true
    else Deleted (Node.mk ty sub) (tok :: next :: toks) (Node.mk ty (del tok sub)) true := by
  -- every key below the node was the deleted one, or the node itself
  have honly : ∀ path, c.Has path → path = next :: toks ∨ path = [] ∧ c.type.isLeaf = true := by
    intro path hhas
    by_cases heq : path = next :: toks
    · exact Or.inl heq
    · obtain rfl := eq_nil_of_has hsub ((hdel.has path).2 ⟨hhas, heq⟩)
      exact Or.inr ⟨rfl, has_nil.1 hhas⟩
  split_ifs with hhybr
  · have hleaf : c.type.isLeaf = true := by
      rw [← hdel.type, hhybr]
      rfl
    refine deleted_put h hget ⟨by simp [NodeType.isBran], [], by simp [NodeType.isLeaf]⟩
      (wf_type .leaf wf_new) fun path => ?_
    cases path with
    | nil =>
      rw [has_nil, has_nil, hleaf]
      simp [NodeType.isLeaf]
    | cons tok' path =>
      rw [has_cons_mk]
      refine ⟨fun hno => by simp at hno, fun hno => ?_⟩
      rcases honly _ hno.1 with heq | ⟨heq, -⟩
      · exact absurd heq hno.2
      · cases heq
  · refine deleted_del h hget fun path hhas => ?_
    rcases honly path hhas with heq | ⟨-, hleaf⟩
    · exact heq
    · exfalso
      -- a node with a subtree that is also a key is hybrid
      have hne : c.subtree ≠ [] := hdel.found.elim (fun hno => (nomatch hno.2)) fun hne => hne.1
      have hbran := hchild.bran.2 hne
      rw [hdel.type] at hhybr
      cases hty : c.type <;> simp_all [NodeType.isLeaf, NodeType.isBran]

theorem deleteKey_spec (h : n.Wf) (hdel : n.Deletable (tok :: toks)) :
    ∃ n' rc, deleteKey n tok toks = .ok (n', rc) ∧ Deleted n (tok :: toks) n' rc := by
  induction toks generalizing n tok with
  | nil => exact deleteKey_last h hdel
  | cons next toks ih =>
    obtain ⟨ty, sub⟩ := n
    unfold deleteKey
    cases hget : get tok sub with
    | none => exact ⟨_, _, rfl, deleted_absent h (not_has_of_get_none hget)⟩
    | some c =>
      obtain ⟨hchild, hwf⟩ := (wf_mk.1 h).2 tok c hget
      have hdel' : c.Deletable (next :: toks) :=
        fun m hm => hdel m (walk_cons_iff.2 ⟨c, hget, hm⟩)
      obtain ⟨c', rc, hok, hspec⟩ := ih hwf hdel'
      dsimp only
      rw [hok]
      dsimp only
      by_cases hstay : rc = false ∨ c'.subtree.isEmpty = false
      · rw [if_pos hstay]
        refine ⟨_, _, rfl, deleted_put h hget ?_ hspec.wf hspec.has⟩
        rcases hspec.found with ⟨heq, -⟩ | ⟨hne, hzero⟩
        · rw [heq]
          exact hchild
        · have hne' : c'.subtree ≠ [] := by
            rcases hstay with hrc | hempty
            · exact hzero hrc
            · intro hnil
              rw [hnil] at hempty
              cases hempty
          refine child_of_subtree hspec.wf ?_ hne'
          rw [hspec.type]
          exact hchild.bran.2 hne
      · rw [if_neg hstay]
        push Not at hstay
        obtain ⟨hrc, hempty⟩ := hstay
        have hsub : c'.subtree = [] := by simpa using hempty
        obtain rfl : rc = true := by simpa using hrc
        have hpruned := deleted_pruned h hget hchild hspec hsub
        by_cases hhybr : c'.type = .hybr
        · rw [if_pos hhybr] at hpruned ⊢
          exact ⟨_, _, rfl, hpruned⟩
        · rw [if_neg hhybr] at hpruned ⊢
          exact ⟨_, _, rfl, hpruned⟩

theorem deleteKey_eq_error (hm : n.walk (tok :: toks) = some m) (hbran : m.type = .bran) :
    deleteKey n tok toks = .error .assertFailed := by
  induction toks generalizing n tok with
  | nil =>
    obtain ⟨ty, sub⟩ := n
    obtain ⟨c, hc, hm⟩ := walk_cons_iff.1 hm
    cases hm
    rw [subtree_mk] at hc
    unfold deleteKey
    rw [hc]
    simp [hbran]
  | cons next toks ih =>
    obtain ⟨ty, sub⟩ := n
    obtain ⟨c, hc, hm⟩ := walk_cons_iff.1 hm
    rw [subtree_mk] at hc
    unfold deleteKey
    rw [hc]
    dsimp only
    rw [ih hm]

end

/-! ### Listings -/

/-- The items of an entry: the leaf form first. -/
def entryItems (e : Str × Node) : List Item :=
  if e.2.type.isLeaf = true then
    ⟨e.1, true⟩ :: if e.2.type.isBran = true then [⟨e.1, false⟩] else []
  else [⟨e.1, false⟩]

/-- The items of an entry, without the leaf form of a hybrid node where that is left out. -/
def nodeItems (skip : Bool) (e : Str × Node) : List Item :=
  if skip = true ∧ e.2.type = .hybr then [⟨e.1, false⟩] else entryItems e

/-- The items of a table. The leaf form is left out only at the first node that is a key. -/
def itemsFrom : Bool → List (Str × Node) → List Item
  | _, [] => []
  | skip, e :: l => nodeItems skip e ++ itemsFrom (skip && !e.2.type.isLeaf) l

/-- What a callback gets of a list of items: it stops the listing with the first item that it does
not return 0 for. -/
def passTo (cb : List Item → Item → Bool) : List Item → List Item → List Item
  | passed, [] => passed
  | passed, i :: l => if cb passed i = true then passed ++ [i] else passTo cb (passed ++ [i]) l

theorem passTo_all (passed l : List Item) : passTo (fun _ _ => false) passed l = passed ++ l := by
  induction l generalizing passed with
  | nil => rw [passTo, List.append_nil]
  | cons i l ih =>
    rw [passTo, if_neg (by simp), ih, List.append_assoc]
    rfl

/-- The order of a listing. -/
def Item.Before (i j : Item) : Prop :=
  i.name < j.name ∨ i.name = j.name ∧ i.isLeaf = true ∧ j.isLeaf = false

/-- The listing of a set of keys at a path: ascending, and every item once. -/
structure ListingOf (keys : Set (List Str)) (path : List Str) (items : List Item) : Prop where
  ascending : items.Pairwise Item.Before
  leaf : ∀ c, ⟨c, true⟩ ∈ items ↔ path ++ [c] ∈ keys
  directory : ∀ d, ⟨d, false⟩ ∈ items ↔ ∃ e toks, path ++ d :: e :: toks ∈ keys

section

variable {n : Node} {cb : List Item → Item → Bool} {skip : Bool}

@[simp] theorem itemsFrom_nil : itemsFrom skip [] = [] := rfl

theorem itemsFrom_cons (e : Str × Node) (l : List (Str × Node)) :
    itemsFrom skip (e :: l) = nodeItems skip e ++ itemsFrom (skip && !e.2.type.isLeaf) l := rfl

theorem itemsFrom_false (l : List (Str × Node)) : itemsFrom false l = l.flatMap entryItems := by
  induction l with
  | nil => rfl
  | cons e l ih =>
    rw [itemsFrom_cons, Bool.false_and, ih, List.flatMap_cons]
    rfl

/-- The listing loop passes on the items of the entries. -/
theorem listLoop_eq (passed : List Item) (l : List (Str × Node)) :
    listLoop cb skip passed l = passTo cb passed (itemsFrom skip l) := by
  induction l generalizing skip passed with
  | nil => rfl
  | cons e l ih =>
    obtain ⟨tok, lnode⟩ := e
    rw [itemsFrom_cons]
    unfold listLoop listEntry nodeItems entryItems
    cases hty : lnode.type <;> cases skip <;> cases hret : cb passed ⟨tok, true⟩ <;>
      cases hret' : cb passed ⟨tok, false⟩ <;>
      cases hboth : cb (passed ++ [⟨tok, true⟩]) ⟨tok, false⟩ <;>
      simp [NodeType.isLeaf, NodeType.isBran, passTo, ih, hret, hret', hboth]

theorem mem_entryItems_leaf {e : Str × Node} {c : Str} :
    ⟨c, true⟩ ∈ entryItems e ↔ c = e.1 ∧ e.2.type.isLeaf = true := by
  unfold entryItems
  split_ifs <;> simp_all

theorem mem_entryItems_dir {e : Str × Node} {d : Str} (h : e.2.Child) :
    ⟨d, false⟩ ∈ entryItems e ↔ d = e.1 ∧ e.2.type.isBran = true := by
  have hty : e.2.type.isLeaf = false → e.2.type.isBran = true := by
    intro hleaf
    by_contra hno
    have hbran : e.2.type ≠ .bran := fun h => hno (by rw [h]; rfl)
    have hhybr : e.2.type ≠ .hybr := fun h => hno (by rw [h]; rfl)
    rw [(type_eq_leaf h hbran hhybr).1] at hleaf
    cases hleaf
  unfold entryItems
  split_ifs <;> simp_all

theorem name_of_mem_entryItems {e : Str × Node} {i : Item} (h : i ∈ entryItems e) :
    i.name = e.1 := by
  unfold entryItems at h
  split_ifs at h <;> simp at h
  · rcases h with rfl | rfl <;> rfl
  · rw [h]
  · rw [h]

theorem pairwise_flatMap_entryItems {l : List (Str × Node)} (h : Sorted l) :
    (l.flatMap entryItems).Pairwise Item.Before := by
  induction l with
  | nil => exact List.Pairwise.nil
  | cons e l ih =>
    obtain ⟨hhead, htail⟩ := List.pairwise_cons.1 h
    rw [List.flatMap_cons, List.pairwise_append]
    refine ⟨?_, ih htail, fun i hi j hj => ?_⟩
    · unfold entryItems
      split_ifs <;> simp [Item.Before]
    · obtain ⟨d, hd, hj⟩ := List.mem_flatMap.1 hj
      left
      rw [name_of_mem_entryItems hi, name_of_mem_entryItems hj]
      exact hhead d hd

/-- The items of a node are its keys of one component and the directories below it. -/
theorem listing_of_has (h : n.Wf) :
    ListingOf {p | n.Has p} [] (n.subtree.flatMap entryItems) := by
  obtain ⟨hsorted, hchild⟩ := wf_iff.1 h
  refine ⟨pairwise_flatMap_entryItems hsorted, fun c => ?_, fun d => ?_⟩
  · rw [List.mem_flatMap, List.nil_append, Set.mem_ofPred_eq, has_cons]
    constructor
    · rintro ⟨⟨tok, m⟩, he, hitem⟩
      obtain ⟨rfl, hleaf⟩ := mem_entryItems_leaf.1 hitem
      exact ⟨m, hsorted.mem_iff_get.1 he, has_nil.2 hleaf⟩
    · rintro ⟨m, hm, hleaf⟩
      exact ⟨(c, m), mem_of_get hm, mem_entryItems_leaf.2 ⟨rfl, has_nil.1 hleaf⟩⟩
  · rw [List.mem_flatMap]
    simp only [List.nil_append, Set.mem_ofPred_eq, has_cons]
    constructor
    · rintro ⟨⟨tok, m⟩, he, hitem⟩
      have hget := hsorted.mem_iff_get.1 he
      obtain ⟨hm, hwf⟩ := hchild tok m hget
      obtain ⟨rfl, hbran⟩ := (mem_entryItems_dir hm).1 hitem
      obtain ⟨tok', toks, hhas⟩ := exists_has_cons hwf (hm.bran.1 hbran)
      exact ⟨tok', toks, m, hget, has_cons.1 hhas⟩
    · rintro ⟨e, toks, m, hget, hhas⟩
      obtain ⟨hm, hwf⟩ := hchild d m hget
      have hbran := hm.bran.2 (subtree_ne_nil_of_has (has_cons.2 hhas))
      exact ⟨(d, m), mem_of_get hget, (mem_entryItems_dir hm).2 ⟨rfl, hbran⟩⟩

theorem findNode_eq (toks : List Str) (h : n.Wf) :
    (∃ m, n.walk toks = some m ∧ m.Wf ∧
      ((findNode n toks).map Node.subtree).getD [] = m.subtree) ∨
    n.walk toks = none ∧ findNode n toks = none := by
  induction toks generalizing n with
  | nil => exact Or.inl ⟨n, rfl, h, rfl⟩
  | cons tok toks ih =>
    unfold findNode Node.walk
    cases hget : get tok n.subtree with
    | none => exact Or.inr ⟨rfl, rfl⟩
    | some c =>
      obtain ⟨hchild, hwf⟩ := (wf_iff.1 h).2 tok c hget
      dsimp only [Option.bind_some]
      by_cases hlast : toks = [] ∧ c.type = .leaf
      · obtain ⟨rfl, hleaf⟩ := hlast
        have hsub : c.subtree = [] := by
          by_contra hne
          have hbran := hchild.bran.2 hne
          rw [hleaf] at hbran
          cases hbran
        exact Or.inl ⟨c, rfl, hwf, by rw [if_pos ⟨rfl, hleaf⟩, hsub]; rfl⟩
      · rw [if_neg hlast]
        exact ih hwf

theorem has_append {m : Node} {path rest : List Str} (hm : n.walk path = some m) :
    n.Has (path ++ rest) ↔ m.Has rest := by
  induction path generalizing n with
  | nil =>
    cases hm
    rfl
  | cons tok path ih =>
    obtain ⟨c, hc, hm⟩ := walk_cons_iff.1 hm
    rw [List.cons_append, has_cons, hc, ← ih hm]
    simp

theorem not_has_append {path rest : List Str} (hm : n.walk path = none) : ¬ n.Has (path ++ rest) := by
  induction path generalizing n with
  | nil => cases hm
  | cons tok path ih =>
    rw [List.cons_append, has_cons]
    rintro ⟨c, hc, hhas⟩
    unfold Node.walk at hm
    rw [hc] at hm
    exact ih hm hhas

theorem listing_findNode (h : n.Wf) (path : List Str) :
    ListingOf {p | n.Has p} path
      (((findNode n path).map Node.subtree).getD [] |>.flatMap entryItems) := by
  rcases findNode_eq path h with ⟨m, hm, hwf, hsub⟩ | ⟨hm, hnone⟩
  · rw [hsub]
    have hlist := listing_of_has hwf
    refine ⟨hlist.ascending, fun c => (hlist.leaf c).trans ?_,
      fun d => (hlist.directory d).trans ?_⟩
    · exact (has_append hm).symm
    · exact exists_congr fun e => exists_congr fun toks => (has_append hm).symm
  · rw [hnone]
    refine ⟨List.Pairwise.nil, fun c => ?_, fun d => ?_⟩
    · exact ⟨fun hno => (nomatch hno), fun hno => absurd hno (not_has_append hm)⟩
    · exact ⟨fun hno => (nomatch hno), fun ⟨e, toks, hno⟩ => absurd hno (not_has_append hm)⟩

end

/-! ### The key set -/

/-- The set of keys after a call. A key is the list of its components, and only keys under the root
prefix are stored. -/
def keysStep (rootPrefix : Str) (delimStr : List Byte) (keys : Set (List Str)) :
    Call → Set (List Str)
  | .insert key =>
      {p | p ∈ keys ∨ key.length ≤ maxKlen ∧ p = tokens delimStr key ∧ p.head? = some rootPrefix}
  | .delete key => {p | p ∈ keys ∧ ¬ (key.length ≤ maxKlen ∧ p = tokens delimStr key)}

/-- The set of keys after calls. -/
def keysAfter (rootPrefix : Str) (delimStr : List Byte) (calls : List Call) : Set (List Str) :=
  calls.foldl (keysStep rootPrefix delimStr) ∅

/-- The path that a prefix names. The root prefix may be left out. -/
def listedPath (rootPrefix : Str) (delimStr : List Byte) (pre : Str) : List Str :=
  if (tokens delimStr pre).head? = some rootPrefix then tokens delimStr pre
  else rootPrefix :: tokens delimStr pre

/-- The calls go through, and a listing without a start key is that of the key set. -/
def Listed (rootPrefix : Str) (delimStr : List Byte) (calls : List Call) : Prop :=
  ∃ c, Run.run step (dssHslNewCtx rootPrefix delimStr) calls = some c ∧
    ∀ pre, pre.length ≤ maxKlen → ∃ items,
      ListingOf (keysAfter rootPrefix delimStr calls) (listedPath rootPrefix delimStr pre) items ∧
      ∀ cb, dssHslList c pre none cb = passTo cb [] items

/-- A deleted key has a component below the root prefix, and is not only a directory. -/
def CallOk (c : Ctx) : Call → Prop
  | .insert _ => True
  | .delete key => key.length ≤ maxKlen → ∀ toks, tokens c.delimStr key = c.rootPrefix :: toks →
      toks ≠ [] ∧ c.lnode.Deletable toks

/-- The tree has the keys of the set. -/
structure Inv (rootPrefix : Str) (delimStr : List Byte) (c : Ctx) (keys : Set (List Str)) : Prop where
  rootPrefix_eq : c.rootPrefix = rootPrefix
  delimStr_eq : c.delimStr = delimStr
  wf : c.lnode.Wf
  has : ∀ tok toks, c.lnode.Has (tok :: toks) ↔ rootPrefix :: tok :: toks ∈ keys

section

variable {rootPrefix : Str} {delimStr : List Byte} {c c' : Ctx} {keys : Set (List Str)} {call : Call}

theorem Inv.insert (h : Inv rootPrefix delimStr c keys) (key : Str) :
    Inv rootPrefix delimStr (dssHslInsert c key).1 (keysStep rootPrefix delimStr keys (.insert key)) := by
  obtain ⟨hroot, hdelim, hwf, hhas⟩ := h
  subst hroot hdelim
  unfold dssHslInsert keysStep
  by_cases hlen : maxKlen < key.length
  · rw [if_pos hlen]
    refine ⟨rfl, rfl, hwf, fun tok toks => (hhas tok toks).trans ?_⟩
    simp [Nat.not_le.2 hlen]
  · rw [if_neg hlen]
    have hle := Nat.not_lt.1 hlen
    cases htoks : tokens c.delimStr key with
    | nil => exact ⟨rfl, rfl, hwf, fun tok toks => (hhas tok toks).trans (by simp [htoks])⟩
    | cons tok₀ toks₀ =>
      dsimp only
      by_cases heq : tok₀ = c.rootPrefix
      · rw [if_pos heq]
        refine ⟨rfl, rfl, insertTokens_wf hwf, fun tok toks => ?_⟩
        dsimp only
        rw [Set.mem_ofPred_eq, ← hhas, htoks, heq]
        cases toks₀ with
        | nil => simp [insertTokens_nil]
        | cons tok₁ toks₁ =>
          rw [insertTokens_has]
          simp [hle]
      · rw [if_neg heq]
        refine ⟨rfl, rfl, hwf, fun tok toks => (hhas tok toks).trans ?_⟩
        simp [htoks, Ne.symm heq]

theorem Inv.delete (h : Inv rootPrefix delimStr c keys) {key : Str} (hok : CallOk c (.delete key)) :
    ∃ c', step c (.delete key) = some c' ∧
      Inv rootPrefix delimStr c' (keysStep rootPrefix delimStr keys (.delete key)) := by
  obtain ⟨hroot, hdelim, hwf, hhas⟩ := h
  subst hroot hdelim
  change ∃ c', (dssHslDelete c key).toOption.map Prod.fst = some c' ∧ _
  unfold dssHslDelete keysStep
  by_cases hlen : maxKlen < key.length
  · rw [if_pos hlen]
    refine ⟨c, rfl, rfl, rfl, hwf, fun tok toks => (hhas tok toks).trans ?_⟩
    simp [Nat.not_le.2 hlen]
  · rw [if_neg hlen]
    have hle := Nat.not_lt.1 hlen
    cases htoks : tokens c.delimStr key with
    | nil => exact ⟨c, rfl, rfl, rfl, hwf, fun tok toks => (hhas tok toks).trans (by simp [htoks])⟩
    | cons tok₀ toks₀ =>
      dsimp only
      by_cases heq : tok₀ = c.rootPrefix
      · rw [if_pos heq]
        rw [heq] at htoks
        obtain ⟨hne, hdel⟩ := hok hle toks₀ htoks
        cases toks₀ with
        | nil => exact absurd rfl hne
        | cons tok₁ toks₁ =>
          obtain ⟨n', rc, hn', hspec⟩ := deleteKey_spec hwf hdel
          dsimp only
          rw [hn']
          refine ⟨_, rfl, rfl, rfl, hspec.wf, fun tok toks => ?_⟩
          dsimp only
          rw [hspec.has, hhas, Set.mem_ofPred_eq, htoks]
          simp [hle]
      · rw [if_neg heq]
        refine ⟨c, rfl, rfl, rfl, hwf, fun tok toks => (hhas tok toks).trans ?_⟩
        simp [htoks, Ne.symm heq]

theorem callOk_of_step (hs : step c call = some c') : CallOk c call := by
  cases call with
  | insert key => exact trivial
  | delete key =>
    intro hle toks htoks
    change (dssHslDelete c key).toOption.map Prod.fst = some c' at hs
    unfold dssHslDelete at hs
    rw [if_neg (Nat.not_lt.2 hle), htoks] at hs
    dsimp only at hs
    rw [if_pos rfl] at hs
    cases toks with
    | nil => cases hs
    | cons tok toks =>
      refine ⟨List.cons_ne_nil _ _, fun m hm hbran => ?_⟩
      dsimp only at hs
      rw [deleteKey_eq_error hm hbran] at hs
      cases hs

theorem Inv.step (h : Inv rootPrefix delimStr c keys) (hok : CallOk c call) :
    ∃ c', step c call = some c' ∧ Inv rootPrefix delimStr c' (keysStep rootPrefix delimStr keys call) := by
  cases call with
  | insert key => exact ⟨_, rfl, h.insert key⟩
  | delete key => exact h.delete hok

theorem inv_new (rootPrefix : Str) (delimStr : List Byte) :
    Inv rootPrefix delimStr (dssHslNewCtx rootPrefix delimStr) ∅ := by
  refine ⟨rfl, rfl, wf_new, fun tok toks => ⟨fun hno => ?_, fun hno => (nomatch hno)⟩⟩
  obtain ⟨c, hc, -⟩ := has_cons.1 hno
  cases hc

/-- The calls of a run keep the tree and the set together. -/
theorem Inv.run {calls : List Call} (h : Inv rootPrefix delimStr c keys)
    (hok : Run.Admissible ListTree.step CallOk c calls) :
    ∃ c', Run.run ListTree.step c calls = some c' ∧
      Inv rootPrefix delimStr c' (calls.foldl (keysStep rootPrefix delimStr) keys) := by
  induction calls generalizing c keys with
  | nil => exact ⟨c, rfl, h⟩
  | cons call calls ih =>
    obtain ⟨c₁, h₁, hinv₁⟩ := h.step hok.1
    obtain ⟨c', h', hinv'⟩ := ih hinv₁ (hok.2 c₁ h₁)
    refine ⟨c', ?_, hinv'⟩
    rw [Run.run_cons, h₁, Option.bind_some, h']

/-- The listing of a tree with the keys of the set. -/
theorem Inv.listing (h : Inv rootPrefix delimStr c keys) {pre : Str} (hlen : pre.length ≤ maxKlen) :
    ∃ items, ListingOf keys (listedPath rootPrefix delimStr pre) items ∧
      ∀ cb, dssHslList c pre none cb = passTo cb [] items := by
  obtain ⟨hroot, hdelim, hwf, hhas⟩ := h
  subst hroot hdelim
  generalize hpath : (if (tokens c.delimStr pre).head? = some c.rootPrefix then
    (tokens c.delimStr pre).tail else tokens c.delimStr pre) = path
  have hfull : listedPath c.rootPrefix c.delimStr pre = c.rootPrefix :: path := by
    unfold listedPath
    split_ifs at hpath ⊢ with hhead
    · rw [← hpath]
      exact (List.cons_head?_tail hhead).symm
    · rw [hpath]
  have hlist := listing_findNode hwf path
  refine ⟨_, ⟨hlist.ascending, fun x => (hlist.leaf x).trans ?_,
    fun d => (hlist.directory d).trans ?_⟩, fun cb => ?_⟩
  · rw [hfull, List.cons_append]
    cases path <;> exact hhas _ _
  · rw [hfull]
    refine exists_congr fun e => exists_congr fun toks => ?_
    rw [List.cons_append]
    cases path <;> exact hhas _ _
  · unfold dssHslList
    rw [if_neg (Nat.not_lt.2 hlen)]
    dsimp only
    rw [hpath, ← itemsFrom_false, ← listLoop_eq]
    cases findNode c.lnode path <;> rfl

/-- The tree lists its set of keys exactly when every call is in order. -/
theorem listed_iff (rootPrefix : Str) (delimStr : List Byte) (calls : List Call) :
    Listed rootPrefix delimStr calls ↔
      Run.Admissible ListTree.step CallOk (dssHslNewCtx rootPrefix delimStr) calls := by
  constructor
  · rintro ⟨c, hrun, -⟩
    exact Run.admissible_of_run (fun _ _ _ => callOk_of_step) hrun
  · intro hok
    obtain ⟨c, hrun, hinv⟩ := (inv_new rootPrefix delimStr).run hok
    exact ⟨c, hrun, fun pre hlen => hinv.listing hlen⟩

end

/-- `r/a/b` is inserted, then `r/a` is deleted, which is only a directory. -/
theorem not_listed_directory : ¬ Listed [114] [47]
    [.insert [114, 47, 97, 47, 98], .delete [114, 47, 97]] := by
  rintro ⟨c, hrun, -⟩
  have hstop : Run.run step (dssHslNewCtx [114] [47])
      [.insert [114, 47, 97, 47, 98], .delete [114, 47, 97]] |>.isNone := by decide +kernel
  rw [hrun] at hstop
  cases hstop

end DssSdk.ListTree
