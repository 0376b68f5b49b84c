import DssSdk.Lib.Run
import DssSdk.Lib.SortedTable
import Mathlib.Data.List.Lex

/-!
# The hierarchical list tree

`dss_list_tree.c` without eviction: a key is cut into components at the delimiters, and every
component is an entry of a Judy array of the node above it. A node is a leaf, a branch or both.

* `Node`: `dss_hslist_node_t`, with its subtree as a table sorted by component, in the place of a
  `JudySL` array (libjudy is not part of the repository; its documented order is that of the strings);
* `insertTokens`, `deleteKey`, `findNode`, `listLoop`: the loops and the recursion of the source;
* `dssHslInsert`, `dssHslDelete`, `dssHslList`: the three calls.

Counters, memory use and the list of recently used nodes are read only by the eviction and left
out, as is `list_direct`, which only an eviction sets.
-/

namespace DssSdk.ListTree

open SortedTable

/-- A byte of a string. -/
abbrev Byte := Fin 256

/-- A string without its terminating zero. -/
abbrev Str := List Byte

/-- `DSS_LIST_MAX_KLEN`. -/
def maxKlen : ℕ := 1024

/-- The tokens that `strtok_r` gives one after the other: delimiters in a row count as one, and
there is none at the ends. -/
def tokens (delim : List Byte) (s : Str) : List Str :=
  (s.splitOnP fun c => decide (c ∈ delim)).filter fun t => !t.isEmpty

/-- `dss_hlist_node_type`. -/
inductive NodeType
  | root
  | leaf
  | bran
  | hybr
  deriving DecidableEq, Repr

namespace NodeType

/-- `type & DSS_HLIST_LEAF`. -/
def isLeaf : NodeType → Bool
  | leaf | hybr => true
  | root | bran => false

/-- `type & DSS_HLIST_BRAN`. -/
def isBran : NodeType → Bool
  | bran | hybr => true
  | root | leaf => false

/-- `type |= DSS_HLIST_LEAF`. -/
def addLeaf : NodeType → NodeType
  | root | leaf => leaf
  | bran | hybr => hybr

/-- `type |= DSS_HLIST_BRAN`. -/
def addBran : NodeType → NodeType
  | root | bran => bran
  | leaf | hybr => hybr

end NodeType

/-- `dss_hslist_node_t`. -/
inductive Node
  | mk (type : NodeType) (subtree : List (Str × Node))

namespace Node

def type : Node → NodeType
  | mk ty _ => ty

def subtree : Node → List (Str × Node)
  | mk _ sub => sub

/-- A node from `calloc`. -/
def new : Node := mk .root []

end Node

/-- `dss_hsl_ctx_t`. -/
structure Ctx where
  rootPrefix : Str
  delimStr : List Byte
  lnode : Node

/-- `dss_hsl_new_ctx`. -/
def dssHslNewCtx (rootPrefix : Str) (delimStr : List Byte) : Ctx := ⟨rootPrefix, delimStr, .new⟩

/-- What stops the program: a failed assertion, or the value that `JudySLGet` gives for no index
(`PPJERR`) is taken for a pointer. -/
inductive Fault
  | assertFailed
  | noIndex
  deriving DecidableEq, Repr

/-- The loop of `dss_hsl_insert`, from the node that the first token is looked up in. -/
def insertTokens : Node → List Str → Node
  | n, [] => n
  | .mk ty sub, tok :: toks =>
      let child := (get tok sub).getD .new
      let ty' := if toks = [] then child.type.addLeaf else child.type.addBran
      .mk ty (put tok (insertTokens (.mk ty' child.subtree) toks) sub)

/-- `_dss_hsl_delete_key` for a token and those after it. The second component is the return code:
an ancestor looks at its subtree only after a 1. -/
def deleteKey : Node → Str → List Str → Except Fault (Node × Bool)
  | .mk ty sub, tok, [] =>
      match get tok sub with
      | none => .ok (.mk ty sub, false)
      | some leafNode =>
          if leafNode.type = .hybr then
            .ok (.mk ty (put tok (.mk .bran leafNode.subtree) sub), true)
          else if leafNode.type = .leaf ∧ leafNode.subtree.isEmpty = true then
            .ok (.mk ty (del tok sub), true)
          else .error .assertFailed
  | .mk ty sub, tok, tokenNext :: toks =>
      match get tok sub with
      | none => .ok (.mk ty sub, false)
      | some nextNode =>
          match deleteKey nextNode tokenNext toks with
          | .error f => .error f
          | .ok (nextNode', rc) =>
              if rc = false ∨ nextNode'.subtree.isEmpty = false then
                .ok (.mk ty (put tok nextNode' sub), false)
              else if nextNode'.type = .hybr then .ok (.mk ty (put tok (.mk .leaf []) sub), true)
              else .ok (.mk ty (del tok sub), true)

/-- `dss_hsl_insert`. -/
def dssHslInsert (c : Ctx) (key : Str) : Ctx × ℤ :=
  if maxKlen < key.length then (c, -1)
  else
    match tokens c.delimStr key with
    | [] => (c, 0)
    | tok :: toks =>
        if tok = c.rootPrefix then ({ c with lnode := insertTokens c.lnode toks }, 0) else (c, 0)

/-- `dss_hsl_delete`. A key that is only the root prefix has no token to look up. -/
def dssHslDelete (c : Ctx) (key : Str) : Except Fault (Ctx × ℤ) :=
  if maxKlen < key.length then .ok (c, -1)
  else
    match tokens c.delimStr key with
    | [] => .ok (c, 0)
    | tok :: toks =>
        if tok = c.rootPrefix then
          match toks with
          | [] => .error .noIndex
          | tok :: toks =>
              match deleteKey c.lnode tok toks with
              | .error f => .error f
              | .ok (n, rc) => .ok ({ c with lnode := n }, if rc = true then 1 else 0)
        else .ok (c, 0)

/-! ### Listing -/

/-- What the callback gets: a component, and whether it is a leaf or a directory. -/
structure Item where
  name : Str
  isLeaf : Bool
  deriving DecidableEq, Repr

/-- The loop of `dss_hsl_list` that goes down to the prefix. -/
def findNode : Node → List Str → Option Node
  | n, [] => some n
  | n, tok :: toks =>
      match get tok n.subtree with
      | none => none
      | some m => if toks = [] ∧ m.type = .leaf then none else findNode m toks

/-- One round of the listing loop: what the callback returned, whether the leaf part of the next
hybrid node is left out, and what was passed. The callback may depend on what it got before. -/
def listEntry (cb : List Item → Item → Bool) (skip : Bool) (passed : List Item) (tok : Str)
    (lnode : Node) : Bool × Bool × List Item :=
  if lnode.type.isLeaf = true then
    let leafPart : Bool × List Item :=
      if skip = false ∨ lnode.type = .leaf then (cb passed ⟨tok, true⟩, passed ++ [⟨tok, true⟩])
      else (false, passed)
    if leafPart.1 = false ∧ lnode.type.isBran = true then
      (cb leafPart.2 ⟨tok, false⟩, false, leafPart.2 ++ [⟨tok, false⟩])
    else (leafPart.1, false, leafPart.2)
  else (cb passed ⟨tok, false⟩, skip, passed ++ [⟨tok, false⟩])

/-- The listing loop. It ends when the callback returns something else than 0. -/
def listLoop (cb : List Item → Item → Bool) : Bool → List Item → List (Str × Node) → List Item
  | _, passed, [] => passed
  | skip, passed, (tok, lnode) :: l =>
      match listEntry cb skip passed tok lnode with
      | (true, _, passed') => passed'
      | (false, skip', passed') => listLoop cb skip' passed' l

/-- Where the listing begins, and whether the leaf part of a hybrid node is left out: from a start
key with the delimiter on, else after the start key. -/
def startAt (c : Ctx) (startKey : Str) (l : List (Str × Node)) : Bool × List (Str × Node) :=
  if startKey.getLast? = c.delimStr.head? then
    (false, l.dropWhile fun e => decide (e.1 < startKey.dropLast))
  else (true, l.dropWhile fun e => decide (e.1 ≤ startKey))

/-- `dss_hsl_list`: what is passed to the callback. -/
def dssHslList (c : Ctx) (pre : Str) (startKey : Option Str) (cb : List Item → Item → Bool) :
    List Item :=
  if maxKlen < pre.length then []
  else
    let toks := tokens c.delimStr pre
    let toks' := if toks.head? = some c.rootPrefix then toks.tail else toks
    match findNode c.lnode toks' with
    | none => []
    | some n =>
        match startKey with
        | none => listLoop cb false [] n.subtree
        | some start => listLoop cb (startAt c start n.subtree).1 [] (startAt c start n.subtree).2

/-! ### Runs -/

/-- A call that changes the tree. -/
inductive Call
  | insert (key : Str)
  | delete (key : Str)
  deriving DecidableEq, Repr

/-- The tree after a call, `none` when the program stops. -/
def step (c : Ctx) : Call → Option Ctx
  | .insert key => some (dssHslInsert c key).1
  | .delete key => (dssHslDelete c key).toOption.map Prod.fst

end DssSdk.ListTree
