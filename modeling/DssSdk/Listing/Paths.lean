import DssSdk.Listing.Update

/-!
# Prefix listing: the pairs of a key

The keys form a tree: the steps of a key are its components with the directory each one is in.
This module shows that the positions in the list data of a request are those of the steps, the
deepest one last.

* `up key`: the steps of a key, deepest first, and `tree`: they are a tree;
* `mem_up_iff`: the steps in the words of the key's bytes;
* `pairs key`: the pairs of the list data, deepest first. A key that ends in the delimiter has an
  empty entry as its deepest pair.
-/

namespace DssSdk.Listing

/-! ### Directories and components -/

/-- The path of a directory: nothing, or bytes that end in the delimiter. -/
def IsDir (p : Bytes) : Prop := p = [] ∨ ∃ q, p = q ++ [delim]

/-- A component of a key: not empty, with the delimiter at its end or nowhere. -/
def IsComponent (e : Bytes) : Prop := ∃ a b, e = a ++ [b] ∧ delim ∉ a

/-- The state of a left to right scan of a key: the steps to the directory reached, the directory,
and the bytes behind it. -/
structure Scan where
  steps : List (Bytes × Bytes)
  dir : Bytes
  base : Bytes

def Scan.next (s : Scan) (b : UInt8) : Scan :=
  if b = delim then ⟨(s.dir, s.base ++ [b]) :: s.steps, s.dir ++ (s.base ++ [b]), []⟩
  else { s with base := s.base ++ [b] }

def scan (key : Bytes) : Scan := key.foldl Scan.next ⟨[], [], []⟩

/-- The directory of a key, up to the last delimiter. -/
def dirOf (key : Bytes) : Bytes := (scan key).dir

/-- The bytes behind the last delimiter. -/
def baseOf (key : Bytes) : Bytes := (scan key).base

/-- The steps of a key: its components and the directory of each, deepest first. -/
def up (key : Bytes) : List (Bytes × Bytes) :=
  if baseOf key = [] then (scan key).steps else (dirOf key, baseOf key) :: (scan key).steps

theorem scan_snoc (key : Bytes) (b : UInt8) : scan (key ++ [b]) = (scan key).next b := by
  simp [scan]

theorem dirOf_snoc (key : Bytes) (b : UInt8) :
    dirOf (key ++ [b]) = if b = delim then dirOf key ++ (baseOf key ++ [b]) else dirOf key := by
  rw [dirOf, scan_snoc, Scan.next]
  split <;> rfl

theorem baseOf_snoc (key : Bytes) (b : UInt8) :
    baseOf (key ++ [b]) = if b = delim then [] else baseOf key ++ [b] := by
  rw [baseOf, scan_snoc, Scan.next]
  split <;> rfl

theorem steps_snoc (key : Bytes) (b : UInt8) :
    (scan (key ++ [b])).steps =
      if b = delim then (dirOf key, baseOf key ++ [b]) :: (scan key).steps
      else (scan key).steps := by
  rw [scan_snoc, Scan.next]
  split <;> rfl

theorem dirOf_append_baseOf (key : Bytes) : dirOf key ++ baseOf key = key := by
  induction key using List.reverseRecOn with
  | nil => rfl
  | append_singleton key b ih =>
    rw [dirOf_snoc, baseOf_snoc]
    split
    · rw [List.append_nil, ← List.append_assoc, ih]
    · rw [← List.append_assoc, ih]

theorem delim_notMem_baseOf (key : Bytes) : delim ∉ baseOf key := by
  induction key using List.reverseRecOn with
  | nil => exact List.not_mem_nil
  | append_singleton key b ih =>
    rw [baseOf_snoc]
    split
    · exact List.not_mem_nil
    · next hb => simp [ih, Ne.symm hb]

theorem isDir_dirOf (key : Bytes) : IsDir (dirOf key) := by
  induction key using List.reverseRecOn with
  | nil => exact Or.inl rfl
  | append_singleton key b ih =>
    rw [dirOf_snoc]
    split
    · next hb => exact Or.inr ⟨dirOf key ++ baseOf key, by rw [hb, List.append_assoc]⟩
    · exact ih

/-- A directory is scanned to its end. -/
theorem IsDir.scan {p : Bytes} (h : IsDir p) : dirOf p = p ∧ baseOf p = [] := by
  have hbase : baseOf p = [] := by
    rcases h with rfl | ⟨q, rfl⟩
    · rfl
    · rw [baseOf_snoc, if_pos rfl]
  have hsplit := dirOf_append_baseOf p
  rw [hbase, List.append_nil] at hsplit
  exact ⟨hsplit, hbase⟩

theorem up_dirOf (key : Bytes) : up (dirOf key) = (scan key).steps := by
  have hdir := (isDir_dirOf key).scan
  rw [up, if_pos hdir.2]
  induction key using List.reverseRecOn with
  | nil => rfl
  | append_singleton key b ih =>
    by_cases hb : b = delim
    · have hend : dirOf (key ++ [b]) = key ++ [b] := by
        rw [dirOf_snoc, if_pos hb, ← List.append_assoc, dirOf_append_baseOf]
      rw [hend]
    · rw [dirOf_snoc, if_neg hb, steps_snoc, if_neg hb]
      exact ih (isDir_dirOf key).scan

theorem up_nil : up [] = [] := rfl

theorem up_snoc (key : Bytes) (b : UInt8) :
    up (key ++ [b]) = (dirOf key, baseOf key ++ [b]) :: up (dirOf key) := by
  rw [up_dirOf, up, baseOf_snoc, steps_snoc, dirOf_snoc]
  by_cases hb : b = delim
  · rw [if_pos hb, if_pos hb, if_pos rfl]
  · rw [if_neg hb, if_neg hb, if_neg hb, if_neg (by simp)]

theorem up_eq_cons {x p e : Bytes} {c : List (Bytes × Bytes)} (h : up x = (p, e) :: c) :
    x = p ++ e ∧ c = up p ∧ IsDir p ∧ IsComponent e := by
  rcases List.eq_nil_or_concat x with rfl | ⟨key, b, hx⟩
  · cases h
  · rw [List.concat_eq_append] at hx
    subst hx
    rw [up_snoc] at h
    cases h
    refine ⟨?_, rfl, isDir_dirOf key, baseOf key, b, rfl, delim_notMem_baseOf key⟩
    rw [← List.append_assoc, dirOf_append_baseOf]

theorem tree : PrefixTree.Tree up where
  above := by
    intro x p e c h
    exact (up_eq_cons h).2.1
  inj := by
    intro x y h
    rcases List.eq_nil_or_concat x with rfl | ⟨key, b, hx⟩
    · rcases List.eq_nil_or_concat y with rfl | ⟨key', b', hy⟩
      · rfl
      · rw [hy, List.concat_eq_append, up_snoc] at h
        cases h
    · rw [List.concat_eq_append] at hx
      have hup := up_snoc key b
      rw [← hx] at hup
      have hup' := h.symm.trans hup
      rw [(up_eq_cons hup).1, (up_eq_cons hup').1]

/-! ### The steps in the words of the key -/

theorem up_append_component {p e : Bytes} (hp : IsDir p) (he : IsComponent e) :
    up (p ++ e) = (p, e) :: up p := by
  obtain ⟨a, b, rfl, ha⟩ := he
  have hscan : dirOf (p ++ a) = p ∧ baseOf (p ++ a) = a := by
    induction a using List.reverseRecOn with
    | nil => simpa using hp.scan
    | append_singleton a b ih =>
      rw [List.mem_append, not_or, List.mem_singleton] at ha
      obtain ⟨hdir, hbase⟩ := ih ha.1
      rw [← List.append_assoc, dirOf_snoc, baseOf_snoc, if_neg (Ne.symm ha.2),
        if_neg (Ne.symm ha.2), hdir, hbase]
      exact ⟨rfl, rfl⟩
  rw [← List.append_assoc, up_snoc, hscan.1, hscan.2]

theorem up_suffix_append {p : Bytes} (hp : IsDir p) (r : Bytes) : up p <:+ up (p ++ r) := by
  have hsteps : up p <:+ (scan (p ++ r)).steps := by
    induction r using List.reverseRecOn with
    | nil =>
      rw [List.append_nil, up, if_pos hp.scan.2]
    | append_singleton r b ih =>
      rw [← List.append_assoc, steps_snoc]
      split
      · exact ih.trans (List.suffix_cons _ _)
      · exact ih
  rw [up.eq_def (p ++ r)]
  split
  · exact hsteps
  · exact hsteps.trans (List.suffix_cons _ _)

/-- The key starts with the directory `p` followed by the component `e`, which ends in the
delimiter or ends the key. -/
def HasStep (key p e : Bytes) : Prop :=
  IsDir p ∧ IsComponent e ∧ p ++ e <+: key ∧ (key = p ++ e ∨ ∃ a, e = a ++ [delim])

/-- A step of a directory ends in the delimiter. -/
theorem HasStep.ends {d p e : Bytes} (hd : IsDir d) (h : HasStep d p e) :
    ∃ a, e = a ++ [delim] := by
  obtain ⟨-, ⟨a, b, he, -⟩, -, hkey | hend⟩ := h
  · rcases hd with hd | ⟨q, hd⟩
    · rw [hkey, he] at hd
      simp at hd
    · rw [hkey, he, ← List.append_assoc] at hd
      have hb : b = delim := by simpa using (List.append_inj' hd rfl).2
      exact ⟨a, by rw [he, hb]⟩
  · exact hend

theorem hasStep_of_mem_up {key p e : Bytes} (h : (p, e) ∈ up key) : HasStep key p e := by
  generalize hc : up key = c at h
  induction c generalizing key with
  | nil => cases h
  | cons y c ih =>
    obtain ⟨q, e'⟩ := y
    obtain ⟨hkey, habove, hq, he'⟩ := up_eq_cons hc
    rcases List.mem_cons.1 h with heq | hmem
    · cases heq
      exact ⟨hq, he', by rw [hkey], Or.inl hkey⟩
    · have hstep := ih habove.symm hmem
      refine ⟨hstep.1, hstep.2.1, hstep.2.2.1.trans ?_, Or.inr (hstep.ends hq)⟩
      rw [hkey]
      exact List.prefix_append _ _

theorem mem_up_iff (key p e : Bytes) : (p, e) ∈ up key ↔ HasStep key p e := by
  constructor
  · exact hasStep_of_mem_up
  · intro ⟨hp, he, ⟨r, hr⟩, hend⟩
    have hhead : (p, e) ∈ up (p ++ e) := by
      rw [up_append_component hp he]
      exact List.mem_cons_self
    rcases hend with hkey | ⟨a, ha⟩
    · rw [hkey]
      exact hhead
    · rw [← hr]
      refine (up_suffix_append (Or.inr ⟨p ++ a, ?_⟩) r).subset hhead
      rw [ha, List.append_assoc]

/-! ### The pairs of the list data -/

/-- The prefix/entry pairs of a key, deepest first; the prefix of the first component is empty
here. -/
def pairs (key : Bytes) : List (Bytes × Bytes) := (dirOf key, baseOf key) :: up (dirOf key)

/-- The pairs are the steps, with an empty entry in front when the key is a directory. -/
theorem pairs_eq (key : Bytes) :
    pairs key = if baseOf key = [] then (key, []) :: up key else up key := by
  have hsplit := dirOf_append_baseOf key
  rw [pairs, up_dirOf, up]
  split
  · next hbase =>
    rw [hbase, List.append_nil] at hsplit
    rw [hbase, hsplit]
  · rfl

theorem delimiterEnds_append (cur : ℕ) (x y : Bytes) :
    delimiterEnds cur (x ++ y) = delimiterEnds cur x ++ delimiterEnds (cur + x.length) y := by
  induction x generalizing cur with
  | nil => rfl
  | cons b x ih =>
    have hlen : cur + (b :: x).length = cur + 1 + x.length := by
      rw [List.length_cons]
      omega
    rw [List.cons_append, delimiterEnds, delimiterEnds, ih, hlen]
    split <;> rfl

theorem positions_snoc (key : Bytes) (b : UInt8) :
    positions (key ++ [b]) = positions key ++ if b = delim then [key.length + 1] else [] := by
  rw [positions, delimiterEnds_append, positions, List.cons_append, Nat.zero_add]
  congr 2

theorem positions_eq (key : Bytes) :
    positions key = ((pairs key).map fun pe => pe.1.length).reverse := by
  rw [pairs, up_dirOf]
  induction key using List.reverseRecOn with
  | nil => rfl
  | append_singleton key b ih =>
    rw [positions_snoc, ih, steps_snoc, dirOf_snoc]
    by_cases hb : b = delim
    · rw [if_pos hb, if_pos hb, if_pos hb, ← List.append_assoc, dirOf_append_baseOf]
      simp
    · rw [if_neg hb, if_neg hb, if_neg hb]
      simp

theorem pairs_split {key p e : Bytes} {l c : List (Bytes × Bytes)}
    (h : pairs key = l ++ (p, e) :: c) :
    p ++ e <+: key ∧ (positions key)[c.length]? = some p.length ∧
      (positions key)[c.length + 1]? = (if l = [] then none else some (p ++ e).length) ∧
      (l = [] → key = p ++ e) := by
  have hpos : positions key = (c.map fun pe => pe.1.length).reverse ++
      p.length :: (l.map fun pe => pe.1.length).reverse := by
    rw [positions_eq, h]
    simp
  have hlen : ((c.map fun pe : Bytes × Bytes => pe.1.length).reverse).length = c.length := by simp
  rcases List.eq_nil_or_concat l with rfl | ⟨l', ⟨q, e'⟩, hl⟩
  · cases h
    have hsplit := dirOf_append_baseOf key
    refine ⟨by rw [hsplit], ?_, ?_, fun _ => hsplit.symm⟩
    · rw [hpos, List.getElem?_append_right (by omega), hlen]
      simp
    · rw [hpos, List.getElem?_append_right (by omega), hlen]
      simp
  · -- the pair below is in the directory `p ++ e`
    rw [List.concat_eq_append] at hl
    have hq : up q = (p, e) :: c := by
      rw [hl, List.append_assoc] at h
      rcases l' with _ | ⟨y, l'⟩
      · have hcons := List.cons.inj h
        rw [← (Prod.mk.inj hcons.1).1]
        exact hcons.2
      · have htail := (List.cons.inj h).2
        exact (tree.above_of_suffix ⟨l', htail.symm⟩).symm
    have hmem : (p, e) ∈ up (dirOf key) := by
      rw [hl] at h
      rcases l' with _ | ⟨y, l'⟩
      · rw [(List.cons.inj h).2]
        exact List.mem_cons_self
      · rw [(List.cons.inj h).2]
        simp
    have hpre : dirOf key <+: key := ⟨baseOf key, dirOf_append_baseOf key⟩
    have hne : l ≠ [] := by
      rw [hl]
      simp
    refine ⟨(hasStep_of_mem_up hmem).2.2.1.trans hpre, ?_, ?_, fun hnil => absurd hnil hne⟩
    · rw [hpos, List.getElem?_append_right (by omega), hlen]
      simp
    · rw [if_neg hne, hpos, List.getElem?_append_right (by omega), hlen, hl,
        ← (up_eq_cons hq).1]
      simp

end DssSdk.Listing
