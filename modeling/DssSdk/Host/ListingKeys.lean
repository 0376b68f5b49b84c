import DssSdk.Host.ListingCache
import DssSdk.Listing.KeySet

/-!
# The listing cache and the stored keys

* `parseLoop_spec`: the loop over the delimiters finds the steps of the key;
* `view`: the cache as a listing of the tree of paths, for prefixes with hashes of their own;
* `Regular`: the events that meet none of the defects;
* `cacheListsKeys_of_run`: after such events the cache lists the stored keys.
-/

namespace DssSdk.Host

open Listing PrefixTree

/-! ### The parts of a key -/

theorem delimiterEnds_snoc (key : Bytes) (b : UInt8) :
    delimiterEnds 0 (key ++ [b]) = delimiterEnds 0 key ++ if b = delim then [key.length + 1] else [] := by
  rw [delimiterEnds_append, Nat.zero_add]
  congr 1

/-- What the loop has found in the first bytes `x` of a key. -/
structure Found (x : Bytes) (s : Entries) : Prop where
  curPos : s.curPos = (dirOf x).length
  prefixes : s.prefixes.length = (up (dirOf x)).length
  dirs : s.dirs.length = (up (dirOf x)).length - 1
  reversed : ∀ f, up (dirOf x) ≠ [] →
    (levels s f).reverse = (dirOf x, f) :: (up (dirOf x)).dropLast
  first : ∀ p ps, s.prefixes = p :: ps → up (dirOf x) = (up (dirOf x)).dropLast ++ [([], p)]

/-- The loop reaches a delimiter. -/
theorem Found.next {x key : Bytes} {s : Entries} (h : Found x s)
    (hdir : dirOf (x ++ [delim]) = x ++ [delim])
    (hup : up (dirOf (x ++ [delim])) = (dirOf x, baseOf x ++ [delim]) :: up (dirOf x))
    (htake : key.take (x.length + 1) = x ++ [delim])
    (hslice : (key.drop (dirOf x).length).take (x.length + 1 - (dirOf x).length) =
      baseOf x ++ [delim]) :
    Found (x ++ [delim]) (s.round key (x.length + 1)) := by
  have hprefixes := h.prefixes
  have hdirs := h.dirs
  by_cases hnil : up (dirOf x) = []
  · -- the first delimiter
    have hzero : dirOf x = [] := tree.inj _ _ (hnil.trans up_nil.symm)
    have hpos : s.curPos = 0 := by rw [h.curPos, hzero]; rfl
    have hp : s.prefixes = [] := List.eq_nil_of_length_eq_zero (by rw [hprefixes, hnil]; rfl)
    have hd : s.dirs = [] := List.eq_nil_of_length_eq_zero (by rw [hdirs, hnil]; rfl)
    have hbase : baseOf x = x := by
      have := dirOf_append_baseOf x
      rwa [hzero, List.nil_append] at this
    rw [hnil, hzero, hbase] at hup
    unfold Entries.round
    rw [if_neg (not_not.2 hpos), hp, hd, htake]
    refine ⟨by rw [hdir, List.length_append]; rfl, by rw [hup]; rfl, by rw [hup]; rfl, ?_, ?_⟩
    · intro f _
      rw [hup, hdir]
      rfl
    · intro p ps hps
      obtain ⟨rfl, -⟩ := List.cons.inj hps
      rw [hup]
      rfl
  · have hne : dirOf x ≠ [] := by
      intro hzero
      rw [hzero] at hnil
      exact hnil up_nil
    have hpos : s.curPos ≠ 0 := by
      rw [h.curPos]
      exact fun hno => hne (List.eq_nil_of_length_eq_zero hno)
    have hlen : 0 < (up (dirOf x)).length := List.length_pos_iff.2 hnil
    unfold Entries.round
    rw [if_pos hpos, htake, h.curPos, hslice]
    refine ⟨by rw [hdir, List.length_append]; rfl, ?_, ?_, ?_, ?_⟩
    · rw [hup, List.length_append, List.length_cons, hprefixes]
      rfl
    · rw [hup, List.length_append, List.length_cons, hdirs]
      change _ - 1 + 1 = _ + 1 - 1
      omega
    · intro f _
      have hlevels := h.reversed (baseOf x ++ [delim]) hnil
      have hzip : levels ⟨s.dirs ++ [baseOf x ++ [delim]],
          s.prefixes ++ [x ++ [delim]], x.length + 1⟩ f =
          levels s (baseOf x ++ [delim]) ++ [(x ++ [delim], f)] := by
        unfold levels
        rw [List.zip_append (by rw [List.length_append, hprefixes, hdirs]; simp; omega)]
        rfl
      rw [hzip, List.reverse_append, hlevels, hup, hdir, List.dropLast_cons_of_ne_nil hnil]
      rfl
    · intro p ps hps
      obtain ⟨p', ps', hs⟩ : ∃ p' ps', s.prefixes = p' :: ps' := by
        cases hs : s.prefixes with
        | nil =>
          rw [hs, List.length_nil] at hprefixes
          omega
        | cons p' ps' => exact ⟨p', ps', rfl⟩
      have hfirst := h.first p' ps' hs
      rw [hs] at hps
      obtain ⟨rfl, -⟩ := List.cons.inj hps
      rw [hup, List.dropLast_cons_of_ne_nil hnil, List.cons_append, ← hfirst]

theorem found_foldl (x y : Bytes) :
    Found x ((delimiterEnds 0 x).foldl (Entries.round (x ++ y)) ⟨[], [], 0⟩) := by
  induction x using List.reverseRecOn generalizing y with
  | nil => exact ⟨rfl, rfl, rfl, fun f hno => absurd rfl hno, fun p ps hno => (nomatch hno)⟩
  | append_singleton x b ih =>
    have hx := ih ([b] ++ y)
    rw [← List.append_assoc] at hx
    rw [delimiterEnds_snoc, List.foldl_append]
    generalize (delimiterEnds 0 x).foldl (Entries.round (x ++ [b] ++ y)) ⟨[], [], 0⟩ = s at hx ⊢
    by_cases hb : b = delim
    · subst hb
      have hdir : dirOf (x ++ [delim]) = x ++ [delim] := by
        rw [dirOf_snoc, if_pos rfl, ← List.append_assoc, dirOf_append_baseOf]
      have hup : up (dirOf (x ++ [delim])) = (dirOf x, baseOf x ++ [delim]) :: up (dirOf x) := by
        rw [hdir, up_snoc]
      have htake : (x ++ [delim] ++ y).take (x.length + 1) = x ++ [delim] := by
        rw [show x.length + 1 = (x ++ [delim]).length by simp, List.take_left]
      have hslice : ((x ++ [delim] ++ y).drop (dirOf x).length).take
          (x.length + 1 - (dirOf x).length) = baseOf x ++ [delim] := by
        have hsplit : x ++ [delim] ++ y = dirOf x ++ (baseOf x ++ [delim] ++ y) := by
          rw [← List.append_assoc, ← List.append_assoc, dirOf_append_baseOf]
        have hlen : x.length + 1 - (dirOf x).length = (baseOf x ++ [delim]).length := by
          have := congrArg List.length (dirOf_append_baseOf x)
          rw [List.length_append] at this
          simp
          omega
        rw [hsplit, List.drop_left, hlen, List.take_left]
      rw [if_pos rfl, List.foldl_cons, List.foldl_nil]
      exact hx.next hdir hup htake hslice
    · rw [if_neg hb, List.foldl_nil]
      have hdir : dirOf (x ++ [b]) = dirOf x := by rw [dirOf_snoc, if_neg hb]
      refine ⟨?_, ?_, ?_, ?_, ?_⟩ <;> rw [hdir]
      · exact hx.curPos
      · exact hx.prefixes
      · exact hx.dirs
      · exact hx.reversed
      · exact hx.first

/-- The loop over the delimiters of a key. -/
theorem parseLoop_spec (key : Bytes) : Found key (parseLoop key) := by
  have h := found_foldl key []
  rw [List.append_nil] at h
  exact h

theorem parseFileName_eq {key : Bytes} (hkey : key ≠ []) (f : Bytes) :
    parseFileName key f = if (baseOf key).length = 1 then f else baseOf key := by
  have hlen := congrArg List.length (dirOf_append_baseOf key)
  rw [List.length_append] at hlen
  have hdrop : key.drop (dirOf key).length = baseOf key := by
    have h : (dirOf key ++ baseOf key).drop (dirOf key).length = baseOf key := List.drop_left
    rwa [dirOf_append_baseOf] at h
  unfold parseFileName
  rw [(parseLoop_spec key).curPos, hdrop]
  by_cases hone : (baseOf key).length = 1
  · rw [if_pos hone, if_neg (by omega)]
  · rw [if_neg hone]
    have hpos : 0 < key.length := List.length_pos_iff.2 hkey
    rw [if_pos (by omega)]

/-! ### The cache as a listing -/

/-- The name of a directory in the cache. -/
def nameOf (p : Bytes) : Bytes := if p = [] then rootPrefix else p

/-- A directory that the cache keeps under a name of its own, among prefixes with distinct
hashes. -/
def Named (P : Finset Bytes) (p : Bytes) : Prop := p ≠ rootPrefix ∧ nameOf p ∈ P

instance (P : Finset Bytes) (p : Bytes) : Decidable (Named P p) := inferInstanceAs (Decidable (_ ∧ _))

/-- The sets of the cache by directory. -/
def view (conf : Conf) (P : Finset Bytes) (c : Cache) (p : Bytes) : Option (Finset Bytes) :=
  if Named P p then (find conf c (nameOf p)).filter (· ≠ ∅) else none

section

variable {conf : Conf} {P : Finset Bytes} {c : Cache} {p q v : Bytes} {o : Option (Finset Bytes)}

theorem nameOf_inj (hp : Named P p) (hq : Named P q) (h : nameOf p = nameOf q) : p = q := by
  unfold nameOf at h
  split_ifs at h with h₁ h₂ h₂
  · rw [h₁, h₂]
  · exact absurd h.symm hq.1
  · exact absurd h hp.1
  · exact h

theorem find_assign (conf : Conf) (c : Cache) (p q : Bytes) (o : Option (Finset Bytes)) :
    find conf (assign conf c p o) q = if conf.hash q = conf.hash p then o else find conf c q := by
  unfold find assign shardId
  by_cases h : conf.hash q = conf.hash p
  · rw [if_pos h, h, Function.update_self, Function.update_self]
  · rw [if_neg h]
    by_cases hs : (conf.hash q).toNat % conf.numShards = (conf.hash p).toNat % conf.numShards
    · rw [hs, Function.update_self, Function.update_of_ne h]
    · rw [Function.update_of_ne hs]

theorem view_of_named (hp : Named P p) :
    view conf P c p = (find conf c (nameOf p)).filter (· ≠ ∅) := if_pos hp

theorem filter_ne_empty_getD (o : Option (Finset Bytes)) :
    (o.filter (· ≠ ∅)).getD ∅ = o.getD ∅ := by
  cases o with
  | none => rfl
  | some s =>
    by_cases h : s = ∅
    · simp [h, Option.filter]
    · simp [h, Option.filter]

theorem entries_view (hp : Named P p) :
    entries (view conf P c) p = (find conf c (nameOf p)).getD ∅ := by
  unfold PrefixTree.entries
  rw [view_of_named hp, filter_ne_empty_getD]

theorem view_ne_empty (conf : Conf) (P : Finset Bytes) (c : Cache) (p : Bytes) :
    view conf P c p ≠ some ∅ := by
  unfold view
  split_ifs
  · intro h
    have := Option.filter_eq_some_iff.1 h
    simp at this
  · exact fun h => (nomatch h)

theorem view_assign (hinj : Set.InjOn conf.hash P) (hp : Named P p) (o : Option (Finset Bytes)) :
    view conf P (assign conf c (nameOf p) o) =
      Function.update (view conf P c) p (o.filter (· ≠ ∅)) := by
  funext q
  by_cases hq : Named P q
  · rw [view_of_named hq, find_assign]
    by_cases heq : q = p
    · subst heq
      rw [if_pos rfl, Function.update_self]
    · have hhash : conf.hash (nameOf q) ≠ conf.hash (nameOf p) :=
        fun h => heq (nameOf_inj hq hp (hinj hq.2 hp.2 h))
      rw [if_neg hhash, Function.update_of_ne heq, view_of_named hq]
  · have heq : q ≠ p := fun h => hq (h ▸ hp)
    rw [Function.update_of_ne heq, view, view, if_neg hq, if_neg hq]

theorem view_populate (hinj : Set.InjOn conf.hash P) (hp : Named P p) (hv : v ≠ []) :
    view conf P (populateIterCache conf c (nameOf p) v) = put (view conf P c) p v := by
  unfold populateIterCache put
  rw [if_neg hv, view_assign hinj hp, entries_view hp]
  congr 1
  simp [Option.filter]

/-- The set of a prefix other than the root's is kept only with entries in it. -/
def NoEmpty (conf : Conf) (P : Finset Bytes) (c : Cache) : Prop :=
  ∀ p, p ≠ [] → Named P p → find conf c p ≠ some ∅

theorem view_of_noEmpty (h : NoEmpty conf P c) (hne : p ≠ []) (hp : Named P p) :
    view conf P c p = find conf c p := by
  have hname : nameOf p = p := if_neg hne
  rw [view_of_named hp, hname]
  cases hf : find conf c p with
  | none => rfl
  | some s =>
    have hs : s ≠ ∅ := fun h' => h p hne hp (by rw [hf, h'])
    simp [Option.filter, hs]

theorem NoEmpty.assign (h : NoEmpty conf P c) (hinj : Set.InjOn conf.hash P) (hp : Named P p)
    (ho : p ≠ [] → o ≠ some ∅) : NoEmpty conf P (assign conf c (nameOf p) o) := by
  intro q hne hq
  rw [find_assign]
  split_ifs with hhash
  · have hname : nameOf q = q := if_neg hne
    have heq : q = p := by
      refine nameOf_inj hq hp (hinj hq.2 hp.2 ?_)
      rw [hname]
      exact hhash
    exact ho (heq ▸ hne)
  · exact h q hne hq

theorem NoEmpty.populate (h : NoEmpty conf P c) (hinj : Set.InjOn conf.hash P) (hp : Named P p)
    (v : Bytes) : NoEmpty conf P (populateIterCache conf c (nameOf p) v) := by
  unfold populateIterCache
  split_ifs
  · exact h
  · exact h.assign hinj hp fun _ hno => Finset.insert_ne_empty _ _ (Option.some.inj hno)

/-! ### A key is entered -/

theorem foldl_populate (hinj : Set.InjOn conf.hash P) (l : List (Bytes × Bytes))
    (hl : ∀ y ∈ l, Named P y.1) (h : NoEmpty conf P c) :
    NoEmpty conf P (l.foldl (fun c pe => populateIterCache conf c (nameOf pe.1) pe.2) c) ∧
    ∀ q e, e ∈ entries (view conf P
        (l.foldl (fun c pe => populateIterCache conf c (nameOf pe.1) pe.2) c)) q ↔
      e ∈ entries (view conf P c) q ∨ (q, e) ∈ l ∧ e ≠ [] := by
  induction l generalizing c with
  | nil => exact ⟨h, fun q e => by simp⟩
  | cons y l ih =>
    obtain ⟨p, v⟩ := y
    have hp := hl (p, v) List.mem_cons_self
    have hrest := ih (fun y hy => hl y (List.mem_cons_of_mem _ hy)) (h.populate hinj hp v)
    refine ⟨hrest.1, fun q e => ?_⟩
    rw [List.foldl_cons, hrest.2]
    by_cases hv : v = []
    · subst hv
      have hsame : populateIterCache conf c (nameOf p) [] = c := if_pos rfl
      rw [hsame, List.mem_cons, Prod.mk.injEq]
      constructor
      · rintro (he | he)
        · exact Or.inl he
        · exact Or.inr ⟨Or.inr he.1, he.2⟩
      · rintro (he | ⟨he | he, hne⟩)
        · exact Or.inl he
        · exact absurd he.2 hne
        · exact Or.inr ⟨he, hne⟩
    · rw [view_populate hinj hp hv, mem_entries_put, List.mem_cons, Prod.mk.injEq]
      constructor
      · rintro ((he | he) | he)
        · exact Or.inl he
        · exact Or.inr ⟨Or.inl he, he.2 ▸ hv⟩
        · exact Or.inr ⟨Or.inr he.1, he.2⟩
      · rintro (he | ⟨he | he, hne⟩)
        · exact Or.inl (Or.inl he)
        · exact Or.inl (Or.inr he)
        · exact Or.inr ⟨he, hne⟩

/-- The directories of a key have names, and none is the name of the root. -/
def KeyNamed (P : Finset Bytes) (key : Bytes) : Prop :=
  ¬ rootPrefix <+: key ∧ ∀ y ∈ pairs key, nameOf y.1 ∈ P

instance (P : Finset Bytes) (key : Bytes) : Decidable (KeyNamed P key) :=
  inferInstanceAs (Decidable (_ ∧ _))

theorem KeyNamed.named {key : Bytes} (h : KeyNamed P key) {y : Bytes × Bytes} (hy : y ∈ pairs key) :
    Named P y.1 := by
  refine ⟨fun heq => h.1 ?_, h.2 y hy⟩
  rw [← heq]
  rcases List.mem_cons.1 hy with rfl | hy
  · exact ⟨baseOf key, dirOf_append_baseOf key⟩
  · have hstep := (hasStep_of_mem_up hy).2.2.1
    exact ((List.prefix_append _ _).trans hstep).trans ⟨baseOf key, dirOf_append_baseOf key⟩

theorem ne_nil_of_mem_dropLast {x : Bytes} {y : Bytes × Bytes} (hy : y ∈ (up x).dropLast) :
    y.1 ≠ [] := by
  generalize hc : up x = c at hy
  induction c generalizing x with
  | nil => cases hy
  | cons z c ih =>
    obtain ⟨p, e⟩ := z
    have hup := (up_eq_cons hc).2.1
    by_cases hnil : c = []
    · rw [hnil] at hy
      cases hy
    · rw [List.dropLast_cons_of_ne_nil hnil] at hy
      rcases List.mem_cons.1 hy with rfl | hy
      · intro hzero
        dsimp only at hzero
        rw [hzero, up_nil] at hup
        exact hnil hup
      · exact ih hup.symm hy

theorem mem_up_iff_mem_pairs {key q e : Bytes} :
    (q, e) ∈ up key ↔ (q, e) ∈ pairs key ∧ e ≠ [] := by
  rw [pairs_eq]
  split_ifs with hbase
  · rw [List.mem_cons, Prod.mk.injEq]
    constructor
    · exact fun h => ⟨Or.inr h, (hasStep_of_mem_up h).2.1.ne_nil⟩
    · rintro ⟨h | h, hne⟩
      · exact absurd h.2 hne
      · exact h
  · exact ⟨fun h => ⟨h, (hasStep_of_mem_up h).2.1.ne_nil⟩, fun h => h.1⟩

theorem levels_eq {key : Bytes} {p : Bytes} {ps : List Bytes} (hp : (parseLoop key).prefixes = p :: ps)
    (f : Bytes) : up (dirOf key) = (up (dirOf key)).dropLast ++ [([], p)] ∧
      levels (parseLoop key) f = ((dirOf key, f) :: (up (dirOf key)).dropLast).reverse ∧
      (parseLoop key).dirs.length = ps.length := by
  have hfound := parseLoop_spec key
  have hfirst := hfound.first p ps hp
  have hne : up (dirOf key) ≠ [] := by
    intro hnil
    rw [hnil] at hfirst
    simp at hfirst
  refine ⟨hfirst, ?_, ?_⟩
  · rw [← hfound.reversed f hne, List.reverse_reverse]
  · have hlen := hfound.prefixes
    rw [hp, List.length_cons] at hlen
    rw [hfound.dirs]
    omega

theorem up_dirOf_eq_nil {key : Bytes} (hp : (parseLoop key).prefixes = []) : up (dirOf key) = [] := by
  have hlen := (parseLoop_spec key).prefixes
  rw [hp] at hlen
  exact List.eq_nil_of_length_eq_zero hlen.symm

theorem enterKey_spec (hinj : Set.InjOn conf.hash P) (h : NoEmpty conf P c) {key : Bytes}
    (hkey : key ≠ []) (hnamed : KeyNamed P key) (hbase : (baseOf key).length ≠ 1) (f : Bytes) :
    ∃ c', enterKey conf c key f = some c' ∧ NoEmpty conf P c' ∧
      ∀ q e, e ∈ entries (view conf P c') q ↔ e ∈ entries (view conf P c) q ∨ (q, e) ∈ up key := by
  unfold enterKey
  rw [if_neg hkey, parseFileName_eq hkey, if_neg hbase]
  cases hp : (parseLoop key).prefixes with
  | nil =>
    have hpairs : pairs key = [([], baseOf key)] := by
      have hnil := up_dirOf_eq_nil hp
      have hdir : dirOf key = [] := tree.inj _ _ (hnil.trans up_nil.symm)
      rw [pairs, hnil, hdir]
    have hspec := foldl_populate hinj (pairs key) (fun y hy => hnamed.named hy) h
    rw [hpairs] at hspec
    refine ⟨_, rfl, hspec.1, fun q e => (hspec.2 q e).trans ?_⟩
    rw [mem_up_iff_mem_pairs, hpairs]
  | cons p ps =>
    obtain ⟨hfirst, hlevels, hlen⟩ := levels_eq hp (baseOf key)
    dsimp only
    rw [if_pos hlen]
    have hmem : ∀ y, y ∈ ([], p) :: levels (parseLoop key) (baseOf key) ↔ y ∈ pairs key := by
      intro y
      rw [hlevels, pairs, hfirst]
      simp only [List.mem_cons, List.mem_reverse, List.mem_append, List.dropLast_concat]
      tauto
    have hfold : (levels (parseLoop key) (baseOf key)).foldl
        (fun c pe => populateIterCache conf c pe.1 pe.2) (populateIterCache conf c rootPrefix p) =
        (([], p) :: levels (parseLoop key) (baseOf key)).foldl
          (fun c pe => populateIterCache conf c (nameOf pe.1) pe.2) c := by
      refine List.foldl_ext _ _ _ fun c' y hy => ?_
      have hy1 : y.1 ≠ [] := by
        rw [hlevels, List.mem_reverse] at hy
        rcases List.mem_cons.1 hy with rfl | hy
        · intro hdir
          dsimp only at hdir
          rw [hdir] at hfirst
          simp [up_nil] at hfirst
        · exact ne_nil_of_mem_dropLast hy
      rw [show nameOf y.1 = y.1 from if_neg hy1]
    have hspec := foldl_populate hinj (([], p) :: levels (parseLoop key) (baseOf key))
      (fun y hy => hnamed.named ((hmem y).1 hy)) h
    rw [← hfold] at hspec
    refine ⟨_, rfl, hspec.1, fun q e => (hspec.2 q e).trans ?_⟩
    rw [mem_up_iff_mem_pairs, hmem]

theorem lists_enterKey (hinj : Set.InjOn conf.hash P) (h : NoEmpty conf P c) {K : Set Bytes}
    (hlists : Lists up K (view conf P c)) {key : Bytes} (hkey : key ≠ []) (hnamed : KeyNamed P key)
    (hbase : (baseOf key).length ≠ 1) (f : Bytes) :
    ∃ c', enterKey conf c key f = some c' ∧ NoEmpty conf P c' ∧
      Lists up (insert key K) (view conf P c') := by
  obtain ⟨c', hc', hno, hmem⟩ := enterKey_spec hinj h hkey hnamed hbase f
  refine ⟨c', hc', hno, view_ne_empty conf P c', fun q e => ?_⟩
  rw [hmem, hlists.mem_iff]
  constructor
  · rintro (⟨k, hk, hstep⟩ | hstep)
    · exact ⟨k, Set.mem_insert_of_mem _ hk, hstep⟩
    · exact ⟨key, Set.mem_insert _ _, hstep⟩
  · rintro ⟨k, hk, hstep⟩
    rcases Set.mem_insert_iff.1 hk with rfl | hk
    · exact Or.inr hstep
    · exact Or.inl ⟨k, hk, hstep⟩

/-! ### A key is deleted -/

/-- An entry is removed from the set of a prefix other than the root's. -/
inductive Removed (conf : Conf) (P : Finset Bytes) (c : Cache) (p v : Bytes) : Cache × Bool → Prop
  | absent : view conf P c p = none → Removed conf P c p v (c, false)
  | kept (c' : Cache) (s : Finset Bytes) : view conf P c p = some s → s.erase v ≠ ∅ →
      NoEmpty conf P c' → view conf P c' = Function.update (view conf P c) p (some (s.erase v)) →
      Removed conf P c p v (c', false)
  | gone (c' : Cache) (s : Finset Bytes) : view conf P c p = some s → s.erase v = ∅ →
      NoEmpty conf P c' → view conf P c' = Function.update (view conf P c) p none →
      Removed conf P c p v (c', true)

theorem removeFromIterCache_spec (hinj : Set.InjOn conf.hash P) (h : NoEmpty conf P c)
    (hne : p ≠ []) (hp : Named P p) (hv : v ≠ []) :
    Removed conf P c p v (removeFromIterCache conf c p v false) := by
  have hview := view_of_noEmpty h hne hp
  have hname : nameOf p = p := if_neg hne
  unfold removeFromIterCache
  rw [if_neg hv]
  cases hf : find conf c p with
  | none =>
    rw [hf] at hview
    exact .absent hview
  | some s =>
    rw [hf] at hview
    dsimp only
    by_cases hs : s.erase v = ∅
    · rw [if_pos ⟨hs, rfl⟩]
      have hno := h.assign hinj hp (o := none) fun _ => (nomatch ·)
      have hassign := view_assign (c := c) hinj hp none
      rw [hname] at hno hassign
      exact .gone _ s hview hs hno hassign
    · rw [if_neg fun hno => hs hno.1]
      have hno := h.assign hinj hp (o := some (s.erase v)) fun _ heq => hs (Option.some.inj heq)
      have hassign := view_assign (c := c) hinj hp (some (s.erase v))
      rw [hname] at hno hassign
      refine .kept _ s hview hs hno (hassign.trans ?_)
      congr 1
      simp [Option.filter, hs]

theorem removeRoot_spec (hinj : Set.InjOn conf.hash P) (h : NoEmpty conf P c) (hp : Named P [])
    (hv : v ≠ []) :
    NoEmpty conf P (removeFromIterCache conf c rootPrefix v true).1 ∧
      view conf P (removeFromIterCache conf c rootPrefix v true).1 =
        remove (view conf P c) [([], v)] := by
  have hview : view conf P c [] = (find conf c rootPrefix).filter (· ≠ ∅) := view_of_named hp
  have hassign := fun o => view_assign (c := c) hinj hp o
  have hno := fun o => h.assign hinj hp (o := o) fun hno => absurd rfl hno
  rw [show nameOf [] = rootPrefix from rfl] at hassign hno
  unfold removeFromIterCache
  rw [if_neg hv]
  cases hf : find conf c rootPrefix with
  | none =>
    rw [hf] at hview
    exact ⟨h, by simp [remove, hview]⟩
  | some s =>
    rw [hf] at hview
    dsimp only
    rw [if_neg (by simp)]
    refine ⟨hno _, ?_⟩
    rw [hassign, remove]
    by_cases hs : s = ∅
    · subst hs
      have hnone : view conf P c [] = none := hview
      rw [hnone, Finset.erase_empty]
      change Function.update (view conf P c) [] none = view conf P c
      rw [← hnone]
      exact Function.update_eq_self [] _
    · have hsome : view conf P c [] = some s := by
        rw [hview]
        simp [Option.filter, hs]
      rw [hsome]
      dsimp only
      by_cases herase : s.erase v = ∅
      · rw [if_pos herase, herase]
        simp [Option.filter, remove]
      · rw [if_neg herase]
        simp [Option.filter, herase]

theorem removeUp_spec (hinj : Set.InjOn conf.hash P) (h : NoEmpty conf P c) {x : Bytes}
    (hnamed : ∀ y ∈ up x, Named P y.1) (hlisted : ∀ y ∈ up x, y.2 ∈ entries (view conf P c) y.1)
    (hne : (up x).dropLast ≠ []) :
    NoEmpty conf P (removeUp conf c (up x).dropLast) ∧
      view conf P (removeUp conf c (up x).dropLast) = remove (view conf P c) (up x) := by
  generalize hc : up x = l at hnamed hlisted hne ⊢
  induction l generalizing x c with
  | nil => exact absurd rfl hne
  | cons y l ih =>
    obtain ⟨p, e⟩ := y
    obtain ⟨-, hl, -, he⟩ := up_eq_cons hc
    have hlne : l ≠ [] := by
      rintro rfl
      exact hne rfl
    have hpne : p ≠ [] := by
      rintro rfl
      rw [up_nil] at hl
      exact hlne hl
    have hp := hnamed (p, e) List.mem_cons_self
    have hmem := hlisted (p, e) List.mem_cons_self
    have hspec := removeFromIterCache_spec hinj h hpne hp he.ne_nil
    rw [List.dropLast_cons_of_ne_nil hlne, removeUp, remove]
    generalize removeFromIterCache conf c p e false = r at hspec
    cases hspec with
    | absent hnone =>
      rw [entries_none hnone] at hmem
      cases hmem
    | kept c' s hs herase hno hview =>
      rw [hs]
      dsimp only
      rw [if_neg herase]
      exact ⟨hno, hview⟩
    | gone c' s hs herase hno hview =>
      rw [hs]
      dsimp only
      rw [if_pos herase, ← hview]
      -- the directories above are other ones, so their entries are still there
      have hlisted' : ∀ y ∈ l, y.2 ∈ entries (view conf P c') y.1 := by
        intro y hy
        have hyp : y.1 ≠ p := by
          intro heq
          apply tree.not_mem_self p y.2
          rw [← hl, ← heq]
          exact hy
        rw [hview, entries_update, if_neg hyp]
        exact hlisted y (List.mem_cons_of_mem _ hy)
      have hnamed' : ∀ y ∈ l, Named P y.1 := fun y hy => hnamed y (List.mem_cons_of_mem _ hy)
      by_cases hlast : l.dropLast = []
      · rw [if_pos hlast]
        obtain ⟨z, rfl⟩ : ∃ z, l = [z] := by
          rcases l with _ | ⟨z, _ | ⟨w, l⟩⟩
          · exact absurd rfl hlne
          · exact ⟨z, rfl⟩
          · cases hlast
        obtain ⟨q, d⟩ := z
        obtain ⟨hpd, hq, -, hd⟩ := up_eq_cons hl.symm
        have hqnil : q = [] := tree.inj _ _ (hq.symm.trans up_nil.symm)
        subst hqnil
        rw [List.nil_append] at hpd
        subst hpd
        exact removeRoot_spec hinj hno (hnamed' ([], p) List.mem_cons_self) hd.ne_nil
      · rw [if_neg hlast]
        exact ih hno hl.symm hnamed' hlisted' hlast

theorem lists_unlist {K : Set Bytes} {L : Bytes → Option (Finset Bytes)} {key e : Bytes}
    (h : Lists up K L) (hup : up key = (p, e) :: up p)
    (honly : ∀ k ∈ K, (p, e) ∈ up k → k = key) (hother : ∃ k ∈ K, k ≠ key ∧ p <+: k)
    {L' : Bytes → Option (Finset Bytes)} (hne : ∀ q, L' q ≠ some ∅)
    (hL' : ∀ q, entries L' q = if q = p then (entries L p).erase e else entries L q) :
    Lists up (K \ {key}) L' := by
  refine ⟨hne, fun q e' => ?_⟩
  rw [hL']
  split_ifs with hq
  · subst hq
    rw [Finset.mem_erase, h.mem_iff]
    constructor
    · rintro ⟨he', k, hk, hstep⟩
      refine ⟨k, ⟨hk, fun heq => ?_⟩, hstep⟩
      rw [Set.mem_singleton_iff] at heq
      rw [heq, hup] at hstep
      rcases List.mem_cons.1 hstep with heq' | hstep
      · exact he' (Prod.mk.inj heq').2
      · exact tree.not_mem_self q e' hstep
    · rintro ⟨k, hk, hstep⟩
      exact ⟨fun heq => hk.2 (honly k hk.1 (heq ▸ hstep)), k, hk.1, hstep⟩
  · rw [h.mem_iff]
    constructor
    · rintro ⟨k, hk, hstep⟩
      by_cases heq : k = key
      · rw [heq, hup] at hstep
        rcases List.mem_cons.1 hstep with heq' | hstep
        · exact absurd (Prod.mk.inj heq').1 hq
        · obtain ⟨k', hk', hne', ⟨r, hr⟩⟩ := hother
          refine ⟨k', ⟨hk', hne'⟩, ?_⟩
          rw [← hr]
          exact (up_suffix_append (up_eq_cons hup).2.2.1 r).subset hstep
      · exact ⟨k, ⟨hk, heq⟩, hstep⟩
    · rintro ⟨k, hk, hstep⟩
      exact ⟨k, hk.1, hstep⟩

theorem eq_of_mem_up_base {key k : Bytes}
    (h : (dirOf key, baseOf key) ∈ up k) : k = key := by
  obtain ⟨-, -, -, hk | ⟨a, ha⟩⟩ := hasStep_of_mem_up h
  · rw [hk, dirOf_append_baseOf]
  · exact absurd (ha ▸ List.mem_append_right a List.mem_cons_self) (delim_notMem_baseOf key)

theorem up_eq_of_base {key : Bytes} (hbase : baseOf key ≠ []) :
    up key = (dirOf key, baseOf key) :: up (dirOf key) := by
  have h := pairs_eq key
  rw [if_neg hbase] at h
  exact h.symm

theorem up_dirOf_length (key : Bytes) : (up (dirOf key)).length = key.count delim := by
  have h := pairs_length key
  rw [pairs, List.length_cons] at h
  omega

/-- The file name that a delete takes. -/
def fileNameOf (key : Bytes) : Bytes := if (baseOf key).length = 1 then [] else baseOf key

theorem removeKey_eq (conf : Conf) (c : Cache) {key : Bytes} (hkey : key ≠ []) :
    removeKey conf c key = some
      (if up (dirOf key) = [] then (removeFromIterCache conf c rootPrefix (fileNameOf key) true).1
      else
        if (removeFromIterCache conf c (dirOf key) (fileNameOf key) false).2 = true then
          removeUp conf (removeFromIterCache conf c (dirOf key) (fileNameOf key) false).1
            (up (dirOf key)).dropLast
        else (removeFromIterCache conf c (dirOf key) (fileNameOf key) false).1) := by
  unfold removeKey
  rw [if_neg hkey, parseFileName_eq hkey]
  have hfile : (if (baseOf key).length = 1 then [] else baseOf key) = fileNameOf key := rfl
  rw [hfile]
  cases hp : (parseLoop key).prefixes with
  | nil =>
    have hlevels : levels (parseLoop key) (fileNameOf key) = [] := by
      rw [levels, hp]
      rfl
    rw [hlevels, if_pos (up_dirOf_eq_nil hp)]
    rfl
  | cons p ps =>
    obtain ⟨hfirst, hlevels, hlen⟩ := levels_eq hp (fileNameOf key)
    have hne : up (dirOf key) ≠ [] := by
      rw [hfirst]
      simp
    have hdirs := (parseLoop_spec key).dirs
    rw [hlevels, List.reverse_reverse, if_neg hne]
    dsimp only
    rw [if_pos (by rw [hdirs, List.length_dropLast])]
    generalize removeFromIterCache conf c (dirOf key) (fileNameOf key) false = r
    obtain ⟨c', b⟩ := r
    cases b <;> rfl

/-- The last key below a first component, a key without a file name and a key below a stored
directory are deleted only when the cache comes out right. -/
def DeleteOk (K : Finset Bytes) (key : Bytes) : Prop :=
  (key.count delim = 1 → key ∈ K → ∃ k ∈ K, k ≠ key ∧ dirOf key <+: k) ∧
  (2 ≤ key.count delim → (baseOf key).length ≤ 1 → ∀ k ∈ K, dirOf key <+: k → k = key) ∧
  (2 ≤ key.count delim → key ∈ K → MarkersKept K ⟨.delete, key⟩)

instance (K : Finset Bytes) (key : Bytes) : Decidable (DeleteOk K key) :=
  inferInstanceAs (Decidable (_ ∧ _ ∧ _))

section

variable {K : Finset Bytes} {key : Bytes}

theorem lists_diff_absent {L : Bytes → Option (Finset Bytes)} (h : Lists up K L) (hK : key ∉ K) :
    Lists up ((K : Set Bytes) \ {key}) L := by
  rw [Set.sdiff_singleton_eq_self (by simpa using hK)]
  exact h

theorem removed_notMem {r : Cache × Bool} (hno : NoEmpty conf P c)
    (hr : Removed conf P c p v r) (hv : v ∉ entries (view conf P c) p) :
    r.2 = false ∧ NoEmpty conf P r.1 ∧ view conf P r.1 = view conf P c := by
  cases hr with
  | absent _ => exact ⟨rfl, hno, rfl⟩
  | kept c' s hs _ hno' hview =>
    rw [entries_some hs] at hv
    refine ⟨rfl, hno', ?_⟩
    rw [hview, Finset.erase_eq_of_notMem hv, ← hs, Function.update_eq_self]
  | gone c' s hs herase _ _ =>
    rw [entries_some hs] at hv
    rw [Finset.erase_eq_of_notMem hv] at herase
    rw [herase] at hs
    exact absurd hs (view_ne_empty conf P c p)

theorem lists_removeKey_root (hinj : Set.InjOn conf.hash P) (h : NoEmpty conf P c)
    (hlists : Lists up K (view conf P c)) (hK : ∀ k ∈ K, k ≠ [] ∧ (baseOf k).length ≠ 1)
    (hkey : key ≠ []) (hnamed : KeyNamed P key) (hup : up (dirOf key) = []) :
    NoEmpty conf P (removeFromIterCache conf c rootPrefix (fileNameOf key) true).1 ∧
      Lists up ((K : Set Bytes) \ {key})
        (view conf P (removeFromIterCache conf c rootPrefix (fileNameOf key) true).1) := by
  have hdir : dirOf key = [] := tree.inj _ _ (hup.trans up_nil.symm)
  have hbase : baseOf key = key := by
    have := dirOf_append_baseOf key
    rwa [hdir, List.nil_append] at this
  by_cases hone : (baseOf key).length = 1
  · have hf : fileNameOf key = [] := if_pos hone
    rw [hf]
    exact ⟨h, lists_diff_absent hlists fun hmem => (hK key hmem).2 hone⟩
  · have hf : fileNameOf key = key := by rw [fileNameOf, if_neg hone, hbase]
    have hroot : Named P [] := by
      have := hnamed.named (List.mem_cons_self : (dirOf key, baseOf key) ∈ pairs key)
      rwa [hdir] at this
    have hbase' : baseOf key ≠ [] := hbase.symm ▸ hkey
    obtain ⟨hno, hview⟩ := removeRoot_spec hinj h hroot hkey
    have hup' : up key = [([], key)] := by rw [up_eq_of_base hbase', hup, hdir, hbase]
    rw [hf]
    refine ⟨hno, ?_⟩
    rw [hview, ← hup']
    refine hlists.remove tree (eq_none_of_lists hlists hbase') fun m hm ⟨e, he⟩ => ?_
    rw [hup', List.mem_singleton, Prod.mk.injEq] at he
    exact absurd he.1 (hK m hm.1).1

theorem lists_removeKey_marker (hinj : Set.InjOn conf.hash P) (h : NoEmpty conf P c)
    (hlists : Lists up K (view conf P c)) (hK : ∀ k ∈ K, k ≠ [] ∧ (baseOf k).length ≠ 1)
    (hnamed : KeyNamed P key) (hok : DeleteOk K key) (hup : up (dirOf key) ≠ [])
    (hbase : (baseOf key).length ≤ 1) :
    NoEmpty conf P (removeUp conf c (up (dirOf key)).dropLast) ∧
      Lists up ((K : Set Bytes) \ {key})
        (view conf P (removeUp conf c (up (dirOf key)).dropLast)) := by
  have hlen := up_dirOf_length key
  have hstored : key ∈ K → dirOf key = key ∧ baseOf key = [] := by
    intro hmem
    have hnil : baseOf key = [] := by
      have := (hK key hmem).2
      exact List.eq_nil_of_length_eq_zero (by omega)
    have := dirOf_append_baseOf key
    rw [hnil, List.append_nil] at this
    exact ⟨this, hnil⟩
  by_cases hlast : (up (dirOf key)).dropLast = []
  · rw [hlast]
    refine ⟨h, ?_⟩
    by_cases hmem : key ∈ K
    · -- another key is below the directory, so that it stays in the root
      have hcount : key.count delim = 1 := by
        have hd := congrArg List.length hlast
        have hpos : 0 < (up (dirOf key)).length := List.length_pos_iff.2 hup
        rw [List.length_dropLast, List.length_nil] at hd
        omega
      obtain ⟨hdir, -⟩ := hstored hmem
      obtain ⟨k, hk, hne, hpre⟩ := hok.1 hcount hmem
      rw [hdir] at hpre
      obtain ⟨e, he⟩ := exists_mem_up (hdir ▸ isDir_dirOf key) hpre hne
      refine hlists.erase_node tree ?_
      have hent := (hlists.mem_iff key e).2 ⟨k, hk, he⟩
      by_contra hno
      rw [entries_none (Option.not_isSome_iff_eq_none.1 hno)] at hent
      cases hent
    · exact lists_diff_absent hlists hmem
  · have hcount : 2 ≤ key.count delim := by
      have hpos := List.length_pos_iff.2 hlast
      rw [List.length_dropLast] at hpos
      omega
    by_cases hmem : key ∈ K
    · obtain ⟨hdir, hnil⟩ := hstored hmem
      have halone := hok.2.1 hcount hbase
      rw [hdir] at hlast halone ⊢
      have hnamed' : ∀ y ∈ up key, Named P y.1 := by
        intro y hy
        refine hnamed.named ?_
        rw [pairs_eq, if_pos hnil]
        exact List.mem_cons_of_mem _ hy
      have hlisted : ∀ y ∈ up key, y.2 ∈ entries (view conf P c) y.1 :=
        fun y hy => (hlists.mem_iff y.1 y.2).2 ⟨key, hmem, hy⟩
      obtain ⟨hno, hview⟩ := removeUp_spec hinj h hnamed' hlisted hlast
      refine ⟨hno, ?_⟩
      rw [hview]
      refine hlists.remove tree ?_ ((hok.2.2 hcount hmem).marked rfl fun k hk => (hK k hk).1)
      rw [← Option.not_isSome_iff_eq_none]
      intro hsome
      obtain ⟨k, hk, ⟨e, he⟩, -⟩ := hlists.closed tree hsome
      have hpre := (List.prefix_append key e).trans (hasStep_of_mem_up he).2.2.1
      rw [halone k hk hpre] at he
      exact tree.not_mem_self key e he
    · -- no key is below the directory, so that it is not listed
      have halone := hok.2.1 hcount hbase
      cases hl : up (dirOf key) with
      | nil => exact absurd hl hup
      | cons y l =>
        obtain ⟨q, d⟩ := y
        obtain ⟨hqd, hl', -, hd⟩ := up_eq_cons hl
        have hlne : l ≠ [] := by
          rintro rfl
          rw [hl] at hlast
          exact hlast rfl
        have hqne : q ≠ [] := by
          rintro rfl
          exact hlne hl'
        have hq : Named P q := by
          refine hnamed.named (y := (q, d)) ?_
          rw [pairs, hl]
          simp
        have hnot : d ∉ entries (view conf P c) q := by
          rw [hlists.mem_iff]
          rintro ⟨k, hk, hstep⟩
          have hpre := (hasStep_of_mem_up hstep).2.2.1
          rw [← hqd] at hpre
          exact hmem (halone k hk hpre ▸ hk)
        have hspec := removeFromIterCache_spec hinj h hqne hq hd.ne_nil
        obtain ⟨hfalse, hno, hview⟩ := removed_notMem h hspec hnot
        rw [List.dropLast_cons_of_ne_nil hlne, removeUp]
        generalize removeFromIterCache conf c q d false = r at hfalse hno hview
        obtain ⟨c', b⟩ := r
        dsimp only at hfalse hno hview ⊢
        subst hfalse
        refine ⟨hno, ?_⟩
        dsimp only
        rw [hview]
        exact lists_diff_absent hlists hmem

theorem lists_removeKey_file (hinj : Set.InjOn conf.hash P)
    (hlists : Lists up K (view conf P c)) (hK : ∀ k ∈ K, k ≠ [] ∧ (baseOf k).length ≠ 1)
    (hnamed : KeyNamed P key) (hok : DeleteOk K key) (hup : up (dirOf key) ≠ [])
    (hbase : baseOf key ≠ []) (hmem : key ∈ K) {r : Cache × Bool}
    (hr : Removed conf P c (dirOf key) (baseOf key) r) :
    NoEmpty conf P (if r.2 = true then removeUp conf r.1 (up (dirOf key)).dropLast else r.1) ∧
      Lists up ((K : Set Bytes) \ {key}) (view conf P
        (if r.2 = true then removeUp conf r.1 (up (dirOf key)).dropLast else r.1)) := by
  have hlen := up_dirOf_length key
  have hupkey := up_eq_of_base hbase
  have hlisted : ∀ y ∈ up key, y.2 ∈ entries (view conf P c) y.1 :=
    fun y hy => (hlists.mem_iff y.1 y.2).2 ⟨key, hmem, hy⟩
  have hhead : baseOf key ∈ entries (view conf P c) (dirOf key) :=
    hlisted (dirOf key, baseOf key) (hupkey ▸ List.mem_cons_self)
  cases hr with
  | absent hnone =>
    rw [entries_none hnone] at hhead
    cases hhead
  | kept c' s hs herase hno hview =>
    refine ⟨hno, ?_⟩
    -- another entry of the directory belongs to another key
    have hother : ∃ k ∈ (K : Set Bytes), k ≠ key ∧ dirOf key <+: k := by
      obtain ⟨e, he⟩ := Finset.nonempty_iff_ne_empty.2 herase
      rw [Finset.mem_erase, ← entries_some hs, hlists.mem_iff] at he
      obtain ⟨hne, k, hk, hstep⟩ := he
      refine ⟨k, hk, ?_, (List.prefix_append _ e).trans (hasStep_of_mem_up hstep).2.2.1⟩
      rintro rfl
      rw [hupkey] at hstep
      rcases List.mem_cons.1 hstep with heq | hstep
      · exact hne (Prod.mk.inj heq).2
      · exact tree.not_mem_self _ e hstep
    refine lists_unlist hlists hupkey (fun k _ h => eq_of_mem_up_base h) hother
      (view_ne_empty conf P c') fun q => ?_
    change entries (view conf P c') q = _
    rw [hview, entries_update, entries_some hs]
    rfl
  | gone c' s hs herase hno hview =>
    dsimp only
    rw [if_pos rfl]
    by_cases hlast : (up (dirOf key)).dropLast = []
    · rw [hlast]
      refine ⟨hno, ?_⟩
      have hcount : key.count delim = 1 := by
        have hd := congrArg List.length hlast
        have hpos : 0 < (up (dirOf key)).length := List.length_pos_iff.2 hup
        rw [List.length_dropLast, List.length_nil] at hd
        omega
      refine lists_unlist hlists hupkey (fun k _ h => eq_of_mem_up_base h) (hok.1 hcount hmem)
        (view_ne_empty conf P c') fun q => ?_
      change entries (view conf P c') q = _
      rw [hview, entries_update, entries_some hs, herase]
      rfl
    · have hcount : 2 ≤ key.count delim := by
        have hpos := List.length_pos_iff.2 hlast
        rw [List.length_dropLast] at hpos
        omega
      have hnamed' : ∀ y ∈ up (dirOf key), Named P y.1 :=
        fun y hy => hnamed.named (List.mem_cons_of_mem _ hy)
      have hlisted' : ∀ y ∈ up (dirOf key), y.2 ∈ entries (view conf P c') y.1 := by
        intro y hy
        have hne : y.1 ≠ dirOf key := by
          intro heq
          apply tree.not_mem_self (dirOf key) y.2
          rw [← heq] at hy ⊢
          exact hy
        rw [hview, entries_update, if_neg hne]
        exact hlisted y (hupkey ▸ List.mem_cons_of_mem _ hy)
      obtain ⟨hno', hview'⟩ := removeUp_spec hinj hno hnamed' hlisted' hlast
      refine ⟨hno', ?_⟩
      have hremove : remove (view conf P c) (up key) = remove (view conf P c') (up (dirOf key)) := by
        rw [hupkey, remove, hs]
        dsimp only
        rw [if_pos herase, hview]
      rw [hview', ← hremove]
      exact hlists.remove tree (eq_none_of_lists hlists hbase)
        ((hok.2.2 hcount hmem).marked rfl fun k hk => (hK k hk).1)

theorem lists_removeKey (hinj : Set.InjOn conf.hash P) (h : NoEmpty conf P c)
    (hlists : Lists up K (view conf P c)) (hK : ∀ k ∈ K, k ≠ [] ∧ (baseOf k).length ≠ 1)
    (hkey : key ≠ []) (hnamed : KeyNamed P key) (hok : DeleteOk K key) :
    ∃ c', removeKey conf c key = some c' ∧ NoEmpty conf P c' ∧
      Lists up ((K : Set Bytes) \ {key}) (view conf P c') := by
  rw [removeKey_eq conf c hkey]
  refine ⟨_, rfl, ?_⟩
  by_cases hup : up (dirOf key) = []
  · rw [if_pos hup]
    exact lists_removeKey_root hinj h hlists hK hkey hnamed hup
  · rw [if_neg hup]
    by_cases hbase : (baseOf key).length ≤ 1
    · have hf : fileNameOf key = [] := by
        unfold fileNameOf
        split_ifs with hone
        · rfl
        · exact List.eq_nil_of_length_eq_zero (by omega)
      have hr : removeFromIterCache conf c (dirOf key) (fileNameOf key) false = (c, true) := if_pos hf
      rw [hr, if_pos rfl]
      exact lists_removeKey_marker hinj h hlists hK hnamed hok hup hbase
    · have hf : fileNameOf key = baseOf key := if_neg (by omega)
      have hbase' : baseOf key ≠ [] := by
        intro hnil
        rw [hnil] at hbase
        exact hbase (Nat.zero_le 1)
      have hdir : dirOf key ≠ [] := fun hnil => hup (hnil ▸ up_nil)
      have hp : Named P (dirOf key) := hnamed.named (y := (dirOf key, baseOf key)) List.mem_cons_self
      have hspec := removeFromIterCache_spec hinj h hdir hp hbase'
      rw [hf]
      by_cases hmem : key ∈ K
      · exact lists_removeKey_file hinj hlists hK hnamed hok hup hbase' hmem hspec
      · have hnot : baseOf key ∉ entries (view conf P c) (dirOf key) := by
          rw [hlists.mem_iff]
          rintro ⟨k, hk, hstep⟩
          exact hmem (eq_of_mem_up_base hstep ▸ hk)
        obtain ⟨hfalse, hno, hview⟩ := removed_notMem h hspec hnot
        rw [hfalse, if_neg (by simp)]
        refine ⟨hno, ?_⟩
        rw [hview]
        exact lists_diff_absent hlists hmem

end

end

/-! ### Runs -/

/-- The stored keys that the cache is kept for. -/
def cachedKeys (conf : Conf) (s : State) : Finset Bytes := s.keys.filter (Cached conf)

/-- The events that meet none of the defects: a key with a file name of one byte is not entered,
and no directory has the name of the root. -/
def Regular (conf : Conf) (P : Finset Bytes) (s : State) : Event → Prop
  | .store key _ => Cached conf key → KeyNamed P key ∧ (baseOf key).length ≠ 1
  | .delete key _ => Cached conf key → KeyNamed P key ∧ DeleteOk (cachedKeys conf s) key
  | .load key => Cached conf key ∧ key ≠ [] ∧ KeyNamed P key ∧ (baseOf key).length ≠ 1

instance (conf : Conf) (P : Finset Bytes) (s : State) : ∀ e, Decidable (Regular conf P s e)
  | .store _ _ => inferInstanceAs (Decidable (_ → _ ∧ _))
  | .delete _ _ => inferInstanceAs (Decidable (_ → _ ∧ _))
  | .load _ => inferInstanceAs (Decidable (_ ∧ _ ∧ _ ∧ _))

/-- The cache lists, under every prefix, exactly the next components of the stored keys below it,
and has no set without a component. -/
structure ListsKeys (conf : Conf) (P : Finset Bytes) (s : State) : Prop where
  mem_iff : ∀ p, Named P p → ∀ e, e ∈ (find conf s.cache (nameOf p)).getD ∅ ↔
    ∃ k ∈ s.keys, Cached conf k ∧ HasStep k p e
  ne_empty : ∀ p, p ≠ [] → Named P p → find conf s.cache p ≠ some ∅

/-- The invariant of a run. -/
structure Follows (conf : Conf) (P : Finset Bytes) (s : State) : Prop where
  lists : Lists up (cachedKeys conf s) (view conf P s.cache)
  noEmpty : NoEmpty conf P s.cache
  keys : ∀ k ∈ cachedKeys conf s, k ≠ [] ∧ (baseOf k).length ≠ 1

section

variable {conf : Conf} {P : Finset Bytes} {s : State}

theorem follows_init (conf : Conf) (P : Finset Bytes) : Follows conf P State.init where
  lists := by
    refine ⟨view_ne_empty conf P _, fun p e => ?_⟩
    have hview : view conf P State.init.cache p = none := by
      unfold view
      split_ifs <;> rfl
    rw [entries_none hview]
    simp [cachedKeys, State.init]
  noEmpty := fun p _ _ => (nomatch ·)
  keys := fun k hk => by simp [cachedKeys, State.init] at hk

theorem Follows.listsKeys (h : Follows conf P s) : ListsKeys conf P s where
  mem_iff := by
    intro p hp e
    rw [← entries_view hp, h.lists.mem_iff]
    simp only [cachedKeys, Finset.mem_coe, Finset.mem_filter, and_assoc, mem_up_iff]
  ne_empty := h.noEmpty

theorem Follows.enter (hinj : Set.InjOn conf.hash P) (h : Follows conf P s) {key : Bytes}
    (hcached : Cached conf key) (hkey : key ≠ []) (hnamed : KeyNamed P key)
    (hbase : (baseOf key).length ≠ 1) (f g : Bytes) :
    ∃ c', enterKey conf s.cache key f = some c' ∧ Follows conf P ⟨c', insert key s.keys, g⟩ := by
  obtain ⟨c', hc', hno, hlists⟩ := lists_enterKey hinj h.noEmpty h.lists hkey hnamed hbase f
  have hset : cachedKeys conf ⟨c', insert key s.keys, g⟩ = insert key (cachedKeys conf s) := by
    unfold cachedKeys
    rw [Finset.filter_insert, if_pos hcached]
  refine ⟨c', hc', ?_, hno, ?_⟩
  · rw [hset, Finset.coe_insert]
    exact hlists
  · intro k hk
    rw [hset] at hk
    rcases Finset.mem_insert.1 hk with rfl | hk
    · exact ⟨hkey, hbase⟩
    · exact h.keys k hk

theorem Follows.remove (hinj : Set.InjOn conf.hash P) (h : Follows conf P s) {key : Bytes}
    (hkey : key ≠ []) (hnamed : KeyNamed P key) (hok : DeleteOk (cachedKeys conf s) key) :
    ∃ c', removeKey conf s.cache key = some c' ∧
      Follows conf P { s with cache := c', keys := s.keys.erase key } := by
  obtain ⟨c', hc', hno, hlists⟩ := lists_removeKey hinj h.noEmpty h.lists h.keys hkey hnamed hok
  have hset : cachedKeys conf { s with cache := c', keys := s.keys.erase key } =
      (cachedKeys conf s).erase key := Finset.filter_erase _ _ _
  refine ⟨c', hc', ?_, hno, ?_⟩
  · rw [hset, Finset.coe_erase]
    exact hlists
  · intro k hk
    rw [hset] at hk
    exact h.keys k (Finset.mem_of_mem_erase hk)

/-- A key that the cache is not kept for. -/
theorem Follows.other {keys : Finset Bytes} (h : Follows conf P s)
    (hkeys : cachedKeys conf { s with keys := keys } = cachedKeys conf s) :
    Follows conf P { s with keys := keys } :=
  ⟨by rw [hkeys]; exact h.lists, h.noEmpty, by rw [hkeys]; exact h.keys⟩

theorem Follows.step (hinj : Set.InjOn conf.hash P) (h : Follows conf P s) {e : Event}
    (hok : Regular conf P s e) : ∃ s', step conf s e = some s' ∧ Follows conf P s' := by
  cases e with
  | store key success =>
    unfold Host.step
    by_cases hdone : KeyLength conf key ∧ success = true
    · by_cases hcached : Cached conf key
      · obtain ⟨hnamed, hbase⟩ := hok hcached
        obtain ⟨c', hc', hfollows⟩ := h.enter hinj hcached hdone.1.1 hnamed hbase [] s.fileName
        refine ⟨_, ?_, hfollows⟩
        simp only [if_pos hdone, if_pos hcached, hc', Option.map_some]
      · refine ⟨{ s with keys := insert key s.keys }, by simp only [if_pos hdone, if_neg hcached],
          h.other ?_⟩
        unfold cachedKeys
        rw [Finset.filter_insert, if_neg hcached]
    · exact ⟨s, by simp only [if_neg hdone], h⟩
  | delete key success =>
    unfold Host.step
    by_cases hdone : KeyLength conf key ∧ success = true
    · by_cases hcached : Cached conf key
      · obtain ⟨hnamed, hdel⟩ := hok hcached
        obtain ⟨c', hc', hfollows⟩ := h.remove hinj hdone.1.1 hnamed hdel
        refine ⟨_, ?_, hfollows⟩
        simp only [if_pos hdone, if_pos hcached, hc', Option.map_some]
      · refine ⟨{ s with keys := s.keys.erase key }, by simp only [if_pos hdone, if_neg hcached],
          h.other ?_⟩
        unfold cachedKeys
        rw [Finset.filter_erase, Finset.erase_eq_of_notMem]
        exact fun hmem => hcached (Finset.mem_filter.1 hmem).2
    · exact ⟨s, by simp only [if_neg hdone], h⟩
  | load key =>
    obtain ⟨hcached, hkey, hnamed, hbase⟩ := hok
    obtain ⟨c', hc', hfollows⟩ := h.enter hinj hcached hkey hnamed hbase s.fileName
      (parseFileName key s.fileName)
    refine ⟨_, ?_, hfollows⟩
    unfold Host.step
    simp only [hc', Option.map_some]

/-- The cache lists the stored keys after every run of such events. -/
theorem cacheListsKeys_of_run (hinj : Set.InjOn conf.hash P) {events : List Event}
    (hok : Run.Admissible (step conf) (Regular conf P) State.init events) :
    ∃ s, Run.run (step conf) State.init events = some s ∧ ListsKeys conf P s := by
  obtain ⟨s, hrun, hs⟩ := Run.run_total (fun s e (h : Follows conf P s) hok => h.step hinj hok)
    (follows_init conf P) hok
  exact ⟨s, hrun, hs.listsKeys⟩

end

/-- A path with one shard and the cache for all keys. The hash multiplies by a prime
for every byte. -/
def plainConf : Conf where
  hash := fun l => l.foldl (fun h b => (h ^^^ b.toUInt64) * 1099511628211) 14695981039346656037
  numShards := 1
  iterPrefix := []
  transientPrefix := []
  remoteListing := false
  maxKeyLength := 1024

/-- The prefixes `root/`, `a/` and `a/b/`. -/
def threePrefixes : Finset Bytes := {rootPrefix, [97, 47], [97, 47, 98, 47]}

/-- `a/b/xy` is loaded, `a/b/xz` stored twice, and both are deleted. -/
def loadStoreDelete : List Event :=
  [.load [97, 47, 98, 47, 120, 121], .store [97, 47, 98, 47, 120, 122] true,
    .store [97, 47, 98, 47, 120, 122] true, .delete [97, 47, 98, 47, 120, 121] true,
    .delete [97, 47, 98, 47, 120, 122] true]

theorem listsKeys_loadStoreDelete :
    ∃ s, Run.run (step plainConf) State.init loadStoreDelete = some s ∧
      ListsKeys plainConf threePrefixes s := by
  refine cacheListsKeys_of_run ?_ (by decide +kernel)
  have hinj : ∀ p ∈ threePrefixes, ∀ q ∈ threePrefixes,
      plainConf.hash p = plainConf.hash q → p = q := by decide +kernel
  exact fun p hp q hq h => hinj p hp q hq h

/-- `a/xy` is stored and deleted: the root still lists `a/`. -/
theorem not_listsKeys_singlePrefix :
    ¬ ∃ s, Run.run (step plainConf) State.init
        [.store [97, 47, 120, 121] true, .delete [97, 47, 120, 121] true] = some s ∧
      ListsKeys plainConf threePrefixes s := by
  rintro ⟨s, hrun, hlists⟩
  have hseen : (Run.run (step plainConf) State.init
      [.store [97, 47, 120, 121] true, .delete [97, 47, 120, 121] true]).map (fun s =>
        (decide ([97, 47] ∈ (find plainConf s.cache rootPrefix).getD ∅), s.keys)) =
      some (true, ∅) := by decide +kernel
  rw [hrun, Option.map_some, Option.some.injEq, Prod.mk.injEq] at hseen
  obtain ⟨hmem, hkeys⟩ := hseen
  obtain ⟨k, hk, -⟩ := (hlists.mem_iff [] (by decide) [97, 47]).1 (of_decide_eq_true hmem)
  rw [hkeys] at hk
  cases hk

end DssSdk.Host
