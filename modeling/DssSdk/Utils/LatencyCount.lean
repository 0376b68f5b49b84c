import DssSdk.Lib.Histogram

/-!
# Percentiles of latencies

`dss_count_latency.c` counts durations in a Judy array and takes percentiles from it: one loop goes
through the counted durations and the wanted percentages together.

* `LatCtx`, `incCount`, `percentileLoop`, `getPercentile`, `getPercentileMulti`: the source; the
  number of samples times 255 fits in a word;
* `rank`, `percentile`: what a percentile is;
* `percentiles_iff`: for which samples and percentages the loop finds the percentiles.
-/

namespace DssSdk.Utils

/-- `dss_lat_profile_s`. -/
structure Profile where
  pVal : UInt8
  pLat : ℕ
  deriving DecidableEq, Repr

/-- `dss_lat_ctx_s`. -/
structure LatCtx where
  jarr : JudyArray ℕ
  nsamples : ℕ
  deriving DecidableEq

/-- `dss_lat_new_ctx`. -/
def LatCtx.new : LatCtx := ⟨.empty, 0⟩

/-- `dss_lat_inc_count`. `JudyLIns` finds the value of the duration or makes it. -/
def incCount (lctx : LatCtx) (duration : ℕ) : LatCtx :=
  ⟨lctx.jarr.add duration 1, lctx.nsamples + 1⟩

/-- `nsamples * pVal / 100`. -/
def rank (nsamples : ℕ) (p : UInt8) : ℕ := nsamples * p.toNat / 100

/-- The loop of `_dss_lat_get_percentile` at the entries `bs` of the array, with the profiles `es`
from `next_prof_index` on and those before it. `continue` looks at the same entry again, and adds
its samples again. `none` when an assertion fails, or when the index of 8 bits wraps and the
assertion reads in front of the profiles. -/
def percentileLoop (nsamples : ℕ) :
    List (ℕ × ℕ) → List Profile → ℕ → List Profile → Option (List Profile)
  | [], es, _, before => some (before ++ es)
  | _ :: _, [], _, _ => none
  | b :: bs, e :: es, cumSampCount, before =>
      let cumSampCount := cumSampCount + b.2
      if cumSampCount ≥ rank nsamples e.pVal then
        let before := before ++ [{ e with pLat := b.1 }]
        if before.length = 256 then none
        else
          match es with
          | [] => some before
          | f :: es =>
              if f.pLat < b.1 then
                if cumSampCount ≥ rank nsamples f.pVal then
                  percentileLoop nsamples (b :: bs) (f :: es) cumSampCount before
                else percentileLoop nsamples bs (f :: es) cumSampCount before
              else none
      else percentileLoop nsamples bs (e :: es) cumSampCount before
  termination_by bs es => (bs.length, es.length)

/-- `_dss_lat_get_percentile`: the return value and the profiles. -/
def percentileOf (jarr : JudyArray ℕ) (nsamples : ℕ) (out : List Profile) :
    Option (ℤ × List Profile) :=
  match out with
  | [] => none
  | e :: es =>
      if e.pVal < 100 then
        match jarr.entries with
        | [] => some (-1, out)
        | b :: bs => (percentileLoop nsamples (b :: bs) (e :: es) 0 []).map fun out => (0, out)
      else none

/-- `DEFAULT_PARR`. -/
def defaultParr : List UInt8 := [0, 1, 5, 10, 20, 30, 40, 50, 60, 70, 80, 90, 95, 99, 100]

/-- `dss_lat_alloc_profile`, if the caller gives no profiles. -/
def allocProfile (out : Option (List Profile)) : List Profile :=
  out.getD (defaultParr.map fun p => ⟨p, 0⟩)

/-- `dss_lat_get_percentile`. -/
def getPercentile (lctx : LatCtx) (out : Option (List Profile)) : Option (ℤ × List Profile) :=
  percentileOf lctx.jarr lctx.nsamples (allocProfile out)

/-- The inner loop of `dss_lat_get_percentile_multi`: one context goes into the merged array. -/
def mergeCtx (acc : LatCtx) (lctx : LatCtx) : LatCtx :=
  lctx.jarr.entries.foldl (fun acc e => ⟨acc.jarr.add e.1 e.2, acc.nsamples + e.2⟩) acc

/-- `dss_lat_get_percentile_multi`, which returns the profiles only. -/
def getPercentileMulti (lctxs : List LatCtx) (out : Option (List Profile)) : Option (List Profile) :=
  let merged := lctxs.foldl mergeCtx .new
  (percentileOf merged.jarr merged.nsamples (allocProfile out)).map Prod.snd

/-- The context of some samples. -/
def record (samples : List ℕ) : LatCtx := samples.foldl incCount .new

/-- The samples that are wanted at or below the percentile of a percentage. -/
def wanted (samples : List ℕ) (p : UInt8) : ℕ := samples.length * p.toNat / 100

/-- The recorded durations with enough samples at or below them. -/
def enough (samples : List ℕ) (p : UInt8) : List ℕ :=
  samples.filter fun l => wanted samples p ≤ samples.countP (· ≤ l)

/-- The percentile: the smallest of them. -/
def percentile (samples : List ℕ) (p : UInt8) : ℕ := (enough samples p).min?.getD 0

/-- Every entry of the profiles is set to its percentile. -/
def IsFilled (samples : List ℕ) (out out' : List Profile) : Prop :=
  List.Forall₂ (fun e e' : Profile => e'.pVal = e.pVal ∧
    IsLeast {l | l ∈ samples ∧ wanted samples e.pVal ≤ samples.countP (· ≤ l)} e'.pLat) out out'

/-- The percentiles of some samples come out right, from one context or from several that hold the
samples together. -/
def FindsPercentiles (samples : List ℕ) (out : Option (List Profile)) : Prop :=
  (∃ out', getPercentile (record samples) out = some (0, out') ∧
      IsFilled samples (allocProfile out) out') ∧
    ∀ parts : List (List ℕ), parts.flatten.Perm samples →
      getPercentileMulti (parts.map record) out = (getPercentile (record samples) out).map Prod.snd

/-! ### The loop

`lat` gives the place of a profile among the entries. -/

section

variable {n : ℕ} {lat : Profile → ℕ} {b : ℕ × ℕ} {bs : List (ℕ × ℕ)} {e f : Profile}
  {es before out : List Profile} {cum l : ℕ}

/-- What the loop has added up behind an entry when it looks at each entry once for every profile
that belongs there, and at least once. -/
def weighted (lat : Profile → ℕ) (es : List Profile) (bs : List (ℕ × ℕ)) (l : ℕ) : ℕ :=
  ((bs.filter fun b => b.1 ≤ l).map fun b => b.2 * max 1 (es.countP fun e => lat e = b.1)).sum

/-- The sums stay below what a profile wants in front of the entry where it belongs. -/
def NoDrift (n : ℕ) (lat : Profile → ℕ) (bs : List (ℕ × ℕ)) (es : List Profile) (cum : ℕ) : Prop :=
  ∀ e ∈ es, ∀ b ∈ bs, b.1 < lat e → cum + weighted lat es bs b.1 < rank n e.pVal

theorem weighted_cons (h : b.1 ≤ l) : weighted lat es (b :: bs) l =
    b.2 * max 1 (es.countP fun e => lat e = b.1) + weighted lat es bs l := by
  simp [weighted, h]

theorem weighted_of_lt (h : ∀ b ∈ bs, l < b.1) : weighted lat es bs l = 0 := by
  have hnil : bs.filter (fun b => b.1 ≤ l) = [] := by
    rw [List.filter_eq_nil_iff]
    intro b hb
    simpa using h b hb
  rw [weighted, hnil]
  rfl

theorem weighted_skip (h : ∀ b ∈ bs, lat e ≠ b.1) :
    weighted lat (e :: es) bs l = weighted lat es bs l := by
  unfold weighted
  congr 1
  apply List.map_congr_left
  intro b hb
  rw [List.countP_cons_of_neg (by simpa using h b (List.mem_of_mem_filter hb))]

theorem countP_eq_zero_of_lt (h : ∀ e ∈ es, b.1 < lat e) :
    (es.countP fun e => lat e = b.1) = 0 := by
  rw [List.countP_eq_zero]
  intro e he
  simpa using (h e he).ne'

theorem noDrift_again (hb : ∀ b' ∈ bs, b.1 < b'.1) (he : lat e = b.1) (hf : lat f = b.1) :
    NoDrift n lat (b :: bs) (e :: f :: es) cum ↔ NoDrift n lat (b :: bs) (f :: es) (cum + b.2) := by
  have hle : ∀ b' ∈ b :: bs, b.1 ≤ b'.1 := by
    intro b' hb'
    rcases List.mem_cons.1 hb' with rfl | hb'
    · exact le_rfl
    · exact (hb b' hb').le
  have hsum : ∀ b' ∈ b :: bs, cum + weighted lat (e :: f :: es) (b :: bs) b'.1 =
      cum + b.2 + weighted lat (f :: es) (b :: bs) b'.1 := by
    intro b' hb'
    rw [weighted_cons (hle b' hb'), weighted_cons (hle b' hb'),
      weighted_skip fun b'' hb'' => by rw [he]; exact (hb b'' hb'').ne,
      List.countP_cons_of_pos (by simpa using he), List.countP_cons_of_pos (by simpa using hf)]
    rw [Nat.max_eq_right (by omega), Nat.max_eq_right (by omega), Nat.mul_add b.2 (_ + 1) 1]
    omega
  constructor
  · intro h g hg b' hb' hlt
    rw [← hsum b' hb']
    exact h g (List.mem_cons_of_mem _ hg) b' hb' hlt
  · intro h g hg b' hb' hlt
    rcases List.mem_cons.1 hg with rfl | hg
    · exact absurd hlt (by rw [he]; exact (hle b' hb').not_gt)
    · rw [hsum b' hb']
      exact h g hg b' hb' hlt

/-- The condition when the loop goes on to the next entry. `es'` has at most one profile that
belongs to the entry behind it. -/
theorem noDrift_next {es' : List Profile} (hb : ∀ b' ∈ bs, b.1 < b'.1) (hes : ∀ g ∈ es, b.1 < lat g)
    (hes' : es' = es ∨ ∃ e, lat e = b.1 ∧ es' = e :: es) :
    NoDrift n lat (b :: bs) es' cum ↔
      (∀ g ∈ es, cum + b.2 < rank n g.pVal) ∧ NoDrift n lat bs es (cum + b.2) := by
  have hcount : max 1 (es'.countP fun e => lat e = b.1) = 1 := by
    rcases hes' with rfl | ⟨e, he, rfl⟩
    · rw [countP_eq_zero_of_lt hes]
      rfl
    · rw [List.countP_cons_of_pos (by simpa using he), countP_eq_zero_of_lt hes]
      rfl
  have hskip : ∀ l, weighted lat es' bs l = weighted lat es bs l := by
    intro l
    rcases hes' with rfl | ⟨e, he, rfl⟩
    · rfl
    · exact weighted_skip fun b' hb' => by rw [he]; exact (hb b' hb').ne
  have hsum : ∀ l, b.1 ≤ l → cum + weighted lat es' (b :: bs) l = cum + b.2 + weighted lat es bs l := by
    intro l hl
    rw [weighted_cons hl, hcount, hskip]
    omega
  have hmem : ∀ g ∈ es, g ∈ es' := by
    rcases hes' with rfl | ⟨e, -, rfl⟩
    · exact fun g hg => hg
    · exact fun g hg => List.mem_cons_of_mem _ hg
  constructor
  · refine fun h => ⟨fun g hg => ?_, fun g hg b' hb' hlt => ?_⟩
    · have := h g (hmem g hg) b List.mem_cons_self (hes g hg)
      rwa [hsum b.1 le_rfl, weighted_of_lt hb, Nat.add_zero] at this
    · rw [← hsum b'.1 (hb b' hb').le]
      exact h g (hmem g hg) b' (List.mem_cons_of_mem _ hb') hlt
  · rintro ⟨hnow, hlater⟩ g hg b' hb' hlt
    have hges : g ∈ es := by
      rcases hes' with rfl | ⟨e, he, rfl⟩
      · exact hg
      · rcases List.mem_cons.1 hg with rfl | hg
        · rcases List.mem_cons.1 hb' with rfl | hb'
          · omega
          · have := hb b' hb'
            omega
        · exact hg
    rcases List.mem_cons.1 hb' with rfl | hb'
    · rw [hsum b'.1 le_rfl, weighted_of_lt hb, Nat.add_zero]
      exact hnow g hges
    · rw [hsum b'.1 (hb b' hb').le]
      exact hlater g hges b' hb' hlt

theorem prefix_of_loop (h : percentileLoop n bs es cum before = some out) : before <+: out := by
  fun_induction percentileLoop n bs es cum before with
  | case1 es cum before =>
    cases h
    exact List.prefix_append _ _
  | case2 => cases h
  | case3 => cases h
  | case4 =>
    rw [← Option.some.inj h]
    exact List.prefix_append _ _
  | case5 b bs e cum before cum' hr before' hlen f es hlt hr' ih =>
    exact (List.prefix_append _ _).trans (ih h)
  | case6 b bs e cum before cum' hr before' hlen f es hlt hr' ih =>
    exact (List.prefix_append _ _).trans (ih h)
  | case7 => cases h
  | case8 b bs e es cum before cum' hr ih => exact ih h

theorem filled_of_loop (h : percentileLoop n (b :: bs) (e :: es) cum before = some out)
    (hr : rank n e.pVal ≤ cum + b.2) : before ++ [{ e with pLat := b.1 }] <+: out := by
  rw [percentileLoop] at h
  simp only [ge_iff_le, if_pos hr] at h
  split at h
  · cases h
  · split at h
    · cases h
      exact List.prefix_rfl
    · split at h
      · split at h
        · exact prefix_of_loop h
        · exact prefix_of_loop h
      · cases h

/-- A profile set to the entry where it belongs. -/
def Profile.fill (lat : Profile → ℕ) (e : Profile) : Profile := { e with pLat := lat e }

/-- What holds whenever the loop looks at the entries `bs` with the profiles `es` left: each of them
belongs to one of the entries, in their order, and gets what it wants there. -/
structure Ready (n : ℕ) (lat : Profile → ℕ) (bs : List (ℕ × ℕ)) (es : List Profile) (cum : ℕ) :
    Prop where
  sorted : bs.Pairwise fun b b' => b.1 < b'.1
  ordered : es.Pairwise fun e f => rank n e.pVal ≤ rank n f.pVal ∧ lat e ≤ lat f
  belongs : ∀ e ∈ es, ∃ b ∈ bs, b.1 = lat e
  enough : ∀ e ∈ es, rank n e.pVal ≤ cum + ((bs.filter fun b => b.1 ≤ lat e).map Prod.snd).sum

/-- The value that is left in a profile passes the assertion. -/
def Unset (lat : Profile → ℕ) (es : List Profile) : Prop :=
  es.IsChain fun e f => f.pLat < lat e

theorem Ready.tail (h : Ready n lat bs (e :: es) cum) : Ready n lat bs es cum where
  sorted := h.sorted
  ordered := (List.pairwise_cons.1 h.ordered).2
  belongs := fun f hf => h.belongs f (List.mem_cons_of_mem _ hf)
  enough := fun f hf => h.enough f (List.mem_cons_of_mem _ hf)

/-- The loop looks at an entry again with a larger sum. -/
theorem Ready.again (h : Ready n lat (b :: bs) es cum) : Ready n lat (b :: bs) es (cum + b.2) where
  sorted := h.sorted
  ordered := h.ordered
  belongs := h.belongs
  enough := fun f hf => (h.enough f hf).trans (by omega)

theorem Ready.lt_rank (h : Ready n lat bs (e :: es) cum) {m : ℕ} (he : m < rank n e.pVal) :
    ∀ g ∈ e :: es, m < rank n g.pVal := by
  intro g hg
  rcases List.mem_cons.1 hg with rfl | hg
  · exact he
  · exact he.trans_le ((List.pairwise_cons.1 h.ordered).1 g hg).1

/-- The loop goes on to the next entry once no profile is left that belongs to this one. -/
theorem Ready.next (h : Ready n lat (b :: bs) es cum) (hes : ∀ g ∈ es, b.1 < lat g) :
    Ready n lat bs es (cum + b.2) where
  sorted := (List.pairwise_cons.1 h.sorted).2
  ordered := h.ordered
  belongs := by
    intro g hg
    obtain ⟨b', hb', he⟩ := h.belongs g hg
    rcases List.mem_cons.1 hb' with rfl | hb'
    · exact absurd he (hes g hg).ne
    · exact ⟨b', hb', he⟩
  enough := by
    intro g hg
    have := h.enough g hg
    rw [List.filter_cons_of_pos (by simpa using (hes g hg).le), List.map_cons, List.sum_cons] at this
    omega

/-- Profiles behind one that belongs further on belong further on as well. -/
theorem Ready.later (h : Ready n lat (b :: bs) (e :: es) cum) (he : b.1 < lat e) :
    ∀ g ∈ e :: es, b.1 < lat g := by
  intro g hg
  rcases List.mem_cons.1 hg with rfl | hg
  · exact he
  · exact he.trans_le ((List.pairwise_cons.1 h.ordered).1 g hg).2

theorem Ready.first_le (h : Ready n lat (b :: bs) (e :: es) cum) : b.1 ≤ lat e := by
  obtain ⟨b', hb', he⟩ := h.belongs e List.mem_cons_self
  rcases List.mem_cons.1 hb' with rfl | hb'
  · exact he.le
  · exact he ▸ ((List.pairwise_cons.1 h.sorted).1 b' hb').le

theorem Ready.rank_le (h : Ready n lat (b :: bs) (e :: es) cum) (he : b.1 = lat e) :
    rank n e.pVal ≤ cum + b.2 := by
  have hb := (List.pairwise_cons.1 h.sorted).1
  have henough := h.enough e List.mem_cons_self
  have hnil : bs.filter (fun b' => b'.1 ≤ lat e) = [] := by
    rw [List.filter_eq_nil_iff]
    intro b' hb'
    simpa [← he] using hb b' hb'
  rw [List.filter_cons_of_pos (by simp [← he]), hnil] at henough
  simpa using henough

theorem loop_ne_of_early (he : b.1 < lat e) (hr : rank n e.pVal ≤ cum + b.2) :
    percentileLoop n (b :: bs) (e :: es) cum before ≠
      some (before ++ (e :: es).map (Profile.fill lat)) := by
  intro h
  obtain ⟨l, hl⟩ := filled_of_loop h hr
  rw [List.append_assoc, List.append_cancel_left_eq, List.map_cons, List.singleton_append,
    List.cons.injEq] at hl
  have := congrArg Profile.pLat hl.1
  exact he.ne this

/-- **When the loop sets every profile to the entry where it belongs.** -/
theorem loop_eq_iff (h : Ready n lat bs es cum) (hne : es ≠ [])
    (hlen : before.length + es.length < 256) :
    percentileLoop n bs es cum before = some (before ++ es.map (Profile.fill lat)) ↔
      NoDrift n lat bs es cum ∧ Unset lat es := by
  induction bs generalizing es cum before with
  | nil =>
    obtain ⟨e, es, rfl⟩ := List.exists_cons_of_ne_nil hne
    obtain ⟨b, hb, -⟩ := h.belongs e List.mem_cons_self
    cases hb
  | cons b bs ihb =>
    have hb := (List.pairwise_cons.1 h.sorted).1
    induction es generalizing cum before with
    | nil => contradiction
    | cons e es ihe =>
      rw [List.length_cons] at hlen
      rcases h.first_le.eq_or_lt with he | he
      · have hfill : Profile.fill lat e = { e with pLat := b.1 } := by rw [Profile.fill, he]
        have hlen' : (before ++ [{ e with pLat := b.1 }]).length ≠ 256 := by
          rw [List.length_append, List.length_singleton]
          omega
        rw [percentileLoop]
        simp only [ge_iff_le, if_pos (h.rank_le he), if_neg hlen']
        cases es with
        | nil =>
          refine iff_of_true (by rw [List.map_singleton, hfill]) ⟨?_, List.isChain_singleton _⟩
          intro g hg b' hb' hlt
          rw [List.mem_singleton.1 hg, ← he] at hlt
          rcases List.mem_cons.1 hb' with rfl | hb'
          · omega
          · have := hb b' hb'
            omega
        | cons f es =>
          have hlen'' : (before ++ [{ e with pLat := b.1 }]).length + (f :: es).length < 256 := by
            rw [List.length_append, List.length_singleton]
            omega
          have hres : before ++ (e :: f :: es).map (Profile.fill lat) =
              (before ++ [{ e with pLat := b.1 }]) ++ (f :: es).map (Profile.fill lat) := by
            rw [List.append_assoc, List.map_cons, hfill, List.singleton_append]
          have hunset : Unset lat (e :: f :: es) ↔ f.pLat < b.1 ∧ Unset lat (f :: es) := by
            rw [he]
            exact List.isChain_cons_cons
          rw [hres, hunset]
          dsimp only
          by_cases hassert : f.pLat < b.1
          · simp only [hassert, if_true, true_and]
            rcases h.tail.first_le.eq_or_lt with hf | hf
            · -- The next profile belongs here as well.
              rw [if_pos (h.tail.rank_le hf), noDrift_again hb he.symm hf.symm]
              exact ihe h.tail.again (List.cons_ne_nil _ _) hlen''
            · have hlater := h.tail.later hf
              have hdrift : NoDrift n lat (b :: bs) (e :: f :: es) cum ↔ _ :=
                noDrift_next hb hlater (Or.inr ⟨e, he.symm, rfl⟩)
              rw [hdrift]
              by_cases hr : rank n f.pVal ≤ cum + b.2
              · rw [if_pos hr]
                refine iff_of_false (loop_ne_of_early hf (by omega)) fun hno => ?_
                exact absurd (hno.1.1 f List.mem_cons_self) (by omega)
              · rw [if_neg hr, ihb (h.tail.next hlater) (List.cons_ne_nil _ _) hlen'']
                have hrank := h.tail.lt_rank (not_le.1 hr)
                exact and_congr_left' ⟨fun hd => ⟨hrank, hd⟩, fun hd => hd.2⟩
          · rw [if_neg hassert]
            exact iff_of_false (fun hno => by cases hno) fun hno => hassert hno.2.1
      · -- The first profile belongs further on.
        have hlater := h.later he
        rw [noDrift_next hb hlater (Or.inl rfl)]
        by_cases hr : rank n e.pVal ≤ cum + b.2
        · refine iff_of_false (loop_ne_of_early he hr) fun hno => ?_
          exact absurd (hno.1.1 e List.mem_cons_self) (by omega)
        · rw [percentileLoop]
          simp only [ge_iff_le, if_neg hr]
          rw [ihb (h.next hlater) hne hlen]
          have hrank := h.lt_rank (not_le.1 hr)
          exact and_congr_left' ⟨fun hd => ⟨hrank, hd⟩, fun hd => hd.2⟩

end

/-! ### The contexts -/

section

open JudyArray

variable {samples : List ℕ} {p q : UInt8} {l : ℕ}

/-- A context holds the samples of a list. -/
structure LatCtx.Holds (lctx : LatCtx) (samples : List ℕ) : Prop where
  counts : Counts lctx.jarr samples
  nsamples : lctx.nsamples = samples.length

theorem holds_new : LatCtx.new.Holds [] := ⟨counts_empty, rfl⟩

theorem holds_record (samples : List ℕ) : (record samples).Holds samples := by
  suffices h : ∀ (l : List ℕ) (lctx : LatCtx) (before : List ℕ), lctx.Holds before →
      (l.foldl incCount lctx).Holds (before ++ l) from h samples _ [] holds_new
  intro l
  induction l with
  | nil =>
    intro lctx before h
    rwa [List.append_nil]
  | cons d l ih =>
    intro lctx before h
    have hnext : (incCount lctx d).Holds (before ++ [d]) :=
      ⟨h.counts.add d, by rw [incCount, h.nsamples, List.length_append, List.length_singleton]⟩
    have := ih _ _ hnext
    rwa [List.append_assoc, List.singleton_append] at this

theorem LatCtx.Holds.merge {acc lctx : LatCtx} {before : List ℕ} (h : acc.Holds before)
    (h' : lctx.Holds samples) : (mergeCtx acc lctx).Holds (before ++ samples) := by
  have hfold : ∀ (es : List (ℕ × ℕ)) (acc : LatCtx),
      es.foldl (fun acc e => ⟨acc.jarr.add e.1 e.2, acc.nsamples + e.2⟩) acc =
        (⟨es.foldl (fun m e => m.add e.1 e.2) acc.jarr,
          acc.nsamples + (es.map Prod.snd).sum⟩ : LatCtx) := by
    intro es
    induction es with
    | nil => exact fun _ => rfl
    | cons e es ih =>
      intro acc
      rw [List.foldl_cons, ih, List.map_cons, List.sum_cons, Nat.add_assoc]
      rfl
  rw [mergeCtx, hfold]
  refine ⟨h.counts.merge h'.counts, ?_⟩
  have hsum := h'.counts.sum fun _ => 1
  simp only [sumOver, Nat.mul_one, List.map_const', List.sum_replicate, smul_eq_mul] at hsum
  change acc.nsamples + (lctx.jarr.entries.map fun e => e.2).sum = _
  rw [hsum, h.nsamples, List.length_append]

theorem LatCtx.Holds.unique {a b : LatCtx} {samples' : List ℕ} (h : a.Holds samples)
    (h' : b.Holds samples') (hp : samples.Perm samples') : a = b := by
  cases a
  cases b
  exact congrArg₂ LatCtx.mk (h.counts.unique h'.counts hp)
    (h.nsamples.trans (hp.length_eq.trans h'.nsamples.symm))

theorem getPercentileMulti_eq {parts : List (List ℕ)} (hp : parts.flatten.Perm samples)
    (out : Option (List Profile)) : getPercentileMulti (parts.map record) out =
      (getPercentile (record samples) out).map Prod.snd := by
  have hmerge : ∀ (parts : List (List ℕ)) (acc : LatCtx) (before : List ℕ), acc.Holds before →
      ((parts.map record).foldl mergeCtx acc).Holds (before ++ parts.flatten) := by
    intro parts
    induction parts with
    | nil =>
      intro acc before h
      simpa using h
    | cons t parts ih =>
      intro acc before h
      have := ih _ _ (h.merge (holds_record t))
      rwa [List.append_assoc, ← List.flatten_cons] at this
  have hall := hmerge parts .new [] holds_new
  rw [getPercentileMulti, getPercentile, hall.unique (holds_record samples) hp]

/-! ### Percentiles -/

theorem mem_enough : l ∈ enough samples p ↔ l ∈ samples ∧ wanted samples p ≤ samples.countP (· ≤ l) := by
  simp [enough]

theorem enough_ne_nil_iff (hne : samples ≠ []) :
    enough samples p ≠ [] ↔ wanted samples p ≤ samples.length := by
  constructor
  · intro h
    obtain ⟨l, hl⟩ := List.exists_mem_of_ne_nil _ h
    exact (mem_enough.1 hl).2.trans List.countP_le_length
  · intro h
    obtain ⟨m, hm⟩ : ∃ m, samples.max? = some m := Option.ne_none_iff_exists'.1 fun h =>
      hne (List.max?_eq_none_iff.1 h)
    obtain ⟨hmem, hmax⟩ := List.max?_eq_some_iff.1 hm
    have hall : samples.countP (· ≤ m) = samples.length :=
      List.countP_eq_length.2 fun a ha => by simpa using hmax a ha
    exact List.ne_nil_of_mem (mem_enough.2 ⟨hmem, hall ▸ h⟩)

theorem percentile_spec (h : enough samples p ≠ []) :
    IsLeast {l | l ∈ samples ∧ wanted samples p ≤ samples.countP (· ≤ l)} (percentile samples p) := by
  obtain ⟨m, hm⟩ : ∃ m, (enough samples p).min? = some m := Option.ne_none_iff_exists'.1 fun hn =>
    h (List.min?_eq_none_iff.1 hn)
  obtain ⟨hmem, hmin⟩ := List.min?_eq_some_iff.1 hm
  rw [percentile, hm]
  exact ⟨mem_enough.1 hmem, fun l hl => hmin l (mem_enough.2 hl)⟩

theorem percentile_mono (hpq : p.toNat ≤ q.toNat) (h : enough samples q ≠ []) :
    wanted samples p ≤ wanted samples q ∧ percentile samples p ≤ percentile samples q := by
  have hw : wanted samples p ≤ wanted samples q :=
    Nat.div_le_div_right (Nat.mul_le_mul_left _ hpq)
  obtain ⟨⟨hmem, hle⟩, -⟩ := percentile_spec h
  have hin : percentile samples q ∈ enough samples p := mem_enough.2 ⟨hmem, hw.trans hle⟩
  exact ⟨hw, (percentile_spec (List.ne_nil_of_mem hin)).2 (mem_enough.1 hin)⟩

/-- The percentile that a profile is for. -/
def latOf (samples : List ℕ) (e : Profile) : ℕ := percentile samples e.pVal

theorem isFilled_iff (hne : samples ≠ []) {out out' : List Profile} :
    IsFilled samples out out' ↔ (∀ e ∈ out, wanted samples e.pVal ≤ samples.length) ∧
      out' = out.map (Profile.fill (latOf samples)) := by
  have hone : ∀ e e' : Profile, (e'.pVal = e.pVal ∧
      IsLeast {l | l ∈ samples ∧ wanted samples e.pVal ≤ samples.countP (· ≤ l)} e'.pLat) ↔
      wanted samples e.pVal ≤ samples.length ∧ e' = Profile.fill (latOf samples) e := by
    rintro e ⟨p, l⟩
    rw [← enough_ne_nil_iff hne]
    constructor
    · rintro ⟨rfl, hl⟩
      have hex : enough samples e.pVal ≠ [] := List.ne_nil_of_mem (mem_enough.2 hl.1)
      exact ⟨hex, congrArg (Profile.mk e.pVal) (hl.unique (percentile_spec hex))⟩
    · rintro ⟨hex, he⟩
      cases he
      exact ⟨rfl, percentile_spec hex⟩
  simp only [IsFilled, hone]
  induction out generalizing out' with
  | nil => simp
  | cons e out ih =>
    rw [List.forall₂_cons_left_iff]
    simp only [List.forall_mem_cons, List.map_cons]
    constructor
    · rintro ⟨e', l, ⟨hw, rfl⟩, hl, rfl⟩
      obtain ⟨hall, rfl⟩ := ih.1 hl
      exact ⟨⟨hw, hall⟩, rfl⟩
    · rintro ⟨⟨hw, hall⟩, rfl⟩
      exact ⟨_, _, ⟨hw, rfl⟩, ih.2 ⟨hall, rfl⟩, rfl⟩

/-- How often the loop looks at a duration: once for every percentile that it is, and at least
once. -/
def visits (samples : List ℕ) (out : List Profile) (l : ℕ) : ℕ :=
  max 1 (out.countP fun e => latOf samples e = l)

/-- The samples and the profiles do not come in the way of the loop: the percentiles exist, each
profile holds less than the percentile before it, and the samples below a percentile are fewer than
it wants even when each counts as often as the loop looks at it. -/
structure Undisturbed (samples : List ℕ) (out : List Profile) : Prop where
  exist : ∀ e ∈ out, wanted samples e.pVal ≤ samples.length
  unset : out.IsChain fun e f => f.pLat < latOf samples e
  sums : ∀ e ∈ out, ∀ l ∈ samples, l < latOf samples e →
    ((samples.filter fun x => x ≤ l).map (visits samples out)).sum < wanted samples e.pVal

/-- Percentages, as the callers of the code have them. -/
structure Percentages (out : List Profile) : Prop where
  nonempty : out ≠ []
  increasing : out.Pairwise fun e f => e.pVal < f.pVal
  first : ∀ e ∈ out.head?, e.pVal < 100

theorem Percentages.length_lt {out : List Profile} (h : Percentages out) (hne : samples ≠ [])
    (hex : ∀ e ∈ out, wanted samples e.pVal ≤ samples.length) : out.length < 256 := by
  have hpos := List.length_pos_iff.2 hne
  have hlt : ∀ e ∈ out, e.pVal.toNat < 200 := by
    intro e he
    have hw := hex e he
    rw [wanted, Nat.div_le_iff_le_mul_add_pred (by omega)] at hw
    by_contra hge
    have : samples.length * 200 ≤ samples.length * e.pVal.toNat :=
      Nat.mul_le_mul_left _ (by omega)
    omega
  have hnodup : (out.map fun e => e.pVal.toNat).Nodup := by
    rw [List.nodup_iff_pairwise_ne, List.pairwise_map]
    exact h.increasing.imp fun hef => (UInt8.lt_iff_toNat_lt.1 hef).ne
  have hsub : (out.map fun e => e.pVal.toNat) ⊆ List.range 200 := by
    intro x hx
    obtain ⟨e, he, rfl⟩ := List.mem_map.1 hx
    exact List.mem_range.2 (hlt e he)
  have := (hnodup.subperm hsub).length_le
  rw [List.length_map, List.length_range] at this
  omega

theorem ready_record {out : List Profile} (h : Percentages out) (hne : samples ≠ [])
    (hex : ∀ e ∈ out, wanted samples e.pVal ≤ samples.length) :
    Ready samples.length (latOf samples) (record samples).jarr.entries out 0 where
  sorted := (record samples).jarr.sorted
  ordered := by
    have hmem : ∀ e ∈ out, enough samples e.pVal ≠ [] := fun e he =>
      (enough_ne_nil_iff hne).2 (hex e he)
    refine h.increasing.imp_of_mem fun {e f} _ hf hef => ?_
    exact percentile_mono (UInt8.lt_iff_toNat_lt.1 hef).le (hmem f hf)
  belongs := by
    intro e he
    have hleast := percentile_spec ((enough_ne_nil_iff hne).2 (hex e he))
    exact ⟨(_, _), (holds_record samples).counts.mem_iff.2 ⟨hleast.1.1, rfl⟩, rfl⟩
  enough := by
    intro e he
    have hleast := percentile_spec ((enough_ne_nil_iff hne).2 (hex e he))
    have hsum := (holds_record samples).counts.sum_filter
      (fun x => decide (x ≤ latOf samples e)) fun _ => 1
    simp only [Nat.mul_one, List.map_const', List.sum_replicate, smul_eq_mul] at hsum
    change _ ≤ 0 + (((record samples).jarr.entries.filter
      fun b => decide (b.1 ≤ latOf samples e)).map fun b => b.2).sum
    rw [hsum, Nat.zero_add, ← List.countP_eq_length_filter]
    exact hleast.1.2

theorem noDrift_record {out : List Profile} :
    NoDrift samples.length (latOf samples) (record samples).jarr.entries out 0 ↔
      ∀ e ∈ out, ∀ l ∈ samples, l < latOf samples e →
        ((samples.filter fun x => x ≤ l).map (visits samples out)).sum < wanted samples e.pVal := by
  have hsum : ∀ l, weighted (latOf samples) out (record samples).jarr.entries l =
      ((samples.filter fun x => x ≤ l).map (visits samples out)).sum := fun l =>
    (holds_record samples).counts.sum_filter (fun x => decide (x ≤ l)) (visits samples out)
  refine forall₂_congr fun e _ => ⟨fun h l hl hlt => ?_, fun h b hb hlt => ?_⟩
  · rw [← hsum, ← Nat.zero_add (weighted _ _ _ _)]
    exact h (l, samples.count l) ((holds_record samples).counts.mem_iff.2 ⟨hl, rfl⟩) hlt
  · rw [hsum, Nat.zero_add]
    exact h b.1 ((holds_record samples).counts.mem_iff.1 hb).1 hlt

/-- **When the percentiles come out right.** -/
theorem percentiles_iff {out : Option (List Profile)} (hne : samples ≠ [])
    (hout : Percentages (allocProfile out)) :
    FindsPercentiles samples out ↔ Undisturbed samples (allocProfile out) := by
  have hget : getPercentile (record samples) out =
      (percentileLoop samples.length (record samples).jarr.entries (allocProfile out) 0 []).map
        fun out => (0, out) := by
    obtain ⟨e, es, hes⟩ := List.exists_cons_of_ne_nil hout.nonempty
    have hfirst : e.pVal < 100 := hout.first e (by rw [hes]; rfl)
    obtain ⟨x, l, rfl⟩ := List.exists_cons_of_ne_nil hne
    have hmem := (holds_record (x :: l)).counts.mem_iff.2 ⟨List.mem_cons_self, rfl⟩
    rw [getPercentile, hes, percentileOf, (holds_record (x :: l)).nsamples]
    simp only [if_pos hfirst]
    split
    · rename_i hnil
      rw [← mem_entries, hnil] at hmem
      cases hmem
    · rename_i b bs hbs
      rw [hbs]
  have hloop : (∃ out', getPercentile (record samples) out = some (0, out') ∧
      IsFilled samples (allocProfile out) out') ↔
      (∀ e ∈ allocProfile out, wanted samples e.pVal ≤ samples.length) ∧
        percentileLoop samples.length (record samples).jarr.entries (allocProfile out) 0 [] =
          some ([] ++ (allocProfile out).map (Profile.fill (latOf samples))) := by
    rw [hget]
    simp only [isFilled_iff hne, Option.map_eq_some_iff, List.nil_append]
    constructor
    · rintro ⟨_, ⟨out', hres, heq⟩, hex, rfl⟩
      cases heq
      exact ⟨hex, hres⟩
    · rintro ⟨hex, hres⟩
      exact ⟨_, ⟨_, hres, rfl⟩, hex, rfl⟩
  rw [FindsPercentiles, and_iff_left fun parts hp => getPercentileMulti_eq hp out, hloop]
  constructor
  · rintro ⟨hex, hres⟩
    obtain ⟨hdrift, hunset⟩ := (loop_eq_iff (ready_record hout hne hex) hout.nonempty
      (by simpa using hout.length_lt hne hex)).1 hres
    exact ⟨hex, hunset, noDrift_record.1 hdrift⟩
  · intro h
    exact ⟨h.exist, (loop_eq_iff (ready_record hout hne h.exist) hout.nonempty
      (by simpa using hout.length_lt hne h.exist)).2 ⟨noDrift_record.2 h.sums, h.unset⟩⟩

end

theorem percentiles_four : FindsPercentiles [4, 2, 1, 3] (some [⟨50, 0⟩, ⟨100, 0⟩]) :=
  (percentiles_iff (by decide) ⟨by decide, by decide, by decide⟩).2
    ⟨by decide, by decide, by decide⟩

/-- With the durations 1 and 2 the smaller one is the percentile of 0 and of 50, is counted for each
of them, and is then taken for the percentile of 100 as well. -/
theorem not_percentiles_two :
    ¬ FindsPercentiles [1, 2] (some [⟨0, 0⟩, ⟨50, 0⟩, ⟨100, 0⟩]) := by
  rintro ⟨⟨out', hget, hfilled⟩, -⟩
  have hrun : getPercentile (record [1, 2]) (some [⟨0, 0⟩, ⟨50, 0⟩, ⟨100, 0⟩]) =
      some (0, [⟨0, 1⟩, ⟨50, 1⟩, ⟨100, 1⟩]) := by
    have hentries : (record [1, 2]).jarr.entries = [(1, 1), (2, 1)] := by decide
    have hn : (record [1, 2]).nsamples = 2 := by decide
    rw [getPercentile, allocProfile, Option.getD_some, percentileOf, hentries, hn]
    simp [percentileLoop, rank]
  rw [hrun, Option.some.injEq, Prod.mk.injEq] at hget
  obtain ⟨-, rfl⟩ := hget
  simp only [allocProfile, Option.getD_some, IsFilled, List.forall₂_cons] at hfilled
  obtain ⟨⟨hmem, hwanted⟩, -⟩ := hfilled.2.2.1.2
  revert hwanted
  decide

end DssSdk.Utils
