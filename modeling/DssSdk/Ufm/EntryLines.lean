import DssSdk.Ufm.SpdkConfig

/-!
# The lines of the configuration file

What the reader makes of one written line.

* `splitFirst_iff`, `splitLast_iff`, `matchNamespace_iff`, `matchQosHost_spec`: the rules of the
  reader;
* `parse`: a line that is no header; `parse_line`: how a line compares with the line that is written
  for what was read;
* `Kept`: the entries that are read back as they are (`parse_eq_iff`).
-/

namespace DssSdk.Ufm.SpdkConfig

open Pattern

/-- No line feed inside and no carriage return at an end. -/
structure Clean (l : Bytes) : Prop where
  newline : '\n' ∉ l
  head : l.head? ≠ some '\r'
  last : l.getLast? ≠ some '\r'

/-- No line break. -/
def NoBreak (l : Bytes) : Prop := ∀ c ∈ l, isLineBreak c = false

theorem NoBreak.clean {l : Bytes} (h : NoBreak l) : Clean l where
  newline hmem := absurd (h _ hmem) (by decide)
  head hhead := absurd (h _ (List.mem_of_mem_head? hhead)) (by decide)
  last hlast := absurd (h _ (List.mem_of_getLast? hlast)) (by decide)

/-! ### Splitting -/

section

variable {s l k v : Bytes}

theorem splitFirst_iff : splitFirst s = some (k, v) ↔ s = k ++ ' ' :: v ∧ ' ' ∉ k := by
  induction s generalizing k with
  | nil => simp [splitFirst]
  | cons c s ih =>
    by_cases hc : c = ' '
    · subst hc
      have heq : splitFirst (' ' :: s) = some ([], s) := by simp [splitFirst]
      rw [heq]
      constructor
      · intro h
        cases h
        exact ⟨rfl, List.not_mem_nil⟩
      · rintro ⟨hs, hk⟩
        cases k with
        | nil => cases hs; rfl
        | cons a k =>
          cases hs
          exact absurd List.mem_cons_self hk
    · have heq : splitFirst (c :: s) = (splitFirst s).map fun e => (c :: e.1, e.2) := by
        simp only [splitFirst]
        rw [List.dropWhile_cons_of_pos (by simpa using hc), List.takeWhile_cons_of_pos
          (by simpa using hc)]
        cases s.dropWhile (· ≠ ' ') with
        | nil => rfl
        | cons a t => rfl
      rw [heq, Option.map_eq_some_iff]
      constructor
      · rintro ⟨⟨k', v'⟩, h, he⟩
        cases he
        obtain ⟨rfl, hk⟩ := ih.1 h
        refine ⟨rfl, fun hmem => ?_⟩
        rcases List.mem_cons.1 hmem with heq | hmem
        · exact hc heq.symm
        · exact hk hmem
      · rintro ⟨hs, hk⟩
        cases k with
        | nil => cases hs; exact absurd rfl hc
        | cons a k =>
          cases hs
          exact ⟨(k, v), ih.2 ⟨rfl, fun hmem => hk (List.mem_cons_of_mem _ hmem)⟩, rfl⟩

theorem splitLast_iff : splitLast s = some (k, v) ↔ s = k ++ ' ' :: v ∧ ' ' ∉ v := by
  rw [splitLast, Option.map_eq_some_iff]
  constructor
  · rintro ⟨⟨v', k'⟩, h, he⟩
    cases he
    obtain ⟨hs, hv⟩ := splitFirst_iff.1 h
    refine ⟨?_, by simpa using hv⟩
    rw [← List.reverse_reverse s, hs]
    simp
  · rintro ⟨rfl, hv⟩
    refine ⟨(v.reverse, k.reverse), splitFirst_iff.2 ⟨by simp, by simpa using hv⟩, by simp⟩

/-! ### Stripping -/

theorem strip_snoc (l : Bytes) : strip (l ++ ['\n']) = strip l := by
  unfold strip
  rw [List.dropWhile_append]
  split
  · rename_i h
    rw [List.isEmpty_iff.1 h]
    rfl
  · rw [List.rdropWhile_concat_pos _ _ _ (by decide)]

theorem Clean.strip (h : Clean l) : strip l = l := by
  have hlast : ∀ hne : l ≠ [], ¬ isLineBreak (l.getLast hne) = true := by
    intro hne hbreak
    rw [isLineBreak, Bool.or_eq_true, decide_eq_true_eq, decide_eq_true_eq] at hbreak
    rcases hbreak with hr | hn
    · exact h.last (by rw [List.getLast?_eq_some_getLast hne, hr])
    · exact h.newline (hn ▸ List.getLast_mem hne)
  have hdrop : l.dropWhile isLineBreak = l := by
    cases l with
    | nil => rfl
    | cons c l =>
      have hc : ¬ isLineBreak c = true := by
        intro hbreak
        rw [isLineBreak, Bool.or_eq_true, decide_eq_true_eq, decide_eq_true_eq] at hbreak
        rcases hbreak with rfl | rfl
        · exact h.head rfl
        · exact h.newline List.mem_cons_self
      exact List.dropWhile_cons_of_neg hc
  rw [SpdkConfig.strip, hdrop, List.rdropWhile_eq_self_iff]
  exact hlast

theorem clean_strip (h : '\n' ∉ l) : Clean (strip l) := by
  have hcut : strip l ++ (l.dropWhile isLineBreak).rtakeWhile isLineBreak
      = l.dropWhile isLineBreak := List.rdropWhile_append_rtakeWhile
  have hsub : strip l ⊆ l := fun c hc =>
    List.dropWhile_subset isLineBreak (hcut ▸ List.mem_append_left _ hc)
  refine ⟨fun hmem => h (hsub hmem), fun hhead => ?_, fun hlast => ?_⟩
  · -- the first character is the first one behind the line breaks
    have hhead' : (l.dropWhile isLineBreak).head? = some '\r' := by
      rw [← hcut, List.head?_append, hhead]
      rfl
    have hne : l.dropWhile isLineBreak ≠ [] := by
      rintro hnil
      rw [hnil] at hhead'
      cases hhead'
    have hfalse := List.head_dropWhile_not isLineBreak hne
    rw [List.head?_eq_some_head hne, Option.some.injEq] at hhead'
    rw [hhead'] at hfalse
    exact absurd hfalse (by decide)
  · have hne : strip l ≠ [] := by
      rintro hnil
      rw [hnil] at hlast
      cases hlast
    have hfalse : ¬ isLineBreak ((strip l).getLast hne) = true :=
      List.rdropWhile_last_not isLineBreak _ hne
    rw [List.getLast?_eq_some_getLast hne, Option.some.injEq] at hlast
    rw [hlast] at hfalse
    exact absurd rfl hfalse

end

/-! ### Patterns -/

section

variable {l k v : Bytes} {e : Bytes × Bytes} {ps : List Bytes}

theorem eq_flatten (hlast : ps.flatten.getLast? ≠ some '\n')
    (h : l ++ ['\n'] = ps.flatten ∨ l ++ ['\n'] = ps.flatten ++ ['\n']) : l = ps.flatten := by
  rcases h with h | h
  · rw [← h, List.getLast?_concat] at hlast
    exact absurd rfl hlast
  · exact List.append_cancel_right h

/-- A run of white space. -/
def IsBlank (s : Bytes) : Prop := s ≠ [] ∧ ∀ c ∈ s, isSpace c = true

/-- The name of a section. -/
def IsName (name : Bytes) : Prop := ∃ w, name = '[' :: w ++ [']'] ∧ w ≠ [] ∧ '\n' ∉ w

theorem notNewline_iff {w : Bytes} : (∀ c ∈ w, notNewline c = true) ↔ '\n' ∉ w := by
  simp only [notNewline, decide_eq_true_eq]
  constructor
  · exact fun h hmem => h _ hmem rfl
  · rintro h c hc rfl
    exact h hc

theorem fits_header : List.Forall₂ Fits ps headerPattern ↔
    ∃ w, ps = [['['], w, [']']] ∧ w ≠ [] ∧ '\n' ∉ w := by
  rw [headerPattern, fits_lit]
  constructor
  · rintro ⟨qs, rfl, h₁⟩
    obtain ⟨w, qs, rfl, hne, hall, h₂⟩ := fits_plusLazy.1 h₁
    obtain ⟨qs, rfl, h₃⟩ := fits_lit.1 h₂
    cases fits_nil.1 h₃
    exact ⟨w, rfl, hne, notNewline_iff.1 hall⟩
  · rintro ⟨w, rfl, hne, hw⟩
    exact ⟨_, rfl, fits_plusLazy.2 ⟨w, _, rfl, hne, notNewline_iff.2 hw,
      fits_lit.2 ⟨_, rfl, fits_nil.2 rfl⟩⟩⟩

theorem isName_flatten (h : firstMatch headerPattern l = some ps) : IsName ps.flatten := by
  obtain ⟨w, rfl, hne, hw⟩ := fits_header.1 (mem_cuts.1 (mem_of_firstMatch h)).1
  exact ⟨w, by simp, hne, hw⟩

theorem match_header (h : firstMatch headerPattern (l ++ ['\n']) = some ps) : ps.flatten = l := by
  obtain ⟨w, hname, -, -⟩ := isName_flatten h
  refine (eq_flatten ?_ (mem_cuts.1 (mem_of_firstMatch h)).2).symm
  rw [hname, List.getLast?_concat]
  decide

theorem IsName.matched (h : IsName l) :
    ∃ ps, firstMatch headerPattern (l ++ ['\n']) = some ps ∧ ps.flatten = l := by
  obtain ⟨w, rfl, hne, hw⟩ := h
  obtain ⟨ps, hps⟩ := exists_firstMatch (mem_cuts.2 ⟨fits_header.2 ⟨w, rfl, hne, hw⟩,
    Or.inr (by simp : '[' :: w ++ [']'] ++ ['\n'] = _)⟩)
  exact ⟨ps, hps, match_header hps⟩

/-- A text in quotation marks, with something between them. -/
def IsQuoted (s : Bytes) : Prop := ∃ w, s = '"' :: w ++ ['"'] ∧ w ≠ [] ∧ '\n' ∉ w

/-- The first group of the pattern for a namespace. -/
def IsNamespaceKey (k : Bytes) : Prop :=
  ∃ ws q, k = namespaceWord ++ ws ++ q ∧ IsBlank ws ∧ IsQuoted q

/-- The second group: one digit or more. -/
def IsNumber (v : Bytes) : Prop := v ≠ [] ∧ ∀ c ∈ v, isDigit c = true

theorem getLast?_append_of_ne {s t : Bytes} (h : t ≠ []) : (s ++ t).getLast? = t.getLast? := by
  rw [List.getLast?_append, List.getLast?_eq_some_getLast h]
  rfl

theorem IsNumber.last (h : IsNumber v) : ∃ c, v.getLast? = some c ∧ isDigit c = true :=
  ⟨_, List.getLast?_eq_some_getLast h.1, h.2 _ (List.getLast_mem h.1)⟩

theorem fits_namespace : List.Forall₂ Fits ps namespacePattern ↔
    ∃ ws w sep v, ps = [namespaceWord, ws, ['"'], w, ['"'], sep, v] ∧
      IsBlank ws ∧ (w ≠ [] ∧ '\n' ∉ w) ∧
      IsBlank sep ∧ IsNumber v := by
  have hitems : namespacePattern = [.lit namespaceWord, .plus isSpace, .lit ['"'],
    .plusLazy notNewline, .lit ['"'], .plus isSpace, .plus isDigit] := rfl
  rw [hitems, fits_lit]
  constructor
  · rintro ⟨qs, rfl, h₁⟩
    obtain ⟨ws, qs, rfl, hws, hws', h₂⟩ := fits_plus.1 h₁
    obtain ⟨qs, rfl, h₃⟩ := fits_lit.1 h₂
    obtain ⟨w, qs, rfl, hw, hw', h₄⟩ := fits_plusLazy.1 h₃
    obtain ⟨qs, rfl, h₅⟩ := fits_lit.1 h₄
    obtain ⟨sep, qs, rfl, hsep, hsep', h₆⟩ := fits_plus.1 h₅
    obtain ⟨v, qs, rfl, hv, hv', h₇⟩ := fits_plus.1 h₆
    cases fits_nil.1 h₇
    exact ⟨ws, w, sep, v, rfl, ⟨hws, hws'⟩, ⟨hw, notNewline_iff.1 hw'⟩, ⟨hsep, hsep'⟩, hv, hv'⟩
  · rintro ⟨ws, w, sep, v, rfl, ⟨hws, hws'⟩, ⟨hw, hw'⟩, ⟨hsep, hsep'⟩, hv, hv'⟩
    exact ⟨_, rfl, fits_plus.2 ⟨ws, _, rfl, hws, hws', fits_lit.2 ⟨_, rfl, fits_plusLazy.2
      ⟨w, _, rfl, hw, notNewline_iff.2 hw', fits_lit.2 ⟨_, rfl, fits_plus.2
      ⟨sep, _, rfl, hsep, hsep', fits_plus.2 ⟨v, _, rfl, hv, hv', fits_nil.2 rfl⟩⟩⟩⟩⟩⟩⟩

theorem fits_namespace_last (h : List.Forall₂ Fits ps namespacePattern) :
    ps.flatten.getLast? ≠ some '\n' := by
  obtain ⟨ws, w, sep, v, rfl, -, -, -, hv⟩ := fits_namespace.1 h
  obtain ⟨c, hc, hdigit⟩ := hv.last
  intro hlast
  have hflat : [namespaceWord, ws, ['"'], w, ['"'], sep, v].flatten
      = (namespaceWord ++ ws ++ ['"'] ++ w ++ ['"'] ++ sep) ++ v := by simp
  rw [hflat, getLast?_append_of_ne hv.1, hc, Option.some.injEq] at hlast
  rw [hlast] at hdigit
  exact absurd hdigit (by decide)

theorem matchNamespace_cut (h : matchNamespace (l ++ ['\n']) = some (k, v)) :
    ∃ sep, l = k ++ sep ++ v ∧ IsBlank sep ∧ IsNamespaceKey k ∧
      IsNumber v := by
  rw [matchNamespace, Option.map_eq_some_iff] at h
  obtain ⟨ps, hps, he⟩ := h
  obtain ⟨hfits, hl⟩ := mem_cuts.1 (mem_of_firstMatch hps)
  have hl := eq_flatten (fits_namespace_last hfits) hl
  obtain ⟨ws, w, sep, v', rfl, hws, ⟨hw, hw'⟩, hsep, hv⟩ := fits_namespace.1 hfits
  cases he
  refine ⟨sep, ?_, hsep, ⟨ws, '"' :: w ++ ['"'], ?_, hws, w, rfl, hw, hw'⟩, ?_⟩
  · rw [hl]
    simp
  · simp
  · simpa [groups] using hv

end

/-! ### The longest run at an end -/

section

variable {p : Char → Bool} {a b a' b' : Bytes}

theorem rdropWhile_run (ha : ∀ c ∈ a.getLast?, p c = false) (hb : ∀ c ∈ b, p c = true) :
    (a ++ b).rdropWhile p = a := by
  induction b using List.reverseRecOn with
  | nil =>
    rw [List.append_nil, List.rdropWhile_eq_self_iff]
    intro hne hlast
    rw [ha _ (List.getLast_mem_getLast? hne)] at hlast
    cases hlast
  | append_singleton b c ih =>
    rw [← List.append_assoc, List.rdropWhile_concat_pos _ _ _ (hb c (by simp))]
    exact ih fun x hx => hb x (List.mem_append_left _ hx)

theorem run_unique (h : a ++ b = a' ++ b') (ha : ∀ c ∈ a.getLast?, p c = false)
    (hb : ∀ c ∈ b, p c = true) (ha' : ∀ c ∈ a'.getLast?, p c = false)
    (hb' : ∀ c ∈ b', p c = true) : a = a' ∧ b = b' := by
  have haa : a = a' := by rw [← rdropWhile_run ha hb, h, rdropWhile_run ha' hb']
  subst haa
  exact ⟨rfl, List.append_cancel_left h⟩

end

section

variable {k v k' v' sep sep' : Bytes}

theorem IsNamespaceKey.last (h : IsNamespaceKey k) : k.getLast? = some '"' := by
  obtain ⟨ws, q, rfl, -, w, rfl, -, -⟩ := h
  rw [← List.append_assoc]
  exact List.getLast?_concat

theorem isSpace_of_last (hsep : sep ≠ []) (h : ∀ c ∈ sep, isSpace c = true) :
    ∀ c ∈ (k ++ sep).getLast?, isDigit c = false := by
  intro c hc
  rw [getLast?_append_of_ne hsep] at hc
  have hspace := h c (List.mem_of_getLast? hc)
  cases hd : isDigit c with
  | false => rfl
  | true =>
    simp only [isSpace, Bool.or_eq_true, decide_eq_true_eq] at hspace
    rcases hspace with ((((rfl | rfl) | rfl) | rfl) | rfl) | rfl <;> exact absurd hd (by decide)

theorem namespace_unique (h : k ++ sep ++ v = k' ++ sep' ++ v') (hk : IsNamespaceKey k)
    (hk' : IsNamespaceKey k') (hsep : IsBlank sep)
    (hsep' : IsBlank sep') (hv : IsNumber v) (hv' : IsNumber v') :
    k = k' ∧ v = v' := by
  obtain ⟨hleft, hright⟩ := run_unique h (isSpace_of_last hsep.1 hsep.2) hv.2
    (isSpace_of_last hsep'.1 hsep'.2) hv'.2
  have hquote : ∀ {x : Bytes}, x.getLast? = some '"' → ∀ c ∈ x.getLast?, isSpace c = false := by
    intro x hx c hc
    rw [hx] at hc
    cases hc
    rfl
  exact ⟨(run_unique hleft (hquote hk.last) hsep.2 (hquote hk'.last) hsep'.2).1, hright⟩

/-- The entries of namespaces that are read as they are written. -/
theorem matchNamespace_iff :
    matchNamespace (k ++ ' ' :: v ++ ['\n']) = some (k, v) ↔ IsNamespaceKey k ∧ IsNumber v := by
  constructor
  · intro h
    obtain ⟨-, -, -, hk, hv⟩ := matchNamespace_cut h
    exact ⟨hk, hv⟩
  · rintro ⟨hk, hv⟩
    have hsep : [' '] ≠ [] ∧ ∀ c ∈ [' '], isSpace c = true := ⟨by simp, by simp [isSpace]⟩
    have hcut : k ++ ' ' :: v = k ++ [' '] ++ v := by simp
    obtain ⟨ws, q, hkq, hws, w, hq, hw, hw'⟩ := hk
    have hmem : [namespaceWord, ws, ['"'], w, ['"'], [' '], v] ∈
        cuts namespacePattern (k ++ ' ' :: v ++ ['\n']) :=
      mem_cuts.2 ⟨fits_namespace.2 ⟨ws, w, [' '], v, rfl, hws, ⟨hw, hw'⟩, hsep, hv⟩,
        Or.inr (by rw [hkq, hq]; simp)⟩
    obtain ⟨ps, hps⟩ := exists_firstMatch hmem
    obtain ⟨k', v', hm⟩ : ∃ k' v', matchNamespace (k ++ ' ' :: v ++ ['\n']) = some (k', v') :=
      ⟨_, _, by rw [matchNamespace, hps]; rfl⟩
    obtain ⟨sep', hcut', hsep', hk', hv'⟩ := matchNamespace_cut hm
    rw [hcut] at hcut'
    obtain ⟨rfl, rfl⟩ := namespace_unique hcut' ⟨ws, q, hkq, hws, w, hq, hw, hw'⟩ hk' hsep
      hsep' hv hv'
    exact hm

end

/-! ### Lines for a host -/

/-- White space and a text in quotation marks. -/
def HostEnd (t : Bytes) : Prop := ∃ sep v, t = sep ++ v ∧ IsBlank sep ∧ IsQuoted v

/-- What the pattern for a host wants behind the first white space. -/
def HostTail (t : Bytes) : Prop := ∃ r t', t = r ++ t' ∧ r ≠ [] ∧ '\n' ∉ r ∧ HostEnd t'

/-- The last parts of the pattern for a host. -/
def endItems : List Item := [.plus isSpace, .lit ['"'], .plusLazy notNewline, .lit ['"']]

section

variable {l k v t r ws : Bytes} {ps : List Bytes}

theorem fits_endItems : List.Forall₂ Fits ps endItems ↔ ∃ sep w,
    ps = [sep, ['"'], w, ['"']] ∧ IsBlank sep ∧ w ≠ [] ∧ '\n' ∉ w := by
  rw [endItems, fits_plus]
  constructor
  · rintro ⟨sep, qs, rfl, hsep, hsep', h₁⟩
    obtain ⟨qs, rfl, h₂⟩ := fits_lit.1 h₁
    obtain ⟨w, qs, rfl, hw, hw', h₃⟩ := fits_plusLazy.1 h₂
    obtain ⟨qs, rfl, h₄⟩ := fits_lit.1 h₃
    cases fits_nil.1 h₄
    exact ⟨sep, w, rfl, ⟨hsep, hsep'⟩, hw, notNewline_iff.1 hw'⟩
  · rintro ⟨sep, w, rfl, ⟨hsep, hsep'⟩, hw, hw'⟩
    exact ⟨sep, _, rfl, hsep, hsep', fits_lit.2 ⟨_, rfl, fits_plusLazy.2
      ⟨w, _, rfl, hw, notNewline_iff.2 hw', fits_lit.2 ⟨_, rfl, fits_nil.2 rfl⟩⟩⟩⟩

theorem HostEnd.cuts_ne (h : HostEnd t) : cuts endItems (t ++ ['\n']) ≠ [] := by
  obtain ⟨sep, v, rfl, hsep, w, rfl, hw, hw'⟩ := h
  have hmem : [sep, ['"'], w, ['"']] ∈ cuts endItems (sep ++ ('"' :: w ++ ['"']) ++ ['\n']) :=
    mem_cuts.2 ⟨fits_endItems.2 ⟨sep, w, rfl, hsep, hw, hw'⟩, Or.inr (by simp)⟩
  exact List.ne_nil_of_mem hmem

theorem HostTail.cuts_ne (h : HostTail t) :
    cuts (.plusLazy notNewline :: endItems) (t ++ ['\n']) ≠ [] := by
  obtain ⟨r, t', rfl, hr, hr', sep, v, rfl, hsep, w, rfl, hw, hw'⟩ := h
  have hmem : [r, sep, ['"'], w, ['"']] ∈ cuts (.plusLazy notNewline :: endItems)
      (r ++ (sep ++ ('"' :: w ++ ['"'])) ++ ['\n']) :=
    mem_cuts.2 ⟨fits_plusLazy.2 ⟨r, _, rfl, hr, notNewline_iff.2 hr',
      fits_endItems.2 ⟨sep, w, rfl, hsep, hw, hw'⟩⟩, Or.inr (by simp)⟩
  exact List.ne_nil_of_mem hmem

/-- The match for a host: the longest first white space and the shortest text behind it. -/
structure HostCut (l k v ws r sep : Bytes) : Prop where
  cut : l = k ++ sep ++ v
  key : k = qosHostWord ++ ws ++ r
  blank : IsBlank ws
  text : r ≠ [] ∧ '\n' ∉ r
  between : IsBlank sep
  value : IsQuoted v
  longest : ∀ ws' t, ws ++ r ++ sep ++ v = ws' ++ t → IsBlank ws' → ws.length < ws'.length →
    ¬ HostTail t
  shortest : ∀ r' t, r ++ sep ++ v = r' ++ t → r' ≠ [] → '\n' ∉ r' → r'.length < r.length → ¬ HostEnd t

theorem matchQosHost_cut (h : matchQosHost (l ++ ['\n']) = some (k, v)) :
    ∃ ws r sep, HostCut l k v ws r sep := by
  rw [matchQosHost, Option.map_eq_some_iff] at h
  obtain ⟨ps, hps, he⟩ := h
  obtain ⟨qs, rest₀, rfl, hrest₀, h₀⟩ := firstMatch_lit hps
  obtain ⟨ws, qs, rest₁, rfl, rfl, hws, hws', h₁, hlongest⟩ := firstMatch_plus h₀
  obtain ⟨r, qs, rest₂, rfl, rfl, hr, hr', h₂, hshortest⟩ := firstMatch_plusLazy h₁
  obtain ⟨hfits, hrest₂⟩ := mem_cuts.1 (mem_of_firstMatch h₂)
  obtain ⟨sep, w, rfl, hsep, hw, hw'⟩ := fits_endItems.1 hfits
  have hflat : [sep, ['"'], w, ['"']].flatten = sep ++ ('"' :: w ++ ['"']) := by simp
  -- the line feed is behind the match
  have hrest : rest₂ = sep ++ ('"' :: w ++ ['"']) ++ ['\n'] := by
    rw [hflat] at hrest₂
    rcases hrest₂ with rfl | rfl
    · have hlast := congrArg List.getLast? hrest₀
      rw [List.getLast?_concat, ← List.append_assoc, ← List.append_assoc, ← List.append_assoc,
        ← List.append_assoc, List.getLast?_concat] at hlast
      exact absurd hlast (by decide)
    · rfl
  subst hrest
  obtain ⟨rfl, rfl⟩ : k = qosHostWord ++ ws ++ r ∧ v = '"' :: w ++ ['"'] := by
    rw [Prod.ext_iff] at he
    refine ⟨he.1.symm.trans ?_, he.2.symm.trans ?_⟩
    · simp [groups]
    · simp [groups]
  refine ⟨ws, r, sep, ?_, rfl, ⟨hws, hws'⟩, ⟨hr, notNewline_iff.1 hr'⟩, hsep, ⟨w, rfl, hw, hw'⟩, ?_, ?_⟩
  · refine List.append_cancel_right (?_ : l ++ ['\n'] = _ ++ ['\n'])
    rw [hrest₀]
    simp
  · intro ws' t heq hblank hlt htail
    refine htail.cuts_ne (hlongest ws' (t ++ ['\n']) ?_ hblank.1 hblank.2 hlt)
    rw [← List.append_assoc ws', ← heq]
    simp
  · intro r' t heq hne hnl hlt hend
    refine hend.cuts_ne (hshortest r' (t ++ ['\n']) ?_ hne (notNewline_iff.2 hnl) hlt)
    rw [← List.append_assoc r', ← heq]
    simp

theorem exists_matchQosHost (hws : IsBlank ws) (ht : HostTail t) :
    ∃ k v, matchQosHost (qosHostWord ++ ws ++ t ++ ['\n']) = some (k, v) := by
  obtain ⟨r, t', rfl, hr, hr', sep, v, rfl, hsep, w, rfl, hw, hw'⟩ := ht
  have hmem : [qosHostWord, ws, r, sep, ['"'], w, ['"']] ∈ cuts qosHostPattern
      (qosHostWord ++ ws ++ (r ++ (sep ++ ('"' :: w ++ ['"']))) ++ ['\n']) :=
    mem_cuts.2 ⟨fits_lit.2 ⟨_, rfl, fits_plus.2 ⟨ws, _, rfl, hws.1, hws.2, fits_plusLazy.2
      ⟨r, _, rfl, hr, notNewline_iff.2 hr', fits_endItems.2 ⟨sep, w, rfl, hsep, hw, hw'⟩⟩⟩⟩,
      Or.inr (by simp)⟩
  obtain ⟨ps, hps⟩ := exists_firstMatch hmem
  exact ⟨_, _, by rw [matchQosHost, hps]; rfl⟩

end

/-- White space before a quotation mark. -/
def blankQuote : Bytes → Bool
  | c :: d :: s => (isSpace c && d = '"') || blankQuote (d :: s)
  | _ => false

theorem blankQuote_iff {s : Bytes} :
    blankQuote s = true ↔ ∃ x c y, s = x ++ c :: '"' :: y ∧ isSpace c = true := by
  induction s with
  | nil => simp [blankQuote]
  | cons a s ih =>
    cases s with
    | nil =>
      rw [blankQuote]
      · constructor
        · rintro ⟨⟩
        · rintro ⟨x, c, y, h, -⟩
          have := congrArg List.length h
          simp only [List.length_cons, List.length_nil, List.length_append] at this
          omega
      · simp
    | cons b s =>
      rw [blankQuote, Bool.or_eq_true, Bool.and_eq_true, decide_eq_true_eq, ih]
      constructor
      · rintro (⟨ha, rfl⟩ | ⟨x, c, y, h, hc⟩)
        · exact ⟨[], a, s, rfl, ha⟩
        · exact ⟨a :: x, c, y, by rw [h]; rfl, hc⟩
      · rintro ⟨x, c, y, h, hc⟩
        cases x with
        | nil => cases h; exact Or.inl ⟨hc, rfl⟩
        | cons a' x =>
          rw [List.cons_append, List.cons.injEq] at h
          exact Or.inr ⟨x, c, y, h.2, hc⟩

/-- The entries for a host that are read as they are written: a quoted value, and a key without white
space before a quotation mark or at the end; where only white space follows the word in the key, the
value has no such place. -/
def IsHostEntry (k v : Bytes) : Prop :=
  ∃ ws r w, k = qosHostWord ++ ws ++ r ∧ v = '"' :: w ++ ['"'] ∧ w ≠ [] ∧ IsBlank ws ∧
    (((∀ c ∈ r.head?, isSpace c = false) ∧ r ≠ [] ∧ (∀ c ∈ r.getLast?, isSpace c = false) ∧
        blankQuote r = false) ∨
      ∃ c, r = [c] ∧ isSpace c = true ∧ blankQuote w.dropLast = false)

section

variable {k v v' w ws r r' s x y sep sep' : Bytes} {c : Char}

theorem IsBlank.append (h : IsBlank s) (h' : IsBlank r) : IsBlank (s ++ r) := by
  refine ⟨by simp [h.1], fun c hc => ?_⟩
  rcases List.mem_append.1 hc with hc | hc
  · exact h.2 c hc
  · exact h'.2 c hc

theorem isBlank_singleton (h : isSpace c = true) : IsBlank [c] := ⟨by simp, by simpa using h⟩

theorem blankQuote_of_sep (h : IsBlank sep) : blankQuote (x ++ sep ++ '"' :: y) = true := by
  have hcut := List.dropLast_append_getLast h.1
  refine blankQuote_iff.2 ⟨x ++ sep.dropLast, sep.getLast h.1, y, ?_, h.2 _ (List.getLast_mem h.1)⟩
  nth_rewrite 1 [← hcut]
  simp

theorem IsBlank.not_quoted (h : IsBlank s) (hv : IsQuoted v) : v ≠ s ++ r := by
  obtain ⟨w, rfl, -, -⟩ := hv
  rintro heq
  cases s with
  | nil => exact h.1 rfl
  | cons c s =>
    rw [List.cons_append, List.cons_append, List.cons.injEq] at heq
    have hspace := h.2 c List.mem_cons_self
    rw [← heq.1] at hspace
    exact absurd hspace (by decide)

theorem sep_value (h : sep ++ v' = ' ' :: v) (hsep : IsBlank sep) (hv : IsQuoted v) :
    sep = [' '] ∧ v' = v := by
  cases sep with
  | nil => exact absurd rfl hsep.1
  | cons c s =>
    cases s with
    | nil => cases h; exact ⟨rfl, rfl⟩
    | cons d s =>
      cases h
      exact absurd rfl (IsBlank.not_quoted (s := d :: s)
        ⟨by simp, fun c hc => hsep.2 c (List.mem_cons_of_mem _ hc)⟩ hv)

theorem blankQuote_inner (h : '"' :: w ++ ['"'] = r ++ sep ++ v) (hr : r ≠ []) (hsep : IsBlank sep)
    (hv : IsQuoted v) : blankQuote w.dropLast = true := by
  obtain ⟨w', rfl, hw', -⟩ := hv
  cases r with
  | nil => exact absurd rfl hr
  | cons c r =>
    obtain ⟨z, t, rfl⟩ : ∃ z t, w' = t ++ [z] :=
      ⟨w'.getLast hw', w'.dropLast, (List.dropLast_append_getLast hw').symm⟩
    have hw : w = r ++ sep ++ '"' :: t ++ [z] := by
      rw [List.cons_append, List.cons_append, List.cons_append, List.cons.injEq] at h
      refine List.append_cancel_right (?_ : w ++ ['"'] = _ ++ ['"'])
      rw [h.2]
      simp
    rw [hw, List.dropLast_concat]
    exact blankQuote_of_sep hsep

/-- The pattern for a host cuts a written line where the key ends exactly when there is no place
before that it prefers. -/
theorem isHostEntry_of_match (h : matchQosHost (k ++ ' ' :: v ++ ['\n']) = some (k, v)) :
    IsHostEntry k v := by
  obtain ⟨ws, r, sep, hcut⟩ := matchQosHost_cut h
  obtain ⟨w, hv, hw, hw'⟩ := hcut.value
  have hline := hcut.cut
  rw [List.append_assoc] at hline
  obtain ⟨rfl, -⟩ := sep_value (List.append_cancel_left hline).symm hcut.between hcut.value
  refine ⟨ws, r, w, hcut.key, hv, hw, hcut.blank, ?_⟩
  obtain ⟨c, s, rfl⟩ := List.exists_cons_of_ne_nil hcut.text.1
  cases hc : isSpace c with
  | false =>
    refine Or.inl ⟨by simpa using hc, by simp, ?_, ?_⟩
    · -- a blank at the end of the key would belong to the white space behind it
      intro d hd
      rw [← Bool.not_eq_true]
      intro hspace
      obtain ⟨r', hr'⟩ := List.getLast?_eq_some_iff.1 hd
      have hne : r' ≠ [] := by
        rintro rfl
        cases hr'
        rw [hspace] at hc
        cases hc
      refine hcut.shortest r' ([d] ++ [' '] ++ v) (by rw [hr']; simp) hne ?_ (by rw [hr']; simp)
        ⟨[d] ++ [' '], v, rfl, (isBlank_singleton hspace).append hcut.between, hcut.value⟩
      intro hmem
      exact hcut.text.2 (by rw [hr']; exact List.mem_append_left _ hmem)
    · rw [← Bool.not_eq_true, blankQuote_iff]
      rintro ⟨x, d, y, hr, hspace⟩
      have hne : x ≠ [] := by
        rintro rfl
        cases hr
        rw [hspace] at hc
        cases hc
      have hsub : ∀ z ∈ x ++ y, z ≠ '\n' := by
        rintro z hz rfl
        refine hcut.text.2 ?_
        rw [hr]
        rcases List.mem_append.1 hz with hz | hz
        · exact List.mem_append_left _ hz
        · exact List.mem_append_right _ (List.mem_cons_of_mem _ (List.mem_cons_of_mem _ hz))
      refine hcut.shortest x ([d] ++ ('"' :: (y ++ ' ' :: '"' :: w) ++ ['"'])) ?_ hne ?_ ?_
        ⟨[d], _, rfl, isBlank_singleton hspace, _, rfl, by simp, ?_⟩
      · rw [hr, hv]
        simp
      · exact fun hmem => hsub _ (List.mem_append_left _ hmem) rfl
      · rw [hr]
        simp
      · simp only [List.mem_append, List.mem_cons, not_or]
        exact ⟨fun hmem => hsub _ (List.mem_append_right _ hmem) rfl, by decide, by decide, hw'⟩
  | true =>
    have hlonger : IsBlank (ws ++ [c]) := hcut.blank.append (isBlank_singleton hc)
    have hs : s = [] := by
      by_contra hne
      refine hcut.longest (ws ++ [c]) (s ++ ([' '] ++ v)) (by simp) hlonger (by simp)
        ⟨s, [' '] ++ v, rfl, hne, fun hmem => hcut.text.2 (List.mem_cons_of_mem _ hmem), [' '], v, rfl,
          hcut.between, hcut.value⟩
    subst hs
    refine Or.inr ⟨c, rfl, hc, ?_⟩
    rw [← Bool.not_eq_true, blankQuote_iff]
    rintro ⟨x, d, y, hdrop, hspace⟩
    have hwcut : w = x ++ d :: '"' :: (y ++ [w.getLast hw]) := by
      nth_rewrite 1 [← List.dropLast_append_getLast hw]
      rw [hdrop]
      simp
    have hsub : ∀ z ∈ x ++ (y ++ [w.getLast hw]), z ≠ '\n' := by
      rintro z hz rfl
      refine hw' ?_
      rw [hwcut]
      rcases List.mem_append.1 hz with hz | hz
      · exact List.mem_append_left _ hz
      · exact List.mem_append_right _ (List.mem_cons_of_mem _ (List.mem_cons_of_mem _ hz))
    refine hcut.longest (ws ++ [c] ++ [' ']) (('"' :: x) ++ ([d] ++ ('"' :: (y ++ [w.getLast hw]) ++ ['"'])))
      ?_ (hlonger.append hcut.between) (by simp) ⟨'"' :: x, _, rfl, by simp, ?_, [d], _, rfl,
        isBlank_singleton hspace, _, rfl, by simp, ?_⟩
    · rw [hv]
      nth_rewrite 1 [hwcut]
      simp
    · rw [List.mem_cons, not_or]
      exact ⟨by decide, fun hmem => hsub _ (List.mem_append_left _ hmem) rfl⟩
    · exact fun hmem => hsub _ (List.mem_append_right _ hmem) rfl

theorem hostTail_of (hr : r ≠ []) (hr' : '\n' ∉ r) (hv : IsQuoted v) : HostTail (r ++ ' ' :: v) :=
  ⟨r, ' ' :: v, rfl, hr, hr', [' '], v, rfl, isBlank_singleton rfl, hv⟩

theorem HostCut.eq_of_text (h : HostCut (k ++ ' ' :: v) k' v' ws' r' sep')
    (hk : k = qosHostWord ++ ws ++ r) (hws : IsBlank ws) (hv : IsQuoted v) (hnl : '\n' ∉ r)
    (hne : r ≠ []) (hhead : ∀ c ∈ r.head?, isSpace c = false)
    (hlast : ∀ c ∈ r.getLast?, isSpace c = false) (hquote : blankQuote r = false) :
    k' = k ∧ v' = v := by
  have heq : ws ++ (r ++ ' ' :: v) = ws' ++ (r' ++ (sep' ++ v')) := by
    have hline := h.cut
    rw [hk, h.key] at hline
    simp only [List.append_assoc, List.append_cancel_left_eq] at hline
    exact hline
  obtain ⟨c, s, rfl⟩ := List.exists_cons_of_ne_nil hne
  have hc : isSpace c = false := hhead c rfl
  -- the first white space is the whole run
  obtain rfl : ws' = ws := by
    rcases List.append_eq_append_iff.1 heq with ⟨a, ha, hrest⟩ | ⟨a, ha, hrest⟩
    · cases a with
      | nil => rw [ha, List.append_nil]
      | cons d a =>
        rw [List.cons_append, List.cons_append, List.cons.injEq] at hrest
        have hspace := h.blank.2 d (by rw [ha]; simp)
        rw [← hrest.1, hc] at hspace
        cases hspace
    · cases a with
      | nil => rw [ha, List.append_nil]
      | cons d a =>
        refine absurd (hostTail_of hne hnl hv) (h.longest ws _ ?_ hws (by rw [ha]; simp))
        rw [heq]
        simp
  have hrest := List.append_cancel_left heq
  -- and the text behind it the rest of the key
  obtain ⟨rfl, hend⟩ : r' = c :: s ∧ sep' ++ v' = ' ' :: v := by
    rcases List.append_eq_append_iff.1 hrest with ⟨a, ha, hcut⟩ | ⟨a, ha, hcut⟩
    · cases a with
      | nil => exact ⟨by rw [ha, List.append_nil], hcut.symm⟩
      | cons d a =>
        refine absurd ⟨[' '], v, rfl, isBlank_singleton rfl, hv⟩
          (h.shortest (c :: s) (' ' :: v) ?_ hne hnl (by rw [ha]; simp))
        rw [hrest]
        simp
    · rcases List.append_eq_append_iff.1 hcut with ⟨b, hb, hval⟩ | ⟨b, hb, hval⟩
      · cases b with
        | nil => exact absurd hval (IsBlank.not_quoted (s := [' ']) (isBlank_singleton rfl) h.value)
        | cons d b =>
          obtain ⟨w, hw, -, -⟩ := h.value
          rw [hw, List.cons_append, List.cons_append, List.cons.injEq] at hval
          rw [ha, hb, ← hval.1, ← List.append_assoc, blankQuote_of_sep h.between] at hquote
          cases hquote
      · cases a with
        | nil => exact ⟨by rw [ha, List.append_nil], hcut⟩
        | cons d a =>
          obtain ⟨z, hz⟩ : ∃ z, (d :: a).getLast? = some z := ⟨_, List.getLast?_eq_some_getLast (by simp)⟩
          have hspace : isSpace z = true :=
            h.between.2 z (by rw [hb]; exact List.mem_append_left _ (List.mem_of_getLast? hz))
          rw [hlast z (by rw [ha, getLast?_append_of_ne (by simp)]; exact hz)] at hspace
          cases hspace
  obtain ⟨rfl, rfl⟩ := sep_value hend h.between hv
  exact ⟨by rw [h.key, hk], rfl⟩

theorem HostCut.eq_of_blank (h : HostCut (k ++ ' ' :: v) k' v' ws' r' sep')
    (hk : k = qosHostWord ++ ws ++ [c]) (hws : IsBlank ws) (hnl : c ≠ '\n')
    (hv : IsQuoted v) (hvw : v = '"' :: w ++ ['"']) (hquote : blankQuote w.dropLast = false) :
    k' = k ∧ v' = v := by
  have heq : ws ++ (c :: ' ' :: v) = ws' ++ (r' ++ (sep' ++ v')) := by
    have hline := h.cut
    rw [hk, h.key] at hline
    simp only [List.append_assoc, List.append_cancel_left_eq] at hline
    exact hline
  have hnl' : '\n' ∉ [c] := by simpa using hnl.symm
  -- a longer first white space leaves no match
  have hinner : ∀ {x : Bytes}, x ≠ [] → v ≠ x ++ (sep' ++ v') := by
    intro x hx hval
    rw [hvw, ← List.append_assoc] at hval
    rw [blankQuote_inner hval hx h.between h.value] at hquote
    cases hquote
  obtain ⟨a, ha, hrest⟩ : ∃ a, ws' = ws ++ a ∧ c :: ' ' :: v = a ++ (r' ++ (sep' ++ v')) := by
    rcases List.append_eq_append_iff.1 heq with hcut | ⟨a, ha, hrest⟩
    · exact hcut
    · cases a with
      | nil => exact ⟨[], by rw [ha]; simp, hrest.symm⟩
      | cons d a =>
        refine absurd (hostTail_of (r := [c]) (by simp) hnl' hv)
          (h.longest ws _ ?_ hws (by rw [ha]; simp))
        rw [List.singleton_append, heq]
        simp
  have hr' := h.text.1
  rcases a with _ | ⟨d, _ | ⟨d', _ | ⟨d'', a⟩⟩⟩
  · -- the shortest text
    obtain ⟨b, s, rfl⟩ := List.exists_cons_of_ne_nil hr'
    rw [List.nil_append, List.cons_append, List.cons.injEq] at hrest
    obtain ⟨rfl, hrest⟩ := hrest
    cases s with
    | nil =>
      rw [List.nil_append] at hrest
      obtain ⟨-, rfl⟩ := sep_value hrest.symm h.between hv
      exact ⟨by rw [h.key, hk, ha, List.append_nil], rfl⟩
    | cons b s =>
      refine absurd ⟨[' '], v, rfl, isBlank_singleton rfl, hv⟩
        (h.shortest [c] (' ' :: v) ?_ (by simp) hnl' (by simp))
      rw [hrest]
      simp
  · rw [List.singleton_append, List.cons.injEq] at hrest
    obtain ⟨b, s, rfl⟩ := List.exists_cons_of_ne_nil hr'
    obtain ⟨-, hrest⟩ := hrest
    rw [List.cons_append, List.cons.injEq] at hrest
    cases s with
    | nil =>
      rw [List.nil_append] at hrest
      exact absurd hrest.2 (IsBlank.not_quoted h.between hv)
    | cons b s => exact absurd hrest.2 (hinner (by simp))
  · rw [List.cons_append, List.cons_append, List.cons.injEq, List.cons.injEq] at hrest
    exact absurd hrest.2.2 (hinner hr')
  · rw [List.cons_append, List.cons_append, List.cons.injEq, List.cons.injEq] at hrest
    have hspace : IsBlank (d'' :: a) :=
      ⟨by simp, fun z hz => h.blank.2 z (by rw [ha]; simp [List.mem_cons.1 hz])⟩
    exact absurd hrest.2.2 (hspace.not_quoted hv)

theorem matchQosHost_iff (hk : '\n' ∉ k) (hv : '\n' ∉ v) :
    matchQosHost (k ++ ' ' :: v ++ ['\n']) = some (k, v) ↔ IsHostEntry k v := by
  refine ⟨isHostEntry_of_match, ?_⟩
  rintro ⟨ws, r, w, hkey, hvw, hw, hws, hcase⟩
  have hquoted : IsQuoted v :=
    ⟨w, hvw, hw, fun hmem => hv (by rw [hvw]; exact List.mem_append_left _ (List.mem_cons_of_mem _ hmem))⟩
  have hnl : '\n' ∉ r := fun hmem => hk (by rw [hkey]; exact List.mem_append_right _ hmem)
  have hne : r ≠ [] := by
    rcases hcase with ⟨-, hne, -⟩ | ⟨c, rfl, -⟩
    · exact hne
    · simp
  obtain ⟨k', v', hm⟩ := exists_matchQosHost hws (hostTail_of hne hnl hquoted)
  rw [← List.append_assoc, ← hkey] at hm
  obtain ⟨ws', r', sep', hcut⟩ := matchQosHost_cut hm
  obtain ⟨rfl, rfl⟩ : k' = k ∧ v' = v := by
    rcases hcase with ⟨hhead, -, hlast, hquote⟩ | ⟨c, rfl, -, hquote⟩
    · exact hcut.eq_of_text hkey hws hquoted hnl hne hhead hlast hquote
    · exact hcut.eq_of_blank hkey hws (by simpa using Ne.symm (by simpa using hnl)) hquoted hvw hquote
  exact hm

end

end DssSdk.Ufm.SpdkConfig
