import DssSdk.Ufm.EntryLines

/-!
# The entries that survive a rewriting

What the reader makes of the line that the writer wrote for an entry.

* `parse`: a line of a section without its line feed;
* `parse_line`: the line of what was read differs in the white space before the value only, or it is
  the line of an address with one more blank;
* `Kept`: the entries that are read back as they are (`parse_eq_iff`);
* `parseEntry_clean`: what a line of a file leaves in an entry.
-/

namespace DssSdk.Ufm.SpdkConfig

open Pattern

/-- What the reader makes of a line that is no header. -/
def parse (l : Bytes) : Option (Bytes × Bytes) :=
  if ['#'].isPrefixOf l then none else parseEntry (l ++ ['\n'])

section

variable {l k v w s : Bytes} {e : Bytes × Bytes} {ps : List Bytes}

theorem isPrefixOf_snoc (hw : '\n' ∉ w) : w.isPrefixOf (l ++ ['\n']) = w.isPrefixOf l := by
  induction w generalizing l with
  | nil => rfl
  | cons c w ih =>
    rw [List.mem_cons, not_or] at hw
    cases l with
    | nil =>
      rw [List.nil_append, List.isPrefixOf_cons_cons, List.isPrefixOf_cons_nil, Bool.and_eq_false_iff]
      exact Or.inl (by simpa using Ne.symm hw.1)
    | cons d l => rw [List.cons_append, List.isPrefixOf_cons_cons, List.isPrefixOf_cons_cons, ih hw.2]

theorem parseEntry_snoc (hl : Clean l) : parseEntry (l ++ ['\n']) =
    if transportIdWord.isPrefixOf l then splitLast l
    else if listenWord.isPrefixOf l then some (l, [])
    else if namespaceWord.isPrefixOf l then matchNamespace (l ++ ['\n'])
    else if qosHostWord.isPrefixOf l then matchQosHost (l ++ ['\n'])
    else splitFirst l := by
  rw [parseEntry, strip_snoc, hl.strip, isPrefixOf_snoc (by decide), isPrefixOf_snoc (by decide),
    isPrefixOf_snoc (by decide), isPrefixOf_snoc (by decide)]

/-- The line of what was read. -/
theorem parse_line (hl : Clean l) (h : parse l = some (k, v)) :
    (listenWord.isPrefixOf l = true ∧ k = l ∧ v = []) ∨
      (listenWord.isPrefixOf l = false ∧ ∃ sep, l = k ++ sep ++ v ∧ IsBlank sep) := by
  rw [parse] at h
  split at h
  · cases h
  have hblank : IsBlank [' '] := isBlank_singleton rfl
  rw [parseEntry_snoc hl] at h
  split at h
  · rename_i htransport
    refine Or.inr ⟨?_, [' '], ?_, hblank⟩
    · cases l with
      | nil => rfl
      | cons c l =>
        rw [transportIdWord, List.isPrefixOf_cons_cons, Bool.and_eq_true, beq_iff_eq] at htransport
        rw [← htransport.1]
        rfl
    · rw [(splitLast_iff.1 h).1]
      simp
  split at h
  · rename_i hlisten
    cases h
    exact Or.inl ⟨hlisten, rfl, rfl⟩
  rename_i hlisten
  refine Or.inr ⟨Bool.eq_false_of_not_eq_true hlisten, ?_⟩
  split at h
  · obtain ⟨sep, hcut, hsep, -⟩ := matchNamespace_cut h
    exact ⟨sep, hcut, hsep⟩
  split at h
  · obtain ⟨ws, r, sep, hcut⟩ := matchQosHost_cut h
    exact ⟨sep, hcut.cut, hcut.between⟩
  · refine ⟨[' '], ?_, hblank⟩
    rw [(splitFirst_iff.1 h).1]
    simp

/-- The condition that the rule for its line sets on an entry. -/
def Ruled (e : Bytes × Bytes) : Prop :=
  if transportIdWord.isPrefixOf (line e) then ' ' ∉ e.2
  else if listenWord.isPrefixOf (line e) then False
  else if namespaceWord.isPrefixOf (line e) then IsNamespaceKey e.1 ∧ IsNumber e.2
  else if qosHostWord.isPrefixOf (line e) then IsHostEntry e.1 e.2
  else ' ' ∉ e.1

theorem parseEntry_eq_iff (he : Clean (line e)) :
    parseEntry (line e ++ ['\n']) = some e ↔ Ruled e := by
  obtain ⟨k, v⟩ := e
  have hnl := he.newline
  rw [parseEntry_snoc he, Ruled]
  split
  · rw [splitLast_iff]
    exact and_iff_right rfl
  split
  · rw [iff_false]
    intro h
    have hlen := congrArg (fun e : Bytes × Bytes => e.1.length) (Option.some.inj h)
    simp only [line, List.length_append, List.length_cons] at hlen
    omega
  split
  · exact matchNamespace_iff
  split
  · refine matchQosHost_iff (fun hmem => hnl ?_) fun hmem => hnl ?_
    · exact List.mem_append_left _ hmem
    · exact List.mem_append_right _ (List.mem_cons_of_mem _ hmem)
  · rw [splitFirst_iff]
    exact and_iff_right rfl

/-- What `encode` accepts. -/
def Ascii (s : Bytes) : Prop := ∀ c ∈ s, c.toNat < 128

instance (s : Bytes) : Decidable (Ascii s) := inferInstanceAs (Decidable (∀ c ∈ s, c.toNat < 128))

/-- The entries that are read back as they are: ASCII text whose line is neither a header nor a
comment nor the line of an address, and that the rule for the line leaves as it is. -/
structure Kept (e : Bytes × Bytes) : Prop where
  ascii : Ascii (line e)
  no_header : ¬ IsName (line e)
  no_comment : ['#'].isPrefixOf (line e) = false
  ruled : Ruled e

theorem not_isName (h : l.head? ≠ some '[') : ¬ IsName l := by
  rintro ⟨w, rfl, -, -⟩
  exact h rfl

theorem ruled_plain (htransport : transportIdWord.isPrefixOf (line e) = false)
    (hlisten : listenWord.isPrefixOf (line e) = false)
    (hnamespace : namespaceWord.isPrefixOf (line e) = false)
    (hhost : qosHostWord.isPrefixOf (line e) = false) (hkey : ' ' ∉ e.1) : Ruled e := by
  rw [Ruled, htransport, hlisten, hnamespace, hhost]
  exact hkey

theorem parse_eq_iff (he : Clean (line e)) :
    parse (line e) = some e ↔ ['#'].isPrefixOf (line e) = false ∧ Ruled e := by
  rw [parse, ← parseEntry_eq_iff he]
  cases ['#'].isPrefixOf (line e) with
  | true => simp
  | false => simp

/-! ### What a file leaves -/

theorem clean_strip_line (hs : '\n' ∉ s.dropLast) : Clean (strip s) := by
  by_cases hmem : '\n' ∈ s
  · have hne : s ≠ [] := List.ne_nil_of_mem hmem
    have hcut := List.dropLast_append_getLast hne
    have hlast : s.getLast hne = '\n' := by
      rw [← hcut, List.mem_append, List.mem_singleton] at hmem
      exact (hmem.resolve_left hs).symm
    rw [← hcut, hlast, strip_snoc]
    exact clean_strip hs
  · exact clean_strip hmem

theorem newline_notMem_flatten (hs : '\n' ∉ s.dropLast) (hlast : ps.flatten.getLast? ≠ some '\n')
    (h : s = ps.flatten ∨ s = ps.flatten ++ ['\n']) : '\n' ∉ ps.flatten := by
  rcases h with rfl | rfl
  · intro hmem
    have hne := List.ne_nil_of_mem hmem
    rw [← List.dropLast_append_getLast hne, List.mem_append, List.mem_singleton] at hmem
    rcases hmem with hmem | hmem
    · exact hs hmem
    · exact hlast (by rw [List.getLast?_eq_some_getLast hne, ← hmem])
  · rwa [List.dropLast_concat] at hs

theorem clean_line {a d : Char} (hk : '\n' ∉ k) (hv : '\n' ∉ v) (hhead : k.head? = some a) (ha : a ≠ '\r')
    (hlast : v.getLast? = some d) (hd : d ≠ '\r') : Clean (line (k, v)) := by
  refine ⟨?_, ?_, ?_⟩
  · simp only [line, List.mem_append, List.mem_cons, not_or]
    exact ⟨hk, by decide, hv⟩
  · rw [line, List.head?_append, hhead, Option.some_or, ne_eq, Option.some.injEq]
    exact ha
  · have hcut : line (k, v) = (k ++ [' ']) ++ v := by simp [line]
    have hne : v ≠ [] := by
      rintro rfl
      cases hlast
    rw [hcut, getLast?_append_of_ne hne, hlast, ne_eq, Option.some.injEq]
    exact hd

theorem Clean.snoc (h : Clean l) : Clean (l ++ [' ']) where
  newline := by simpa using h.newline
  head := by
    rw [List.head?_append]
    cases hl : l.head? with
    | none => simp
    | some c => rw [Option.some_or, ← hl]; exact h.head
  last := by
    rw [List.getLast?_concat]
    decide

/-- An entry of a file has a line with clean ends. -/
theorem parseEntry_clean (hs : '\n' ∉ s.dropLast) (h : parseEntry s = some (k, v)) :
    Clean (line (k, v)) := by
  have hstrip := clean_strip_line hs
  rw [parseEntry] at h
  split at h
  · rw [line, ← (splitLast_iff.1 h).1]
    exact hstrip
  split at h
  · cases h
    exact hstrip.snoc
  split at h
  · rw [matchNamespace, Option.map_eq_some_iff] at h
    obtain ⟨ps, hps, he⟩ := h
    obtain ⟨hfits, hcut⟩ := mem_cuts.1 (mem_of_firstMatch hps)
    have hnl := newline_notMem_flatten hs (fits_namespace_last hfits) hcut
    obtain ⟨ws, w, sep, v', rfl, -, -, -, hv⟩ := fits_namespace.1 hfits
    obtain ⟨c, hc, hdigit⟩ := hv.last
    cases he
    simp only [List.flatten_cons, List.flatten_nil, List.append_nil, List.mem_append, not_or] at hnl
    refine clean_line (a := 'N') (d := c) ?_ ?_ rfl (by decide) ?_ ?_
    · simp only [List.take_succ_cons, List.take_zero, List.flatten_cons, List.flatten_nil,
        List.append_nil, List.mem_append, not_or]
      exact ⟨hnl.1, hnl.2.1, hnl.2.2.1, hnl.2.2.2.1, hnl.2.2.2.2.1⟩
    · simpa using hnl.2.2.2.2.2.2
    · simpa using hc
    · rintro rfl
      exact absurd hdigit (by decide)
  split at h
  · rw [matchQosHost, Option.map_eq_some_iff] at h
    obtain ⟨ps, hps, he⟩ := h
    obtain ⟨hfits, hcut⟩ := mem_cuts.1 (mem_of_firstMatch hps)
    obtain ⟨qs, rfl, h₁⟩ := fits_lit.1 hfits
    obtain ⟨ws, qs, rfl, -, -, h₂⟩ := fits_plus.1 h₁
    obtain ⟨r, qs, rfl, -, -, h₃⟩ := fits_plusLazy.1 h₂
    obtain ⟨sep, w, rfl, -, -, -⟩ := fits_endItems.1 h₃
    have hflat : [qosHostWord, ws, r, sep, ['"'], w, ['"']].flatten
        = (qosHostWord ++ ws ++ r ++ sep ++ ['"'] ++ w) ++ ['"'] := by simp
    have hnl := newline_notMem_flatten hs (by rw [hflat, List.getLast?_concat]; decide) hcut
    cases he
    simp only [List.flatten_cons, List.flatten_nil, List.append_nil, List.mem_append, not_or] at hnl
    refine clean_line (a := 'Q') (d := '"') ?_ ?_ rfl (by decide) ?_ (by decide)
    · simp only [List.take_succ_cons, List.take_zero, List.flatten_cons, List.flatten_nil,
        List.append_nil, List.mem_append, not_or]
      exact ⟨hnl.1, hnl.2.1, hnl.2.2.1⟩
    · simp only [List.drop_succ_cons, List.drop_zero, List.flatten_cons, List.flatten_nil,
        List.append_nil, List.mem_append, not_or]
      exact ⟨hnl.2.2.2.2.1, hnl.2.2.2.2.2.1, hnl.2.2.2.2.2.2⟩
    · simp only [List.drop_succ_cons, List.drop_zero, List.flatten_cons, List.flatten_nil,
        List.append_nil, ← List.append_assoc]
      exact List.getLast?_concat
  · rw [line, ← (splitFirst_iff.1 h).1]
    exact hstrip

end

end DssSdk.Ufm.SpdkConfig
