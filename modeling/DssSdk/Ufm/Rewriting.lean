import DssSdk.Ufm.Kept

/-!
# The configuration file survives a rewriting

* `writeLocalConfig_eq`: the lines of the file that is written;
* `read_written`: what is read from them, section by section;
* `readDict_eq_iff`: a section is read back as it is when each of its entries is (the entries can not
  change places);
* `Sound`: what reading leaves in an array (`sound_readLocalConfig`);
* `readBack_iff`: the arrays that are read back as they are.
-/

namespace DssSdk.Ufm.SpdkConfig

open Pattern

/-! ### A function that permutes a list -/

section

variable {α : Type} {f : α → Option α} {g : α → ℤ} {l : List α}

theorem eq_of_sum_filterMap (hsome : ∀ a ∈ l, (f a).isSome = true)
    (hle : ∀ a ∈ l, ∀ b, f a = some b → g a ≤ g b)
    (hsum : ((l.filterMap f).map g).sum ≤ (l.map g).sum) : ∀ a ∈ l, ∀ b, f a = some b → g b = g a := by
  have hlow : ∀ {m : List α}, (∀ a ∈ m, (f a).isSome = true) →
      (∀ a ∈ m, ∀ b, f a = some b → g a ≤ g b) → (m.map g).sum ≤ ((m.filterMap f).map g).sum := by
    intro m hsome hle
    induction m with
    | nil => exact le_rfl
    | cons a m ih =>
      obtain ⟨b, hb⟩ := Option.isSome_iff_exists.1 (hsome a List.mem_cons_self)
      rw [List.filterMap_cons_some hb, List.map_cons, List.map_cons, List.sum_cons, List.sum_cons]
      exact add_le_add (hle a List.mem_cons_self b hb)
        (ih (fun a ha => hsome a (List.mem_cons_of_mem _ ha))
          fun a ha => hle a (List.mem_cons_of_mem _ ha))
  induction l with
  | nil => simp
  | cons a l ih =>
    obtain ⟨b, hb⟩ := Option.isSome_iff_exists.1 (hsome a List.mem_cons_self)
    have hsome' := fun a ha => hsome a (List.mem_cons_of_mem _ ha)
    have hle' := fun a ha => hle a (List.mem_cons_of_mem _ ha)
    rw [List.filterMap_cons_some hb, List.map_cons, List.map_cons, List.sum_cons, List.sum_cons] at hsum
    have hab := hle a List.mem_cons_self b hb
    have hrest := hlow hsome' hle'
    intro x hx y hy
    rcases List.mem_cons.1 hx with rfl | hx
    · rw [hb, Option.some.injEq] at hy
      rw [← hy]
      omega
    · exact ih hsome' hle' (by omega) x hx y hy

theorem inj_of_nodup_filterMap (h : (l.filterMap f).Nodup) {a b c : α} (ha : a ∈ l) (hb : b ∈ l)
    (hac : f a = some c) (hbc : f b = some c) : a = b := by
  induction l with
  | nil => cases ha
  | cons d l ih =>
    have hmem : ∀ {x : α}, x ∈ l → f x = some c → c ∈ l.filterMap f :=
      fun hx hxc => List.mem_filterMap.2 ⟨_, hx, hxc⟩
    cases hd : f d with
    | none =>
      rw [List.filterMap_cons_none hd] at h
      rcases List.mem_cons.1 ha with rfl | ha
      · rw [hd] at hac
        cases hac
      rcases List.mem_cons.1 hb with rfl | hb
      · rw [hd] at hbc
        cases hbc
      exact ih h ha hb
    | some e =>
      rw [List.filterMap_cons_some hd, List.nodup_cons] at h
      rcases List.mem_cons.1 ha with had | hal
      · rcases List.mem_cons.1 hb with hbd | hbl
        · rw [had, hbd]
        · rw [← had, hac, Option.some.injEq] at hd
          exact absurd (hmem hbl hbc) (hd ▸ h.1)
      · rcases List.mem_cons.1 hb with hbd | hbl
        · rw [← hbd, hbc, Option.some.injEq] at hd
          exact absurd (hmem hal hac) (hd ▸ h.1)
        · exact ih h.2 hal hbl

end

theorem map_eq_self_iff {α : Type} {f : α → α} {l : List α} : l.map f = l ↔ ∀ a ∈ l, f a = a := by
  have h := List.map_inj_left (f := f) (g := id) (l := l)
  rwa [List.map_id] at h

/-! ### The lines that are written -/

/-- Lines, each with its line feed. -/
def text (ls : List Bytes) : Bytes := (ls.map (· ++ ['\n'])).flatten

/-- The lines of a section. -/
def writtenLines (s : Section) : List Bytes := s.name :: s.dict.entries.map line ++ [[]]

theorem mapM_if {α β : Type} {p : α → Prop} [DecidablePred p] (g : α → β) (l : List α) :
    l.mapM (fun a => if p a then some (g a) else none) = if ∀ a ∈ l, p a then some (l.map g) else none := by
  induction l with
  | nil => simp
  | cons a l ih =>
    rw [List.mapM_cons, ih]
    by_cases ha : p a
    · rw [if_pos ha]
      by_cases hl : ∀ b ∈ l, p b
      · rw [if_pos hl, if_pos (by simpa using ⟨ha, hl⟩)]
        rfl
      · rw [if_neg hl, if_neg (by simpa [ha] using hl)]
        rfl
    · have hall : ¬ ∀ b ∈ a :: l, p b := fun h => ha (h a List.mem_cons_self)
      rw [if_neg ha, if_neg hall]
      rfl

theorem encode_line (e : Bytes × Bytes) : encode (line e ++ ['\n']) =
    if Ascii (line e) then some (line e ++ ['\n']) else none := by
  have hiff : (line e ++ ['\n']).all (fun c => c.toNat < 128) = true ↔ Ascii (line e) := by
    rw [List.all_append, Bool.and_eq_true, List.all_eq_true]
    simp [Ascii]
  rw [encode]
  by_cases h : Ascii (line e)
  · rw [if_pos h, if_pos (hiff.2 h)]
  · rw [if_neg h, if_neg (hiff.not.2 h)]

theorem writeSection_eq (s : Section) : writeSection s =
    if ∀ e ∈ s.dict.entries, Ascii (line e) then some (text (writtenLines s)) else none := by
  rw [writeSection]
  simp only [encode_line]
  rw [mapM_if]
  by_cases h : ∀ e ∈ s.dict.entries, Ascii (line e)
  · rw [if_pos h, if_pos h, Option.map_some]
    simp [text, writtenLines, Function.comp_def]
  · rw [if_neg h, if_neg h, Option.map_none]

theorem writeLocalConfig_eq (arr : List Section) : writeLocalConfig arr =
    if ∀ s ∈ arr, ∀ e ∈ s.dict.entries, Ascii (line e) then
      some (text (banner :: arr.flatMap writtenLines)) else none := by
  rw [writeLocalConfig]
  simp only [funext writeSection_eq]
  rw [mapM_if]
  by_cases h : ∀ s ∈ arr, ∀ e ∈ s.dict.entries, Ascii (line e)
  · rw [if_pos h, if_pos h, Option.map_some]
    simp [text, List.flatMap, List.flatten_flatten, Function.comp_def]
  · rw [if_neg h, if_neg h, Option.map_none]

theorem readlines_cons {l rest : Bytes} (hl : '\n' ∉ l) :
    readlines (l ++ '\n' :: rest) = (l ++ ['\n']) :: readlines rest := by
  induction l with
  | nil => rfl
  | cons c l ih =>
    rw [List.mem_cons, not_or] at hl
    rw [List.cons_append, readlines, if_neg (Ne.symm hl.1), ih hl.2]
    rfl

theorem readlines_text {ls : List Bytes} (hls : ∀ l ∈ ls, '\n' ∉ l) :
    readlines (text ls) = ls.map (· ++ ['\n']) := by
  induction ls with
  | nil => rfl
  | cons l ls ih =>
    have heq : text (l :: ls) = l ++ '\n' :: text ls := by simp [text]
    rw [heq, readlines_cons (hls l List.mem_cons_self), ih fun l hl => hls l (List.mem_cons_of_mem _ hl)]
    rfl

/-! ### What is read -/

/-- The lines that start a section. -/
def startsSection (line : Bytes) : Bool :=
  !(['#'].isPrefixOf line) && (firstMatch headerPattern line).isSome

/-- Assignments, one after the other. -/
def setAll (d : Dict) (es : List (Bytes × Bytes)) : Dict := es.foldl (fun d e => d.set e.1 e.2) d

/-- What is read from the lines of a dictionary. -/
def readDict (d : Dict) : Dict := setAll Dict.empty (d.entries.filterMap fun e => parse (line e))

section

variable {arr acc : List Section} {l name : Bytes} {s : Section} {d : Dict}

theorem setLast_concat (acc : List Section) (name : Bytes) (d : Dict) (k v : Bytes) :
    setLast (acc ++ [⟨name, d⟩]) k v = acc ++ [⟨name, d.set k v⟩] := by
  simp [setLast]

theorem length_setLast (arr : List Section) (k v : Bytes) : (setLast arr k v).length = arr.length := by
  rcases List.eq_nil_or_concat arr with rfl | ⟨acc, s, rfl⟩
  · rfl
  · rw [List.concat_eq_append, setLast_concat, List.length_append, List.length_append]
    rfl

theorem length_readLine (arr : List Section) (line : Bytes) :
    (readLine arr line).length = arr.length + (if startsSection line = true then 1 else 0) := by
  rw [readLine, startsSection]
  cases ['#'].isPrefixOf line with
  | true => rfl
  | false =>
    cases firstMatch headerPattern line with
    | some ps => simp
    | none =>
      cases parseEntry line with
      | none => rfl
      | some e => simp [length_setLast]

theorem length_foldl_readLine (arr : List Section) (ls : List Bytes) :
    (ls.foldl readLine arr).length = arr.length + ls.countP startsSection := by
  induction ls generalizing arr with
  | nil => rfl
  | cons l ls ih =>
    rw [List.foldl_cons, ih, length_readLine, List.countP_cons]
    omega

theorem startsSection_name (h : IsName name) : startsSection (name ++ ['\n']) = true := by
  obtain ⟨ps, hps, -⟩ := h.matched
  obtain ⟨w, rfl, -, -⟩ := h
  rw [startsSection, hps]
  rfl

theorem readLine_name (h : IsName name) :
    readLine arr (name ++ ['\n']) = arr ++ [⟨name, Dict.empty⟩] := by
  obtain ⟨ps, hps, hflat⟩ := h.matched
  have hhash : ['#'].isPrefixOf (name ++ ['\n']) = false := by
    obtain ⟨w, rfl, -, -⟩ := h
    rfl
  rw [readLine, hhash, if_neg Bool.false_ne_true, hps]
  exact congrArg (fun name => arr ++ [⟨name, Dict.empty⟩]) hflat

theorem readLine_entry (h : ¬ IsName l) :
    readLine (acc ++ [⟨name, d⟩]) (l ++ ['\n']) = acc ++ [⟨name, setAll d (parse l).toList⟩] := by
  have hhash : ['#'].isPrefixOf (l ++ ['\n']) = ['#'].isPrefixOf l := isPrefixOf_snoc (by decide)
  have hnone : firstMatch headerPattern (l ++ ['\n']) = none := by
    cases hps : firstMatch headerPattern (l ++ ['\n']) with
    | none => rfl
    | some ps => exact absurd (match_header hps ▸ isName_flatten hps) h
  rw [readLine, parse, hhash, hnone]
  cases ['#'].isPrefixOf l with
  | true => rfl
  | false =>
    simp only [Bool.false_eq_true, if_false]
    cases parseEntry (l ++ ['\n']) with
    | none => rfl
    | some e => exact setLast_concat acc name d e.1 e.2

theorem setAll_append (d : Dict) (es es' : List (Bytes × Bytes)) :
    setAll d (es ++ es') = setAll (setAll d es) es' := List.foldl_append

theorem foldl_readLine_entries {ls : List Bytes} (h : ∀ l ∈ ls, ¬ IsName l) :
    (ls.map (· ++ ['\n'])).foldl readLine (acc ++ [⟨name, d⟩])
      = acc ++ [⟨name, setAll d (ls.filterMap parse)⟩] := by
  induction ls generalizing d with
  | nil => rfl
  | cons l ls ih =>
    rw [List.map_cons, List.foldl_cons, readLine_entry (h l List.mem_cons_self),
      ih fun l hl => h l (List.mem_cons_of_mem _ hl), ← setAll_append]
    cases hp : parse l with
    | none => rw [List.filterMap_cons_none hp]; rfl
    | some e => rw [List.filterMap_cons_some hp]; rfl

theorem foldl_readLine_section (hname : IsName s.name) (hes : ∀ e ∈ s.dict.entries, ¬ IsName (line e)) :
    ((writtenLines s).map (· ++ ['\n'])).foldl readLine acc = acc ++ [⟨s.name, readDict s.dict⟩] := by
  have hempty : ¬ IsName [] := by
    rintro ⟨w, h, -, -⟩
    cases h
  have hls : ∀ l ∈ s.dict.entries.map line ++ [[]], ¬ IsName l := by
    intro l hl
    rcases List.mem_append.1 hl with hl | hl
    · obtain ⟨e, he, rfl⟩ := List.mem_map.1 hl
      exact hes e he
    · rw [List.mem_singleton.1 hl]
      exact hempty
  have hparse : parse [] = none := by decide
  rw [writtenLines, List.cons_append, List.map_cons, List.foldl_cons, readLine_name hname,
    foldl_readLine_entries hls, List.filterMap_append, List.filterMap_map,
    List.filterMap_cons_none hparse, List.filterMap_nil, List.append_nil]
  rfl

theorem foldl_readLine_sections (hnames : ∀ s ∈ arr, IsName s.name)
    (hes : ∀ s ∈ arr, ∀ e ∈ s.dict.entries, ¬ IsName (line e)) :
    ((arr.flatMap writtenLines).map (· ++ ['\n'])).foldl readLine acc
      = acc ++ arr.map fun s => ⟨s.name, readDict s.dict⟩ := by
  induction arr generalizing acc with
  | nil => simp
  | cons s arr ih =>
    rw [List.flatMap_cons, List.map_append, List.foldl_append,
      foldl_readLine_section (hnames s List.mem_cons_self) (hes s List.mem_cons_self),
      ih (fun s hs => hnames s (List.mem_cons_of_mem _ hs))
        fun s hs => hes s (List.mem_cons_of_mem _ hs), List.append_assoc]
    rfl

theorem readLine_banner (arr : List Section) : readLine arr (banner ++ ['\n']) = arr := rfl

theorem newline_notMem_written (hnames : ∀ s ∈ arr, IsName s.name)
    (hclean : ∀ s ∈ arr, ∀ e ∈ s.dict.entries, Clean (line e)) :
    ∀ l ∈ banner :: arr.flatMap writtenLines, '\n' ∉ l := by
  intro l hl
  rcases List.mem_cons.1 hl with rfl | hl
  · decide
  obtain ⟨s, hs, hl⟩ := List.mem_flatMap.1 hl
  rw [writtenLines, List.cons_append, List.mem_cons, List.mem_append, List.mem_map,
    List.mem_singleton] at hl
  rcases hl with rfl | ⟨e, he, rfl⟩ | rfl
  · obtain ⟨w, hw, -, hnl⟩ := hnames s hs
    rw [hw, List.mem_append, List.mem_cons, List.mem_singleton, not_or, not_or]
    exact ⟨⟨by decide, hnl⟩, by decide⟩
  · exact (hclean s hs e he).newline
  · exact List.not_mem_nil

theorem countP_written (hnames : ∀ s ∈ arr, IsName s.name) :
    arr.length + ((arr.flatMap fun s => s.dict.entries.map line).map (· ++ ['\n'])).countP startsSection
      ≤ ((arr.flatMap writtenLines).map (· ++ ['\n'])).countP startsSection := by
  induction arr with
  | nil => simp
  | cons s arr ih =>
    have hs := startsSection_name (hnames s List.mem_cons_self)
    have hih := ih fun s hs => hnames s (List.mem_cons_of_mem _ hs)
    rw [List.flatMap_cons, List.flatMap_cons, List.map_append, List.map_append, List.countP_append,
      List.countP_append, writtenLines, List.cons_append, List.map_cons, List.map_append,
      List.countP_cons_of_pos hs, List.countP_append, List.length_cons]
    omega

end

/-! ### A section that is read back as it is -/

section

variable {d : Dict} {l : Bytes} {e e' : Bytes × Bytes}

theorem entries_setAll (d : Dict) (es : List (Bytes × Bytes)) :
    (setAll d es).entries = es.foldl (fun t e => SortedTable.put e.1 e.2 t) d.entries := by
  induction es generalizing d with
  | nil => rfl
  | cons e es ih => exact ih _

/-- The length of a line and the number of its characters other than a blank. -/
def lineWeight (l : Bytes) : ℤ := l.length + l.countP (· ≠ ' ')

@[simp] theorem lineWeight_append (l l' : Bytes) :
    lineWeight (l ++ l') = lineWeight l + lineWeight l' := by
  simp only [lineWeight, List.length_append, List.countP_append]
  omega

theorem IsBlank.weight (h : IsBlank l) : 1 ≤ lineWeight l ∧ (lineWeight l = 1 → l = [' ']) := by
  obtain ⟨c, s, rfl⟩ := List.exists_cons_of_ne_nil h.1
  rw [lineWeight, List.length_cons, List.countP_cons]
  refine ⟨by omega, fun hone => ?_⟩
  have hs : s = [] := List.length_eq_zero_iff.1 (by omega)
  have hc : c = ' ' := by
    by_contra hne
    rw [if_pos (by simpa using hne)] at hone
    omega
  rw [hs, hc]

theorem line_of_listen (hl : Clean l) (hlisten : listenWord.isPrefixOf l = true)
    (h : parse l = some e) : line e = l ++ [' '] := by
  rcases parse_line hl h with ⟨-, hk, hv⟩ | ⟨hno, -⟩
  · rw [line, hk, hv]
  · rw [hlisten] at hno
    cases hno

theorem weight_of_other (hl : Clean l) (hother : listenWord.isPrefixOf l = false)
    (h : parse l = some e) :
    lineWeight (line e) ≤ lineWeight l ∧ (lineWeight (line e) = lineWeight l → line e = l) := by
  rcases parse_line hl h with ⟨hlisten, -⟩ | ⟨-, sep, hcut, hsep⟩
  · rw [hother] at hlisten
    cases hlisten
  · have hline : line e = e.1 ++ [' '] ++ e.2 := by simp [line]
    have hone : lineWeight [' '] = 1 := rfl
    have hweight := hsep.weight
    rw [hcut, hline]
    simp only [lineWeight_append, hone]
    refine ⟨by omega, fun heq => ?_⟩
    rw [hweight.2 (by omega)]

theorem listen_snoc (h : listenWord.isPrefixOf l = true) :
    listenWord.isPrefixOf (l ++ [' ']) = true := by
  obtain ⟨t, rfl⟩ : listenWord <+: l := by simpa using h
  simp

/-- The weight of an address, for which the line grows. -/
def listenWeight (e : Bytes × Bytes) : ℤ :=
  if listenWord.isPrefixOf (line e) = true then (line e).length else 0

theorem perm_of_readDict (h : readDict d = d) :
    (d.entries.filterMap fun e => parse (line e)).Perm d.entries := by
  have hsub : d.entries ⊆ d.entries.filterMap fun e => parse (line e) := by
    intro e he
    have hmem : e ∈ (readDict d).entries := by rw [h]; exact he
    rw [readDict, entries_setAll] at hmem
    rcases SortedTable.mem_foldl_put hmem with hmem | hmem
    · exact hmem
    · cases hmem
  exact ((List.subperm_of_subset d.sorted.nodup hsub).perm_of_length_le
    (List.length_filterMap_le _ _)).symm

theorem isSome_of_length_filterMap {α β : Type} {f : α → Option β} {l : List α}
    (h : (l.filterMap f).length = l.length) : ∀ a ∈ l, (f a).isSome = true := by
  intro a ha
  by_contra hnone
  have hlt := List.length_filterMap_lt_length_iff_exists.2 ⟨a, ha, by simpa using hnone⟩
  omega

/-- A dictionary is read back as it is when each of its entries is. -/
theorem readDict_eq_iff (hclean : ∀ e ∈ d.entries, Clean (line e)) :
    readDict d = d ↔ ∀ e ∈ d.entries, parse (line e) = some e := by
  constructor
  · intro h
    have hperm := perm_of_readDict h
    have hsome := isSome_of_length_filterMap hperm.length_eq
    -- no line of an address: the addresses would grow
    have hlisten := eq_of_sum_filterMap (g := listenWeight) hsome
      (fun e he e' he' => by
        rw [listenWeight, listenWeight]
        split
        · rename_i hl
          rw [line_of_listen (hclean e he) hl he', if_pos (listen_snoc hl), List.length_append]
          omega
        · split <;> omega)
      (hperm.map _).sum_eq.le
    have hother : ∀ e ∈ d.entries, listenWord.isPrefixOf (line e) = false := by
      intro e he
      rw [← Bool.not_eq_true]
      intro hl
      obtain ⟨e', he'⟩ := Option.isSome_iff_exists.1 (hsome e he)
      have heq := hlisten e he e' he'
      rw [listenWeight, listenWeight, line_of_listen (hclean e he) hl he', if_pos (listen_snoc hl),
        if_pos hl, List.length_append, List.length_singleton] at heq
      omega
    -- no line changes: it would get lighter
    have hweight := eq_of_sum_filterMap (g := fun e => - lineWeight (line e)) hsome
      (fun e he e' he' => by
        have hle := (weight_of_other (hclean e he) (hother e he) he').1
        omega)
      (hperm.map _).sum_eq.le
    intro e he
    obtain ⟨e', he'⟩ := Option.isSome_iff_exists.1 (hsome e he)
    have hline : line e' = line e := by
      refine (weight_of_other (hclean e he) (hother e he) he').2 ?_
      have heq := hweight e he e' he'
      omega
    -- two entries with one line would be read as one
    have hmem : e' ∈ d.entries := hperm.subset (List.mem_filterMap.2 ⟨e, he, he'⟩)
    have heq : e = e' := inj_of_nodup_filterMap (hperm.nodup_iff.2 d.sorted.nodup) he hmem he'
      (by rw [hline]; exact he')
    rw [heq] at he' ⊢
    exact he'
  · intro h
    have hmap : (d.entries.filterMap fun e => parse (line e)) = d.entries := by
      rw [List.filterMap_congr h]
      exact List.filterMap_some
    refine Dict.ext ?_
    rw [readDict, hmap, entries_setAll]
    exact SortedTable.foldl_put_of_sorted (m := []) d.sorted fun e he => absurd he List.not_mem_nil

end

/-! ### What reading leaves in an array -/

/-- Names of sections, and entries whose lines have clean ends. -/
def Sound (arr : List Section) : Prop :=
  ∀ s ∈ arr, IsName s.name ∧ ∀ e ∈ s.dict.entries, Clean (line e)

section

variable {arr : List Section} {l file : Bytes}

theorem mem_set {d : Dict} {k v : Bytes} {e : Bytes × Bytes} (h : e ∈ (d.set k v).entries) :
    e = (k, v) ∨ e ∈ d.entries := SortedTable.mem_put h

theorem Sound.setLast {k v : Bytes} (h : Sound arr) (he : Clean (line (k, v))) :
    Sound (setLast arr k v) := by
  rcases List.eq_nil_or_concat arr with rfl | ⟨acc, s, rfl⟩
  · exact h
  · rw [List.concat_eq_append] at h ⊢
    rw [setLast_concat]
    intro t ht
    rcases List.mem_append.1 ht with ht | ht
    · exact h t (List.mem_append_left _ ht)
    · obtain ⟨hname, hes⟩ := h s (List.mem_append_right _ (List.mem_singleton_self _))
      rw [List.mem_singleton.1 ht]
      refine ⟨hname, fun e hmem => ?_⟩
      rcases mem_set hmem with rfl | hmem
      · exact he
      · exact hes e hmem

theorem Sound.readLine (h : Sound arr) (hl : '\n' ∉ l.dropLast) : Sound (readLine arr l) := by
  rw [SpdkConfig.readLine]
  split
  · exact h
  split
  · rename_i ps hps
    intro s hs
    rcases List.mem_append.1 hs with hs | hs
    · exact h s hs
    · rw [List.mem_singleton.1 hs]
      exact ⟨isName_flatten hps, fun e he => absurd he List.not_mem_nil⟩
  split
  · rename_i k v he
    exact h.setLast (parseEntry_clean hl he)
  · exact h

theorem newline_notMem_dropLast (hl : l ∈ readlines file) : '\n' ∉ l.dropLast := by
  induction file generalizing l with
  | nil => cases hl
  | cons c file ih =>
    rw [readlines] at hl
    split at hl
    · rcases List.mem_cons.1 hl with rfl | hl
      · exact List.not_mem_nil
      · exact ih hl
    · rename_i hc
      split at hl
      · rw [List.mem_singleton.1 hl]
        exact List.not_mem_nil
      · rename_i l' ls heq
        rcases List.mem_cons.1 hl with rfl | hl
        · have hl' := ih (heq ▸ List.mem_cons_self : l' ∈ readlines file)
          cases l' with
          | nil => exact List.not_mem_nil
          | cons a l' =>
            rw [List.dropLast_cons_cons, List.mem_cons, not_or]
            exact ⟨Ne.symm hc, hl'⟩
        · exact ih (heq ▸ List.mem_cons_of_mem _ hl)

theorem sound_readLocalConfig (file : Bytes) : Sound (readLocalConfig file) := by
  have hfold : ∀ (ls : List Bytes) (arr : List Section), (∀ l ∈ ls, '\n' ∉ l.dropLast) → Sound arr →
      Sound (ls.foldl readLine arr) := by
    intro ls
    induction ls with
    | nil => exact fun arr _ h => h
    | cons l ls ih =>
      exact fun arr hls h => ih _ (fun l hl => hls l (List.mem_cons_of_mem _ hl))
        (h.readLine (hls l List.mem_cons_self))
  exact hfold _ _ (fun l hl => newline_notMem_dropLast hl) fun s hs => absurd hs List.not_mem_nil

/-! ### The arrays that are read back -/

/-- What an array has that is read and edited: names of sections, and clean lines for the entries
that are read as they are written. -/
def Reached (arr : List Section) : Prop :=
  ∀ s ∈ arr, IsName s.name ∧ ∀ e ∈ s.dict.entries, Kept e → Clean (line e)

theorem Sound.reached (h : Sound arr) : Reached arr :=
  fun s hs => ⟨(h s hs).1, fun e he _ => (h s hs).2 e he⟩

theorem readLocalConfig_text (h : Sound arr) :
    readLocalConfig (text (banner :: arr.flatMap writtenLines))
      = ((arr.flatMap writtenLines).map (· ++ ['\n'])).foldl readLine [] := by
  rw [readLocalConfig, readlines_text (newline_notMem_written (fun s hs => (h s hs).1)
    fun s hs => (h s hs).2), List.map_cons, List.foldl_cons, readLine_banner]

theorem not_isName_of_readBack (h : Sound arr)
    (hread : readLocalConfig (text (banner :: arr.flatMap writtenLines)) = arr) :
    ∀ s ∈ arr, ∀ e ∈ s.dict.entries, ¬ IsName (line e) := by
  intro s hs e he hname
  have hlen := congrArg List.length hread
  have hcount := countP_written fun s hs => (h s hs).1
  rw [readLocalConfig_text h, length_foldl_readLine, List.length_nil] at hlen
  have hpos : 0 < ((arr.flatMap fun s => s.dict.entries.map line).map (· ++ ['\n'])).countP
      startsSection := by
    refine List.countP_pos_iff.2 ⟨line e ++ ['\n'], ?_, startsSection_name hname⟩
    exact List.mem_map_of_mem (List.mem_flatMap.2 ⟨s, hs, List.mem_map_of_mem he⟩)
  omega

/-- One round of writing and reading. -/
def readBack (arr : List Section) : Option (List Section) :=
  (writeLocalConfig arr).map readLocalConfig

theorem readBack_iff (h : Reached arr) :
    readBack arr = some arr ↔ ∀ s ∈ arr, ∀ e ∈ s.dict.entries, Kept e := by
  rw [readBack, writeLocalConfig_eq]
  constructor
  · intro hback
    split at hback
    · rename_i hascii
      rw [Option.map_some, Option.some.injEq] at hback
      have hsound : Sound arr := hback ▸ sound_readLocalConfig _
      have hno := not_isName_of_readBack hsound hback
      rw [readLocalConfig_text hsound, foldl_readLine_sections (fun s hs => (hsound s hs).1) hno,
        List.nil_append] at hback
      intro s hs e he
      have hs' := map_eq_self_iff.1 hback s hs
      have hdict : readDict s.dict = s.dict := congrArg Section.dict hs'
      have hparse := (readDict_eq_iff (hsound s hs).2).1 hdict e he
      obtain ⟨hhash, hruled⟩ := (parse_eq_iff ((hsound s hs).2 e he)).1 hparse
      exact ⟨hascii s hs e he, hno s hs e he, hhash, hruled⟩
    · cases hback
  · intro hkept
    have hsound : Sound arr := fun s hs => ⟨(h s hs).1, fun e he => (h s hs).2 e he (hkept s hs e he)⟩
    rw [if_pos fun s hs e he => (hkept s hs e he).ascii, Option.map_some, Option.some.injEq,
      readLocalConfig_text hsound, foldl_readLine_sections (fun s hs => (hsound s hs).1)
        fun s hs e he => (hkept s hs e he).no_header, List.nil_append]
    refine map_eq_self_iff.2 fun s hs => ?_
    have hdict : readDict s.dict = s.dict := (readDict_eq_iff (hsound s hs).2).2 fun e he =>
      (parse_eq_iff ((hsound s hs).2 e he)).2 ⟨(hkept s hs e he).no_comment, (hkept s hs e he).ruled⟩
    rw [hdict]

/-- Rounds of writing and reading. -/
def rounds : ℕ → List Section → Option (List Section)
  | 0, arr => some arr
  | n + 1, arr => (readBack arr).bind (rounds n)

/-- Any number of rounds leaves the array as it is. -/
def Survives (arr : List Section) : Prop := ∀ n, rounds n arr = some arr

theorem survives_iff_readBack : Survives arr ↔ readBack arr = some arr := by
  constructor
  · intro h
    have hone := h 1
    rw [rounds] at hone
    cases hb : readBack arr with
    | none => rw [hb] at hone; cases hone
    | some arr' => rw [hb] at hone; exact hone
  · intro h n
    induction n with
    | zero => rfl
    | succ n ih => rw [rounds, h, Option.bind_some, ih]

end

end DssSdk.Ufm.SpdkConfig
