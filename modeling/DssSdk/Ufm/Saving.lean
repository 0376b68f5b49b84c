import DssSdk.Ufm.Rewriting

/-!
# Edits of the configuration file

* `reached_of_edits`: the arrays that are read and edited;
* `update_update`: the namespaces of a subsystem are there after the first time;
* `delete_of_add`: a subsystem that is added and deleted leaves the others;
* `survives_iff`: the arrays that survive any number of rounds.
-/

namespace DssSdk.Ufm.SpdkConfig

/-! ### What the edits leave in an array -/

instance (s : Bytes) : Decidable (NoBreak s) :=
  inferInstanceAs (Decidable (∀ c ∈ s, isLineBreak c = false))

/-- A digit of `hexdigest`. -/
def isHexDigit (c : Char) : Bool := isDigit c || ('a' ≤ c && c ≤ 'f')

/-- The strings of a configuration have no line breaks. -/
structure Config.NoBreaks (config : Config) : Prop where
  nqn : NoBreak config.nqn
  addresses : ∀ a ∈ config.transportAddresses, NoBreak a.trtype ∧ NoBreak a.traddr ∧ NoBreak a.trsvcid
  namespaces : ∀ ns ∈ config.namespaces, NoBreak ns.serial ∧ NoBreak ns.pciAddress

/-- The strings of an edit have no line breaks. -/
def Edit.NoBreaks : Edit → Prop
  | .update config => config.NoBreaks
  | .append config => config.NoBreaks
  | .delete _ => True

section

variable {arr arr' : List Section} {config : Config} {s : Section} {d : Dict} {l : Bytes}
  {hexdigest : Bytes → Bytes}

@[simp] theorem noBreak_nil : NoBreak [] := fun _ h => absurd h List.not_mem_nil

@[simp] theorem noBreak_cons {c : Char} : NoBreak (c :: l) ↔ isLineBreak c = false ∧ NoBreak l :=
  List.forall_mem_cons

@[simp] theorem noBreak_append {l' : Bytes} : NoBreak (l ++ l') ↔ NoBreak l ∧ NoBreak l' :=
  List.forall_mem_append

theorem isLineBreak_of_hex {c : Char} (h : isHexDigit c = true) : isLineBreak c = false := by
  cases hb : isLineBreak c with
  | false => rfl
  | true =>
    rw [isLineBreak, Bool.or_eq_true, decide_eq_true_eq, decide_eq_true_eq] at hb
    rcases hb with rfl | rfl <;> exact absurd h (by decide)

theorem noBreak_of_number {v : Bytes} (h : IsNumber v) : NoBreak v :=
  fun c hc => isLineBreak_of_hex (by rw [isHexDigit, h.2 c hc]; rfl)

/-- An entry that is read as it is written has a clean line. -/
def EntryOk (e : Bytes × Bytes) : Prop := Kept e → Clean (line e)

theorem EntryOk.of_noBreak {k v : Bytes} (hk : NoBreak k) (hv : NoBreak v) : EntryOk (k, v) := by
  intro _
  refine NoBreak.clean ?_
  rw [line, noBreak_append, noBreak_cons]
  exact ⟨hk, rfl, hv⟩

theorem forall_foldl_set {α : Type} {P : Bytes × Bytes → Prop} {f : Dict → α → Dict} {as : List α}
    (hf : ∀ d, ∀ a ∈ as, (∀ e ∈ d.entries, P e) → ∀ e ∈ (f d a).entries, P e)
    (hd : ∀ e ∈ d.entries, P e) : ∀ e ∈ (as.foldl f d).entries, P e := by
  induction as generalizing d with
  | nil => exact hd
  | cons a as ih =>
    exact ih (fun d b hb => hf d b (List.mem_cons_of_mem _ hb)) (hf d a List.mem_cons_self hd)

theorem forall_set {P : Bytes × Bytes → Prop} {k v : Bytes} (hd : ∀ e ∈ d.entries, P e) (he : P (k, v)) :
    ∀ e ∈ (d.set k v).entries, P e := by
  intro e hmem
  rcases mem_set hmem with rfl | hmem
  · exact he
  · exact hd e hmem

theorem entryOk_addTransport (h : config.NoBreaks) (hd : ∀ e ∈ d.entries, EntryOk e) :
    ∀ e ∈ (config.namespaces.foldl addTransport d).entries, EntryOk e := by
  refine forall_foldl_set (fun d ns hns hd => ?_) hd
  obtain ⟨hserial, hpci⟩ := h.namespaces ns hns
  rw [addTransport]
  split
  · exact hd
  · refine forall_set hd (EntryOk.of_noBreak ?_ ?_)
    · simp only [transportKey, noBreak_append]
      exact ⟨⟨⟨by decide, by decide⟩, hpci⟩, by decide⟩
    · simp only [noBreak_append, noBreak_cons]
      exact ⟨⟨rfl, hserial⟩, rfl, noBreak_nil⟩

theorem entryOk_namespace {serial nsid : Bytes} (h : NoBreak serial) :
    EntryOk (namespaceKeyOf serial, nsid) := by
  intro hkept
  have hruled := hkept.ruled
  have hline : line (namespaceKeyOf serial, nsid)
      = 'N' :: 'a' :: 'm' :: 'e' :: 's' :: 'p' :: 'a' :: 'c' :: 'e' :: ' ' :: '"' ::
        (serial ++ ['n', '1', '"'] ++ ' ' :: nsid) := by
    simp [line, namespaceKeyOf, namespaceWord]
  have hno : transportIdWord.isPrefixOf (line (namespaceKeyOf serial, nsid)) = false := by
    rw [hline]
    rfl
  have hno' : listenWord.isPrefixOf (line (namespaceKeyOf serial, nsid)) = false := by
    rw [hline]
    rfl
  have hyes : namespaceWord.isPrefixOf (line (namespaceKeyOf serial, nsid)) = true := by
    rw [hline]
    simp [namespaceWord]
  rw [Ruled, hno, hno', hyes, if_neg Bool.false_ne_true, if_neg Bool.false_ne_true, if_pos rfl] at hruled
  refine NoBreak.clean ?_
  rw [line, noBreak_append, noBreak_cons, namespaceKeyOf, noBreak_append, noBreak_append]
  exact ⟨⟨⟨by decide, h⟩, by decide⟩, rfl, noBreak_of_number hruled.2⟩

theorem isName_nvme : IsName nvmeName := ⟨['N', 'v', 'm', 'e'], rfl, by decide, by decide⟩

theorem isName_subsystem {nqn : Bytes} (h : NoBreak nqn) : IsName (subsystemName nqn) := by
  refine ⟨['S', 'u', 'b', 's', 'y', 's', 't', 'e', 'm', '_'] ++ nqn, by simp [subsystemName], by simp,
    fun hmem => ?_⟩
  rcases List.mem_append.1 hmem with hmem | hmem
  · exact absurd hmem (by decide)
  · exact absurd (h _ hmem) (by decide)

theorem mem_modifyNvme {f : Dict → Dict} (h : modifyNvme f arr = some arr') (hs : s ∈ arr') :
    s ∈ arr ∨ ∃ t ∈ arr, s = ⟨t.name, f t.dict⟩ := by
  induction arr generalizing arr' with
  | nil => cases h
  | cons t arr ih =>
    rw [modifyNvme] at h
    split at h
    · split at h
      · cases h
        rcases List.mem_cons.1 hs with rfl | hs
        · exact Or.inr ⟨t, List.mem_cons_self, rfl⟩
        · exact Or.inl (List.mem_cons_of_mem _ hs)
      · cases h
    · rw [Option.map_eq_some_iff] at h
      obtain ⟨arr'', h, rfl⟩ := h
      rcases List.mem_cons.1 hs with rfl | hs
      · exact Or.inl List.mem_cons_self
      · rcases ih h hs with hs | ⟨u, hu, rfl⟩
        · exact Or.inl (List.mem_cons_of_mem _ hs)
        · exact Or.inr ⟨u, List.mem_cons_of_mem _ hu, rfl⟩

/-- The array with a section for the namespaces. -/
def withNvme (arr : List Section) : List Section :=
  if arr.any isNvme then arr else arr ++ [⟨nvmeName, Dict.empty⟩]

theorem Reached.withNvme (h : Reached arr) : Reached (withNvme arr) := by
  rw [SpdkConfig.withNvme]
  split
  · exact h
  · intro s hs
    rcases List.mem_append.1 hs with hs | hs
    · exact h s hs
    · rw [List.mem_singleton.1 hs]
      exact ⟨isName_nvme, fun e he => absurd he List.not_mem_nil⟩

theorem Reached.update (h : Reached arr) (hconfig : config.NoBreaks)
    (hupdate : updateNamespacesLocalConfig arr config = some arr') : Reached arr' := by
  rw [updateNamespacesLocalConfig] at hupdate
  split at hupdate
  · cases hupdate
    exact h.withNvme
  · intro s hs
    rcases mem_modifyNvme hupdate hs with hs | ⟨t, ht, rfl⟩
    · exact h.withNvme s hs
    · obtain ⟨hname, hes⟩ := h.withNvme t ht
      exact ⟨hname, entryOk_addTransport hconfig hes⟩

theorem Reached.append (h : Reached arr) (hconfig : config.NoBreaks)
    (hhex : ∀ nqn, ∀ c ∈ hexdigest nqn, isHexDigit c = true)
    (happend : appendSubsystemLocalConfig hexdigest arr config = some arr') : Reached arr' := by
  rw [appendSubsystemLocalConfig, Option.map_eq_some_iff] at happend
  obtain ⟨nqn, -, rfl⟩ := happend
  intro s hs
  rcases List.mem_append.1 hs with hs | hs
  · exact h s hs
  · rw [List.mem_singleton.1 hs]
    refine ⟨isName_subsystem hconfig.nqn, ?_⟩
    refine forall_foldl_set (P := EntryOk) (fun d ns hns hd => ?_) (forall_foldl_set
      (fun d a ha hd => ?_) (forall_set (forall_set (forall_set ?_ ?_) ?_) ?_))
    · exact forall_set hd (entryOk_namespace (hconfig.namespaces ns hns).1)
    · obtain ⟨htrtype, htraddr, htrsvcid⟩ := hconfig.addresses a ha
      refine forall_set hd (EntryOk.of_noBreak ?_ noBreak_nil)
      simp only [listenKey, noBreak_append, noBreak_cons]
      exact ⟨⟨⟨by decide, rfl, htrtype⟩, rfl, htraddr⟩, rfl, htrsvcid⟩
    · exact fun e he => absurd he List.not_mem_nil
    · exact EntryOk.of_noBreak (by decide) hconfig.nqn
    · exact EntryOk.of_noBreak (by decide)
        fun c hc => isLineBreak_of_hex (hhex _ c (List.mem_of_mem_take hc))
    · exact EntryOk.of_noBreak (by decide) (by decide)

theorem reached_of_edits {es : List Edit} (h : Reached arr)
    (hhex : ∀ nqn, ∀ c ∈ hexdigest nqn, isHexDigit c = true) (hes : ∀ e ∈ es, e.NoBreaks)
    (hedits : edits hexdigest arr es = some arr') : Reached arr' := by
  induction es generalizing arr with
  | nil =>
    cases hedits
    exact h
  | cons e es ih =>
    rw [edits, Option.bind_eq_some_iff] at hedits
    obtain ⟨arr₁, hedit, hedits⟩ := hedits
    have he := hes e List.mem_cons_self
    refine ih ?_ (fun e he => hes e (List.mem_cons_of_mem _ he)) hedits
    cases e with
    | update config => exact h.update he hedit
    | append config => exact h.append he hhex hedit
    | delete name =>
      cases hedit
      exact fun s hs => h s (List.eraseP_subset hs)

end

/-! ### Adding and deleting -/

/-- The sections of the other subsystems. -/
def isOther (config : Config) (s : Section) : Bool :=
  List.isPrefixOf ['[', 'S', 'u', 'b', 's', 'y', 's', 't', 'e', 'm', '_'] s.name &&
    s.name ≠ subsystemName config.nqn

section

variable {arr arr' : List Section} {config : Config} {s : Section} {d : Dict}
  {hexdigest : Bytes → Bytes}

theorem isOther_nvme (d : Dict) : isOther config ⟨nvmeName, d⟩ = false := rfl

theorem filter_modifyNvme {f : Dict → Dict} (h : modifyNvme f arr = some arr') :
    arr'.filter (isOther config) = arr.filter (isOther config) := by
  induction arr generalizing arr' with
  | nil => cases h
  | cons s arr ih =>
    rw [modifyNvme] at h
    split at h
    · split at h
      · rename_i hname
        cases h
        have hs : isOther config s = false := by
          rw [isOther, hname]
          rfl
        have hs' : isOther config ⟨s.name, f s.dict⟩ = false := by rw [hname]; exact isOther_nvme _
        rw [List.filter_cons_of_neg (Bool.not_eq_true _ ▸ hs'),
          List.filter_cons_of_neg (Bool.not_eq_true _ ▸ hs)]
      · cases h
    · rw [Option.map_eq_some_iff] at h
      obtain ⟨arr'', h, rfl⟩ := h
      rw [List.filter_cons, List.filter_cons, ih h]

theorem filter_withNvme : (withNvme arr).filter (isOther config) = arr.filter (isOther config) := by
  rw [withNvme]
  split
  · rfl
  · rw [List.filter_append, List.filter_cons_of_neg (by rw [isOther_nvme]; exact Bool.false_ne_true),
      List.filter_nil, List.append_nil]

theorem filter_update {config' : Config}
    (h : updateNamespacesLocalConfig arr config' = some arr') :
    arr'.filter (isOther config) = arr.filter (isOther config) := by
  rw [updateNamespacesLocalConfig] at h
  split at h
  · cases h
    exact filter_withNvme
  · rw [filter_modifyNvme h]
    exact filter_withNvme

theorem filter_delete :
    (deleteSubsystemLocalConfig arr (subsystemName config.nqn)).filter (isOther config)
      = arr.filter (isOther config) := by
  induction arr with
  | nil => rfl
  | cons s arr ih =>
    rw [deleteSubsystemLocalConfig] at ih ⊢
    by_cases hs : s.name = subsystemName config.nqn
    · have hother : isOther config s = false := by simp [isOther, hs]
      rw [List.eraseP_cons_of_pos (by simpa using hs), List.filter_cons_of_neg (by simp [hother])]
    · rw [List.eraseP_cons_of_neg (by simpa using hs), List.filter_cons, List.filter_cons, ih]

/-! ### The namespaces the second time -/

theorem contains_set (d : Dict) (k v j : Bytes) :
    (d.set k v).contains j = (decide (j = k) || d.contains j) := by
  rw [Dict.contains, Dict.set, SortedTable.get_put, Dict.contains]
  by_cases h : j = k
  · simp [h]
  · simp [h]

theorem contains_addTransport (ns : Namespace) {j : Bytes}
    (h : d.contains j = true ∨ j = transportKey ns.pciAddress) : (addTransport d ns).contains j = true := by
  rw [addTransport]
  split
  · rename_i hkey
    rcases h with h | rfl
    · exact h
    · exact hkey
  · rw [contains_set, Bool.or_eq_true, decide_eq_true_eq]
    exact h.symm

theorem contains_foldl_addTransport {nss : List Namespace} {j : Bytes}
    (h : d.contains j = true ∨ ∃ ns ∈ nss, j = transportKey ns.pciAddress) :
    (nss.foldl addTransport d).contains j = true := by
  induction nss generalizing d with
  | nil =>
    rcases h with h | ⟨ns, hns, -⟩
    · exact h
    · cases hns
  | cons n nss ih =>
    refine ih ?_
    rcases h with h | ⟨ns, hns, hj⟩
    · exact Or.inl (contains_addTransport n (Or.inl h))
    rcases List.mem_cons.1 hns with rfl | hns
    · exact Or.inl (contains_addTransport ns (Or.inr hj))
    · exact Or.inr ⟨ns, hns, hj⟩

theorem foldl_addTransport_of_contains {nss : List Namespace}
    (h : ∀ ns ∈ nss, d.contains (transportKey ns.pciAddress) = true) : nss.foldl addTransport d = d := by
  induction nss with
  | nil => rfl
  | cons n nss ih =>
    rw [List.foldl_cons, addTransport, if_pos (h n List.mem_cons_self)]
    exact ih fun ns hns => h ns (List.mem_cons_of_mem _ hns)

theorem modifyNvme_again {f : Dict → Dict} (hf : ∀ d, f (f d) = f d) (h : modifyNvme f arr = some arr')
    (tail : List Section) : modifyNvme f (arr' ++ tail) = some (arr' ++ tail) := by
  induction arr generalizing arr' with
  | nil => cases h
  | cons s arr ih =>
    rw [modifyNvme] at h
    split at h
    · rename_i hnvme
      split at h
      · rename_i hname
        cases h
        have hnvme' : isNvme ⟨s.name, f s.dict⟩ = true := hnvme
        rw [List.cons_append, modifyNvme, if_pos hnvme', if_pos hname]
        exact congrArg (fun d => some (⟨s.name, d⟩ :: (arr ++ tail))) (hf s.dict)
      · cases h
    · rename_i hnvme
      rw [Option.map_eq_some_iff] at h
      obtain ⟨arr'', h, rfl⟩ := h
      rw [List.cons_append, modifyNvme, if_neg hnvme, ih h]
      rfl

theorem any_modifyNvme {f : Dict → Dict} (h : modifyNvme f arr = some arr') : arr'.any isNvme = true := by
  induction arr generalizing arr' with
  | nil => cases h
  | cons s arr ih =>
    rw [modifyNvme] at h
    split at h
    · rename_i hnvme
      split at h
      · cases h
        rw [List.any_cons, Bool.or_eq_true]
        exact Or.inl hnvme
      · cases h
    · rw [Option.map_eq_some_iff] at h
      obtain ⟨arr'', h, rfl⟩ := h
      rw [List.any_cons, ih h, Bool.or_true]

theorem any_withNvme : (withNvme arr).any isNvme = true := by
  rw [withNvme]
  split
  · assumption
  · rw [List.any_append, Bool.or_eq_true]
    exact Or.inr rfl

/-- The second time there is nothing to do, whatever was appended. -/
theorem update_update (h : updateNamespacesLocalConfig arr config = some arr') (tail : List Section) :
    updateNamespacesLocalConfig (arr' ++ tail) config = some (arr' ++ tail) := by
  have hany : arr'.any isNvme = true → (arr' ++ tail).any isNvme = true := by
    intro h
    rw [List.any_append, h, Bool.true_or]
  rw [updateNamespacesLocalConfig] at h ⊢
  split at h
  · rename_i hnil
    cases h
    rw [if_pos (hany any_withNvme), if_pos hnil]
  · rename_i hne
    rw [if_pos (hany (any_modifyNvme h)), if_neg hne]
    refine modifyNvme_again (fun d => foldl_addTransport_of_contains fun ns hns => ?_) h tail
    exact contains_foldl_addTransport (Or.inr ⟨ns, hns, rfl⟩)

theorem writeLocalConfig_of_kept (h : Reached arr) (hkept : ∀ s ∈ arr, ∀ e ∈ s.dict.entries, Kept e) :
    ∃ file, writeLocalConfig arr = some file ∧ readLocalConfig file = arr :=
  Option.map_eq_some_iff.1 ((readBack_iff h).2 hkept)

theorem append_eq (h : appendSubsystemLocalConfig hexdigest arr config = some arr') :
    ∃ d, arr' = arr ++ [⟨subsystemName config.nqn, d⟩] := by
  rw [appendSubsystemLocalConfig, Option.map_eq_some_iff] at h
  obtain ⟨nqn, -, rfl⟩ := h
  exact ⟨_, rfl⟩

/-- A subsystem that is added and then deleted leaves the sections of the others. -/
theorem delete_of_add {file : Bytes} (hconfig : config.NoBreaks)
    (hhex : ∀ nqn, ∀ c ∈ hexdigest nqn, isHexDigit c = true)
    (hadd : edits hexdigest (readLocalConfig file) [.update config, .append config] = some arr)
    (hkept : ∀ s ∈ arr, ∀ e ∈ s.dict.entries, Kept e) :
    ∃ added deleted, saveTempLocalConfig hexdigest file config false = some added ∧
      saveTempLocalConfig hexdigest added config true = some deleted ∧
      (readLocalConfig deleted).filter (isOther config)
        = (readLocalConfig file).filter (isOther config) := by
  have hreached : Reached arr := by
    refine reached_of_edits (sound_readLocalConfig file).reached hhex ?_ hadd
    intro e he
    simp only [List.mem_cons, List.not_mem_nil, or_false] at he
    rcases he with rfl | rfl <;> exact hconfig
  obtain ⟨added, hwrite, hread⟩ := writeLocalConfig_of_kept hreached hkept
  rw [edits, Option.bind_eq_some_iff] at hadd
  obtain ⟨arr₁, hupdate, hadd⟩ := hadd
  rw [edits, Option.bind_eq_some_iff] at hadd
  obtain ⟨arr₂, happend, hadd⟩ := hadd
  cases hadd
  have hupdate : updateNamespacesLocalConfig (readLocalConfig file) config = some arr₁ := hupdate
  have happend : appendSubsystemLocalConfig hexdigest arr₁ config = some arr := happend
  have hadded : saveTempLocalConfig hexdigest file config false = some added := by
    rw [saveTempLocalConfig, hupdate, Option.bind_some, if_neg Bool.false_ne_true, happend,
      Option.bind_some, hwrite]
  -- the array that is read for the deletion has the subsystem and its namespaces
  obtain ⟨d, rfl⟩ := append_eq happend
  have hagain := update_update hupdate [⟨subsystemName config.nqn, d⟩]
  obtain ⟨deleted, hwrite', hread'⟩ := writeLocalConfig_of_kept
    (fun s hs => hreached s (List.eraseP_subset hs)) fun s hs => hkept s (List.eraseP_subset hs)
  refine ⟨added, deleted, hadded, ?_, ?_⟩
  · rw [saveTempLocalConfig, hread, hagain, Option.bind_some, if_pos rfl]
    exact hwrite'
  · rw [hread', ← filter_update hupdate]
    refine filter_delete.trans ?_
    rw [List.filter_append, List.filter_cons_of_neg (by simp [isOther]), List.filter_nil,
      List.append_nil]

/-- Exactly the arrays whose entries are all read as they are written survive any number of rounds,
and a subsystem that is added to a file leaves the others when it is deleted. -/
theorem survives_iff (hexdigest : Bytes → Bytes)
    (hhex : ∀ nqn, ∀ c ∈ hexdigest nqn, isHexDigit c = true) (file : Bytes) :
    (∀ es arr, (∀ e ∈ es, e.NoBreaks) → edits hexdigest (readLocalConfig file) es = some arr →
      (Survives arr ↔ ∀ s ∈ arr, ∀ e ∈ s.dict.entries, Kept e)) ∧
    ∀ config arr, config.NoBreaks →
      edits hexdigest (readLocalConfig file) [.update config, .append config] = some arr →
      (∀ s ∈ arr, ∀ e ∈ s.dict.entries, Kept e) →
      ∃ added deleted, saveTempLocalConfig hexdigest file config false = some added ∧
        saveTempLocalConfig hexdigest added config true = some deleted ∧
        (readLocalConfig deleted).filter (isOther config)
          = (readLocalConfig file).filter (isOther config) := by
  refine ⟨fun es arr hes hedits => ?_, fun config arr hconfig hadd hkept => ?_⟩
  · exact survives_iff_readBack.trans
      (readBack_iff (reached_of_edits (sound_readLocalConfig file).reached hhex hes hedits))
  · exact delete_of_add hconfig hhex hadd hkept

/-- A file with one device. -/
def deviceFile : Bytes := nvmeName ++ ['\n'] ++ transportKey ['x'] ++ [' ', '"', 's', '"', '\n']

/-- A subsystem with the device. -/
def deviceConfig : Config := ⟨['n', '1'], [], [⟨['s'], ['x'], ['1']⟩]⟩

/-- The digest of `n1`. -/
def deviceDigest : Bytes :=
  ['4', '0', 'b', '3', 'e', 'a', 'b', '6', '3', 'f', '3', 'f', '1', 'd', '4', 'f', 'a', '4', '8', 'e',
    '0', '9', '5', '5', '9', '4', '0', '1', 'c', '5', 'e', 'd', '4', 'e', 'f', 'c', 'e', 'a', 'a', '6']

theorem kept_device {arr : List Section}
    (h : edits (fun _ => deviceDigest) (readLocalConfig deviceFile)
      [.update deviceConfig, .append deviceConfig] = some arr) :
    ∀ s ∈ arr, ∀ e ∈ s.dict.entries, Kept e := by
  have hentries : (edits (fun _ => deviceDigest) (readLocalConfig deviceFile)
      [.update deviceConfig, .append deviceConfig]).map (·.flatMap (·.dict.entries))
      = some [(transportKey ['x'], ['"', 's', '"']),
        (['A', 'l', 'l', 'o', 'w', 'A', 'n', 'y', 'H', 'o', 's', 't'], ['Y', 'e', 's']),
        (['N', 'Q', 'N'], ['n', '1']), (namespaceKeyOf ['s'], ['1']),
        (['S', 'N'], deviceDigest.take 20)] := by decide
  rw [h, Option.map_some, Option.some.injEq] at hentries
  intro s hs e he
  have hmem : e ∈ arr.flatMap (·.dict.entries) := List.mem_flatMap.2 ⟨s, hs, he⟩
  rw [hentries] at hmem
  simp only [List.mem_cons, List.not_mem_nil, or_false] at hmem
  rcases hmem with rfl | rfl | rfl | rfl | rfl
  · exact ⟨by decide, not_isName (by decide), by decide, by rw [Ruled, if_pos (by decide)]; decide⟩
  · exact ⟨by decide, not_isName (by decide), by decide, ruled_plain (by decide) (by decide) (by decide)
      (by decide) (by decide)⟩
  · exact ⟨by decide, not_isName (by decide), by decide, ruled_plain (by decide) (by decide) (by decide)
      (by decide) (by decide)⟩
  · refine ⟨by decide, not_isName (by decide), by decide, ?_⟩
    rw [Ruled, if_neg (by decide), if_neg (by decide), if_pos (by decide)]
    exact ⟨⟨[' '], ['"', 's', 'n', '1', '"'], rfl, isBlank_singleton rfl, ['s', 'n', '1'], rfl,
      by decide, by decide⟩, by decide, by decide⟩
  · exact ⟨by decide, not_isName (by decide), by decide, ruled_plain (by decide) (by decide) (by decide)
      (by decide) (by decide)⟩

theorem survives_device :
    (∃ arr, edits (fun _ => deviceDigest) (readLocalConfig deviceFile)
        [.update deviceConfig, .append deviceConfig] = some arr ∧ arr.length = 2 ∧ Survives arr) ∧
      ∃ added deleted, saveTempLocalConfig (fun _ => deviceDigest) deviceFile deviceConfig false = some added ∧
        saveTempLocalConfig (fun _ => deviceDigest) added deviceConfig true = some deleted ∧
        (readLocalConfig deleted).filter (isOther deviceConfig)
          = (readLocalConfig deviceFile).filter (isOther deviceConfig) := by
  have hdigest : ∀ c ∈ deviceDigest, isHexDigit c = true := by decide
  have hhex : ∀ nqn : Bytes, ∀ c ∈ (fun _ : Bytes => deviceDigest) nqn, isHexDigit c = true :=
    fun _ => hdigest
  have hconfig : deviceConfig.NoBreaks := ⟨by decide, by decide, by decide⟩
  obtain ⟨arr, harr⟩ : ∃ arr, edits (fun _ => deviceDigest) (readLocalConfig deviceFile)
      [.update deviceConfig, .append deviceConfig] = some arr := Option.isSome_iff_exists.1 (by decide)
  have hlength : (edits (fun _ => deviceDigest) (readLocalConfig deviceFile)
      [.update deviceConfig, .append deviceConfig]).map List.length = some 2 := by decide
  rw [harr, Option.map_some, Option.some.injEq] at hlength
  obtain ⟨hsurvives, hadd⟩ := survives_iff (fun _ => deviceDigest) hhex deviceFile
  refine ⟨⟨arr, harr, hlength, (hsurvives _ arr ?_ harr).2 (kept_device harr)⟩,
    hadd deviceConfig arr hconfig harr (kept_device harr)⟩
  intro e he
  simp only [List.mem_cons, List.not_mem_nil, or_false] at he
  rcases he with rfl | rfl <;> exact hconfig

/-- A file with an address. -/
def listenFile : Bytes := ['[', 'S', ']', '\n', 'L', 'i', 's', 't', 'e', 'n', ' ', 'a', '\n']

/-- The key of the address grows by a blank. -/
theorem not_survives_listen :
    (readLocalConfig listenFile).map (·.dict.entries)
        = [[(['L', 'i', 's', 't', 'e', 'n', ' ', 'a'], [])]] ∧
      (readBack (readLocalConfig listenFile)).map (·.map (·.dict.entries))
        = some [[(['L', 'i', 's', 't', 'e', 'n', ' ', 'a', ' '], [])]] ∧
      ¬ Survives (readLocalConfig listenFile) := by
  refine ⟨by decide, by decide, fun h => ?_⟩
  have hdiff : rounds 1 (readLocalConfig listenFile) ≠ some (readLocalConfig listenFile) := by decide
  exact hdiff (h 1)

end

end DssSdk.Ufm.SpdkConfig
