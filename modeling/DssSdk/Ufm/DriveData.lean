import DssSdk.Utils.Base64

/-!
# Drive data on the side of the agent

The agent reads the answers of a drive from the text in which `base64_encode` of the target wrote them.
The call between the two is not modelled. `base64.decodestring` is that of Python: characters that are
not in the alphabet are ignored, padding counts only where a group of four can end, and a group that
stays open is an error.

* `decodeBase64_encode`: for which lengths the agent has the bytes of the drive.
-/

namespace DssSdk.Ufm

open Sextets Utils

/-- The value of a character of the alphabet. -/
def alphabetValue (c : BitVec 8) : Option (BitVec 6) :=
  if significant c && c != padding then some ((dtable c).setWidth 6) else none

/-- Whether the next character that is not ignored is padding. -/
def paddingNext (data : List (BitVec 8)) : Bool := data.find? significant == some padding

/-- `binascii.a2b_base64`, with the position in the group of four. -/
def a2bLoop : List (BitVec 8) → ℕ → Reader → Reader
  | [], _, st => st
  | c :: data, quadPos, st =>
    if c = padding then
      if quadPos < 2 ∨ quadPos = 2 ∧ paddingNext data = false then a2bLoop data quadPos st
      else { st with bits := 0 }
    else
      match alphabetValue c with
      | none => a2bLoop data quadPos st
      | some v => a2bLoop data ((quadPos + 1) % 4) (st.feed v)

/-- `base64.decodestring`; `none` for an incorrect padding. -/
def decodestring (data : List (BitVec 8)) : Option (List (BitVec 8)) :=
  let st := a2bLoop data 0 ⟨[], 0#32, 0⟩
  if st.bits ≠ 0 then none else some st.out

/-- `decode_base64`. -/
def decodeBase64 (data : List (BitVec 8)) : Option (List (BitVec 8)) :=
  let missingPadding := data.length % 4
  if missingPadding ≠ 0 then decodestring (data ++ List.replicate (4 - missingPadding) padding)
  else decodestring data

variable {data : List (BitVec 8)} {quadPos : ℕ} {st : Reader}

theorem alphabetValue_char (v : BitVec 6) : alphabetValue (char v) = some v := by
  have hne : (char v != padding) = true := bne_iff_ne.2 (char_ne_padding v)
  rw [alphabetValue, significant_char, hne, dtable_char]
  simp

theorem alphabetValue_of_not {c : BitVec 8} (h : significant c = false) : alphabetValue c = none := by
  simp [alphabetValue, h]

theorem paddingNext_filter : paddingNext (data.filter significant) = paddingNext data := by
  unfold paddingNext
  rw [List.find?_filter]
  simp

theorem a2bLoop_filter : a2bLoop (data.filter significant) quadPos st = a2bLoop data quadPos st := by
  induction data generalizing quadPos st with
  | nil => rfl
  | cons c data ih =>
    cases hsig : significant c with
    | false =>
      have hc : c ≠ padding := by
        rintro rfl
        rw [significant_padding] at hsig
        cases hsig
      rw [List.filter_cons_of_neg (by simp [hsig]), ih, a2bLoop, if_neg hc, alphabetValue_of_not hsig]
    | true =>
      rw [List.filter_cons_of_pos hsig, a2bLoop, a2bLoop, paddingNext_filter]
      simp only [ih]

theorem a2bLoop_map_char (vs : List (BitVec 6)) (more : List (BitVec 8)) (h : quadPos < 4) :
    a2bLoop (vs.map char ++ more) quadPos st =
      a2bLoop more ((quadPos + vs.length) % 4) (vs.foldl Reader.feed st) := by
  induction vs generalizing quadPos st with
  | nil => simp [Nat.mod_eq_of_lt h]
  | cons v vs ih =>
    rw [List.map_cons, List.cons_append, a2bLoop, if_neg (char_ne_padding v), alphabetValue_char]
    dsimp only
    rw [ih (Nat.mod_lt _ (by decide)), List.foldl_cons, List.length_cons]
    congr 1
    omega

theorem a2bLoop_replicate (n : ℕ) :
    (a2bLoop (List.replicate n padding) quadPos st) =
      if 2 < quadPos ∧ 0 < n ∨ quadPos = 2 ∧ 2 ≤ n then { st with bits := 0 } else st := by
  induction n with
  | zero => simp [a2bLoop]
  | succ n ih =>
    rw [List.replicate_succ, a2bLoop, if_pos rfl, ih]
    have hnext : paddingNext (List.replicate n padding) = false ↔ n = 0 := by
      cases n with
      | zero => simp [paddingNext]
      | succ n => simp [paddingNext, List.replicate_succ]
    simp only [hnext]
    by_cases h : quadPos < 2 ∨ quadPos = 2 ∧ n = 0
    · rw [if_pos h, if_neg (by omega), if_neg (by omega)]
    · rw [if_neg h, if_pos (by omega)]

/-- The padding that `decode_base64` puts behind a text. -/
def missing (len : ℕ) : ℕ := if len % 4 ≠ 0 then 4 - len % 4 else 0

theorem decodeBase64_eq (data : List (BitVec 8)) :
    decodeBase64 data = decodestring (data ++ List.replicate (missing data.length) padding) := by
  unfold decodeBase64 missing
  by_cases h : data.length % 4 = 0 <;> simp [h]

theorem decodestring_spells {x : List (BitVec 8)} {n : ℕ} (h : Spells data x) :
    decodestring (data ++ List.replicate n padding) =
      if x.length % 3 = 0 ∨ x.length % 3 = 2 ∧ 0 < n ∨ x.length % 3 = 1 ∧ 2 ≤ n then some x
      else none := by
  have hfilter : (data ++ List.replicate n padding).filter significant =
      (sextets x).map char ++ List.replicate n padding := by
    rw [List.filter_append, h, List.filter_replicate_of_pos significant_padding]
  have hloop : a2bLoop (data ++ List.replicate n padding) 0 ⟨[], 0#32, 0⟩ =
      a2bLoop (List.replicate n padding) ((0 + (sextets x).length) % 4)
        ⟨x, 0#32, 2 * ((3 - x.length % 3) % 3)⟩ := by
    rw [← a2bLoop_filter, hfilter, a2bLoop_map_char _ _ (by decide), Reader.foldl_feed_sextets,
      List.nil_append]
  unfold decodestring
  rw [hloop, a2bLoop_replicate, length_sextets]
  -- nothing, four bits or two bits are left of the last group
  obtain hmod | hmod | hmod : x.length % 3 = 0 ∨ x.length % 3 = 1 ∨ x.length % 3 = 2 := by omega
  · simp [hmod]
  · have hquad : (0 + (4 * (x.length / 3) + (1 + 1))) % 4 = 2 := by omega
    rw [hmod, if_neg one_ne_zero, hquad]
    by_cases hn : 2 ≤ n <;> simp [hn]
  · have hquad : (0 + (4 * (x.length / 3) + (2 + 1))) % 4 = 3 := by omega
    rw [hmod, if_neg two_ne_zero, hquad]
    by_cases hn : 0 < n <;> simp [hn]

/-- The lengths of data that the agent reads. -/
def Readable (len : ℕ) : Prop :=
  len % 3 = 0 ∨ len % 3 = 2 ∧ len / 54 % 4 ≠ 3 ∨ len % 3 = 1 ∧ len / 54 % 4 < 2

instance (len : ℕ) : Decidable (Readable len) := inferInstanceAs (Decidable (_ ∨ _))

-- the lengths that the agent asks for
example : Readable 5120 ∧ Readable 512 := by decide

/-- The agent has the bytes of the drive just for some lengths, as the text of the target has no
padding and the agent finds how much is missing from all of its bytes. -/
theorem decodeBase64_encode {mallocs : ℕ → Bool} {x : List (BitVec 8)} (h : x.length < 2 ^ 62)
    (hmalloc : mallocs (encodeOlen x.length) = true) :
    ∃ text, base64Encode mallocs x = .buffer text ∧
      decodeBase64 text = if Readable x.length then some x else none := by
  obtain ⟨text, htext, hlen, hspell⟩ := base64Encode_spells h hmalloc
  refine ⟨text, htext, ?_⟩
  rw [decodeBase64_eq, decodestring_spells hspell, hlen]
  have hread : (x.length % 3 = 0 ∨ x.length % 3 = 2 ∧ 0 < missing (encodedLen x.length) ∨
      x.length % 3 = 1 ∧ 2 ≤ missing (encodedLen x.length)) ↔ Readable x.length := by
    unfold Readable
    by_cases hmod : x.length % 3 = 0
    · exact iff_of_true (.inl hmod) (.inl hmod)
    · have hmissing : missing (encodedLen x.length) =
          if (x.length / 54 + 1) % 4 ≠ 0 then 4 - (x.length / 54 + 1) % 4 else 0 := by
        unfold missing encodedLen
        rw [if_neg hmod, show (4 * (x.length / 3) + x.length / 54 + 5) % 4 = (x.length / 54 + 1) % 4 by
          omega]
      rw [hmissing]
      split <;> omega
  simp only [hread]

/-- The answer with the health of a drive. -/
theorem decodeBase64_encode_smart :
    ∃ text, base64Encode (fun _ => true) (List.replicate 512 7#8) = .buffer text ∧
      decodeBase64 text =
        if Readable (List.replicate 512 7#8).length then some (List.replicate 512 7#8) else none :=
  decodeBase64_encode (by rw [List.length_replicate]; decide) rfl

end DssSdk.Ufm
