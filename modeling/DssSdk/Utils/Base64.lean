import DssSdk.Lib.Sextets

/-!
# Base64

`base64_encode` and `base64_decode`. A `size_t` has 64 bits, and `mallocs` tells for which sizes
`malloc` has memory. Where a text has its padding and its line feeds, the encoder writes zero bytes.

* `OutBuf`: a buffer with the bytes before `pos`; a write behind its end is a run that ends in
  `Ret.overrun`;
* `base64Encode_bounds`: no run ends so, and the check for an overflow of the size is exact;
* `base64Decode_standard`: any text with the characters of the standard encoding is decoded;
* `base64Decode_encode`: what becomes of the encoder's own text.
-/

namespace DssSdk.Utils

open Sextets

/-! ### The characters -/

/-- `base64_table`, with the terminator of the string. -/
def base64Table : List (BitVec 8) :=
  "ABCDEFGHIJKLMNOPQRSTUVWXYZabcdefghijklmnopqrstuvwxyz0123456789+/\x00".toList.map fun c =>
    BitVec.ofNat 8 c.toNat

/-- `base64_table[i]`. -/
def tableAt (i : BitVec 8) : BitVec 8 := base64Table.getD i.toNat 0

/-- The character `=`. -/
def padding : BitVec 8 := 0x3D#8

/-- `dtable`. -/
def dtable : BitVec 8 → BitVec 8 :=
  let table := (List.range (base64Table.length - 1)).foldl
    (fun t i => Function.update t (base64Table.getD i 0) (BitVec.ofNat 8 i)) fun _ => 0x80#8
  Function.update table padding 0

/-- The character of a sextet. -/
def char (v : BitVec 6) : BitVec 8 := tableAt (v.setWidth 8)

/-- The characters that the decoder counts. -/
def significant (c : BitVec 8) : Bool := dtable c != 0x80#8

theorem dtable_char : ∀ v : BitVec 6, dtable (char v) = v.setWidth 8 := by decide +kernel

theorem char_ne_padding : ∀ v : BitVec 6, char v ≠ padding := by decide +kernel

theorem dtable_padding : dtable padding = (0#6).setWidth 8 := by simp [dtable]

theorem dtable_char_ne (v : BitVec 6) : dtable (char v) ≠ 0x80#8 := by
  intro h
  have hnat := congrArg BitVec.toNat ((dtable_char v).symm.trans h)
  rw [BitVec.toNat_setWidth_of_le (by decide)] at hnat
  exact absurd (hnat ▸ v.isLt) (by decide)

theorem dtable_padding_ne : dtable padding ≠ 0x80#8 := by
  rw [dtable_padding]
  decide

@[simp] theorem significant_char (v : BitVec 6) : significant (char v) = true :=
  bne_iff_ne.2 (dtable_char_ne v)

@[simp] theorem significant_padding : significant padding = true :=
  bne_iff_ne.2 dtable_padding_ne

@[simp] theorem significant_zero : significant 0#8 = false := by decide +kernel

section

variable {a b c : BitVec 8}

theorem tableAt_first : tableAt (a >>> 2) = char (first a) := by
  refine congrArg tableAt (BitVec.eq_of_getLsbD_eq fun i hi => ?_)
  unfold first
  interval_cases i <;> simp

theorem tableAt_second : tableAt ((a &&& 0x03#8) <<< 4 ||| b >>> 4) = char (second a b) := by
  refine congrArg tableAt (BitVec.eq_of_getLsbD_eq fun i hi => ?_)
  unfold second
  interval_cases i <;> simp

theorem tableAt_second_zero : tableAt ((a &&& 0x03#8) <<< 4) = char (second a 0) := by
  rw [← tableAt_second]
  simp

theorem tableAt_third : tableAt ((b &&& 0x0F#8) <<< 2 ||| c >>> 6) = char (third b c) := by
  refine congrArg tableAt (BitVec.eq_of_getLsbD_eq fun i hi => ?_)
  unfold third
  interval_cases i <;> simp

theorem tableAt_third_zero : tableAt ((b &&& 0x0F#8) <<< 2) = char (third b 0) := by
  rw [← tableAt_third]
  simp

theorem tableAt_fourth : tableAt (c &&& 0x3F#8) = char (fourth c) := by
  refine congrArg tableAt (BitVec.eq_of_getLsbD_eq fun i hi => ?_)
  unfold fourth
  interval_cases i <;> simp

end

/-! ### Buffers -/

/-- A buffer of `olen` bytes, and those before `pos`. -/
structure OutBuf where
  olen : ℕ
  out : List (BitVec 8)
  inside : out.length ≤ olen

/-- What a call comes back with, or that it writes behind its buffer. -/
inductive Ret
  | overrun
  | null
  | buffer (out : List (BitVec 8))
  deriving DecidableEq

namespace OutBuf

/-- A new buffer. -/
def new (olen : ℕ) : OutBuf := ⟨olen, [], Nat.zero_le olen⟩

theorem length_append_le {n : ℕ} {out : List (BitVec 8)} {c : BitVec 8} (h : out.length < n) :
    (out ++ [c]).length ≤ n := by
  rwa [List.length_append]

/-- `*pos++ = c`. -/
def put (b : OutBuf) (c : BitVec 8) : Option OutBuf :=
  if h : b.out.length < b.olen then some ⟨b.olen, b.out ++ [c], length_append_le h⟩ else none

/-- One such assignment after another. -/
def puts (b : OutBuf) (cs : List (BitVec 8)) : Option OutBuf := cs.foldlM put b

@[simp] theorem out_new {n : ℕ} : (new n).out = [] := rfl

@[simp] theorem olen_new {n : ℕ} : (new n).olen = n := rfl

/-- The buffer `b'` is `b` with some more bytes. -/
structure Grows (b : OutBuf) (cs : List (BitVec 8)) (b' : OutBuf) : Prop where
  olen : b'.olen = b.olen
  out : b'.out = b.out ++ cs

variable {b b' b'' : OutBuf} {c : BitVec 8} {cs ds : List (BitVec 8)}

theorem Grows.refl : Grows b [] b := ⟨rfl, (List.append_nil _).symm⟩

theorem Grows.trans (h : Grows b cs b') (h' : Grows b' ds b'') : Grows b (cs ++ ds) b'' :=
  ⟨h'.olen.trans h.olen, by rw [h'.out, h.out, List.append_assoc]⟩

theorem Grows.length (h : Grows b cs b') : b'.out.length = b.out.length + cs.length := by
  rw [h.out, List.length_append]

theorem put_grows (h : b.out.length < b.olen) : ∃ b', b.put c = some b' ∧ Grows b [c] b' :=
  ⟨_, dif_pos h, rfl, rfl⟩

theorem puts_grows (cs : List (BitVec 8)) (h : b.out.length + cs.length ≤ b.olen) :
    ∃ b', b.puts cs = some b' ∧ Grows b cs b' := by
  induction cs generalizing b with
  | nil => exact ⟨b, rfl, Grows.refl⟩
  | cons c cs ih =>
    rw [List.length_cons] at h
    obtain ⟨b₁, hput, h₁⟩ := put_grows (b := b) (c := c) (by omega)
    obtain ⟨b₂, hputs, h₂⟩ := ih (b := b₁) (by
      rw [h₁.length, h₁.olen, List.length_singleton]
      omega)
    refine ⟨b₂, ?_, h₁.trans h₂⟩
    rw [puts, List.foldlM_cons, hput]
    exact hputs

end OutBuf

/-! ### The encoder -/

/-- The loop of `base64_encode` over three bytes at a time: the rest of the data, `line_len` and the
buffer. -/
def encodeLoop : List (BitVec 8) → ℕ → OutBuf → Option (List (BitVec 8) × ℕ × OutBuf)
  | a :: b :: c :: rest, lineLen, out => do
    let out ← out.puts [tableAt (a >>> 2), tableAt ((a &&& 0x03#8) <<< 4 ||| b >>> 4),
      tableAt ((b &&& 0x0F#8) <<< 2 ||| c >>> 6), tableAt (c &&& 0x3F#8)]
    if 72 ≤ lineLen + 4 then
      let out ← out.put 0#8
      encodeLoop rest 0 out
    else
      encodeLoop rest (lineLen + 4) out
  | rest, lineLen, out => some (rest, lineLen, out)

/-- The last one or two bytes. -/
def encodeLast : List (BitVec 8) → ℕ → OutBuf → Option (ℕ × OutBuf)
  | [], lineLen, out => some (lineLen, out)
  | [a], lineLen, out => do
    let out ← out.puts [tableAt (a >>> 2), tableAt ((a &&& 0x03#8) <<< 4), 0, 0]
    some (lineLen + 4, out)
  | a :: b :: _, lineLen, out => do
    let out ← out.puts [tableAt (a >>> 2), tableAt ((a &&& 0x03#8) <<< 4 ||| b >>> 4),
      tableAt ((b &&& 0x0F#8) <<< 2), 0]
    some (lineLen + 4, out)

/-- The end of the last line, and the terminator, which is not counted. -/
def encodeEnd (lineLen : ℕ) (out : OutBuf) : Option OutBuf := do
  let out ← if lineLen ≠ 0 then out.put 0#8 else some out
  let _ ← out.put 0#8
  some out

/-- `olen` of `base64_encode`. -/
def encodeOlen (len : ℕ) : ℕ :=
  let olen := (len * 4 % 2 ^ 64 / 3 + 4) % 2 ^ 64
  let olen := (olen + olen / 72) % 2 ^ 64
  (olen + 1) % 2 ^ 64

/-- `base64_encode`. -/
def base64Encode (mallocs : ℕ → Bool) (src : List (BitVec 8)) : Ret :=
  let olen := encodeOlen src.length
  if olen < src.length then .null
  else if !mallocs olen then .null
  else
    let out := do
      let (rest, lineLen, out) ← encodeLoop src 0 (.new olen)
      let (lineLen, out) ← encodeLast rest lineLen out
      encodeEnd lineLen out
    match out with
    | none => .overrun
    | some out => .buffer out.out

/-- How many bytes `base64_encode` counts. -/
def encodedLen (len : ℕ) : ℕ :=
  4 * (len / 3) + len / 54 +
    if len % 3 = 0 then if len / 3 % 18 = 0 then 0 else 1 else 5

/-- The characters of a text are those of some bytes. -/
def Spells (text x : List (BitVec 8)) : Prop := text.filter significant = (sextets x).map char

section

variable {x y text text' src : List (BitVec 8)} {a b c : BitVec 8} {out : OutBuf} {m : ℕ}

theorem Spells.append (hx : 3 ∣ x.length) (h : Spells text x) (h' : Spells text' y) :
    Spells (text ++ text') (x ++ y) := by
  unfold Spells at *
  rw [List.filter_append, h, h', sextets_append hx, List.map_append]

theorem spells_nil : Spells [] [] := rfl

theorem spells_zero : Spells [0#8] [] := by simp [Spells, sextets]

theorem spells_three : Spells [char (first a), char (second a b), char (third b c), char (fourth c)]
    [a, b, c] := by
  simp [Spells, sextets]

theorem spells_two : Spells [char (first a), char (second a b), char (third b 0), 0#8] [a, b] := by
  simp [Spells, sextets]

theorem spells_one : Spells [char (first a), char (second a 0), 0#8, 0#8] [a] := by
  simp [Spells, sextets]

theorem encodeLoop_grows (src : List (BitVec 8)) (m : ℕ) (out : OutBuf) (hm : m < 18)
    (h : out.out.length + (4 * (src.length / 3) + (m + src.length / 3) / 18) ≤ out.olen) :
    ∃ text out', encodeLoop src (4 * m) out =
        some (src.drop (3 * (src.length / 3)), 4 * ((m + src.length / 3) % 18), out') ∧
      out.Grows text out' ∧
      text.length = 4 * (src.length / 3) + (m + src.length / 3) / 18 ∧
      Spells text (src.take (3 * (src.length / 3))) := by
  induction src using sextets.induct generalizing m out with
  | case1 a b c src ih =>
    have hlen : (a :: b :: c :: src).length / 3 = src.length / 3 + 1 := by
      simp only [List.length_cons]
      omega
    rw [hlen] at h ⊢
    obtain ⟨out₁, hputs, h₁⟩ := OutBuf.puts_grows (b := out)
      [char (first a), char (second a b), char (third b c), char (fourth c)]
      (by simp only [List.length_cons, List.length_nil]; omega)
    have hsize := h₁.length
    simp only [List.length_cons, List.length_nil] at hsize
    rw [encodeLoop, tableAt_first, tableAt_second, tableAt_third, tableAt_fourth, hputs,
      Nat.mul_succ, List.drop_succ_cons, List.drop_succ_cons, List.drop_succ_cons,
      List.take_succ_cons, List.take_succ_cons, List.take_succ_cons]
    simp only [Option.bind_eq_bind, Option.bind_some]
    by_cases hfull : m = 17
    · subst hfull
      obtain ⟨out₂, hput, h₂⟩ := OutBuf.put_grows (b := out₁) (c := 0#8) (by rw [h₁.olen]; omega)
      obtain ⟨text, out', heq, h₃, htext, hspell⟩ := ih 0 out₂ (by decide) (by
        rw [h₂.length, h₂.olen, h₁.olen, hsize, List.length_singleton]
        omega)
      rw [if_pos (by decide), hput]
      refine ⟨_, out', ?_, (h₁.trans h₂).trans h₃, ?_, ?_⟩
      · rw [Option.bind_some, ← Nat.mul_zero 4, heq]
        congr 4
        omega
      · simp only [List.length_append, List.length_cons, List.length_nil, htext]
        omega
      · exact ((spells_three.append ⟨1, rfl⟩ spells_zero).append ⟨1, rfl⟩ hspell)
    · obtain ⟨text, out', heq, h₂, htext, hspell⟩ := ih (m + 1) out₁ (by omega) (by
        rw [h₁.olen, hsize]
        omega)
      rw [if_neg (by omega), ← Nat.mul_succ]
      refine ⟨_, out', ?_, h₁.trans h₂, ?_, spells_three.append ⟨1, rfl⟩ hspell⟩
      · rw [heq]
        congr 4
        omega
      · simp only [List.length_append, List.length_cons, List.length_nil, htext]
        omega
  | case2 a b =>
    refine ⟨[], out, by simp [encodeLoop, Nat.mod_eq_of_lt hm], .refl, ?_, by simpa using spells_nil⟩
    simp
    omega
  | case3 a =>
    refine ⟨[], out, by simp [encodeLoop, Nat.mod_eq_of_lt hm], .refl, ?_, by simpa using spells_nil⟩
    simp
    omega
  | case4 =>
    refine ⟨[], out, by simp [encodeLoop, Nat.mod_eq_of_lt hm], .refl, ?_, by simpa using spells_nil⟩
    simp
    omega

theorem encodeLast_grows (src : List (BitVec 8)) (m : ℕ) (out : OutBuf) (hsrc : src.length < 3)
    (h : out.out.length + (if src.length = 0 then 0 else 4) ≤ out.olen) :
    ∃ text out', encodeLast src m out = some (m + (if src.length = 0 then 0 else 4), out') ∧
      out.Grows text out' ∧ text.length = (if src.length = 0 then 0 else 4) ∧ Spells text src := by
  obtain _ | ⟨a, _ | ⟨b, _ | ⟨c, src⟩⟩⟩ := src
  · exact ⟨[], out, rfl, .refl, rfl, spells_nil⟩
  · obtain ⟨out', hputs, h'⟩ := OutBuf.puts_grows (b := out)
      [char (first a), char (second a 0), 0, 0] h
    rw [encodeLast, tableAt_first, tableAt_second_zero, hputs]
    exact ⟨_, out', rfl, h', rfl, spells_one⟩
  · obtain ⟨out', hputs, h'⟩ := OutBuf.puts_grows (b := out)
      [char (first a), char (second a b), char (third b 0), 0] h
    rw [encodeLast, tableAt_first, tableAt_second, tableAt_third_zero, hputs]
    exact ⟨_, out', rfl, h', rfl, spells_two⟩
  · simp only [List.length_cons] at hsrc
    omega

theorem encodeEnd_grows (m : ℕ) (out : OutBuf)
    (h : out.out.length + (if m = 0 then 0 else 1) < out.olen) :
    ∃ text out', encodeEnd m out = some out' ∧ out.Grows text out' ∧
      text.length = (if m = 0 then 0 else 1) ∧ Spells text [] := by
  by_cases hm : m = 0
  · rw [if_pos hm] at h
    obtain ⟨out', hput, -⟩ := OutBuf.put_grows (b := out) (c := 0#8) h
    refine ⟨[], out, ?_, .refl, by rw [if_pos hm]; rfl, spells_nil⟩
    simp [encodeEnd, hm, hput]
  · rw [if_neg hm] at h
    obtain ⟨out₁, hput, h₁⟩ := OutBuf.put_grows (b := out) (c := 0#8) (by omega)
    obtain ⟨out₂, hput', -⟩ := OutBuf.put_grows (b := out₁) (c := 0#8) (by
      rw [h₁.length, h₁.olen, List.length_singleton]
      exact h)
    refine ⟨[0], out₁, ?_, h₁, by rw [if_neg hm]; rfl, spells_zero⟩
    simp [encodeEnd, hm, hput, hput']

theorem encodeOlen_eq (len : ℕ) :
    encodeOlen len = len % 2 ^ 62 * 4 / 3 + 4 + (len % 2 ^ 62 * 4 / 3 + 4) / 72 + 1 := by
  have hproduct : len * 4 % 2 ^ 64 = len % 2 ^ 62 * 4 := by omega
  have hlt : len % 2 ^ 62 * 4 / 3 + 4 < 2 ^ 63 := by omega
  unfold encodeOlen
  rw [hproduct, Nat.mod_eq_of_lt (a := len % 2 ^ 62 * 4 / 3 + 4) (by omega)]
  generalize len % 2 ^ 62 * 4 / 3 + 4 = olen at hlt ⊢
  dsimp only
  omega

theorem encodeOlen_lt_iff {len : ℕ} (h : len < 2 ^ 64) : encodeOlen len < len ↔ 2 ^ 62 ≤ len := by
  rw [encodeOlen_eq]
  omega

theorem encodedLen_lt_encodeOlen {len : ℕ} (h : len < 2 ^ 62) : encodedLen len < encodeOlen len := by
  have hlines : len / 54 ≤ (len * 4 / 3 + 4) / 72 := by omega
  rw [encodeOlen_eq, Nat.mod_eq_of_lt h]
  unfold encodedLen
  split
  · split <;> omega
  · omega

theorem encodedLen_eq (len : ℕ) :
    encodedLen len = 4 * (len / 3) + (0 + len / 3) / 18 + (if len % 3 = 0 then 0 else 4) +
      if 4 * ((0 + len / 3) % 18) + (if len % 3 = 0 then 0 else 4) = 0 then 0 else 1 := by
  unfold encodedLen
  by_cases hmod : len % 3 = 0
  · rw [if_pos hmod, if_pos hmod]
    by_cases hline : len / 3 % 18 = 0
    · rw [if_pos hline, if_pos (by omega)]
      omega
    · rw [if_neg hline, if_neg (by omega)]
      omega
  · rw [if_neg hmod, if_neg hmod, if_neg (by omega)]
    omega

/-- What `base64_encode` comes back with. -/
theorem base64Encode_spells {mallocs : ℕ → Bool} {x : List (BitVec 8)} (h : x.length < 2 ^ 62)
    (hmalloc : mallocs (encodeOlen x.length) = true) :
    ∃ text, base64Encode mallocs x = .buffer text ∧ text.length = encodedLen x.length ∧
      Spells text x := by
  have hlen := encodedLen_lt_encodeOlen h
  have hparts := encodedLen_eq x.length
  have hover : ¬ encodeOlen x.length < x.length := by
    rw [encodeOlen_lt_iff (by omega)]
    omega
  have hrest : (x.drop (3 * (x.length / 3))).length = x.length % 3 := by
    rw [List.length_drop]
    omega
  have hwhole : 3 ∣ (x.take (3 * (x.length / 3))).length := by
    rw [List.length_take, Nat.min_eq_left (by omega)]
    exact Nat.dvd_mul_right 3 _
  obtain ⟨text₁, out₁, hloop, h₁, htext₁, hspell₁⟩ :=
    encodeLoop_grows x 0 (.new (encodeOlen x.length)) (by decide) (by
      rw [OutBuf.out_new, OutBuf.olen_new, List.length_nil]
      omega)
  have hlen₁ := h₁.length
  rw [OutBuf.out_new, List.length_nil, htext₁] at hlen₁
  obtain ⟨text₂, out₂, hlast, h₂, htext₂, hspell₂⟩ :=
    encodeLast_grows (x.drop (3 * (x.length / 3))) (4 * ((0 + x.length / 3) % 18)) out₁ (by omega) (by
      rw [hlen₁, h₁.olen, hrest, OutBuf.olen_new]
      omega)
  rw [hrest] at hlast htext₂
  have hlen₂ := h₂.length
  rw [htext₂] at hlen₂
  obtain ⟨text₃, out₃, hend, h₃, htext₃, hspell₃⟩ :=
    encodeEnd_grows (4 * ((0 + x.length / 3) % 18) + if x.length % 3 = 0 then 0 else 4) out₂ (by
      rw [hlen₂, h₂.olen, h₁.olen, OutBuf.olen_new]
      omega)
  have hout := ((h₁.trans h₂).trans h₃).out
  rw [OutBuf.out_new, List.nil_append] at hout
  refine ⟨text₁ ++ text₂ ++ text₃, ?_, ?_, ?_⟩
  · rw [← hout]
    unfold base64Encode
    rw [if_neg hover, hmalloc]
    rw [Nat.mul_zero] at hloop
    simp only [hloop, hlast, hend, Option.bind_eq_bind, Option.bind_some, Bool.not_true,
      Bool.false_eq_true, if_false]
  · simp only [List.length_append]
    omega
  · have hspell := hspell₁.append hwhole hspell₂
    rw [List.take_append_drop] at hspell
    unfold Spells at hspell hspell₃ ⊢
    rw [List.filter_append, hspell, hspell₃]
    exact List.append_nil _

end

/-! ### The decoder -/

/-- The second loop of `base64_decode`. -/
def decodeLoop : List (BitVec 8) → List (BitVec 8) → ℕ → OutBuf → Ret
  | [], _, _, out => .buffer out.out
  | c :: src, block, pad, out =>
    let tmp := dtable c
    if tmp = 0x80#8 then decodeLoop src block pad out
    else
      let pad := if c = padding then pad + 1 else pad
      match block ++ [tmp] with
      | [b₀, b₁, b₂, b₃] =>
        match out.puts [b₀ <<< 2 ||| b₁ >>> 4, b₁ <<< 4 ||| b₂ >>> 2, b₂ <<< 6 ||| b₃] with
        | none => .overrun
        | some out =>
          if pad = 0 then decodeLoop src [] pad out
          else if pad = 1 then .buffer out.out.dropLast
          else if pad = 2 then .buffer out.out.dropLast.dropLast
          else .null
      | block => decodeLoop src block pad out

/-- `base64_decode`. -/
def base64Decode (mallocs : ℕ → Bool) (src : List (BitVec 8)) : Ret :=
  let count := src.countP significant
  if count = 0 ∨ count % 4 ≠ 0 then .null
  else
    let olen := count / 4 * 3
    if !mallocs olen then .null
    else decodeLoop src [] 0 (.new olen)

example : base64Encode (fun _ => true) [0x4D#8, 0x61#8, 0x6E#8] =
    .buffer [0x54#8, 0x57#8, 0x46#8, 0x75#8, 0#8] := by decide +kernel

section

variable {x src : List (BitVec 8)} {block : List (BitVec 8)} {pad : ℕ} {out : OutBuf}

theorem decodeLoop_filter :
    decodeLoop (src.filter significant) block pad out = decodeLoop src block pad out := by
  induction src generalizing block pad out with
  | nil => rfl
  | cons c src ih =>
    by_cases hc : dtable c = 0x80#8
    · have hsig : significant c = false := by simp [significant, hc]
      rw [List.filter_cons_of_neg (by simp [hsig]), ih, decodeLoop]
      simp [hc]
    · have hsig : significant c = true := by simp [significant, hc]
      rw [List.filter_cons_of_pos hsig, decodeLoop, decodeLoop]
      simp [hc, ih]

/-- The standard encoding: padding makes whole groups of it. -/
def standard (x : List (BitVec 8)) : List (BitVec 8) :=
  (sextets x).map char ++ List.replicate ((3 - x.length % 3) % 3) padding

theorem standard_cons {a b c : BitVec 8} :
    standard (a :: b :: c :: x) = char (first a) :: char (second a b) :: char (third b c) ::
      char (fourth c) :: standard x := by
  have hmod : (x.length + 1 + 1 + 1) % 3 = x.length % 3 := by omega
  simp only [standard, sextets, List.map_cons, List.cons_append, List.length_cons, hmod]

theorem decodeLoop_part {c : BitVec 8} (hc : dtable c ≠ 0x80#8) (hblock : block.length < 3) :
    decodeLoop (c :: src) block pad out =
      decodeLoop src (block ++ [dtable c]) (if c = padding then pad + 1 else pad) out := by
  rw [decodeLoop, if_neg hc]
  obtain _ | ⟨b₀, _ | ⟨b₁, _ | ⟨b₂, block⟩⟩⟩ := block
  · rfl
  · rfl
  · rfl
  · simp only [List.length_cons] at hblock
    omega

theorem decodeLoop_char {v : BitVec 6} (hblock : block.length < 3) :
    decodeLoop (char v :: src) block pad out = decodeLoop src (block ++ [v.setWidth 8]) pad out := by
  rw [decodeLoop_part (dtable_char_ne v) hblock, dtable_char, if_neg (char_ne_padding v)]

theorem decodeLoop_padding (hblock : block.length < 3) :
    decodeLoop (padding :: src) block pad out =
      decodeLoop src (block ++ [(0#6).setWidth 8]) (pad + 1) out := by
  rw [decodeLoop_part dtable_padding_ne hblock, dtable_padding, if_pos rfl]

theorem decodeLoop_full (src : List (BitVec 8)) (b₀ b₁ b₂ : BitVec 8) (pad : ℕ) {c : BitVec 8}
    (hc : dtable c ≠ 0x80#8) (h : out.out.length + 3 ≤ out.olen) :
    ∃ out', out.Grows [b₀ <<< 2 ||| b₁ >>> 4, b₁ <<< 4 ||| b₂ >>> 2, b₂ <<< 6 ||| dtable c] out' ∧
      decodeLoop (c :: src) [b₀, b₁, b₂] pad out =
        (let pad := if c = padding then pad + 1 else pad
        if pad = 0 then decodeLoop src [] pad out'
        else if pad = 1 then .buffer out'.out.dropLast
        else if pad = 2 then .buffer out'.out.dropLast.dropLast
        else .null) := by
  obtain ⟨out', hputs, h'⟩ := OutBuf.puts_grows (b := out)
    [b₀ <<< 2 ||| b₁ >>> 4, b₁ <<< 4 ||| b₂ >>> 2, b₂ <<< 6 ||| dtable c] h
  refine ⟨out', h', ?_⟩
  rw [decodeLoop, if_neg hc]
  simp only [List.cons_append, List.nil_append, hputs]

theorem decodeLoop_group (src : List (BitVec 8)) (p q r s : BitVec 6)
    (h : out.out.length + 3 ≤ out.olen) :
    ∃ out', out.Grows [high p q, middle q r, low r s] out' ∧
      decodeLoop (char p :: char q :: char r :: char s :: src) [] 0 out = decodeLoop src [] 0 out' := by
  obtain ⟨out', h', hfull⟩ := decodeLoop_full src (p.setWidth 8) (q.setWidth 8) (r.setWidth 8)
    0 (dtable_char_ne s) h
  rw [dtable_char] at h'
  rw [if_neg (char_ne_padding s)] at hfull
  refine ⟨out', h', ?_⟩
  rw [decodeLoop_char (by decide), decodeLoop_char (by simp), decodeLoop_char (by simp)]
  exact hfull

theorem decodeLoop_padded_two (src : List (BitVec 8)) (p q r : BitVec 6)
    (h : out.out.length + 3 ≤ out.olen) :
    decodeLoop (char p :: char q :: char r :: padding :: src) [] 0 out =
      .buffer (out.out ++ [high p q, middle q r]) := by
  obtain ⟨out', h', hfull⟩ := decodeLoop_full src (p.setWidth 8) (q.setWidth 8) (r.setWidth 8)
    0 dtable_padding_ne h
  rw [if_pos rfl] at hfull
  rw [decodeLoop_char (by decide), decodeLoop_char (by simp), decodeLoop_char (by simp)]
  refine hfull.trans ?_
  simp [h'.out, high, middle]

theorem decodeLoop_padded_one (src : List (BitVec 8)) (p q : BitVec 6)
    (h : out.out.length + 3 ≤ out.olen) :
    decodeLoop (char p :: char q :: padding :: padding :: src) [] 0 out =
      .buffer (out.out ++ [high p q]) := by
  obtain ⟨out', h', hfull⟩ := decodeLoop_full src (p.setWidth 8) (q.setWidth 8)
    ((0#6).setWidth 8) 1 dtable_padding_ne h
  rw [if_pos rfl] at hfull
  rw [decodeLoop_char (by decide), decodeLoop_char (by simp), decodeLoop_padding (by simp)]
  refine hfull.trans ?_
  simp [h'.out, high]

theorem decodeLoop_standard (more : List (BitVec 8)) (out : OutBuf)
    (hmore : more = [] ∨ ¬ 3 ∣ x.length)
    (h : out.out.length + 3 * ((x.length + 2) / 3) ≤ out.olen) :
    decodeLoop (standard x ++ more) [] 0 out = .buffer (out.out ++ x) := by
  induction x using sextets.induct generalizing out with
  | case1 a b c x ih =>
    have hlen : ((a :: b :: c :: x).length + 2) / 3 = (x.length + 2) / 3 + 1 := by
      simp only [List.length_cons]
      omega
    have hthree : 3 ∣ (a :: b :: c :: x).length ↔ 3 ∣ x.length := by
      simp only [List.length_cons]
      omega
    rw [hthree] at hmore
    rw [hlen] at h
    obtain ⟨out', h', heq⟩ := decodeLoop_group (standard x ++ more) (first a) (second a b)
      (third b c) (fourth c) (show out.out.length + 3 ≤ out.olen by omega)
    rw [high_first, middle_second, low_third] at h'
    have hrest := ih out' hmore (by
      rw [h'.length, h'.olen]
      simp only [List.length_cons, List.length_nil]
      omega)
    rw [standard_cons]
    simp only [List.cons_append, heq, hrest, h'.out, List.append_assoc, List.nil_append]
  | case2 a b =>
    have hend := decodeLoop_padded_two more (first a) (second a b) (third b 0)
      (show out.out.length + 3 ≤ out.olen by simpa using h)
    simpa [standard, sextets] using hend
  | case3 a =>
    have hend := decodeLoop_padded_one more (first a) (second a 0)
      (show out.out.length + 3 ≤ out.olen by simpa using h)
    simpa [standard, sextets] using hend
  | case4 =>
    obtain rfl := hmore.resolve_right (by simp)
    simp [standard, sextets, decodeLoop]

theorem decodeLoop_ne_overrun (hblock : block.length < 4)
    (h : out.out.length + 3 * ((block.length + src.countP significant) / 4) ≤ out.olen) :
    decodeLoop src block pad out ≠ .overrun := by
  induction src generalizing block pad out with
  | nil => rintro ⟨⟩
  | cons c src ih =>
    by_cases hc : dtable c = 0x80#8
    · have hsig : significant c = false := by simp [significant, hc]
      rw [List.countP_cons_of_neg (by simp [hsig])] at h
      rw [decodeLoop, if_pos hc]
      exact ih hblock h
    · have hsig : significant c = true := by simp [significant, hc]
      rw [List.countP_cons_of_pos hsig] at h
      by_cases hfull : block.length < 3
      · rw [decodeLoop_part hc hfull]
        have hlen : (block ++ [dtable c]).length = block.length + 1 := List.length_append
        refine ih (by omega) ?_
        rw [hlen, Nat.add_assoc, Nat.add_comm 1]
        exact h
      · obtain ⟨b₀, b₁, b₂, rfl⟩ := List.length_eq_three.1 (show block.length = 3 by omega)
        simp only [List.length_cons, List.length_nil] at h
        obtain ⟨out', h', hfull⟩ := decodeLoop_full src b₀ b₁ b₂ pad hc
          (show out.out.length + 3 ≤ out.olen by omega)
        have hrest : decodeLoop src [] 0 out' ≠ .overrun := by
          refine ih (by simp) ?_
          rw [h'.length, h'.olen]
          simp only [List.length_cons, List.length_nil]
          omega
        rw [hfull]
        dsimp only
        generalize (if c = padding then pad + 1 else pad) = pad'
        by_cases hzero : pad' = 0
        · rwa [if_pos hzero, hzero]
        · rw [if_neg hzero]
          split
          · rintro ⟨⟩
          · split <;> rintro ⟨⟩

end

/-! ### Both of them -/

section

variable {mallocs : ℕ → Bool} {x text : List (BitVec 8)}

theorem base64Decode_ne_overrun : base64Decode mallocs text ≠ .overrun := by
  unfold base64Decode
  dsimp only
  split
  · rintro ⟨⟩
  · split
    · rintro ⟨⟩
    · refine decodeLoop_ne_overrun (by decide) ?_
      simp only [List.length_nil, OutBuf.out_new, OutBuf.olen_new]
      omega

/-- Neither function writes behind its buffer, whatever it gets. The encoder refuses just the data for
which there is no memory or whose size overflows. -/
theorem base64Encode_bounds (mallocs : ℕ → Bool) (h : x.length < 2 ^ 64) :
    base64Encode mallocs x ≠ .overrun ∧
      (base64Encode mallocs x = .null ↔
        2 ^ 62 ≤ x.length ∨ mallocs (encodeOlen x.length) = false) ∧
      ∀ text, base64Decode mallocs text ≠ .overrun := by
  have hnull : 2 ^ 62 ≤ x.length ∨ mallocs (encodeOlen x.length) = false →
      base64Encode mallocs x = .null := by
    intro hor
    unfold base64Encode
    dsimp only
    by_cases hover : encodeOlen x.length < x.length
    · rw [if_pos hover]
    · have hmalloc : mallocs (encodeOlen x.length) = false :=
        hor.resolve_left fun hlarge => hover ((encodeOlen_lt_iff h).2 hlarge)
      rw [if_neg hover, hmalloc]
      rfl
  refine ⟨?_, ⟨fun heq => ?_, hnull⟩, fun _ => base64Decode_ne_overrun⟩
  all_goals
    by_cases hor : 2 ^ 62 ≤ x.length ∨ mallocs (encodeOlen x.length) = false
  · rw [hnull hor]
    rintro ⟨⟩
  · obtain ⟨text, heq, -⟩ := base64Encode_spells (x := x) (by omega)
      (show mallocs (encodeOlen x.length) = true by simpa using fun h => hor (.inr h))
    rw [heq]
    rintro ⟨⟩
  · exact hor
  · obtain ⟨text, htext, -⟩ := base64Encode_spells (x := x) (by omega)
      (show mallocs (encodeOlen x.length) = true by simpa using fun h => hor (.inr h))
    rw [htext] at heq
    cases heq

theorem length_standard (x : List (BitVec 8)) : (standard x).length = 4 * ((x.length + 2) / 3) := by
  rw [standard, List.length_append, List.length_map, length_sextets, List.length_replicate]
  split <;> omega

theorem base64Decode_eq_loop (hpos : 0 < text.countP significant)
    (hfour : 4 ∣ text.countP significant)
    (hmalloc : mallocs (text.countP significant / 4 * 3) = true) :
    base64Decode mallocs text =
      decodeLoop (text.filter significant) [] 0 (.new (text.countP significant / 4 * 3)) := by
  unfold base64Decode
  dsimp only
  rw [if_neg (by omega), hmalloc, decodeLoop_filter]
  rfl

/-- The standard encoding is decoded, whatever other characters stand between. After its padding may
stand anything, if its characters are counted in fours. -/
theorem base64Decode_standard {more : List (BitVec 8)} (hx : x ≠ [])
    (htext : text.filter significant = standard x ++ more)
    (hmore : more = [] ∨ 4 ∣ more.length ∧ ¬ 3 ∣ x.length)
    (hmalloc : mallocs (text.countP significant / 4 * 3) = true) :
    base64Decode mallocs text = .buffer x := by
  have hcount : text.countP significant = 4 * ((x.length + 2) / 3) + more.length := by
    rw [List.countP_eq_length_filter, htext, List.length_append, length_standard]
  have hpos := List.length_pos_of_ne_nil hx
  have hfour : 4 ∣ more.length := hmore.elim (fun hnil => by rw [hnil]; exact ⟨0, rfl⟩) And.left
  rw [base64Decode_eq_loop (by omega) (by omega) hmalloc, htext,
    decodeLoop_standard _ _ (hmore.imp id And.right)]
  · rfl
  · rw [OutBuf.out_new, OutBuf.olen_new, List.length_nil]
    omega

/-- A text of four characters and one that is not counted, with three more and padding behind. -/
theorem base64Decode_standard_line :
    base64Decode (fun _ => true)
        [0x54#8, 0x57#8, 0x0A#8, 0x46#8, 0x75#8, 0x54#8, 0x51#8, 0x3D#8, 0x3D#8] =
      .buffer [0x4D#8, 0x61#8, 0x6E#8, 0x4D#8] :=
  base64Decode_standard (by decide) (by decide +kernel) (.inl rfl) rfl

/-- What becomes of the text of the encoder, whose padding is not padding. -/
theorem base64Decode_encode (h : x.length < 2 ^ 62) (hmalloc : ∀ n, mallocs n = true) :
    ∃ text, base64Encode mallocs x = .buffer text ∧
      base64Decode mallocs text = if x ≠ [] ∧ 3 ∣ x.length then .buffer x else .null := by
  obtain ⟨text, htext, -, hspell⟩ := base64Encode_spells h (hmalloc _)
  refine ⟨text, htext, ?_⟩
  by_cases hwhole : x ≠ [] ∧ 3 ∣ x.length
  · rw [if_pos hwhole]
    have hstandard : text.filter significant = standard x := by
      rw [hspell, standard, Nat.mod_eq_zero_of_dvd hwhole.2]
      simp
    have hcount : text.countP significant = 4 * ((x.length + 2) / 3) := by
      rw [List.countP_eq_length_filter, hstandard, length_standard]
    have hpos := List.length_pos_of_ne_nil hwhole.1
    have hloop := decodeLoop_standard [] (.new (text.countP significant / 4 * 3)) (.inl rfl) (x := x)
      (by
        rw [OutBuf.out_new, OutBuf.olen_new, List.length_nil]
        omega)
    rw [List.append_nil] at hloop
    rw [base64Decode_eq_loop (by omega) (by omega) (hmalloc _), hstandard, hloop]
    rfl
  · have hcount : text.countP significant = (sextets x).length := by
      rw [List.countP_eq_length_filter, hspell, List.length_map]
    rw [if_neg hwhole]
    unfold base64Decode
    dsimp only
    rw [if_pos]
    rw [hcount, length_sextets]
    by_cases hx : x = []
    · exact .inl (by rw [hx]; rfl)
    · have hmod : x.length % 3 ≠ 0 := fun hmod => hwhole ⟨hx, Nat.dvd_of_mod_eq_zero hmod⟩
      rw [if_neg hmod]
      omega

/-- The bound of a length, and three bytes through both functions. -/
theorem base64_three_bytes :
    (base64Encode (fun _ => true) [0x4D#8, 0x61#8, 0x6E#8] ≠ .overrun ∧
      (base64Encode (fun _ => true) [0x4D#8, 0x61#8, 0x6E#8] = .null ↔
        2 ^ 62 ≤ [0x4D#8, 0x61#8, 0x6E#8].length ∨
          (fun _ => true) (encodeOlen [0x4D#8, 0x61#8, 0x6E#8].length) = false) ∧
      ∀ text, base64Decode (fun _ => true) text ≠ .overrun) :=
  base64Encode_bounds (fun _ => true) (by decide)

theorem base64Decode_encode_three :
    ∃ text, base64Encode (fun _ => true) [0x4D#8, 0x61#8, 0x6E#8] = .buffer text ∧
      base64Decode (fun _ => true) text =
        if [0x4D#8, 0x61#8, 0x6E#8] ≠ [] ∧ 3 ∣ [0x4D#8, 0x61#8, 0x6E#8].length then
          .buffer [0x4D#8, 0x61#8, 0x6E#8]
        else .null :=
  base64Decode_encode (by decide) fun _ => rfl

end

end DssSdk.Utils
