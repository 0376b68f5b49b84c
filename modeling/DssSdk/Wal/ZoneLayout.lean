import DssSdk.Lib.Run
import DssSdk.Wal.RecordCodec
import Mathlib.Order.CompletePartialOrder

/-!
# The zones of a log device

`wal_zone_buffer.cpp` and `wal_log.cpp`: the space of a log device behind its super block is given to
zones of two buffers each, and the recovery finds the buffers of a zone from its space.

* `LogDevice`: the super block and the zones; `LogBuffer`: the header of a buffer;
* `walBufferCreate`, `walLogZoneCreate`, `walZoneSwitchBuffer`: the functions of these names;
* `walLogRecoverZoneBuffer`: where the recovery reads the two headers;
* `LayoutOk`, `Ordered`: the super block and the buffers are apart and found again, and the log buffer
  has the larger sequence; `Fits`: the events that keep both;
* `layout_of_run`: they hold in every run of such events.

Signed numbers wrap. A device is a block device here; `time` writes eight bytes, of which the upper
half goes to the `reserved` field of the header that nothing reads.
-/

namespace DssSdk.Wal.ZoneLayout

open Run
open RecordCodec (int32)

/-- `MB`. -/
def mb : ℤ := 2 ^ 20

/-- `MAX_ZONE`. -/
def maxZone : ℕ := 256

/-- `sizeof(wal_sb_t)`. -/
def sbSize : ℤ := 4096

/-- `sb->offset` after `wal_log_sb_init`. -/
def sbOffset : ℤ := sbSize / mb + 1

/-- `WAL_BUFFER_ROLE_LOG`. -/
def roleLog : ℕ := 0

/-- `WAL_BUFFER_ROLE_FLUSH`. -/
def roleFlush : ℕ := 1

/-- `wal_buffer_hdr_t`. -/
structure LogBuffer where
  startAddr : ℤ
  endAddr : ℤ
  currPos : ℤ
  role : ℕ
  sequence : ℤ
  deriving DecidableEq, Repr

/-- `wal_zone_t`. -/
structure LogZone where
  zoneId : ℕ
  log : LogBuffer
  flush : LogBuffer
  deriving DecidableEq, Repr

/-- `wal_space_t`. -/
structure WalSpace where
  addrMb : ℤ
  sizeMb : ℤ
  deriving DecidableEq, Repr

/-- `wal_device_info_t` with its super block: the size, the first `nr_zone` entries of `zone_space`, and
the zones. -/
structure LogDevice where
  sizeMb : ℤ
  zoneSpace : List WalSpace
  zones : List LogZone
  deriving DecidableEq, Repr

/-- `& WAL_ALIGN_MASK`. -/
def alignMask (x : ℤ) : ℤ := x / walAlign * walAlign

/-- `wal_buffer_create`. -/
def walBufferCreate (startPosMb : ℤ) (role : ℕ) (szMb : ℤ) : LogBuffer where
  startAddr := startPosMb * mb
  endAddr := int32 (startPosMb + szMb) * mb - walAlign
  currPos := alignMask (startPosMb * mb + bufferHdrSz + walAlign - 1)
  role := role
  sequence := 0

/-- The size of a zone, which is twice the size of the cache. -/
def zoneSize (sizeMb : ℤ) : ℤ := int32 (sizeMb + sizeMb)

/-- Where the next zone starts. -/
def LogDevice.offset (dev : LogDevice) : ℤ :=
  match dev.zoneSpace.getLast? with
  | none => sbOffset
  | some space => int32 (space.addrMb + space.sizeMb)

/-- A zone of this size is accepted. -/
def Accepts (dev : LogDevice) (sizeMb : ℤ) : Prop :=
  dev.zoneSpace.length < maxZone ∧ int32 (dev.offset + zoneSize sizeMb) ≤ int32 (dev.sizeMb - 1)

instance (dev : LogDevice) (sizeMb : ℤ) : Decidable (Accepts dev sizeMb) :=
  inferInstanceAs (Decidable (_ ∧ _))

/-- The zone that is created, at a time of the clock. -/
def newZone (dev : LogDevice) (sizeMb clock : ℤ) : LogZone where
  zoneId := dev.zoneSpace.length
  log := { walBufferCreate dev.offset roleLog ((zoneSize sizeMb).tdiv 2) with
    sequence := int32 (int32 clock + 1) }
  flush := { walBufferCreate (int32 (dev.offset + (zoneSize sizeMb).tdiv 2)) roleFlush
      ((zoneSize sizeMb).tdiv 2) with
    sequence := int32 clock }

/-- `wal_log_zone_create`; `none` is the null pointer. -/
def walLogZoneCreate (dev : LogDevice) (sizeMb clock : ℤ) : Option LogDevice :=
  if Accepts dev sizeMb then
    some { dev with
      zoneSpace := dev.zoneSpace ++ [⟨dev.offset, zoneSize sizeMb⟩]
      zones := dev.zones ++ [newZone dev sizeMb clock] }
  else none

/-- `role &= ~WAL_BUFFER_ROLE_BIT; role |= ...`. -/
def setRole (role bit : ℕ) : ℕ := role / 2 * 2 + bit

/-- `wal_zone_switch_buffer`. -/
def walZoneSwitchBuffer (clock : ℤ) (zone : LogZone) : LogZone :=
  { zone with
    log := { zone.flush with
      role := setRole zone.flush.role roleLog
      currPos := alignMask (zone.flush.startAddr + bufferHdrSz + walAlign - 1)
      sequence :=
        if int32 clock ≤ zone.log.sequence then int32 (zone.log.sequence + 1) else int32 clock }
    flush := { zone.log with role := setRole zone.log.role roleFlush } }

/-- The positions at which `wal_log_recover_zones` and `wal_log_recover_zone_buffer` read the headers of
a zone. -/
def walLogRecoverZoneBuffer (space : WalSpace) : ℤ × ℤ :=
  (space.addrMb * mb, space.addrMb * mb + int32 (space.sizeMb.tdiv 2 * mb))

/-! ### Runs -/

/-- A zone is created, or one is switched, at a time of the clock. -/
inductive LayoutEvent
  | create (sizeMb clock : ℤ)
  | switch (zone : ℕ) (clock : ℤ)
  deriving DecidableEq, Repr

/-- One event. A zone that is not accepted leaves the device alone. -/
def layoutStep (dev : LogDevice) : LayoutEvent → Option LogDevice
  | .create sizeMb clock => some ((walLogZoneCreate dev sizeMb clock).getD dev)
  | .switch zone clock =>
      if zone < dev.zones.length then
        some { dev with zones := dev.zones.modify zone (walZoneSwitchBuffer clock) }
      else none

/-- The buffers of zones. -/
def buffersOf (zones : List LogZone) : List LogBuffer := zones.flatMap fun z => [z.log, z.flush]

/-- The bytes of a buffer: its header, and what is behind it up to `end_addr`. -/
def LogBuffer.stop (b : LogBuffer) : ℤ := max (b.startAddr + bufferHdrSz) (b.endAddr + walAlign)

/-- The bytes of a buffer. -/
def LogBuffer.bytes (b : LogBuffer) : Set ℤ := Set.Ico b.startAddr b.stop

/-- The super block and the buffers are in the device and have no byte in common, and the recovery reads
the headers of a zone where its two buffers start. -/
structure LayoutOk (dev : LogDevice) : Prop where
  sbInside : sbSize ≤ dev.sizeMb * mb
  inside : ∀ b ∈ buffersOf dev.zones, 0 ≤ b.startAddr ∧ b.stop ≤ dev.sizeMb * mb
  sbApart : ∀ b ∈ buffersOf dev.zones, Disjoint (Set.Ico 0 sbSize) b.bytes
  apart : (buffersOf dev.zones).Pairwise fun b c => Disjoint b.bytes c.bytes
  found : List.Forall₂ (fun space z =>
    walLogRecoverZoneBuffer space = (z.log.startAddr, z.flush.startAddr) ∨
      walLogRecoverZoneBuffer space = (z.flush.startAddr, z.log.startAddr)) dev.zoneSpace dev.zones

/-- The log buffer of every zone has the larger sequence. -/
def Ordered (dev : LogDevice) : Prop := ∀ z ∈ dev.zones, z.flush.sequence < z.log.sequence

/-- A zone that is accepted has 2 to 4094 MB and is created at a time that is not the largest number, and
a zone is not switched when the sequence of its log buffer is. -/
def Fits (dev : LogDevice) : LayoutEvent → Prop
  | .create sizeMb clock =>
      Accepts dev sizeMb → 1 ≤ zoneSize sizeMb ∧ zoneSize sizeMb < 4096 ∧ int32 clock ≠ 2 ^ 31 - 1
  | .switch zone _ => ∀ z ∈ dev.zones[zone]?, z.log.sequence ≠ 2 ^ 31 - 1

/-- A zone that is switched exists. -/
def LegalLayout (dev : LogDevice) : LayoutEvent → Prop
  | .create _ _ => True
  | .switch zone _ => zone < dev.zones.length

/-! ### Numbers of 32 bits -/

theorem int32_spec (x : ℤ) : (∃ k, int32 x = x + k * 2 ^ 32) ∧ -2 ^ 31 ≤ int32 x ∧ int32 x < 2 ^ 31 := by
  have hdef : int32 x = if x % 2 ^ 32 < 2 ^ 31 then x % 2 ^ 32 else x % 2 ^ 32 - 2 ^ 32 := rfl
  have hdiv := Int.emod_add_mul_ediv x (2 ^ 32)
  have hnonneg := Int.emod_nonneg x (show (2 : ℤ) ^ 32 ≠ 0 by norm_num)
  have hlt := Int.emod_lt_of_pos x (show (0 : ℤ) < 2 ^ 32 by norm_num)
  rw [hdef]
  split_ifs
  · exact ⟨⟨-(x / 2 ^ 32), by omega⟩, by omega, by omega⟩
  · exact ⟨⟨-(x / 2 ^ 32) - 1, by omega⟩, by omega, by omega⟩

theorem int32_of_range {x : ℤ} (h : -2 ^ 31 ≤ x) (h' : x < 2 ^ 31) : int32 x = x := by
  obtain ⟨⟨k, hk⟩, hlow, hhigh⟩ := int32_spec x
  omega

theorem zoneSize_even (sizeMb : ℤ) : ∃ h, zoneSize sizeMb = 2 * h ∧ -2 ^ 30 ≤ h ∧ h < 2 ^ 30 := by
  obtain ⟨⟨k, hk⟩, hlow, hhigh⟩ := int32_spec (sizeMb + sizeMb)
  rw [zoneSize]
  exact ⟨sizeMb + k * 2 ^ 31, by omega, by omega, by omega⟩

theorem tdiv_two (h : ℤ) : (2 * h).tdiv 2 = h := Int.mul_tdiv_cancel_left h (by norm_num)

/-! ### The spaces of the zones -/

/-- The spaces follow each other from `o` to `e`, each with a multiple of 2 MB below 4096. -/
def Chain : ℤ → List WalSpace → ℤ → Prop
  | o, [], e => e = o
  | o, sp :: sps, e => sp.addrMb = o ∧ (∃ h, sp.sizeMb = 2 * h ∧ 1 ≤ h ∧ h < 2048) ∧
      Chain (o + sp.sizeMb) sps e

theorem Chain.snoc {o e : ℤ} {sps : List WalSpace} {sp : WalSpace} (hc : Chain o sps e)
    (ha : sp.addrMb = e) (hs : ∃ h, sp.sizeMb = 2 * h ∧ 1 ≤ h ∧ h < 2048) :
    Chain o (sps ++ [sp]) (e + sp.sizeMb) := by
  induction sps generalizing o with
  | nil =>
    obtain rfl : e = o := hc
    exact ⟨ha, hs, rfl⟩
  | cons x sps ih => exact ⟨hc.1, hc.2.1, ih hc.2.2⟩

theorem Chain.bounds {o e : ℤ} {sps : List WalSpace} (hc : Chain o sps e) :
    o ≤ e ∧ e ≤ o + 4094 * sps.length := by
  induction sps generalizing o with
  | nil =>
    obtain rfl : e = o := hc
    simp
  | cons x sps ih =>
    obtain ⟨-, ⟨h, hs, hlow, hhigh⟩, hrest⟩ := hc
    obtain ⟨h1, h2⟩ := ih hrest
    rw [List.length_cons]
    push_cast
    omega

/-- The buffer of the MBs from `a` to `e`. -/
def IsBuffer (b : LogBuffer) (a e : ℤ) : Prop :=
  b.startAddr = a * mb ∧ b.endAddr = e * mb - walAlign

/-- The two halves of a space are the buffers of its zone. -/
def Placed (sp : WalSpace) (z : LogZone) : Prop :=
  let h := sp.sizeMb.tdiv 2
  IsBuffer z.log sp.addrMb (sp.addrMb + h) ∧ IsBuffer z.flush (sp.addrMb + h) (sp.addrMb + sp.sizeMb) ∨
    IsBuffer z.flush sp.addrMb (sp.addrMb + h) ∧ IsBuffer z.log (sp.addrMb + h) (sp.addrMb + sp.sizeMb)

theorem IsBuffer.bytes {b : LogBuffer} {a e : ℤ} (hb : IsBuffer b a e) (hlt : a < e) :
    b.stop = e * mb ∧ b.bytes = Set.Ico (a * mb) (e * mb) := by
  have hstop : b.stop = e * mb := by
    rw [LogBuffer.stop, hb.1, hb.2, show (bufferHdrSz : ℤ) = 1024 from rfl,
      show (walAlign : ℤ) = 1024 from rfl, show mb = 1048576 from rfl]
    omega
  exact ⟨hstop, by rw [LogBuffer.bytes, hstop, hb.1]⟩

theorem IsBuffer.disjoint {b c : LogBuffer} {a e a' e' : ℤ} (hb : IsBuffer b a e) (hlt : a < e)
    (hc : IsBuffer c a' e') (hlt' : a' < e') (h : e ≤ a') : Disjoint b.bytes c.bytes := by
  rw [(hb.bytes hlt).2, (hc.bytes hlt').2, Set.Ico_disjoint_Ico]
  have hmb : (0 : ℤ) < mb := by norm_num [mb]
  have h1 : e * mb ≤ a' * mb := Int.mul_le_mul_of_nonneg_right h hmb.le
  exact (min_le_left _ _).trans (h1.trans (le_max_right _ _))

/-- The buffers of the zones lie in their spaces, apart from each other, and leave no gap. -/
theorem Chain.buffers {o e : ℤ} {sps : List WalSpace} {zs : List LogZone} (hc : Chain o sps e)
    (hp : List.Forall₂ Placed sps zs) :
    (∀ b ∈ buffersOf zs, ∃ a a', IsBuffer b a a' ∧ o ≤ a ∧ a < a' ∧ a' ≤ e) ∧
      ((buffersOf zs).Pairwise fun b c => Disjoint b.bytes c.bytes) ∧
      ∀ m, o ≤ m → m < e → ∃ b ∈ buffersOf zs, ∃ a a', IsBuffer b a a' ∧ a ≤ m ∧ m < a' := by
  induction hp generalizing o with
  | nil =>
    obtain rfl : e = o := hc
    refine ⟨by rintro b ⟨⟩, List.Pairwise.nil, fun m h1 h2 => ?_⟩
    omega
  | @cons sp z sps zs hz hp ih =>
    obtain ⟨ha, ⟨h, hs, hlow, hhigh⟩, hrest⟩ := hc
    obtain ⟨hin, hpair, hcover⟩ := ih hrest
    have hle := hrest.bounds.1
    rw [Placed] at hz
    simp only [hs, tdiv_two, ha] at hz hle hin hcover
    -- the first half and the second half of the space, in the order of the zone's buffers
    obtain ⟨b₁, b₂, hb₁, hb₂, hmem, hsplit⟩ : ∃ b₁ b₂, IsBuffer b₁ o (o + h) ∧
        IsBuffer b₂ (o + h) (o + 2 * h) ∧ (∀ b, b = z.log ∨ b = z.flush ↔ b = b₁ ∨ b = b₂) ∧
        Disjoint z.log.bytes z.flush.bytes := by
      rcases hz with ⟨h1, h2⟩ | ⟨h1, h2⟩
      · exact ⟨z.log, z.flush, h1, h2, fun _ => Iff.rfl,
          h1.disjoint (by omega) h2 (by omega) le_rfl⟩
      · exact ⟨z.flush, z.log, h1, h2, fun _ => Or.comm,
          (h1.disjoint (by omega) h2 (by omega) le_rfl).symm⟩
    have hbufs : ∀ b, b ∈ buffersOf (z :: zs) ↔ (b = b₁ ∨ b = b₂) ∨ b ∈ buffersOf zs := by
      intro b
      rw [← hmem b, buffersOf, List.flatMap_cons, List.mem_append]
      simp [buffersOf]
    have hfirst : ∀ b, b = b₁ ∨ b = b₂ →
        ∃ a a', IsBuffer b a a' ∧ o ≤ a ∧ a < a' ∧ a' ≤ o + 2 * h := by
      rintro b (rfl | rfl)
      · exact ⟨_, _, hb₁, by omega, by omega, by omega⟩
      · exact ⟨_, _, hb₂, by omega, by omega, by omega⟩
    refine ⟨?_, ?_, ?_⟩
    · intro b hb
      rcases (hbufs b).1 hb with hb | hb
      · obtain ⟨a, a', hab, h1, h2, h3⟩ := hfirst b hb
        exact ⟨a, a', hab, h1, h2, by omega⟩
      · obtain ⟨a, a', hab, h1, h2, h3⟩ := hin b hb
        exact ⟨a, a', hab, by omega, h2, h3⟩
    · have hlater : ∀ b, b = z.log ∨ b = z.flush → ∀ c ∈ buffersOf zs, Disjoint b.bytes c.bytes := by
        intro b hb c hc
        obtain ⟨a, a', hab, -, h2, h3⟩ := hfirst b ((hmem b).1 hb)
        obtain ⟨x, x', hcx, h4, h5, -⟩ := hin c hc
        exact hab.disjoint h2 hcx h5 (by omega)
      show (z.log :: z.flush :: buffersOf zs).Pairwise _
      refine List.pairwise_cons.2 ⟨?_, List.pairwise_cons.2 ⟨hlater _ (Or.inr rfl), hpair⟩⟩
      intro c hc
      rcases List.mem_cons.1 hc with rfl | hc
      · exact hsplit
      · exact hlater _ (Or.inl rfl) c hc
    · intro m h1 h2
      by_cases hm : m < o + 2 * h
      · by_cases hm' : m < o + h
        · exact ⟨b₁, (hbufs _).2 (Or.inl (Or.inl rfl)), _, _, hb₁, h1, hm'⟩
        · exact ⟨b₂, (hbufs _).2 (Or.inl (Or.inr rfl)), _, _, hb₂, by omega, hm⟩
      · obtain ⟨b, hb, a, a', hab, h3, h4⟩ := hcover m (by omega) h2
        exact ⟨b, (hbufs b).2 (Or.inr hb), a, a', hab, h3, h4⟩

/-! ### The invariant -/

/-- The invariant: the spaces follow each other behind the super block and end in the device, the
buffers are their halves, and the sequences are 32 bits wide and ordered. -/
structure LayoutInv (dev : LogDevice) : Prop where
  size : 0 < dev.sizeMb ∧ dev.sizeMb < 2 ^ 31
  chain : Chain sbOffset dev.zoneSpace dev.offset
  length : dev.zoneSpace.length ≤ maxZone
  inside : dev.zoneSpace ≠ [] → dev.offset < dev.sizeMb
  placed : List.Forall₂ Placed dev.zoneSpace dev.zones
  ordered : Ordered dev
  range : ∀ z ∈ dev.zones, -2 ^ 31 ≤ z.log.sequence ∧ z.log.sequence < 2 ^ 31

theorem layoutInv_init {sizeMb : ℤ} (h : 0 < sizeMb) (h' : sizeMb < 2 ^ 31) :
    LayoutInv ⟨sizeMb, [], []⟩ :=
  ⟨⟨h, h'⟩, rfl, Nat.zero_le _, fun hne => absurd rfl hne, List.Forall₂.nil, by rintro z ⟨⟩,
    by rintro z ⟨⟩⟩

/-- The recovery finds the buffers of a space of at most 4094 MB. -/
theorem Placed.found {sp : WalSpace} {z : LogZone} (hp : Placed sp z)
    (hs : ∃ h, sp.sizeMb = 2 * h ∧ 1 ≤ h ∧ h < 2048) :
    walLogRecoverZoneBuffer sp = (z.log.startAddr, z.flush.startAddr) ∨
      walLogRecoverZoneBuffer sp = (z.flush.startAddr, z.log.startAddr) := by
  obtain ⟨h, hsize, hlow, hhigh⟩ := hs
  have hrec : walLogRecoverZoneBuffer sp = (sp.addrMb * mb, (sp.addrMb + h) * mb) := by
    rw [walLogRecoverZoneBuffer, hsize, tdiv_two]
    have hmb : mb = 1048576 := rfl
    rw [int32_of_range (by rw [hmb]; omega) (by rw [hmb]; omega), Int.add_mul]
  rw [Placed, hsize] at hp
  simp only [tdiv_two] at hp
  rw [hrec]
  rcases hp with ⟨h1, h2⟩ | ⟨h1, h2⟩
  · exact Or.inl (by rw [h1.1, h2.1])
  · exact Or.inr (by rw [h1.1, h2.1])

theorem Chain.found {o e : ℤ} {sps : List WalSpace} {zs : List LogZone} (hc : Chain o sps e)
    (hp : List.Forall₂ Placed sps zs) :
    List.Forall₂ (fun space z =>
      walLogRecoverZoneBuffer space = (z.log.startAddr, z.flush.startAddr) ∨
        walLogRecoverZoneBuffer space = (z.flush.startAddr, z.log.startAddr)) sps zs := by
  induction hp generalizing o with
  | nil => exact List.Forall₂.nil
  | cons hz hp ih => exact List.Forall₂.cons (hz.found hc.2.1) (ih hc.2.2)

theorem LayoutInv.layoutOk {dev : LogDevice} (h : LayoutInv dev) : LayoutOk dev := by
  have hmb : mb = 1048576 := rfl
  obtain ⟨hin, hpair, -⟩ := h.chain.buffers h.placed
  have hsize := h.size
  have hoff : sbOffset = 1 := rfl
  have hbound : ∀ b ∈ buffersOf dev.zones, ∃ a a', IsBuffer b a a' ∧ 1 ≤ a ∧ a < a' ∧ a' < dev.sizeMb := by
    intro b hb
    obtain ⟨a, a', hab, h1, h2, h3⟩ := hin b hb
    have hne : dev.zoneSpace ≠ [] := by
      intro hnil
      have hlen := h.placed.length_eq
      rw [hnil, List.length_nil] at hlen
      rw [List.eq_nil_of_length_eq_zero hlen.symm] at hb
      cases hb
    have := h.inside hne
    exact ⟨a, a', hab, by omega, h2, by omega⟩
  refine ⟨?_, ?_, ?_, hpair, h.chain.found h.placed⟩
  · rw [hmb, show sbSize = 4096 from rfl]
    omega
  · intro b hb
    obtain ⟨a, a', hab, h1, h2, h3⟩ := hbound b hb
    rw [(hab.bytes h2).1, hab.1, hmb]
    omega
  · intro b hb
    obtain ⟨a, a', hab, h1, h2, h3⟩ := hbound b hb
    rw [(hab.bytes h2).2, Set.Ico_disjoint_Ico, hmb, show sbSize = 4096 from rfl]
    exact (min_le_left _ _).trans (le_trans (by omega) (le_max_right _ _))

/-- A zone that is accepted ends before the last MB of the device. -/
theorem LayoutInv.accepts {dev : LogDevice} (h : LayoutInv dev) {sizeMb : ℤ} (ha : Accepts dev sizeMb)
    (hz : zoneSize sizeMb < 4096) (hz' : -2 ^ 31 ≤ zoneSize sizeMb) :
    dev.offset + zoneSize sizeMb < dev.sizeMb ∧ 1 ≤ dev.offset ∧ dev.offset < 2 ^ 21 := by
  obtain ⟨hlen, hle⟩ := ha
  have hsize := h.size
  obtain ⟨h1, h2⟩ := h.chain.bounds
  have hoff : sbOffset = 1 := rfl
  have hmax : maxZone = 256 := rfl
  have hlen' : (dev.zoneSpace.length : ℤ) < 256 := by exact_mod_cast hlen
  rw [int32_of_range (by omega) (by omega), int32_of_range (by omega) (by omega)] at hle
  omega

theorem newZone_placed {dev : LogDevice} {sizeMb clock h : ℤ} (hz : zoneSize sizeMb = 2 * h)
    (hlow : 1 ≤ h) (hhigh : h < 2048) (hoff : 1 ≤ dev.offset) (hoff' : dev.offset < 2 ^ 21) :
    Placed ⟨dev.offset, zoneSize sizeMb⟩ (newZone dev sizeMb clock) := by
  have h1 : int32 (dev.offset + h) = dev.offset + h := int32_of_range (by omega) (by omega)
  have h2 : int32 (dev.offset + h + h) = dev.offset + 2 * h := by
    rw [int32_of_range (by omega) (by omega)]
    omega
  rw [Placed]
  simp only [hz, tdiv_two]
  refine Or.inl ⟨⟨rfl, ?_⟩, ⟨?_, ?_⟩⟩
  · show int32 (dev.offset + (zoneSize sizeMb).tdiv 2) * mb - walAlign = _
    rw [hz, tdiv_two, h1]
  · show int32 (dev.offset + (zoneSize sizeMb).tdiv 2) * mb = _
    rw [hz, tdiv_two, h1]
  · show int32 (int32 (dev.offset + (zoneSize sizeMb).tdiv 2) + (zoneSize sizeMb).tdiv 2) * mb -
      walAlign = _
    rw [hz, tdiv_two, h1, h2]

/-! ### One event -/

/-- The device with a zone that was accepted. -/
def LogDevice.add (dev : LogDevice) (sizeMb clock : ℤ) : LogDevice :=
  ⟨dev.sizeMb, dev.zoneSpace ++ [⟨dev.offset, zoneSize sizeMb⟩], dev.zones ++ [newZone dev sizeMb clock]⟩

theorem layoutStep_create {dev : LogDevice} {sizeMb clock : ℤ} :
    layoutStep dev (.create sizeMb clock) =
      some (if Accepts dev sizeMb then dev.add sizeMb clock else dev) := by
  rw [layoutStep, walLogZoneCreate]
  split_ifs <;> rfl

theorem add_offset (dev : LogDevice) (sizeMb clock : ℤ) :
    (dev.add sizeMb clock).offset = int32 (dev.offset + zoneSize sizeMb) := by
  rw [LogDevice.offset, LogDevice.add, List.getLast?_concat]

theorem buffersOf_add (dev : LogDevice) (sizeMb clock : ℤ) :
    buffersOf (dev.add sizeMb clock).zones = buffersOf dev.zones ++
      [(newZone dev sizeMb clock).log, (newZone dev sizeMb clock).flush] := by
  rw [buffersOf, LogDevice.add, List.flatMap_append]
  rfl

theorem newZone_ordered {dev : LogDevice} {sizeMb clock : ℤ} :
    (newZone dev sizeMb clock).flush.sequence < (newZone dev sizeMb clock).log.sequence ↔
      int32 clock ≠ 2 ^ 31 - 1 := by
  show int32 clock < int32 (int32 clock + 1) ↔ _
  obtain ⟨-, hlow, hhigh⟩ := int32_spec clock
  constructor
  · intro h hmax
    obtain ⟨-, -, hlt⟩ := int32_spec (int32 clock + 1)
    omega
  · intro hne
    have hsucc : int32 (int32 clock + 1) = int32 clock + 1 := int32_of_range (by omega) (by omega)
    omega

theorem LayoutInv.create {dev : LogDevice} {sizeMb clock : ℤ} (h : LayoutInv dev)
    (ha : Accepts dev sizeMb) (hz : 1 ≤ zoneSize sizeMb) (hz' : zoneSize sizeMb < 4096)
    (hclock : int32 clock ≠ 2 ^ 31 - 1) : LayoutInv (dev.add sizeMb clock) := by
  obtain ⟨k, hk, -, -⟩ := zoneSize_even sizeMb
  obtain ⟨hend, hoff, hoff'⟩ := h.accepts ha hz' (by omega)
  have hoffset : (dev.add sizeMb clock).offset = dev.offset + zoneSize sizeMb := by
    rw [add_offset, int32_of_range (by omega) (by omega)]
  have hmem : ∀ z ∈ (dev.add sizeMb clock).zones, z ∈ dev.zones ∨ z = newZone dev sizeMb clock := by
    intro z hz
    exact (List.mem_append.1 hz).imp_right List.mem_singleton.1
  refine ⟨h.size, ?_, ?_, fun _ => ?_, ?_, ?_, ?_⟩
  · rw [hoffset]
    exact h.chain.snoc rfl ⟨k, hk, by omega, by omega⟩
  · show (dev.zoneSpace ++ [_]).length ≤ maxZone
    rw [List.length_append, List.length_singleton]
    exact ha.1
  · rw [hoffset]
    exact hend
  · exact List.rel_append h.placed
      (List.Forall₂.cons (newZone_placed hk (by omega) (by omega) hoff hoff') List.Forall₂.nil)
  · intro z hz
    rcases hmem z hz with hz | rfl
    · exact h.ordered z hz
    · exact newZone_ordered.2 hclock
  · intro z hz
    rcases hmem z hz with hz | rfl
    · exact h.range z hz
    · exact (int32_spec _).2

theorem LogBuffer.start_mem (b : LogBuffer) : b.startAddr ∈ b.bytes := by
  refine ⟨le_rfl, lt_of_lt_of_le ?_ (le_max_left _ _)⟩
  rw [show (bufferHdrSz : ℤ) = 1024 from rfl]
  omega

theorem LayoutInv.fits_of_add {dev : LogDevice} {sizeMb clock : ℤ} (h : LayoutInv dev)
    (hl : LayoutOk (dev.add sizeMb clock)) (ho : Ordered (dev.add sizeMb clock)) :
    1 ≤ zoneSize sizeMb ∧ zoneSize sizeMb < 4096 ∧ int32 clock ≠ 2 ^ 31 - 1 := by
  have hmb : mb = 1048576 := rfl
  obtain ⟨k, hk, hk', hk''⟩ := zoneSize_even sizeMb
  obtain ⟨hoff, hoff'⟩ : 1 ≤ dev.offset ∧ dev.offset < 2 ^ 21 := by
    obtain ⟨h1, h2⟩ := h.chain.bounds
    have hlen : (dev.zoneSpace.length : ℤ) ≤ 256 := by exact_mod_cast h.length
    have h0 : sbOffset = 1 := rfl
    omega
  have hflush : (newZone dev sizeMb clock).flush.startAddr = (dev.offset + k) * mb := by
    show int32 (dev.offset + (zoneSize sizeMb).tdiv 2) * mb = _
    rw [hk, tdiv_two, int32_of_range (by omega) (by omega)]
  have hlog : (newZone dev sizeMb clock).log.startAddr = dev.offset * mb := rfl
  have hapart := hl.apart
  rw [buffersOf_add, List.pairwise_append] at hapart
  obtain ⟨-, htwo, hold⟩ := hapart
  have hin : (newZone dev sizeMb clock).flush ∈ buffersOf (dev.add sizeMb clock).zones := by
    rw [buffersOf_add]
    simp
  refine ⟨?_, ?_, newZone_ordered.1 (ho _ (List.mem_append_right _ (List.mem_singleton_self _)))⟩
  · by_contra hneg
    rcases (show k ≤ 0 by omega).eq_or_lt with h0 | hlt
    · -- both buffers start at one place
      have hd := (List.pairwise_cons.1 htwo).1 _ (List.mem_singleton_self _)
      refine Set.disjoint_left.1 hd (LogBuffer.start_mem _) ?_
      rw [hlog, show dev.offset = dev.offset + k by omega, ← hflush]
      exact LogBuffer.start_mem _
    · have hpos := (hl.inside _ hin).1
      rw [hflush, hmb] at hpos
      rcases (show 0 ≤ dev.offset + k by omega).eq_or_lt with h0 | hpos
      · -- the second buffer starts in the super block
        refine Set.disjoint_left.1 (hl.sbApart _ hin) ?_ (LogBuffer.start_mem _)
        rw [hflush, ← h0, show sbSize = 4096 from rfl]
        exact ⟨by omega, by omega⟩
      · -- the second buffer starts in a zone that is there
        obtain ⟨b, hb, a, a', hab, h1, h2⟩ :=
          (h.chain.buffers h.placed).2.2 (dev.offset + k) (by rw [show sbOffset = 1 from rfl]; omega)
            (by omega)
        refine Set.disjoint_left.1 (hold b hb (newZone dev sizeMb clock).flush (by simp)) ?_
          (LogBuffer.start_mem _)
        rw [hflush, (hab.bytes (by omega)).2, hmb]
        exact ⟨by omega, by omega⟩
  · by_contra hbig
    have hfound := List.forall₂_reverse_iff.2 hl.found
    rw [LogDevice.add, List.reverse_append, List.reverse_append] at hfound
    obtain ⟨hrec, -⟩ := List.forall₂_cons.1 hfound
    obtain ⟨-, hlow, hhigh⟩ := int32_spec (k * mb)
    have hnext : walLogRecoverZoneBuffer ⟨dev.offset, zoneSize sizeMb⟩ =
        (dev.offset * mb, dev.offset * mb + int32 (k * mb)) := by
      rw [walLogRecoverZoneBuffer, hk, tdiv_two]
    rw [hnext, hlog, hflush] at hrec
    rcases hrec with hrec | hrec
    · have := (Prod.mk.inj hrec).2
      rw [hmb] at this hlow hhigh
      omega
    · have := (Prod.mk.inj hrec).1
      rw [hmb] at this
      omega

/-- A switch leaves the places of the buffers alone. -/
theorem Placed.switch {sp : WalSpace} {z : LogZone} (h : Placed sp z) (clock : ℤ) :
    Placed sp (walZoneSwitchBuffer clock z) := Or.symm h

theorem forall₂_modify {α β : Type} {R : α → β → Prop} {f : β → β} {l : List α} {l' : List β}
    (h : List.Forall₂ R l l') (hf : ∀ a b, R a b → R a (f b)) (i : ℕ) :
    List.Forall₂ R l (l'.modify i f) := by
  induction h generalizing i with
  | nil => rw [List.modify_nil]; exact List.Forall₂.nil
  | cons hab h ih =>
    cases i with
    | zero => exact List.Forall₂.cons (hf _ _ hab) h
    | succ i => exact List.Forall₂.cons hab (ih i)

theorem switch_ordered {z : LogZone} {clock : ℤ}
    (hz : -2 ^ 31 ≤ z.log.sequence ∧ z.log.sequence < 2 ^ 31) :
    (walZoneSwitchBuffer clock z).flush.sequence < (walZoneSwitchBuffer clock z).log.sequence ↔
      z.log.sequence ≠ 2 ^ 31 - 1 := by
  show z.log.sequence < (if int32 clock ≤ z.log.sequence then int32 (z.log.sequence + 1) else int32 clock) ↔ _
  obtain ⟨-, hlow, hhigh⟩ := int32_spec clock
  constructor
  · intro h hmax
    obtain ⟨-, -, hlt⟩ := int32_spec (z.log.sequence + 1)
    split_ifs at h <;> omega
  · intro hne
    have hsucc : int32 (z.log.sequence + 1) = z.log.sequence + 1 :=
      int32_of_range (by omega) (by omega)
    split_ifs <;> omega

theorem switch_range (z : LogZone) (clock : ℤ) :
    -2 ^ 31 ≤ (walZoneSwitchBuffer clock z).log.sequence ∧
      (walZoneSwitchBuffer clock z).log.sequence < 2 ^ 31 := by
  show _ ≤ (if int32 clock ≤ z.log.sequence then int32 (z.log.sequence + 1) else int32 clock) ∧
    (if int32 clock ≤ z.log.sequence then int32 (z.log.sequence + 1) else int32 clock) < _
  split_ifs
  · exact (int32_spec _).2
  · exact (int32_spec _).2

theorem mem_switched {zs : List LogZone} {i : ℕ} {clock : ℤ} {z : LogZone}
    (h : z ∈ zs.modify i (walZoneSwitchBuffer clock)) :
    z ∈ zs ∨ ∃ z₀, zs[i]? = some z₀ ∧ z = walZoneSwitchBuffer clock z₀ := by
  obtain ⟨j, hj⟩ := List.mem_iff_getElem?.1 h
  rw [List.getElem?_modify] at hj
  obtain ⟨z₀, hz₀, rfl⟩ := Option.map_eq_some_iff.1 hj
  split_ifs with hij
  · exact Or.inr ⟨z₀, hij ▸ hz₀, rfl⟩
  · exact Or.inl (List.mem_of_getElem? hz₀)

theorem LayoutInv.switch {dev : LogDevice} {i : ℕ} {clock : ℤ} (h : LayoutInv dev)
    (hfit : ∀ z ∈ dev.zones[i]?, z.log.sequence ≠ 2 ^ 31 - 1) :
    LayoutInv { dev with zones := dev.zones.modify i (walZoneSwitchBuffer clock) } := by
  refine ⟨h.size, h.chain, h.length, h.inside,
    forall₂_modify h.placed (fun _ _ hp => hp.switch clock) i, ?_, ?_⟩
  · intro z hz
    rcases mem_switched hz with hz | ⟨z₀, hz₀, rfl⟩
    · exact h.ordered z hz
    · exact (switch_ordered (h.range z₀ (List.mem_of_getElem? hz₀))).2 (hfit z₀ hz₀)
  · intro z hz
    rcases mem_switched hz with hz | ⟨z₀, hz₀, rfl⟩
    · exact h.range z hz
    · exact switch_range z₀ clock

/-- An event keeps the layout and the order if and only if it fits. -/
theorem LayoutInv.step {dev : LogDevice} (h : LayoutInv dev) (ev : LayoutEvent)
    (hl : LegalLayout dev ev) :
    ∃ dev', layoutStep dev ev = some dev' ∧ (Fits dev ev → LayoutInv dev') ∧
      (LayoutOk dev' ∧ Ordered dev' ↔ Fits dev ev) := by
  cases ev with
  | create sizeMb clock =>
    refine ⟨_, layoutStep_create, ?_⟩
    by_cases ha : Accepts dev sizeMb
    · rw [if_pos ha]
      have hinv : Fits dev (.create sizeMb clock) → LayoutInv (dev.add sizeMb clock) := by
        intro hf
        obtain ⟨h1, h2, h3⟩ := hf ha
        exact h.create ha h1 h2 h3
      refine ⟨hinv, fun hok _ => h.fits_of_add hok.1 hok.2, fun hf => ?_⟩
      exact ⟨(hinv hf).layoutOk, (hinv hf).ordered⟩
    · rw [if_neg ha]
      exact ⟨fun _ => h, iff_of_true ⟨h.layoutOk, h.ordered⟩ fun ha' => absurd ha' ha⟩
  | switch i clock =>
    have hi : i < dev.zones.length := hl
    refine ⟨_, by rw [layoutStep, if_pos hi], fun hf => h.switch hf, ?_⟩
    constructor
    · rintro ⟨-, ho⟩ z hz
      refine (switch_ordered (h.range z (List.mem_of_getElem? hz))).1 (ho (walZoneSwitchBuffer clock z) ?_)
      apply List.mem_iff_getElem?.2
      exact ⟨i, by rw [List.getElem?_modify, hz]; simp⟩
    · intro hf
      exact ⟨(h.switch hf).layoutOk, (h.switch hf).ordered⟩

/-! ### Runs -/

/-- **The layout in every run.** For every size of the device, in every run whose events fit the
layout is in order and the log buffers have the larger sequences; and the next event keeps both if and
only if it fits. -/
theorem layout_of_run {sizeMb : ℤ} {evs : List LayoutEvent} (h : 0 < sizeMb) (h' : sizeMb < 2 ^ 31)
    (hok : Admissible layoutStep (fun dev ev => LegalLayout dev ev ∧ Fits dev ev) ⟨sizeMb, [], []⟩ evs) :
    ∃ dev, run layoutStep ⟨sizeMb, [], []⟩ evs = some dev ∧ (LayoutOk dev ∧ Ordered dev) ∧
      ∀ ev, LegalLayout dev ev → ∃ dev', layoutStep dev ev = some dev' ∧
        (LayoutOk dev' ∧ Ordered dev' ↔ Fits dev ev) := by
  obtain ⟨dev, hrun, hinv⟩ := @run_total _ _ layoutStep
    (fun dev ev => LegalLayout dev ev ∧ Fits dev ev) LayoutInv
    (fun dev ev hinv hok => by
      obtain ⟨dev', hstep, hnext, -⟩ := hinv.step ev hok.1
      exact ⟨dev', hstep, hnext hok.2⟩)
    _ evs (layoutInv_init h h') hok
  refine ⟨dev, hrun, ⟨hinv.layoutOk, hinv.ordered⟩, fun ev hl => ?_⟩
  obtain ⟨dev', hstep, -, hiff⟩ := hinv.step ev hl
  exact ⟨dev', hstep, hiff⟩

instance (dev : LogDevice) (ev : LayoutEvent) : Decidable (LegalLayout dev ev) := by
  unfold LegalLayout
  split <;> infer_instance

instance (dev : LogDevice) (ev : LayoutEvent) : Decidable (Fits dev ev) := by
  unfold Fits
  split <;> infer_instance

/-- Two zones, one of them not accepted a third time, and switches within one second. -/
theorem layout_of_run_two :
    ∃ dev, run layoutStep ⟨4000, [], []⟩ [.create 512 1000, .create 1024 1000, .create 1024 1000,
        .switch 0 1000, .switch 0 1000, .switch 1 2000] = some dev ∧ (LayoutOk dev ∧ Ordered dev) ∧
      ∀ ev, LegalLayout dev ev → ∃ dev', layoutStep dev ev = some dev' ∧
        (LayoutOk dev' ∧ Ordered dev' ↔ Fits dev ev) :=
  layout_of_run (by norm_num) (by norm_num) (by decide)

/-- A zone of 2048 MB is created with its second buffer at 2049 MB, and the recovery reads the header of
this buffer at -2047 MB. -/
theorem not_layoutOk_wrapped :
    ∃ dev, run layoutStep ⟨8192, [], []⟩ [.create 2048 1000] = some dev ∧
      dev.zones.map (fun z => (z.log.startAddr, z.flush.startAddr)) = [(1 * mb, 2049 * mb)] ∧
      dev.zoneSpace.map walLogRecoverZoneBuffer = [(1 * mb, -2047 * mb)] ∧ ¬ LayoutOk dev := by
  refine ⟨_, rfl, by decide, by decide, fun h => ?_⟩
  obtain ⟨hfound, -⟩ := List.forall₂_cons.1 h.found
  revert hfound
  decide

end DssSdk.Wal.ZoneLayout
