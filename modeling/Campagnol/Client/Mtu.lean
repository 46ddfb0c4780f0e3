import Campagnol.Config.Numbers
import Mathlib.Algebra.Order.Group.Nat

/-!
# The MTU for OpenSSL

The largest record of a session, as `peer_handling` computes it after the handshake
(`client/communication.c`) in 32-bit unsigned arithmetic: the packet, the length of the padding, the
IV and the MAC, padded to a multiple of the block size, and the header of the record. The padding is
found with a mask. Without a block cipher the block size is 0 and the mask has all bits
(`dtlsMtu_adequate_iff`).
-/

namespace Campagnol
namespace Client

/-- `DTLS1_RT_HEADER_LENGTH`. -/
def dtls1RtHeaderLength : ℕ := 13

/-- `EVP_CIPH_CBC_MODE`. -/
def evpCiphCbcMode : UInt32 := 2

/-- The cipher of `enc_write_ctx`. -/
structure EvpCipher where
  mode : UInt32
  blockSize : UInt32
deriving DecidableEq, Repr

/-- The MAC size; there may be no `write_hash`. -/
def macSize : Option UInt32 → UInt32
  | some size => size
  | none => 0

/-- The block size, 0 without a cipher or when it is not used in CBC mode. -/
def blocksize : Option EvpCipher → UInt32
  | some cipher => if cipher.mode &&& evpCiphCbcMode ≠ 0 then cipher.blockSize else 0
  | none => 0

/-- The value of `d1->mtu`. -/
def dtlsMtu (tunMtu : Int) (macSize blocksize : UInt32) : UInt32 :=
  let pktSize := UInt32.ofInt (tunMtu + 1) + blocksize + macSize
  let mtu :=
    if pktSize &&& (blocksize - 1) ≠ 0 then pktSize + (blocksize - (pktSize &&& (blocksize - 1)))
    else pktSize
  mtu + UInt32.ofNat dtls1RtHeaderLength

/-! ## What the MTU has to be -/

/-- The bytes to pad `n` to a multiple of the block size. -/
def padding (blocksize n : ℕ) : ℕ := (blocksize - n % blocksize) % blocksize

/-- The payload of a record, before the padding. -/
def payload (blocksize macSize n : ℕ) : ℕ := n + 1 + blocksize + macSize

/-- The record for a packet of `n` bytes. -/
def recordLength (blocksize macSize n : ℕ) : ℕ :=
  payload blocksize macSize n + padding blocksize (payload blocksize macSize n) +
    dtls1RtHeaderLength

/-- The MTU is that of the largest packets, padded with less than a block. -/
structure Adequate (tunMtu : Int) (macSize blocksize mtu : ℕ) : Prop where
  lower : tunMtu + 1 + blocksize + macSize + dtls1RtHeaderLength ≤ mtu
  upper : mtu < tunMtu + 1 + blocksize + macSize + dtls1RtHeaderLength + max blocksize 1
  multiple : 0 < blocksize → (blocksize : Int) ∣ mtu - dtls1RtHeaderLength
  fits : ∀ n : ℕ, n ≤ tunMtu → recordLength blocksize macSize n ≤ mtu

theorem padding_lt {blocksize : ℕ} (h : 0 < blocksize) (n : ℕ) : padding blocksize n < blocksize :=
  Nat.mod_lt _ h

theorem padding_of_mod_eq_zero {blocksize n : ℕ} (h : n % blocksize = 0) :
    padding blocksize n = 0 := by
  rw [padding, h, Nat.sub_zero, Nat.mod_self]

theorem padding_of_mod_ne_zero {blocksize n : ℕ} (h : 0 < blocksize) (hn : n % blocksize ≠ 0) :
    padding blocksize n = blocksize - n % blocksize := by
  have hlt := Nat.mod_lt n h
  exact Nat.mod_eq_of_lt (by omega)

theorem dvd_add_padding {blocksize : ℕ} (h : 0 < blocksize) (n : ℕ) :
    blocksize ∣ n + padding blocksize n := by
  by_cases hn : n % blocksize = 0
  · rw [padding_of_mod_eq_zero hn]
    exact Nat.dvd_of_mod_eq_zero hn
  · have hlt := Nat.mod_lt n h
    have hsum : n + padding blocksize n = blocksize * (n / blocksize + 1) := by
      have hdiv := Nat.div_add_mod n blocksize
      rw [padding_of_mod_ne_zero h hn, Nat.mul_add, Nat.mul_one]
      omega
    rw [hsum]
    exact Nat.dvd_mul_right _ _

/-- A multiple of the block size that is large enough for `n` is so for `n` with its padding. -/
theorem add_padding_le {blocksize n q : ℕ} (h : 0 < blocksize) (hn : n ≤ q) (hq : blocksize ∣ q) :
    n + padding blocksize n ≤ q := by
  obtain ⟨c, hc⟩ := dvd_add_padding h n
  obtain ⟨d, rfl⟩ := hq
  have hpad := padding_lt h n
  rw [hc]
  refine Nat.mul_le_mul_left _ (Nat.le_of_lt_succ ?_)
  refine Nat.lt_of_mul_lt_mul_left (a := blocksize) ?_
  rw [← hc, Nat.mul_succ]
  omega

/-! ## The MTU -/

theorem toNat_ofInt {x : Int} (h : 0 ≤ x) (hlt : x < 0x100000000) : (UInt32.ofInt x).toNat = x := by
  rw [UInt32.ofInt, UInt32.toNat_ofNat']
  omega

/-- With a power of two the mask gives the remainder. -/
theorem toNat_and_sub_one {x blocksize : UInt32} {k : ℕ} (h : blocksize.toNat = 2 ^ k) :
    (x &&& (blocksize - 1)).toNat = x.toNat % blocksize.toNat := by
  have hpos := Nat.two_pow_pos k
  have hsub : (blocksize - 1).toNat = 2 ^ k - 1 := by
    rw [UInt32.toNat_sub_of_le, h]
    · rfl
    · rw [UInt32.le_iff_toNat_le, h]
      exact hpos
  rw [UInt32.toNat_and, hsub, h, Nat.and_two_pow_sub_one_eq_mod]

/-- With a power of two as block size the MTU is the length of the largest record. -/
theorem toNat_dtlsMtu {n : ℕ} {macSize blocksize : UInt32} {k : ℕ} (h : blocksize.toNat = 2 ^ k)
    (hlt : recordLength blocksize.toNat macSize.toNat n < 0x100000000) :
    (dtlsMtu n macSize blocksize).toNat = recordLength blocksize.toNat macSize.toNat n := by
  have hpos : 0 < blocksize.toNat := h ▸ Nat.two_pow_pos k
  obtain ⟨pktSize, hpkt⟩ : ∃ x, x = UInt32.ofInt ((n : Int) + 1) + blocksize + macSize := ⟨_, rfl⟩
  have hpktSize : pktSize.toNat = payload blocksize.toNat macSize.toNat n := by
    have hle : payload blocksize.toNat macSize.toNat n ≤
        recordLength blocksize.toNat macSize.toNat n := by
      rw [recordLength, Nat.add_assoc]
      exact Nat.le_add_right _ _
    have hn : (UInt32.ofInt ((n : Int) + 1)).toNat = n + 1 := by
      rw [payload] at hle
      have hofInt := @toNat_ofInt ((n : Int) + 1) (by omega) (by omega)
      omega
    rw [payload] at hle ⊢
    rw [hpkt, UInt32.toNat_add, UInt32.toNat_add, hn]
    omega
  have hmask := toNat_and_sub_one (x := pktSize) h
  have hmodlt := Nat.mod_lt pktSize.toNat hpos
  rw [recordLength, ← hpktSize] at hlt ⊢
  rw [dtlsMtu, ← hpkt]
  split
  · rename_i hne
    have hmod : pktSize.toNat % blocksize.toNat ≠ 0 := by
      rw [← hmask]
      exact fun h0 => hne (UInt32.toNat_inj.mp h0)
    have hsub : (blocksize - (pktSize &&& (blocksize - 1))).toNat =
        blocksize.toNat - pktSize.toNat % blocksize.toNat := by
      rw [UInt32.toNat_sub_of_le, hmask]
      rw [UInt32.le_iff_toNat_le, hmask]
      exact Nat.le_of_lt hmodlt
    rw [padding_of_mod_ne_zero hpos hmod] at hlt ⊢
    rw [UInt32.toNat_add, UInt32.toNat_add, hsub]
    show (_ + dtls1RtHeaderLength) % _ = _
    rw [Nat.mod_eq_of_lt (by omega), Nat.mod_eq_of_lt (by omega)]
  · rename_i heq
    have hmod : pktSize.toNat % blocksize.toNat = 0 := by
      rw [← hmask, not_not.mp heq]
      rfl
    rw [padding_of_mod_eq_zero hmod] at hlt ⊢
    rw [UInt32.toNat_add]
    show (_ + dtls1RtHeaderLength) % _ = _
    rw [Nat.mod_eq_of_lt (by omega), Nat.add_zero]

theorem adequate_recordLength {blocksize : ℕ} (h : 0 < blocksize) (macSize n : ℕ) :
    Adequate n macSize blocksize (recordLength blocksize macSize n) := by
  have hpad := padding_lt h (payload blocksize macSize n)
  have hdvd := dvd_add_padding h (payload blocksize macSize n)
  refine ⟨?_, ?_, fun _ => ?_, fun m hm => ?_⟩
  · simp only [recordLength, payload]
    omega
  · rw [recordLength, payload] at *
    omega
  · have hsub : ((recordLength blocksize macSize n : ℕ) : Int) - dtls1RtHeaderLength =
        (payload blocksize macSize n + padding blocksize (payload blocksize macSize n) : ℕ) := by
      rw [recordLength]
      omega
    rw [hsub]
    exact Int.natCast_dvd_natCast.mpr hdvd
  · have hle : payload blocksize macSize m ≤ payload blocksize macSize n := by
      simp only [payload]
      omega
    have hpadded := add_padding_le h (hle.trans (Nat.le_add_right _ _)) hdvd
    rw [recordLength, recordLength]
    omega

/-- Without a block cipher the padding takes the whole packet away. -/
theorem dtlsMtu_zero (tunMtu : Int) (macSize : UInt32) : dtlsMtu tunMtu macSize 0 = 13 := by
  obtain ⟨pktSize, hpkt⟩ : ∃ x, x = UInt32.ofInt (tunMtu + 1) + 0 + macSize := ⟨_, rfl⟩
  have hmask : pktSize &&& (0 - 1) = pktSize := by
    rw [UInt32.zero_sub, UInt32.and_neg_one]
  rw [dtlsMtu, ← hpkt, hmask]
  split
  · rw [UInt32.zero_sub, UInt32.add_right_neg]
    rfl
  · rename_i hzero
    rw [not_not.mp hzero]
    rfl

/-- For every `tun_mtu` that can be configured, every MAC size and every block size that is 0 or a
power of two, the MTU is adequate if and only if the block size is not 0. -/
theorem dtlsMtu_adequate_iff (tunMtu : Int) (htun : Config.optTunMtu.Accepts tunMtu)
    (macSize blocksize : UInt32) (hblock : blocksize = 0 ∨ ∃ k, blocksize.toNat = 2 ^ k)
    (hsum : recordLength blocksize.toNat macSize.toNat tunMtu.toNat < 0x100000000) :
    Adequate tunMtu macSize.toNat blocksize.toNat (dtlsMtu tunMtu macSize blocksize).toNat ↔
      blocksize ≠ 0 := by
  have hlow := ((Config.optTunMtu_accepts_iff tunMtu).mp htun).1
  obtain ⟨n, rfl⟩ : ∃ n : ℕ, tunMtu = n := ⟨tunMtu.toNat, by omega⟩
  rw [Int.toNat_natCast] at hsum
  constructor
  · rintro hok rfl
    have hlower := hok.lower
    rw [dtlsMtu_zero] at hlower
    have hthirteen : (13 : UInt32).toNat = 13 := rfl
    rw [hthirteen, dtls1RtHeaderLength] at hlower
    omega
  · intro hne
    obtain hzero | ⟨k, hk⟩ := hblock
    · exact absurd hzero hne
    · rw [toNat_dtlsMtu hk hsum]
      exact adequate_recordLength (hk ▸ Nat.two_pow_pos k) _ _

/-- Camellia with SHA-1 and packets of 1400 bytes: records of 1453 bytes. -/
theorem dtlsMtu_adequate_iff_camellia :
    dtlsMtu 1400 20 (blocksize (some ⟨2, 16⟩)) = 1453 ∧ Adequate 1400 20 16 1453 := by
  refine ⟨by decide, ?_⟩
  refine (dtlsMtu_adequate_iff 1400 ?_ 20 16 (.inr ⟨4, rfl⟩) (by decide)).mpr (by decide)
  exact (Config.optTunMtu_accepts_iff 1400).mpr (by decide)

/-- With `cipher_list = NULL` the MTU is 13, whatever the MTU of the TUN device. -/
theorem dtlsMtu_null_cipher :
    Config.optTunMtu.Accepts 1419 ∧ recordLength 0 20 1419 < 0x100000000 ∧
      dtlsMtu 1419 (macSize (some 20)) (blocksize none) = 13 ∧ ¬ Adequate 1419 20 0 13 := by
  refine ⟨⟨none, rfl⟩, by decide, by decide, fun hok => ?_⟩
  have hlower := hok.lower
  exact absurd hlower (by decide)

end Client
end Campagnol
