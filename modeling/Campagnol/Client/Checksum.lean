import Campagnol.Client.Invariants
import Campagnol.Lib.OnesComplement
import Mathlib.Data.List.GetD

/-!
# The IP checksum

`compute_csum` and the packets that `peer_handling` readdresses (`client/communication.c`).

* `computeCsum_eq_iff`: the sum is folded once, which is not always enough;
* `toTun_readdressed_iff`: only the first 20 bytes of the header are summed.

A machine word is read from memory with the low byte first. A one's complement sum does not
depend on that order, except that its bytes are swapped with those of the words.
-/

namespace Campagnol
namespace Client

open OnesComplement (total reduce)

/-! ## `compute_csum` -/

/-- The conversion to `int32_t`. -/
def int32 (x : Int) : Int := x.bmod 0x100000000

/-- The `uint16_t` stored in two bytes. -/
def uint16 (a b : UInt8) : BitVec 16 := BitVec.ofNat 16 (a.toNat + 0x100 * b.toNat)

/-- The sum of the words, and of the byte that is left over. -/
def sumWords : Int → List UInt8 → Int
  | sum, a :: b :: addr => sumWords (int32 (sum + (uint16 a b).toNat)) addr
  | sum, [a] => int32 (sum + a.toNat * 0x100)
  | sum, [] => sum

/-- `compute_csum`. -/
def computeCsum (addr : List UInt8) : BitVec 16 :=
  let sum := sumWords 0 addr
  let sum := (sum >>> (16 : ℕ)) + sum % 0x10000
  BitVec.ofInt 16 (~~~sum)

/-- The checksum of RFC 1071. -/
def rfc1071 (ws : List (BitVec 16)) : BitVec 16 := ~~~OnesComplement.sum ws

/-- The words stored in some bytes. -/
def words : List UInt8 → List (BitVec 16)
  | a :: b :: addr => uint16 a b :: words addr
  | _ => []

/-- The bytes of a word. -/
def bytesOf (x : BitVec 16) : List UInt8 :=
  [UInt8.ofNat (x.toNat % 0x100), UInt8.ofNat (x.toNat / 0x100)]

/-- After it has been folded the sum has 16 bits. -/
def FoldsOnce (ws : List (BitVec 16)) : Prop := total ws / 0x10000 + total ws % 0x10000 < 0x10000

instance (ws : List (BitVec 16)) : Decidable (FoldsOnce ws) :=
  inferInstanceAs (Decidable (_ < _))

theorem toNat_uint16 (a b : UInt8) : (uint16 a b).toNat = a.toNat + 0x100 * b.toNat := by
  have ha := a.toNat_lt
  have hb := b.toNat_lt
  rw [uint16, BitVec.toNat_ofNat, Nat.mod_eq_of_lt (by omega)]

theorem words_bytesOf (ws : List (BitVec 16)) : words (ws.flatMap bytesOf) = ws := by
  induction ws with
  | nil => rfl
  | cons x ws ih =>
    have hx := x.isLt
    have hword : uint16 (UInt8.ofNat (x.toNat % 0x100)) (UInt8.ofNat (x.toNat / 0x100)) = x := by
      apply BitVec.eq_of_toNat_eq
      rw [toNat_uint16, UInt8.toNat_ofNat', UInt8.toNat_ofNat']
      omega
    show uint16 _ _ :: words (ws.flatMap bytesOf) = _
    rw [hword, ih]

/-- The induction by words leaves no byte over. -/
theorem eq_nil_of_even {bs : List UInt8} (h : 2 ∣ bs.length)
    (hbs : ∀ a b bs', bs = a :: b :: bs' → False) : bs = [] := by
  cases bs with
  | nil => rfl
  | cons a bs =>
    cases bs with
    | nil => simp at h
    | cons b bs => exact (hbs a b bs rfl).elim

theorem words_append {bs : List UInt8} (h : 2 ∣ bs.length) (bs' : List UInt8) :
    words (bs ++ bs') = words bs ++ words bs' := by
  induction bs using words.induct with
  | case1 a b bs ih =>
    have heven : 2 ∣ bs.length := by
      simp only [List.length_cons] at h
      omega
    simp only [List.cons_append, words, ih heven]
  | case2 bs hbs =>
    obtain rfl := eq_nil_of_even h hbs
    rfl

/-- No overflow as long as the words are few. -/
theorem sumWords_eq {bs : List UInt8} (h : 2 ∣ bs.length) {sum : ℕ}
    (hsum : sum + total (words bs) < 0x80000000) :
    sumWords sum bs = (sum + total (words bs) : ℕ) := by
  induction bs using words.induct generalizing sum with
  | case1 a b bs ih =>
    have heven : 2 ∣ bs.length := by
      simp only [List.length_cons] at h
      omega
    simp only [words, OnesComplement.total_cons] at hsum ⊢
    have hint : int32 ((sum : Int) + (uint16 a b).toNat) = (sum + (uint16 a b).toNat : ℕ) := by
      rw [int32, Int.bmod_def]
      omega
    rw [sumWords, hint, ih heven (by omega), Nat.add_assoc]
  | case2 bs hbs =>
    obtain rfl := eq_nil_of_even h hbs
    simp [sumWords, words]

/-- What `compute_csum` returns when its sum does not overflow. -/
theorem toNat_computeCsum {bs : List UInt8} (h : 2 ∣ bs.length)
    (hsum : total (words bs) < 0x80000000) :
    (computeCsum bs).toNat =
      0xFFFF - (total (words bs) / 0x10000 + total (words bs) % 0x10000) % 0x10000 := by
  have hwords : sumWords 0 bs = (total (words bs) : ℕ) := by
    have heq := @sumWords_eq bs h 0 (by omega)
    rwa [Nat.zero_add] at heq
  obtain ⟨s, hs⟩ : ∃ s, s = total (words bs) := ⟨_, rfl⟩
  have hfold : ((s : Int) >>> (16 : ℕ)) + (s : Int) % 0x10000 =
      (s / 0x10000 + s % 0x10000 : ℕ) := by
    rw [Int.shiftRight_eq_div_pow]
    rfl
  have hnot : ~~~((s / 0x10000 + s % 0x10000 : ℕ) : Int) =
      -((s / 0x10000 + s % 0x10000 : ℕ) : Int) - 1 := by
    show Int.negSucc _ = _
    omega
  rw [computeCsum, hwords, ← hs, hfold, hnot, BitVec.toNat_ofInt]
  omega

theorem toNat_rfc1071 (ws : List (BitVec 16)) :
    (rfc1071 ws).toNat = 0xFFFF - reduce 16 (total ws) := by
  rw [rfc1071, BitVec.toNat_not, OnesComplement.toNat_sum (by decide)]

theorem length_flatMap_bytesOf (ws : List (BitVec 16)) :
    (ws.flatMap bytesOf).length = 2 * ws.length := by
  induction ws with
  | nil => rfl
  | cons x ws ih =>
    rw [List.flatMap_cons, List.length_append, ih, List.length_cons]
    show 2 + _ = _
    omega

/-- The sum of all words is `0xFFFF` if and only if it is a multiple of `0xFFFF` other than 0. -/
theorem sum_eq_ones_iff (ws : List (BitVec 16)) :
    OnesComplement.sum ws = 0xFFFF ↔ 0 < total ws ∧ total ws % 0xFFFF = 0 := by
  have hones : (0xFFFF : BitVec 16).toNat = 0xFFFF := rfl
  rw [← BitVec.toNat_inj, OnesComplement.toNat_sum (by decide), hones, reduce]
  split <;> omega

/-- Folding once gives the sum, or one less than the sum when a carry is left. -/
theorem reduce_eq_fold {s : ℕ} (hs : s / 0x10000 < 0xFFFF) :
    reduce 16 s = if s / 0x10000 + s % 0x10000 < 0x10000 then s / 0x10000 + s % 0x10000
      else s / 0x10000 + s % 0x10000 - 0xFFFF := by
  obtain ⟨q, hq⟩ : ∃ q, q = s / 0x10000 := ⟨_, rfl⟩
  obtain ⟨r, hr⟩ : ∃ r, r = s % 0x10000 := ⟨_, rfl⟩
  rw [← hq, ← hr]
  rcases Nat.eq_zero_or_pos s with rfl | hpos
  · obtain ⟨rfl, rfl⟩ : q = 0 ∧ r = 0 := by omega
    rfl
  · rw [OnesComplement.reduce_of_pos hpos]
    split
    · have hsub : s - 1 = (2 ^ 16 - 1) * q + (q + r - 1) := by omega
      rw [hsub, Nat.mul_add_mod, Nat.mod_eq_of_lt (by omega)]
      omega
    · have hsub : s - 1 = (2 ^ 16 - 1) * (q + 1) + (q + r - 0x10000) := by omega
      rw [hsub, Nat.mul_add_mod, Nat.mod_eq_of_lt (by omega)]
      omega

/-- For up to 30 words `compute_csum` returns the checksum of RFC 1071 if and only if no carry is
left after the sum has been folded, and only then the stored checksum makes the sum of the header
`0xFFFF`. -/
theorem computeCsum_eq_iff (ws : List (BitVec 16)) (h : ws.length ≤ 30) :
    (computeCsum (ws.flatMap bytesOf) = rfc1071 ws ↔ FoldsOnce ws) ∧
      ∀ k, ws[k]? = some 0 →
        (OnesComplement.sum (ws.set k (computeCsum (ws.flatMap bytesOf))) = 0xFFFF ↔
          FoldsOnce ws) := by
  have htotal : total ws ≤ 30 * 0xFFFF :=
    (OnesComplement.total_le ws).trans (Nat.mul_le_mul_right _ h)
  have heven : 2 ∣ (ws.flatMap bytesOf).length := ⟨_, length_flatMap_bytesOf ws⟩
  have hcsum := toNat_computeCsum heven (by rw [words_bytesOf]; omega)
  rw [words_bytesOf] at hcsum
  constructor
  · rw [← BitVec.toNat_inj, hcsum, toNat_rfc1071, reduce_eq_fold (by omega), FoldsOnce]
    split <;> omega
  · intro k hk
    rw [sum_eq_ones_iff, OnesComplement.total_set hk, hcsum, FoldsOnce]
    by_cases hfold : total ws / 0x10000 + total ws % 0x10000 < 0x10000
    · have hsum : total ws + (0xFFFF - (total ws / 0x10000 + total ws % 0x10000) % 0x10000) =
          0xFFFF * (total ws / 0x10000 + 1) := by
        rw [Nat.mod_eq_of_lt hfold]
        omega
      simp only [hsum, Nat.mul_mod_right, hfold, iff_true, and_true]
      omega
    · -- the checksum is one too large
      have hsum : total ws + (0xFFFF - (total ws / 0x10000 + total ws % 0x10000) % 0x10000) =
          0xFFFF * (total ws / 0x10000 + 2) + 1 := by
        rw [Nat.mod_eq_sub_mod (by omega), Nat.mod_eq_of_lt (by omega)]
        omega
      simp only [hsum, Nat.mul_add_mod, hfold, iff_false, not_and]
      omega

/-- The header of a ping between 192.168.10.2 and 192.168.10.1, with the checksum 0. -/
def pingHeader (id : BitVec 16) : List (BitVec 16) :=
  [0x0045, 0x5400, id, 0x0040, 0x0140, 0, 0xA8C0, 0x020A, 0xA8C0, 0x010A]

theorem computeCsum_eq_iff_pingHeader :
    (pingHeader 0x34A6).length ≤ 30 ∧
      computeCsum ((pingHeader 0x34A6).flatMap bytesOf) = rfc1071 (pingHeader 0x34A6) ∧
      OnesComplement.sum ((pingHeader 0x34A6).set 5
        (computeCsum ((pingHeader 0x34A6).flatMap bytesOf))) = 0xFFFF := by
  have hlen : (pingHeader 0x34A6).length ≤ 30 := by decide
  obtain ⟨hcsum, hstored⟩ := computeCsum_eq_iff (pingHeader 0x34A6) hlen
  exact ⟨hlen, hcsum.mpr (by decide), (hstored 5 rfl).mpr (by decide)⟩

/-- With the identification `0xA655` the sum is `0x1FFFF`, which folds to `0x10000`: the checksum
comes out as `0xFFFF` and should be `0xFFFE`. -/
theorem computeCsum_ne_pingHeader :
    computeCsum ((pingHeader 0x55A6).flatMap bytesOf) = 0xFFFF ∧
      rfc1071 (pingHeader 0x55A6) = 0xFFFE ∧
      OnesComplement.sum ((pingHeader 0x55A6).set 5
        (computeCsum ((pingHeader 0x55A6).flatMap bytesOf))) ≠ 0xFFFF := by
  decide

/-! ## Readdressed packets -/

/-- `sizeof(struct ip)`. -/
def sizeofIp : ℕ := 20

/-- Write some bytes into a packet. -/
def writeAt (packet : List UInt8) (i : ℕ) (bs : List UInt8) : List UInt8 :=
  packet.take i ++ (bs ++ packet.drop (i + bs.length))

/-- `ip_hl`: the length of the header, in units of 4 bytes. -/
def ipHl (packet : List UInt8) : ℕ := (packet.getD 0 0).toNat % 16

/-- `ip_sum`. -/
def ipSum (packet : List UInt8) : BitVec 16 := uint16 (packet.getD 10 0) (packet.getD 11 0)

def setIpSum (packet : List UInt8) (x : BitVec 16) : List UInt8 := writeAt packet 10 (bytesOf x)

/-- The `struct in_addr` stored in four bytes. -/
def inAddr (a b c d : UInt8) : InAddr :=
  UInt32.ofNat (a.toNat + 0x100 * b.toNat + 0x10000 * c.toNat + 0x1000000 * d.toNat)

/-- The bytes of an address. -/
def addrBytes (a : InAddr) : List UInt8 :=
  [UInt8.ofNat (addrByte 1 a), UInt8.ofNat (addrByte 0x100 a), UInt8.ofNat (addrByte 0x10000 a),
    UInt8.ofNat (addrByte 0x1000000 a)]

/-- `ip_dst`. -/
def ipDst (packet : List UInt8) : InAddr :=
  inAddr (packet.getD 16 0) (packet.getD 17 0) (packet.getD 18 0) (packet.getD 19 0)

def setIpDst (packet : List UInt8) (a : InAddr) : List UInt8 := writeAt packet 16 (addrBytes a)

/-- A broadcast packet with the new destination, and the checksum 0. -/
def readdressed (config : Configuration) (packet : List UInt8) : List UInt8 :=
  setIpSum (setIpDst packet config.vpnIP) 0

/-- What `peer_handling` writes to the TUN device for a packet. -/
def toTun (config : Configuration) (packet : List UInt8) : List UInt8 :=
  if ipDst packet = config.vpnBroadcastIP then
    let packet := readdressed config packet
    setIpSum packet (computeCsum (packet.take sizeofIp))
  else packet

/-- The header with its options. -/
def header (packet : List UInt8) : List UInt8 := packet.take (4 * ipHl packet)

/-- The options. -/
def ipOptions (packet : List UInt8) : List UInt8 := (header packet).drop sizeofIp

/-- The checksum is that of the whole header, taken with the checksum 0. -/
def ChecksumOk (packet : List UInt8) : Prop :=
  ipSum packet = rfc1071 (words (header (setIpSum packet 0)))

/-- A valid packet for the broadcast address. -/
structure IsBroadcast (config : Configuration) (packet : List UInt8) : Prop where
  ipV : (packet.getD 0 0).toNat / 16 = 4
  ipHl : 5 ≤ ipHl packet
  length : 4 * Client.ipHl packet ≤ packet.length
  ipDst : ipDst packet = config.vpnBroadcastIP
  checksum : ChecksumOk packet

/-- `packet'` is a valid packet, and `packet` but for its destination and its checksum. -/
structure Readdressed (config : Configuration) (packet packet' : List UInt8) : Prop where
  length : packet'.length = packet.length
  others : ∀ i, i < 10 ∨ 12 ≤ i ∧ i < 16 ∨ 20 ≤ i → packet'[i]? = packet[i]?
  ipDst : ipDst packet' = config.vpnIP
  checksum : ChecksumOk packet'

theorem writeAt_append {a s t bs : List UInt8} {i : ℕ} (ha : a.length = i)
    (hs : s.length = bs.length) : writeAt (a ++ (s ++ t)) i bs = a ++ (bs ++ t) := by
  subst ha
  rw [writeAt, ← hs, ← List.drop_drop, List.drop_left, List.drop_left, List.take_left]

theorem getD_append {a t : List UInt8} {i : ℕ} (ha : a.length = i) (k : ℕ) :
    (a ++ t).getD (i + k) 0 = t.getD k 0 := by
  rw [List.getD_append_right _ _ _ _ (by omega), ha, Nat.add_sub_cancel_left]

/-- A packet with the fields that are written: the bytes before the checksum, the checksum, the
bytes before the destination, the destination, and the rest. -/
structure Layout (packet a s m d rest : List UInt8) : Prop where
  eq : packet = a ++ (s ++ (m ++ (d ++ rest)))
  ha : a.length = 10
  hs : s.length = 2
  hm : m.length = 4
  hd : d.length = 4

theorem exists_layout {packet : List UInt8} (h : sizeofIp ≤ packet.length) :
    ∃ a s m d rest, Layout packet a s m d rest := by
  refine ⟨packet.take 10, (packet.drop 10).take 2, (packet.drop 12).take 4, (packet.drop 16).take 4,
    packet.drop 20, ?_, ?_, ?_, ?_, ?_⟩
  · rw [← List.drop_drop (i := 4) (j := 16), List.take_append_drop,
      ← List.drop_drop (i := 4) (j := 12), List.take_append_drop,
      ← List.drop_drop (i := 2) (j := 10), List.take_append_drop, List.take_append_drop]
  all_goals
    simp only [sizeofIp] at h
    simp only [List.length_take, List.length_drop]
    omega

section Layout
variable {packet a s m d rest : List UInt8}

theorem Layout.setIpSum (h : Layout packet a s m d rest) (x : BitVec 16) :
    Layout (setIpSum packet x) a (bytesOf x) m d rest :=
  ⟨by rw [h.eq, Client.setIpSum, writeAt_append h.ha h.hs], h.ha, rfl, h.hm, h.hd⟩

theorem Layout.setIpDst (h : Layout packet a s m d rest) (v : InAddr) :
    Layout (setIpDst packet v) a s m (addrBytes v) rest := by
  refine ⟨?_, h.ha, h.hs, h.hm, rfl⟩
  have hasm : (a ++ (s ++ m)).length = 16 := by simp [h.ha, h.hs, h.hm]
  have heq : packet = (a ++ (s ++ m)) ++ (d ++ rest) := by simp [h.eq]
  rw [heq, Client.setIpDst, writeAt_append hasm h.hd]
  simp

theorem Layout.ipHl_eq (h : Layout packet a s m d rest) :
    ipHl packet = (a.getD 0 0).toNat % 16 := by
  have hpos : 0 < a.length := by rw [h.ha]; decide
  rw [ipHl, h.eq, List.getD_append _ _ _ _ hpos]

theorem Layout.ipSum_eq (h : Layout packet a s m d rest) :
    ipSum packet = uint16 (s.getD 0 0) (s.getD 1 0) := by
  have hs := h.hs
  rw [ipSum, h.eq, getD_append h.ha 0, getD_append h.ha 1, List.getD_append _ _ _ _ (by omega),
    List.getD_append _ _ _ _ (by omega)]

theorem Layout.ipDst_eq (h : Layout packet a s m d rest) :
    ipDst packet = inAddr (d.getD 0 0) (d.getD 1 0) (d.getD 2 0) (d.getD 3 0) := by
  have hasm : (a ++ (s ++ m)).length = 16 := by simp [h.ha, h.hs, h.hm]
  have heq : packet = (a ++ (s ++ m)) ++ (d ++ rest) := by simp [h.eq]
  have hd := h.hd
  rw [ipDst, heq, getD_append hasm 0, getD_append hasm 1, getD_append hasm 2, getD_append hasm 3,
    List.getD_append _ _ _ _ (by omega), List.getD_append _ _ _ _ (by omega),
    List.getD_append _ _ _ _ (by omega), List.getD_append _ _ _ _ (by omega)]

theorem Layout.split (h : Layout packet a s m d rest) :
    packet = (a ++ (s ++ (m ++ d))) ++ rest ∧ (a ++ (s ++ (m ++ d))).length = sizeofIp := by
  simp [h.eq, h.ha, h.hs, h.hm, h.hd, sizeofIp]

theorem Layout.take_eq (h : Layout packet a s m d rest) :
    packet.take sizeofIp = a ++ (s ++ (m ++ d)) := by
  obtain ⟨heq, hlen⟩ := h.split
  rw [heq, ← hlen, List.take_left]

/-- The header is its first 20 bytes and the options. -/
theorem Layout.header_eq (h : Layout packet a s m d rest) (hl : 5 ≤ ipHl packet) :
    header packet = (a ++ (s ++ (m ++ d))) ++ rest.take (4 * ipHl packet - sizeofIp) := by
  obtain ⟨heq, hlen⟩ := h.split
  have hle : sizeofIp ≤ 4 * ipHl packet := by
    rw [sizeofIp]
    omega
  rw [header]
  nth_rewrite 2 [heq]
  rw [List.take_append, hlen, List.take_of_length_le (by rw [hlen]; exact hle)]

theorem Layout.ipOptions_eq (h : Layout packet a s m d rest) (hl : 5 ≤ ipHl packet) :
    ipOptions packet = rest.take (4 * ipHl packet - sizeofIp) := by
  rw [ipOptions, h.header_eq hl, ← h.split.2, List.drop_left]

/-- Packets that differ in the checksum and the destination only. -/
theorem Layout.getElem?_eq {packet' s' d' : List UInt8} (h : Layout packet a s m d rest)
    (h' : Layout packet' a s' m d' rest) {i : ℕ} (hi : i < 10 ∨ 12 ≤ i ∧ i < 16 ∨ 20 ≤ i) :
    packet'[i]? = packet[i]? := by
  have ha := h.ha
  have hs := h.hs
  have hs' := h'.hs
  have hm := h.hm
  have hd := h.hd
  have hd' := h'.hd
  rw [h.eq, h'.eq]
  rcases hi with hi | hi | hi
  · rw [List.getElem?_append_left (by omega), List.getElem?_append_left (by omega)]
  · rw [List.getElem?_append_right (by omega), List.getElem?_append_right (by omega),
      List.getElem?_append_left (by omega), List.getElem?_append_right (by omega),
      List.getElem?_append_right (by omega), List.getElem?_append_left (by omega), hs, hs']
  · rw [List.getElem?_append_right (by omega), List.getElem?_append_right (by omega),
      List.getElem?_append_right (by omega), List.getElem?_append_right (by omega),
      List.getElem?_append_right (by omega), List.getElem?_append_right (by omega),
      List.getElem?_append_right (by omega), List.getElem?_append_right (by omega), hs, hs', hd,
      hd']

end Layout

theorem uint16_bytesOf (x : BitVec 16) :
    uint16 ((bytesOf x).getD 0 0) ((bytesOf x).getD 1 0) = x := by
  have hwords := words_bytesOf [x]
  exact (List.cons.inj hwords).1

theorem inAddr_addrBytes (v : InAddr) :
    inAddr ((addrBytes v).getD 0 0) ((addrBytes v).getD 1 0) ((addrBytes v).getD 2 0)
      ((addrBytes v).getD 3 0) = v := by
  have hv := v.toNat_lt
  apply UInt32.toNat_inj.mp
  show (UInt32.ofNat ((UInt8.ofNat _).toNat + 0x100 * (UInt8.ofNat _).toNat +
    0x10000 * (UInt8.ofNat _).toNat + 0x1000000 * (UInt8.ofNat _).toNat)).toNat = _
  simp only [UInt8.toNat_ofNat', UInt32.toNat_ofNat', addrByte]
  omega

/-- More words do not change the checksum if and only if they sum to a multiple of `0xFFFF`. -/
theorem rfc1071_append_iff {ws : List (BitVec 16)} (h : 0 < total ws) (ws' : List (BitVec 16)) :
    rfc1071 ws = rfc1071 (ws ++ ws') ↔ total ws' % 0xFFFF = 0 := by
  have hle : ∀ s, reduce 16 s ≤ 0xFFFF := by
    intro s
    unfold reduce
    split <;> omega
  have hreduce : reduce 16 (total ws + total ws') = reduce 16 (total ws) ↔
      total ws' % 0xFFFF = 0 := OnesComplement.reduce_add_eq_iff h
  have h₁ := hle (total ws)
  have h₂ := hle (total ws + total ws')
  rw [← BitVec.toNat_inj, toNat_rfc1071, toNat_rfc1071, OnesComplement.total_append, ← hreduce]
  omega

/-- What a packet for the broadcast address becomes. The checksum is right if and only if that of
its first 20 bytes is. -/
theorem readdressed_iff {config : Configuration} {packet : List UInt8}
    (h : IsBroadcast config packet) :
    Readdressed config packet (toTun config packet) ↔
      computeCsum ((readdressed config packet).take sizeofIp) =
        rfc1071
          (words ((readdressed config packet).take sizeofIp) ++ words (ipOptions packet)) := by
  have hhl := h.ipHl
  have hsize : sizeofIp ≤ packet.length := by
    have hlen := h.length
    rw [sizeofIp]
    omega
  obtain ⟨a, s, m, d, rest, hl⟩ := exists_layout hsize
  have hl₀ : Layout (readdressed config packet) a (bytesOf 0) m (addrBytes config.vpnIP) rest :=
    (hl.setIpDst config.vpnIP).setIpSum 0
  obtain ⟨c, hc⟩ : ∃ c, c = computeCsum ((readdressed config packet).take sizeofIp) := ⟨_, rfl⟩
  have hl' := hl₀.setIpSum c
  have hzero := hl'.setIpSum 0
  have htun : toTun config packet = setIpSum (readdressed config packet) c := by
    rw [toTun, if_pos h.ipDst, hc]
  have hhl₀ : ipHl (setIpSum (setIpSum (readdressed config packet) c) 0) = ipHl packet := by
    rw [hzero.ipHl_eq, hl.ipHl_eq]
  -- the checksum is set to 0 to check it, so the bytes that are summed are the same
  have hok : ChecksumOk (setIpSum (readdressed config packet) c) ↔
      c = rfc1071 (words ((readdressed config packet).take sizeofIp) ++
        words (ipOptions packet)) := by
    have heven : 2 ∣ ((readdressed config packet).take sizeofIp).length := by
      rw [hl₀.take_eq, hl₀.split.2]
      decide
    rw [ChecksumOk, hzero.header_eq (hhl₀ ▸ hhl), hl'.ipSum_eq, uint16_bytesOf, hhl₀,
      ← hl.ipOptions_eq hhl, ← hl₀.take_eq, words_append heven]
  rw [← hc, htun, ← hok]
  refine ⟨fun hr => hr.checksum, fun hsum => ⟨?_, fun i hi => hl.getElem?_eq hl' hi, ?_, hsum⟩⟩
  · rw [hl'.split.1, hl.split.1, List.length_append, hl'.split.2, List.length_append, hl.split.2]
  · rw [hl'.ipDst_eq, inAddr_addrBytes]

/-- The first byte of a header is not 0. -/
theorem total_readdressed_pos {config : Configuration} {packet : List UInt8}
    (h : IsBroadcast config packet) :
    0 < total (words ((readdressed config packet).take sizeofIp)) := by
  have hhl := h.ipHl
  have hlen := h.length
  have hsize : sizeofIp ≤ packet.length := by
    rw [sizeofIp]
    omega
  obtain ⟨a, s, m, d, rest, hl⟩ := exists_layout hsize
  have hl₀ : Layout (readdressed config packet) a (bytesOf 0) m (addrBytes config.vpnIP) rest :=
    (hl.setIpDst config.vpnIP).setIpSum 0
  have ha := hl.ha
  rw [hl.ipHl_eq] at hhl
  rw [hl₀.take_eq]
  match a, ha with
  | b₀ :: b₁ :: a, _ =>
    rw [List.getD_cons_zero] at hhl
    simp only [List.cons_append, words, OnesComplement.total_cons, toNat_uint16]
    omega

/-- With `compute_csum` right on the bytes it gets, a packet for the broadcast address is written
as a valid packet for the VPN IP if and only if the words of its options sum to a multiple of
`0xFFFF`. -/
theorem toTun_readdressed_iff (config : Configuration) (packet : List UInt8)
    (h : IsBroadcast config packet)
    (hcsum : computeCsum ((readdressed config packet).take sizeofIp) =
      rfc1071 (words ((readdressed config packet).take sizeofIp))) :
    Readdressed config packet (toTun config packet) ↔
      total (words (ipOptions packet)) % 0xFFFF = 0 := by
  rw [readdressed_iff h, hcsum]
  exact rfc1071_append_iff (total_readdressed_pos h) _

/-- A client with the VPN IP 10.8.0.1 in the network 10.8.0.0/24. -/
def client1080 : Configuration := { client100 with vpnIP := 16779274, vpnBroadcastIP := 4278192138 }

/-- The header of a packet from 10.8.0.2 to 10.8.0.255 with the option "router alert" and the value
`0x6BFB`: the two words of the option sum to `0xFFFF`. -/
def neutralAlert : List UInt8 :=
  [70, 0, 0, 32, 0, 1, 0, 0, 64, 17, 100, 188, 10, 8, 0, 2, 10, 8, 0, 255, 148, 4, 107, 251]

theorem isBroadcast_neutralAlert : IsBroadcast client1080 neutralAlert :=
  ⟨rfl, by decide, by decide, rfl, by unfold ChecksumOk; decide⟩

theorem toTun_readdressed_iff_neutralAlert :
    IsBroadcast client1080 neutralAlert ∧ ipOptions neutralAlert = [148, 4, 107, 251] ∧
      Readdressed client1080 neutralAlert (toTun client1080 neutralAlert) :=
  ⟨isBroadcast_neutralAlert, by decide, (toTun_readdressed_iff client1080 neutralAlert
    isBroadcast_neutralAlert (by decide)).mpr (by decide)⟩

/-- The same with the value 0. -/
def routerAlert : List UInt8 :=
  [70, 0, 0, 32, 0, 1, 0, 0, 64, 17, 208, 183, 10, 8, 0, 2, 10, 8, 0, 255, 148, 4, 0, 0]

/-- The option is not summed: the packet is written with the checksum `0xBA65` and should have
`0xB5D1`. -/
theorem toTun_routerAlert_invalid :
    IsBroadcast client1080 routerAlert ∧
      computeCsum ((readdressed client1080 routerAlert).take sizeofIp) =
        rfc1071 (words ((readdressed client1080 routerAlert).take sizeofIp)) ∧
      ipSum (toTun client1080 routerAlert) = 0xBA65 ∧
      rfc1071 (words (header (setIpSum (toTun client1080 routerAlert) 0))) = 0xB5D1 ∧
      ¬ Readdressed client1080 routerAlert (toTun client1080 routerAlert) := by
  have hsum : ipSum (toTun client1080 routerAlert) = 0xBA65 := by decide
  have hrfc : rfc1071 (words (header (setIpSum (toTun client1080 routerAlert) 0))) = 0xB5D1 := by
    decide
  refine ⟨⟨rfl, by decide, by decide, rfl, by unfold ChecksumOk; decide⟩, by decide, hsum, hrfc, ?_⟩
  intro hr
  have hchecksum := hr.checksum
  rw [ChecksumOk, hsum, hrfc] at hchecksum
  exact absurd hchecksum (by decide)

end Client
end Campagnol
