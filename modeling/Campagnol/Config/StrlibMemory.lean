import Campagnol.Config.Numbers
import Campagnol.Lib.Block
import Mathlib.Data.List.DropRight

/-!
# The memory of the string buffers

The functions of `common/strlib.c` on the memory of the buffers: sizes are of type `size_t`, a
buffer points to a block that `realloc` makes larger, and a write outside of the block fails.

* `Represents`: a buffer and the list of bytes that it stands for;
* `StrOp.Fits`: the sizes do not overflow `size_t` and `int`;
* `strlib_refines`: after every sequence of calls the buffers stand for the lists that the same
  operations on lists give, and no write has gone outside of a block.
-/

namespace Campagnol
namespace Config

/-! ## Buffers -/

/-- A number as a `size_t`. -/
def sizeT (n : ℕ) : ℕ := n % 2 ^ 64

/-- A difference of two `size_t`. -/
def sizeSub (a b : ℕ) : ℕ := sizeT (a + (2 ^ 64 - b))

/-- `(int)` of a `size_t`. -/
def intOfSize (n : ℕ) : Int :=
  if n % 2 ^ 32 < 2 ^ 31 then (n % 2 ^ 32 : ℕ) else (n % 2 ^ 32 : ℕ) - 2 ^ 32

/-- `strlib_buf_t`, with the block that `s` points to. NULL is the block without bytes. -/
structure StrlibBuf where
  buflen : ℕ
  len : ℕ
  mark : ℕ
  s : Bytes
deriving DecidableEq, Repr

/-- Write the bytes `x` from `s[i]` on. -/
def StrlibBuf.write (sb : StrlibBuf) (i : ℕ) (x : Bytes) : Option StrlibBuf :=
  (Block.write sb.s i x).map fun s => { sb with s := s }

section Functions
variable (junk : ℕ → UInt8)

/-- `strlib_grow`. -/
def strlibGrow (sb : StrlibBuf) (n : ℕ) : StrlibBuf :=
  let buflenNew := sizeT (sb.len + n + 1)
  if buflenNew > sb.buflen then
    -- this growing factor is from git's cache.h
    let buflenGrow := sizeT ((sb.buflen + 16) * 3) / 2
    let buflen := if buflenGrow < buflenNew then buflenNew else buflenGrow
    { sb with buflen := buflen, s := Block.realloc junk sb.s buflen }
  else sb

/-- `strlib_init`. -/
def strlibInit : Option StrlibBuf := (strlibGrow junk ⟨0, 0, 0, []⟩ 1).write 0 [0]

/-- `strlib_reset`. -/
def strlibReset (sb : StrlibBuf) : Option StrlibBuf :=
  StrlibBuf.write { sb with len := 0, mark := 0 } 0 [0]

/-- `strlib_setmark`. -/
def strlibSetmark (sb : StrlibBuf) (mark : ℕ) : StrlibBuf := { sb with mark := mark }

/-- `strlib_push`. -/
def strlibPush (sb : StrlibBuf) (c : UInt8) : Option StrlibBuf :=
  let sb := strlibGrow junk sb 1
  (sb.write sb.len [c]).bind fun sb =>
    let sb := { sb with len := sizeT (sb.len + 1) }
    sb.write sb.len [0]

/-- `strlib_append`. -/
def strlibAppend (sb : StrlibBuf) (s : Bytes) : Option StrlibBuf :=
  let sb := strlibGrow junk sb s.length
  (sb.write sb.len s).bind fun sb =>
    let sb := { sb with len := sizeT (sb.len + s.length) }
    sb.write sb.len [0]

/-- The loop of `strlib_rstrip`, from the length `len`. -/
def rstripLen (s : Bytes) (mark : ℕ) : ℕ → Option ℕ
  | 0 => some 0
  | len + 1 =>
    if len + 1 > mark then
      match s[len]? with
      | none => none
      | some c => if isblank c then rstripLen s mark len else some (len + 1)
    else some (len + 1)

/-- `strlib_rstrip`. -/
def strlibRstrip (sb : StrlibBuf) : Option StrlibBuf :=
  (rstripLen sb.s sb.mark sb.len).bind fun len => StrlibBuf.write { sb with len := len } len [0]

/-- `strlib_appendbuf`. -/
def strlibAppendbuf (dest src : StrlibBuf) : Option StrlibBuf :=
  if src.len ≤ src.s.length then strlibAppend junk dest (src.s.take src.len) else none

/-- `vsnprintf`, for the formatted string `out`: at most `size - 1` bytes of it are written, and a
NUL. It returns the length of `out`, or a negative number when that is not an `int`. -/
def vsnprintf (sb : StrlibBuf) (i size : ℕ) (out : Bytes) : Option (StrlibBuf × Int) :=
  (if size = 0 then some sb else sb.write i (out.take (size - 1) ++ [0])).map fun sb =>
    (sb, if (out.length : Int) ≤ INT_MAX then out.length else -1)

/-- `strlib_appendf` and `strlib_vappendf`, which end the program when `vsnprintf` fails. -/
def strlibVappendf (sb : StrlibBuf) (out : Bytes) : Option StrlibBuf :=
  (vsnprintf sb sb.len (sizeSub sb.buflen sb.len) out).bind fun r =>
    if r.2 < 0 then none
    else if r.2 ≥ intOfSize (sizeSub r.1.buflen r.1.len) then
      -- the string has been cut off, and is formatted once more
      let sb := strlibGrow junk r.1 r.2.toNat
      (vsnprintf sb sb.len (sizeSub sb.buflen sb.len) out).map fun r =>
        { r.1 with len := sizeT (r.1.len + r.2.toNat) }
    else some { r.1 with len := sizeT (r.1.len + r.2.toNat) }

end Functions

/-! ## What a buffer stands for -/

/-- The buffer has the bytes of the list in its block, with or without the NUL. -/
structure Carries (sb : StrlibBuf) (a : StrBuf) : Prop where
  mark : sb.mark = a.mark
  len : sb.len = a.s.length
  mark_le : sb.mark ≤ sb.len
  block : sb.s.length = sb.buflen
  size : sb.buflen < 2 ^ 64
  bytes : a.s <+: sb.s

/-- The buffer stands for the list: the first `len` bytes of its block, which is of the size
`buflen`, are the list, and a NUL follows. -/
structure Represents (sb : StrlibBuf) (a : StrBuf) : Prop where
  mark : sb.mark = a.mark
  mark_le : sb.mark ≤ sb.len
  len_lt : sb.len < sb.buflen
  nul : sb.s[sb.len]? = some 0
  block : sb.s.length = sb.buflen
  size : sb.buflen < 2 ^ 64
  bytes : sb.s.take sb.len = a.s

/-- The list without the longest run of blanks at its end that does not go below the mark. -/
def stripBlanks (a : StrBuf) : StrBuf :=
  { a with s := a.s.take a.mark ++ (a.s.drop a.mark).rdropWhile isblank }

theorem mark_le_stripBlanks {a : StrBuf} (h : a.mark ≤ a.s.length) :
    a.mark ≤ (stripBlanks a).s.length := by
  rw [stripBlanks, List.length_append, List.length_take, Nat.min_eq_left h]
  exact Nat.le_add_right _ _

/-- `StrBuf.rstrip` takes away the longest run of blanks. -/
theorem rstrip_eq_stripBlanks {a : StrBuf} (h : a.mark ≤ a.s.length) :
    a.rstrip = stripBlanks a := by
  induction a using StrBuf.pushRec with
  | nil mark => simp [StrBuf.rstrip, StrBuf.rstripLoop, stripBlanks]
  | push a c ih =>
    rw [StrBuf.rstrip_push]
    by_cases hle : a.mark ≤ a.s.length
    · have htake : (a.s ++ [c]).take a.mark = a.s.take a.mark := List.take_append_of_le_length hle
      have hdrop : (a.s ++ [c]).drop a.mark = a.s.drop a.mark ++ [c] :=
        List.drop_append_of_le_length hle
      by_cases hblank : isblank c = true
      · rw [if_pos ⟨hle, hblank⟩, ih hle]
        simp only [stripBlanks, StrBuf.push, htake, hdrop, List.rdropWhile_concat_pos _ _ _ hblank]
      · rw [if_neg fun hc => hblank hc.2]
        simp only [stripBlanks, StrBuf.push, htake, hdrop,
          List.rdropWhile_concat_neg _ _ _ hblank]
        rw [← List.append_assoc, List.take_append_drop]
    · -- the mark is behind the last byte
      have hmark : a.mark = (a.s ++ [c]).length := by
        simp only [StrBuf.push, List.length_append, List.length_singleton] at h ⊢
        omega
      rw [if_neg fun hc => hle hc.1]
      simp only [stripBlanks, StrBuf.push, hmark, List.take_length, List.drop_length,
        List.rdropWhile_nil, List.append_nil]

section Represents
variable {sb : StrlibBuf} {a : StrBuf} (junk : ℕ → UInt8)

theorem Represents.carries (h : Represents sb a) : Carries sb a where
  mark := h.mark
  len := by
    have hlen := congrArg List.length h.bytes
    have hlt := h.len_lt
    rw [List.length_take, h.block] at hlen
    omega
  mark_le := h.mark_le
  block := h.block
  size := h.size
  bytes := by
    rw [← h.bytes]
    exact List.take_prefix _ _

/-- The buffer stands for the list when the NUL is there. -/
theorem Carries.represents (h : Carries sb a) (hnul : a.s ++ [0] <+: sb.s) : Represents sb a where
  mark := h.mark
  mark_le := h.mark_le
  len_lt := by
    have hle := hnul.length_le
    rw [List.length_append, List.length_singleton, h.block, ← h.len] at hle
    omega
  nul := by
    obtain ⟨t, ht⟩ := hnul
    simp [← ht, h.len]
  block := h.block
  size := h.size
  bytes := by
    rw [h.len]
    exact (List.prefix_iff_eq_take.mp h.bytes).symm

/-- There is room for `n` bytes and a NUL after `strlib_grow`. -/
theorem Carries.grow (h : Carries sb a) {n : ℕ} (hn : a.s.length + n + 1 < 2 ^ 64) :
    Carries (strlibGrow junk sb n) a ∧ a.s.length + n + 1 ≤ (strlibGrow junk sb n).buflen := by
  have hnew : sizeT (sb.len + n + 1) = a.s.length + n + 1 := by
    rw [h.len, sizeT, Nat.mod_eq_of_lt hn]
  have hsize := h.size
  unfold strlibGrow
  dsimp only
  rw [hnew]
  split
  · -- whatever the product is, the new size is large enough
    obtain ⟨m, hm, hmn, hlt⟩ : ∃ m, m = (if sizeT ((sb.buflen + 16) * 3) / 2 < a.s.length + n + 1
        then a.s.length + n + 1 else sizeT ((sb.buflen + 16) * 3) / 2) ∧
        a.s.length + n + 1 ≤ m ∧ m < 2 ^ 64 := by
      refine ⟨_, rfl, ?_⟩
      unfold sizeT
      split <;> omega
    rw [← hm]
    refine ⟨⟨h.mark, h.len, h.mark_le, Block.length_realloc, hlt, ?_⟩, hmn⟩
    refine h.bytes.trans (Block.prefix_realloc ?_)
    rw [h.block]
    omega
  · exact ⟨h, by omega⟩

/-- Bytes are written after the list. -/
theorem Carries.put (h : Carries sb a) {x : Bytes} (hx : a.s.length + x.length ≤ sb.buflen) :
    ∃ s, sb.write sb.len x = some { sb with s := s } ∧ a.s ++ x <+: s ∧ s.length = sb.buflen := by
  obtain ⟨s, hwrite, hfront, hlength⟩ := Block.exists_write h.bytes (h.block.symm ▸ hx)
  refine ⟨s, ?_, hfront, hlength.trans h.block⟩
  rw [StrlibBuf.write, h.len, hwrite]
  rfl

/-- The bytes become a part of the list. -/
theorem Carries.extend (h : Carries sb a) {x s : Bytes} (hfront : a.s ++ x <+: s)
    (hlength : s.length = sb.buflen) :
    Carries { sb with s := s, len := sizeT (sb.len + x.length) } (a.append x) := by
  have hle := hfront.length_le
  have hsize := h.size
  have hmark := h.mark_le
  rw [List.length_append, hlength] at hle
  have hlen : sizeT (sb.len + x.length) = a.s.length + x.length := by
    rw [h.len, sizeT, Nat.mod_eq_of_lt (by omega)]
  refine ⟨h.mark, ?_, ?_, hlength, h.size, hfront⟩
  · rw [StrBuf.append, List.length_append]
    exact hlen
  · show sb.mark ≤ sizeT (sb.len + x.length)
    rw [hlen, ← h.len]
    omega

/-- The NUL is written after the list. -/
theorem Carries.terminate (h : Carries sb a) (hlt : a.s.length < sb.buflen) :
    ∃ sb', sb.write sb.len [0] = some sb' ∧ Represents sb' a := by
  obtain ⟨s, hwrite, hfront, hlength⟩ := h.put (x := [0]) hlt
  refine ⟨_, hwrite, Carries.represents ?_ hfront⟩
  exact ⟨h.mark, h.len, h.mark_le, hlength, h.size, (List.prefix_append _ _).trans hfront⟩

/-! ## Functions -/

theorem strlibInit_represents :
    ∃ sb, strlibInit junk = some sb ∧ Represents sb .reset := by
  have hempty : Carries ⟨0, 0, 0, []⟩ .reset :=
    ⟨rfl, rfl, Nat.le_refl _, rfl, by decide, List.prefix_refl _⟩
  obtain ⟨hgrow, hroom⟩ := hempty.grow junk (n := 1) (by decide)
  exact hgrow.terminate (Nat.lt_of_lt_of_le (by decide) hroom)

theorem Represents.reset (h : Represents sb a) :
    ∃ sb', strlibReset sb = some sb' ∧ Represents sb' .reset := by
  have hcarries : Carries { sb with len := 0, mark := 0 } .reset :=
    ⟨rfl, rfl, Nat.le_refl _, h.block, h.size, List.nil_prefix⟩
  exact hcarries.terminate (Nat.zero_lt_of_lt h.len_lt)

theorem Represents.setmark (h : Represents sb a) :
    Represents (strlibSetmark sb sb.len) (a.setmark a.s.length) :=
  ⟨h.carries.len, Nat.le_refl _, h.len_lt, h.nul, h.block, h.size, h.bytes⟩

theorem Represents.append (h : Represents sb a) {x : Bytes}
    (hsize : a.s.length + x.length + 1 < 2 ^ 64) :
    ∃ sb', strlibAppend junk sb x = some sb' ∧ Represents sb' (a.append x) := by
  -- first the bytes, over the old NUL, then the new NUL
  obtain ⟨hgrow, hroom⟩ := h.carries.grow junk hsize
  obtain ⟨s, hwrite, hfront, hlength⟩ := hgrow.put (x := x) (by omega)
  have hextend := hgrow.extend hfront hlength
  obtain ⟨sb', hnul, hsb'⟩ := hextend.terminate (by
    rw [StrBuf.append, List.length_append]
    exact hroom)
  refine ⟨sb', ?_, hsb'⟩
  rw [strlibAppend, hwrite]
  exact hnul

theorem Represents.appendbuf (h : Represents sb a) {src : StrlibBuf} {b : StrBuf}
    (hsrc : Represents src b) (hsize : a.s.length + b.s.length + 1 < 2 ^ 64) :
    ∃ sb', strlibAppendbuf junk sb src = some sb' ∧ Represents sb' (a.append b.s) := by
  have hle : src.len ≤ src.s.length := by
    rw [hsrc.block]
    exact Nat.le_of_lt hsrc.len_lt
  rw [strlibAppendbuf, if_pos hle, hsrc.bytes]
  exact h.append junk hsize

/-- The loop of `strlib_rstrip` reads inside of the block and finds the new length. -/
theorem rstripLen_eq {s : Bytes} (h : a.s <+: s) :
    rstripLen s a.mark a.s.length = some a.rstrip.s.length := by
  induction a using StrBuf.pushRec with
  | nil mark => rfl
  | push a c ih =>
    have ha : a.s <+: s := (List.prefix_append _ _).trans h
    have hc : s[a.s.length]? = some c := by
      obtain ⟨t, rfl⟩ := h
      simp [StrBuf.push]
    have hlength : (a.s ++ [c]).length = a.s.length + 1 := by simp
    rw [StrBuf.rstrip_push]
    simp only [StrBuf.push, hlength, rstripLen, hc, Nat.lt_succ_iff, gt_iff_lt]
    by_cases hmark : a.mark ≤ a.s.length
    · by_cases hblank : isblank c = true
      · simp only [hmark, hblank, and_self, if_true]
        exact ih ha
      · simp [hmark, hblank]
    · simp [hmark]

theorem Represents.rstrip (h : Represents sb a) :
    ∃ sb', strlibRstrip sb = some sb' ∧ Represents sb' (stripBlanks a) := by
  have hcarries := h.carries
  have hmark : a.mark ≤ a.s.length := by
    rw [← hcarries.mark, ← hcarries.len]
    exact h.mark_le
  have hlt := h.len_lt
  have hlen := rstripLen_eq hcarries.bytes
  have hfront := StrBuf.rstrip_prefix a
  have hshorter := hfront.length_le
  have heq := rstrip_eq_stripBlanks hmark
  rw [heq] at hlen hfront hshorter
  have hcut : Carries { sb with len := (stripBlanks a).s.length } (stripBlanks a) :=
    ⟨h.mark, rfl, h.mark.symm ▸ mark_le_stripBlanks hmark, h.block, h.size,
      hfront.trans hcarries.bytes⟩
  have hloop : rstripLen sb.s sb.mark sb.len = some (stripBlanks a).s.length := by
    rw [hcarries.mark, hcarries.len, hlen]
  rw [strlibRstrip, hloop]
  exact hcut.terminate (by
    show _ < sb.buflen
    rw [hcarries.len] at hlt
    omega)

theorem sizeSub_eq {m n : ℕ} (hle : n ≤ m) (hm : m < 2 ^ 64) : sizeSub m n = m - n := by
  unfold sizeSub sizeT
  omega

theorem intOfSize_le (n : ℕ) : intOfSize n ≤ n := by
  unfold intOfSize
  split <;> omega

/-- `vsnprintf` writes what there is room for, and a NUL. -/
theorem Carries.vsnprintf (h : Carries sb a) (hlt : sb.len < sb.buflen) {out : Bytes}
    (hint : (out.length : Int) ≤ INT_MAX) :
    ∃ s, vsnprintf sb sb.len (sizeSub sb.buflen sb.len) out =
        some ({ sb with s := s }, (out.length : Int)) ∧
      a.s ++ (out.take (sb.buflen - sb.len - 1) ++ [0]) <+: s ∧ s.length = sb.buflen := by
  have hsub := sizeSub_eq (Nat.le_of_lt hlt) h.size
  have hlen := h.len
  obtain ⟨s, hwrite, hfront, hlength⟩ :=
    h.put (x := out.take (sb.buflen - sb.len - 1) ++ [0]) (by
      rw [List.length_append, List.length_take, List.length_singleton]
      omega)
  have hne : sb.buflen - sb.len ≠ 0 := by omega
  refine ⟨s, ?_, hfront, hlength⟩
  rw [Config.vsnprintf, hsub, if_neg hne, hwrite, Option.map_some, if_pos hint]

/-- The formatted string has been written with its NUL. -/
theorem Carries.formatted (h : Carries sb a) {out s : Bytes} (hfront : a.s ++ (out ++ [0]) <+: s)
    (hlength : s.length = sb.buflen) :
    Represents { sb with s := s, len := sizeT (sb.len + out.length) } (a.append out) := by
  rw [← List.append_assoc] at hfront
  exact (h.extend ((List.prefix_append _ _).trans hfront) hlength).represents hfront

theorem Represents.vappendf (h : Represents sb a) {out : Bytes}
    (hsize : a.s.length + out.length + 1 < 2 ^ 64) (hint : (out.length : Int) ≤ INT_MAX) :
    ∃ sb', strlibVappendf junk sb out = some sb' ∧ Represents sb' (a.append out) := by
  have hcarries := h.carries
  have hsub := sizeSub_eq (Nat.le_of_lt h.len_lt) h.size
  obtain ⟨s, hfirst, hfront, hlength⟩ := hcarries.vsnprintf h.len_lt hint
  have hint' := intOfSize_le (sb.buflen - sb.len)
  rw [strlibVappendf, hfirst, Option.bind_some, if_neg (by omega)]
  dsimp only
  rw [hsub]
  split
  · -- the string may have been cut: it is written again into a larger block
    have htried : Carries { sb with s := s } a :=
      ⟨h.mark, hcarries.len, h.mark_le, hlength, h.size, (List.prefix_append _ _).trans hfront⟩
    obtain ⟨hgrow, hroom⟩ := htried.grow junk hsize
    have hlen := hgrow.len
    obtain ⟨s', hsecond, hfront', hlength'⟩ := hgrow.vsnprintf (by omega) hint
    rw [List.take_of_length_le (by omega)] at hfront'
    rw [Int.toNat_natCast, hsecond]
    exact ⟨_, rfl, hgrow.formatted hfront' hlength'⟩
  · -- a length below the `int` of the size is below the size
    rw [List.take_of_length_le (by omega)] at hfront
    rw [Int.toNat_natCast]
    exact ⟨_, rfl, hcarries.formatted hfront hlength⟩

end Represents

/-! ## Calls -/

/-- A call for one buffer. `setmark` is `strlib_setmark(sb, sb->len)`. -/
inductive StrOp where
  | reset
  | setmark
  | push (c : UInt8)
  | append (s : Bytes)
  | appendf (out : Bytes)
  | rstrip
deriving DecidableEq, Repr

/-- A call for the buffer `p`, or for two buffers. -/
inductive StrCall where
  | init (p : ℕ)
  | on (p : ℕ) (op : StrOp)
  | appendbuf (dest src : ℕ)
deriving DecidableEq, Repr

/-- What a call does to a buffer. -/
def StrOp.run (junk : ℕ → UInt8) (sb : StrlibBuf) : StrOp → Option StrlibBuf
  | .reset => strlibReset sb
  | .setmark => some (strlibSetmark sb sb.len)
  | .push c => strlibPush junk sb c
  | .append s => strlibAppend junk sb s
  | .appendf out => strlibVappendf junk sb out
  | .rstrip => strlibRstrip sb

/-- What a call does to the buffers of the program, where a buffer that has not been initialised is
`none`. A buffer cannot be appended to itself: `strlib_grow` may free the block that is read. -/
def StrCall.run (junk : ℕ → UInt8) (bufs : ℕ → Option StrlibBuf) :
    StrCall → Option (ℕ → Option StrlibBuf)
  | .init p => (strlibInit junk).map fun sb => Function.update bufs p (some sb)
  | .on p op =>
    (bufs p).bind fun sb => (op.run junk sb).map fun sb' => Function.update bufs p (some sb')
  | .appendbuf dest src =>
    if dest = src then none
    else
      (bufs dest).bind fun sb => (bufs src).bind fun sb' =>
        (strlibAppendbuf junk sb sb').map fun sb'' => Function.update bufs dest (some sb'')

/-- What a call does to a list. -/
def StrOp.apply (a : StrBuf) : StrOp → StrBuf
  | .reset => .reset
  | .setmark => a.setmark a.s.length
  | .push c => a.push c
  | .append s => a.append s
  | .appendf out => a.append out
  | .rstrip => stripBlanks a

/-- The sizes do not overflow: `len + n + 1` is a `size_t`, and the length of a formatted string is
an `int`. -/
def StrOp.Fits (a : StrBuf) : StrOp → Prop
  | .push _ => a.s.length + 1 + 1 < 2 ^ 64
  | .append s => a.s.length + s.length + 1 < 2 ^ 64
  | .appendf out => a.s.length + out.length + 1 < 2 ^ 64 ∧ (out.length : Int) ≤ INT_MAX
  | .reset | .setmark | .rstrip => True

instance (a : StrBuf) (op : StrOp) : Decidable (op.Fits a) :=
  match op with
  | .push _ => inferInstanceAs (Decidable (_ < _))
  | .append _ => inferInstanceAs (Decidable (_ < _))
  | .appendf _ => inferInstanceAs (Decidable (_ ∧ _))
  | .reset | .setmark | .rstrip => inferInstanceAs (Decidable True)

/-- What a call does to the lists. `none` when the sizes overflow, when a buffer has not been
initialised or when a buffer is appended to itself. -/
def StrCall.apply (lists : ℕ → Option StrBuf) : StrCall → Option (ℕ → Option StrBuf)
  | .init p => some (Function.update lists p (some .reset))
  | .on p op =>
    (lists p).bind fun a =>
      if op.Fits a then some (Function.update lists p (some (op.apply a))) else none
  | .appendbuf dest src =>
    if dest = src then none
    else
      (lists dest).bind fun a => (lists src).bind fun b =>
        if (StrOp.append b.s).Fits a then some (Function.update lists dest (some (a.append b.s)))
        else none

section Calls
variable (junk : ℕ → UInt8) {bufs : ℕ → Option StrlibBuf} {lists lists' : ℕ → Option StrBuf}

theorem Represents.op {sb : StrlibBuf} {a : StrBuf} (h : Represents sb a) {op : StrOp}
    (hfits : op.Fits a) : ∃ sb', op.run junk sb = some sb' ∧ Represents sb' (op.apply a) := by
  cases op with
  | reset => exact h.reset
  | setmark => exact ⟨_, rfl, h.setmark⟩
  | push c => exact h.append junk (x := [c]) hfits
  | append s => exact h.append junk hfits
  | appendf out => exact h.vappendf junk hfits.1 hfits.2
  | rstrip => exact h.rstrip

/-- Every buffer stands for its list. -/
def AllRepresent (bufs : ℕ → Option StrlibBuf) (lists : ℕ → Option StrBuf) : Prop :=
  ∀ p, Option.Rel Represents (bufs p) (lists p)

theorem AllRepresent.update (h : AllRepresent bufs lists) {sb : StrlibBuf} {a : StrBuf}
    (hsb : Represents sb a) (p : ℕ) :
    AllRepresent (Function.update bufs p (some sb)) (Function.update lists p (some a)) := by
  intro q
  by_cases hq : q = p
  · rw [hq, Function.update_self, Function.update_self]
    exact .some hsb
  · rw [Function.update_of_ne hq, Function.update_of_ne hq]
    exact h q

theorem AllRepresent.exists_buf (h : AllRepresent bufs lists) {p : ℕ} {a : StrBuf}
    (ha : lists p = some a) : ∃ sb, bufs p = some sb ∧ Represents sb a := by
  have hp := h p
  rw [ha] at hp
  cases hb : bufs p with
  | none =>
    rw [hb] at hp
    cases hp
  | some sb =>
    rw [hb] at hp
    cases hp with
    | some hsb => exact ⟨sb, rfl, hsb⟩

/-- One call. -/
theorem AllRepresent.call (h : AllRepresent bufs lists) {call : StrCall}
    (hcall : call.apply lists = some lists') :
    ∃ bufs', call.run junk bufs = some bufs' ∧ AllRepresent bufs' lists' := by
  cases call with
  | init p =>
    obtain ⟨sb, hinit, hsb⟩ := strlibInit_represents junk
    cases hcall
    rw [StrCall.run, hinit]
    exact ⟨_, rfl, h.update hsb p⟩
  | on p op =>
    obtain ⟨a, ha, hop⟩ := Option.bind_eq_some_iff.mp hcall
    split at hop
    · rename_i hfits
      cases hop
      obtain ⟨sb, hp, hsb⟩ := h.exists_buf ha
      obtain ⟨sb', hrun, hsb'⟩ := hsb.op junk hfits
      rw [StrCall.run, hp, Option.bind_some, hrun]
      exact ⟨_, rfl, h.update hsb' p⟩
    · cases hop
  | appendbuf dest src =>
    rw [StrCall.apply] at hcall
    split at hcall
    · cases hcall
    · rename_i hne
      obtain ⟨a, ha, hcall⟩ := Option.bind_eq_some_iff.mp hcall
      obtain ⟨b, hb, hcall⟩ := Option.bind_eq_some_iff.mp hcall
      split at hcall
      · rename_i hfits
        cases hcall
        obtain ⟨sb, hdest, hsb⟩ := h.exists_buf ha
        obtain ⟨sb', hsrc, hsb'⟩ := h.exists_buf hb
        obtain ⟨sb'', hrun, hsb''⟩ := hsb.appendbuf junk hsb' hfits
        rw [StrCall.run, if_neg hne, hdest, Option.bind_some, hsrc, Option.bind_some, hrun]
        exact ⟨_, rfl, h.update hsb'' dest⟩
      · cases hcall

/-- Any calls. -/
theorem AllRepresent.calls (h : AllRepresent bufs lists) {calls : List (StrCall × (ℕ → UInt8))}
    (hcalls : calls.foldlM (fun lists call => call.1.apply lists) lists = some lists') :
    ∃ bufs', calls.foldlM (fun bufs call => call.1.run call.2 bufs) bufs = some bufs' ∧
      AllRepresent bufs' lists' := by
  induction calls generalizing bufs lists with
  | nil =>
    cases hcalls
    exact ⟨bufs, rfl, h⟩
  | cons call calls ih =>
    rw [List.foldlM_cons] at hcalls
    obtain ⟨lists₁, hcall, hcalls⟩ := Option.bind_eq_some_iff.mp hcalls
    obtain ⟨bufs₁, hrun, h₁⟩ := h.call call.2 hcall
    obtain ⟨bufs', hruns, h'⟩ := ih h₁ hcalls
    refine ⟨bufs', ?_, h'⟩
    rw [List.foldlM_cons, hrun]
    exact hruns

end Calls

/-- The buffers refine the lists: after every sequence of calls, each of which can find anything in
the new part of a block. -/
theorem strlib_refines (calls : List (StrCall × (ℕ → UInt8))) (lists : ℕ → Option StrBuf)
    (h : calls.foldlM (fun lists call => call.1.apply lists) (fun _ => none) = some lists) :
    ∃ bufs, calls.foldlM (fun bufs call => call.1.run call.2 bufs) (fun _ => none) = some bufs ∧
      ∀ p, Option.Rel Represents (bufs p) (lists p) := by
  have hnone : AllRepresent (fun _ => none) (fun _ => none) := fun _ => .none
  exact hnone.calls h

/-- Calls that make a block larger: `a`, 25 times `b` by `strlib_appendf`, and blanks before and
after the mark, of which the last ones are taken away. -/
def formatCalls : List (StrCall × (ℕ → UInt8)) :=
  [.init 0, .init 1, .on 0 (.push 97), .on 0 (.appendf (List.replicate 25 98)), .on 0 (.push 32),
    .on 0 .setmark, .on 0 (.append [32, 9]), .on 0 .rstrip, .appendbuf 1 0].map fun call =>
      (call, fun i => UInt8.ofNat i)

/-- These calls build the same string in both buffers. -/
theorem strlib_refines_formatCalls :
    ∃ lists bufs,
      formatCalls.foldlM (fun lists call => call.1.apply lists) (fun _ => none) = some lists ∧
      lists 0 = some ⟨97 :: List.replicate 25 98 ++ [32], 27⟩ ∧
      lists 1 = some ⟨97 :: List.replicate 25 98 ++ [32], 0⟩ ∧
      formatCalls.foldlM (fun bufs call => call.1.run call.2 bufs) (fun _ => none) = some bufs ∧
      ∀ p, Option.Rel Represents (bufs p) (lists p) := by
  obtain ⟨bufs, hrun, hall⟩ := strlib_refines formatCalls _ rfl
  exact ⟨_, bufs, rfl, rfl, rfl, hrun, hall⟩

end Config
end Campagnol
