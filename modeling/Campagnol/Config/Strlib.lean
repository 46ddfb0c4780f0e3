import Mathlib.Data.List.Induction
import Mathlib.Data.List.TakeWhile
import Mathlib.Tactic.Common

/-!
# Strings

Strings of C and the string buffers of `common/strlib.c`. A buffer is the list of its bytes and its
mark; that its memory holds them is shown in `Config.StrlibMemory`.
-/

namespace Campagnol
namespace Config

/-- A run of bytes. -/
abbrev Bytes := List UInt8

/-! ## Characters -/

abbrev tab : UInt8 := 9
abbrev newline : UInt8 := 10
abbrev carriageReturn : UInt8 := 13
abbrev space : UInt8 := 32
/-- The character `"`. -/
abbrev quote : UInt8 := 34
/-- The character `#`. -/
abbrev hash : UInt8 := 35
/-- The character `;`. -/
abbrev semicolon : UInt8 := 59
/-- The character `=`. -/
abbrev equals : UInt8 := 61
/-- The character `[`. -/
abbrev leftBracket : UInt8 := 91
abbrev backslash : UInt8 := 92
/-- The character `]`. -/
abbrev rightBracket : UInt8 := 93

/-- `isblank`, in the C locale. -/
def isblank (c : UInt8) : Bool := c = space || c = tab

/-! ## Strings of C -/

/-- The bytes of a string before its terminating NUL. -/
structure CString where
  bytes : Bytes
  nul_free : 0 ∉ bytes
deriving DecidableEq, Repr

theorem CString.bytes_injective : Function.Injective CString.bytes := by
  rintro ⟨a, ha⟩ ⟨b, hb⟩ rfl
  rfl

instance : Inhabited CString := ⟨⟨[], by simp⟩⟩

/-- The string that starts at the first byte of a buffer. -/
def cstr (b : Bytes) : CString where
  bytes := b.takeWhile (· ≠ 0)
  nul_free := fun h => by simpa using List.mem_takeWhile_imp h

theorem cstr_of_notMem {b : Bytes} (h : 0 ∉ b) : cstr b = ⟨b, h⟩ := by
  refine CString.bytes_injective ?_
  refine List.takeWhile_eq_self_iff.mpr fun c hc => ?_
  simpa using ne_of_mem_of_not_mem hc h

/-- `strcmp`. -/
def strcmp (a b : CString) : Ordering := compare a.bytes b.bytes

instance : Std.TransCmp strcmp :=
  inferInstanceAs (Std.TransCmp (compareOn CString.bytes))

instance : Std.LawfulEqCmp strcmp where
  eq_of_compare h := CString.bytes_injective (Std.LawfulEqCmp.eq_of_compare h)

/-! ## Buffers -/

/-- `strlib_buf_t`. -/
structure StrBuf where
  s : Bytes
  mark : ℕ
deriving DecidableEq, Repr

namespace StrBuf

/-- `strlib_init` and `strlib_reset`. -/
def reset : StrBuf := ⟨[], 0⟩

/-- `strlib_setmark`. -/
def setmark (sb : StrBuf) (mark : ℕ) : StrBuf := { sb with mark := mark }

/-- `strlib_push`. -/
def push (sb : StrBuf) (c : UInt8) : StrBuf := { sb with s := sb.s ++ [c] }

/-- `strlib_append`. -/
def append (sb : StrBuf) (s : Bytes) : StrBuf := { sb with s := sb.s ++ s }

/-- The loop of `strlib_rstrip`, from the length `len`. -/
def rstripLoop (mark : ℕ) : ℕ → Bytes → Bytes
  | 0, s => s
  | len + 1, s =>
    if mark < len + 1 ∧ s.getLast?.any isblank then rstripLoop mark len s.dropLast else s

/-- `strlib_rstrip`. -/
def rstrip (sb : StrBuf) : StrBuf := { sb with s := rstripLoop sb.mark sb.s.length sb.s }

@[simp] theorem push_append (sb : StrBuf) (c : UInt8) (s : Bytes) :
    (sb.push c).append s = sb.append (c :: s) := by
  simp [push, append]

@[simp] theorem append_nil (sb : StrBuf) : sb.append [] = sb := by
  simp [append]

@[simp] theorem append_append (sb : StrBuf) (s s' : Bytes) :
    (sb.append s).append s' = sb.append (s ++ s') := by
  simp [append]

/-- A buffer is built by pushes. -/
@[elab_as_elim]
theorem pushRec {P : StrBuf → Prop} (nil : ∀ mark, P ⟨[], mark⟩)
    (push : ∀ sb c, P sb → P (sb.push c)) (sb : StrBuf) : P sb := by
  obtain ⟨s, mark⟩ := sb
  induction s using List.reverseRecOn with
  | nil => exact nil mark
  | append_singleton s c ih => exact push ⟨s, mark⟩ c ih

/-! ## Blanks at the end of a buffer -/

theorem rstrip_push (sb : StrBuf) (c : UInt8) :
    (sb.push c).rstrip =
      if sb.mark ≤ sb.s.length ∧ isblank c = true then sb.rstrip else sb.push c := by
  simp only [rstrip, push, List.length_append, List.length_singleton, rstripLoop,
    List.getLast?_concat, Option.any_some, List.dropLast_concat, Nat.lt_succ_iff]
  split <;> rfl

/-- The buffer does not end with a blank that `strlib_rstrip` takes away. -/
structure Stripped (sb : StrBuf) : Prop where
  mark_le : sb.mark ≤ sb.s.length
  last : sb.mark = sb.s.length ∨ ∀ c ∈ sb.s.getLast?, isblank c = false

theorem Stripped.rstrip_self {sb : StrBuf} (h : sb.Stripped) : sb.rstrip = sb := by
  obtain ⟨s, mark⟩ := sb
  rcases List.eq_nil_or_concat s with rfl | ⟨s, c, rfl⟩
  · rfl
  · rw [List.concat_eq_append] at *
    refine (rstrip_push ⟨s, mark⟩ c).trans (if_neg ?_)
    rintro ⟨hle, hblank⟩
    rcases h.last with heq | hlast
    · simp only [List.length_append, List.length_singleton] at heq hle
      omega
    · rw [hlast c (by simp)] at hblank
      cases hblank

/-- The blanks after a stripped buffer are taken away. -/
theorem Stripped.rstrip_append {sb : StrBuf} {b : Bytes} (h : sb.Stripped)
    (hb : ∀ c ∈ b, isblank c = true) : (sb.append b).rstrip = sb := by
  induction b using List.reverseRecOn with
  | nil =>
    rw [append_nil]
    exact h.rstrip_self
  | append_singleton b c ih =>
    have hpush : sb.append (b ++ [c]) = (sb.append b).push c := by
      simp [append, push]
    have hmark : (sb.append b).mark ≤ (sb.append b).s.length := by
      refine Nat.le_trans h.mark_le ?_
      simp [append]
    rw [hpush, rstrip_push, if_pos ⟨hmark, hb c (by simp)⟩]
    exact ih fun d hd => hb d (List.mem_append_left _ hd)

theorem rstrip_prefix (sb : StrBuf) : sb.rstrip.s <+: sb.s := by
  induction sb using pushRec with
  | nil mark => exact List.prefix_refl _
  | push sb c ih =>
    rw [rstrip_push]
    split
    · exact ih.trans (List.prefix_append _ _)
    · exact List.prefix_refl _

/-- A text that does not end with a blank stays at the start of the buffer. -/
theorem prefix_rstrip {sb : StrBuf} {P : Bytes} (h : P <+: sb.s)
    (hlast : ∀ c ∈ P.getLast?, isblank c = false) : P <+: sb.rstrip.s := by
  induction sb using pushRec with
  | nil mark => exact h
  | push sb c ih =>
    rw [rstrip_push]
    split
    · rename_i hblank
      rcases List.prefix_concat_iff.mp h with rfl | hs
      · have hc := hlast c (by simp)
        rw [hblank.2] at hc
        cases hc
      · exact ih hs
    · exact h

end StrBuf
end Config
end Campagnol
