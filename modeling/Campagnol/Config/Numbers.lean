import Campagnol.Config.Io
import Mathlib.Data.Nat.Digits.Defs

/-!
# Numbers in the configuration

The conversion of values to `int` (`parser_get_long` and `parser_get_int` of
`common/config_parser.c`) and the options of the client that are checked against a lower bound
(`parseConfFile` of `client/configuration.c`). `IntOption.accepts_iff`: every `int` from the bound
on can be configured.
-/

namespace Campagnol
namespace Config

/-! ## `strtol` -/

/-- `isspace`, in the C locale. -/
def isspace (c : UInt8) : Bool := c = space || 9 ≤ c && c ≤ 13

/-- The number written with some digits. -/
def digitsValue (ds : Bytes) : ℕ := ds.foldl (fun n c => 10 * n + (c.toNat - 48)) 0

/-- What `strtol` finds: whether there is a sign, and the digits. -/
def scanNumber (s : Bytes) : Bool × Bytes :=
  match s.dropWhile isspace with
  | 45 :: rest => (true, rest.takeWhile isdigit)
  | 43 :: rest => (false, rest.takeWhile isdigit)
  | rest => (false, rest.takeWhile isdigit)

def LONG_MAX : Int := 0x7FFFFFFFFFFFFFFF
def LONG_MIN : Int := -0x8000000000000000
def INT_MAX : Int := 0x7FFFFFFF
def INT_MIN : Int := -0x80000000

/-- `strtol` to base 10, with the tests of `parser_get_long`: `none` when there are no digits or
the number is out of range. -/
def strtol (s : CString) : Option Int :=
  let (neg, ds) := scanNumber s.bytes
  let i : Int := if neg then -digitsValue ds else digitsValue ds
  if ds = [] ∨ i < LONG_MIN ∨ LONG_MAX < i then none else some i

/-! ## `parser_get_int` -/

/-- The results -1, 0 and 1 of the conversions. -/
inductive Conversion (α : Type) where
  | missing
  | invalid
  | value (x : α)
deriving DecidableEq, Repr

/-- A value as the conversions use it: its line and its expanded string. -/
structure Item where
  nline : ℕ
  expanded : CString
deriving DecidableEq, Repr

/-- `parser_get_long`, from what `parser_get` returns. -/
def parserGetLong : Option Item → Conversion Int
  | none => .missing
  | some item =>
    match strtol item.expanded with
    | none => .invalid
    | some i => .value i

/-- `parser_get_int`. -/
def parserGetInt (item : Option Item) : Conversion Int :=
  match parserGetLong item with
  | .value tmp => if tmp ≤ INT_MAX ∧ INT_MIN ≤ tmp then .value tmp else .invalid
  | r => r

/-! ## Options -/

/-- An `int` option with a lower bound, and the messages for wrong values. -/
structure IntOption where
  name : String
  bound : Int
  default : Int
  tooSmall : String
  notValid : String
deriving DecidableEq, Repr

/-- `timeout`. -/
def optTimeout : IntOption where
  name := "timeout"
  bound := 5
  default := 120
  tooSmall := "Timeout value %d must be >= 5"
  notValid := "Timeout value is not valid: \"%s\""

/-- `tun_mtu`. -/
def optTunMtu : IntOption where
  name := "tun_mtu"
  bound := 150
  default := 1419
  tooSmall := "MTU of the tun device %d must be >= 150"
  notValid := "MTU of the tun device is not valid: \"%s\""

/-- A message of `parseConfFile`: the option, the line and the text with its argument. -/
inductive OptionError where
  | tooSmall (name : String) (nline : ℕ) (text : String) (x : Int)
  | notValid (name : String) (nline : ℕ) (text : String) (s : CString)
deriving DecidableEq, Repr

/-- What `parseConfFile` does for an option. Without a value the option keeps its default. -/
def parseIntOption (o : IntOption) (item : Option Item) : Except OptionError Int :=
  match item, parserGetInt item with
  | some v, .value x =>
    if x < o.bound then .error (.tooSmall o.name v.nline o.tooSmall x) else .ok x
  | some v, .invalid => .error (.notValid o.name v.nline o.notValid v.expanded)
  | _, _ => .ok o.default

/-- Some configuration sets the option to `x`. -/
def IntOption.Accepts (o : IntOption) (x : Int) : Prop := ∃ item, parseIntOption o item = .ok x

/-! ## The accepted values -/

/-- The decimal digits of a number. -/
def decimal (n : ℕ) : Bytes := (Nat.digits 10 n).reverse.map fun d => UInt8.ofNat (48 + d)

theorem digitsValue_decimal (n : ℕ) : digitsValue (decimal n) = n := by
  have hfold : ∀ ds : List ℕ, (∀ d ∈ ds, d < 10) →
      digitsValue (ds.reverse.map fun d => UInt8.ofNat (48 + d)) = Nat.ofDigits 10 ds := by
    intro ds hds
    induction ds with
    | nil => rfl
    | cons d ds ih =>
      have hd : (UInt8.ofNat (48 + d)).toNat - 48 = d := by
        have hlt := hds d List.mem_cons_self
        rw [UInt8.toNat_ofNat']
        omega
      have htail := ih fun d' hd' => hds d' (List.mem_cons_of_mem _ hd')
      simp only [digitsValue] at htail
      simp only [digitsValue, List.reverse_cons, List.map_append, List.map_cons, List.map_nil,
        List.foldl_append, List.foldl_cons, List.foldl_nil, htail, hd, Nat.ofDigits_cons]
      exact Nat.add_comm _ _
  rw [decimal, hfold _ fun d hd => Nat.digits_lt_base (by decide) hd, Nat.ofDigits_digits]

theorem isdigit_of_mem_decimal {n : ℕ} {c : UInt8} (h : c ∈ decimal n) : isdigit c = true := by
  obtain ⟨d, hd, rfl⟩ := List.mem_map.mp h
  have hdigits : ∀ d < 10, isdigit (UInt8.ofNat (48 + d)) = true := by decide
  exact hdigits d (Nat.digits_lt_base (by decide) (List.mem_reverse.mp hd))

theorem isspace_of_isdigit {c : UInt8} (h : isdigit c = true) : isspace c = false := by
  simp only [isdigit, Bool.and_eq_true, decide_eq_true_eq, UInt8.le_iff_toNat_le] at h
  have hlow : 48 ≤ c.toNat := h.1
  simp only [isspace, Bool.or_eq_false_iff, Bool.and_eq_false_iff, decide_eq_false_iff_not,
    UInt8.le_iff_toNat_le]
  constructor
  · rintro rfl
    exact absurd hlow (by decide)
  · right
    show ¬ c.toNat ≤ 13
    omega

/-- A string of digits is a number without a sign. -/
theorem scanNumber_digits {ds : Bytes} (h : ∀ c ∈ ds, isdigit c = true) :
    scanNumber ds = (false, ds) := by
  have htake : ds.takeWhile isdigit = ds := List.takeWhile_eq_self_iff.mpr h
  have hdrop : ds.dropWhile isspace = ds := by
    cases ds with
    | nil => rfl
    | cons c ds =>
      rw [List.dropWhile_cons_of_neg]
      rw [isspace_of_isdigit (h c List.mem_cons_self)]
      decide
  rw [scanNumber, hdrop]
  split
  · exact absurd (h 45 List.mem_cons_self) (by decide)
  · exact absurd (h 43 List.mem_cons_self) (by decide)
  · rw [htake]

theorem strtol_decimal {n : ℕ} (hpos : 0 < n) (hmax : (n : Int) ≤ LONG_MAX) {s : CString}
    (hs : s.bytes = decimal n) : strtol s = some (n : Int) := by
  have hne : decimal n ≠ [] := by
    simp [decimal, Nat.digits_ne_nil_iff_ne_zero, Nat.ne_of_gt hpos]
  have hmin : ¬ (n : Int) < LONG_MIN := by
    simp only [LONG_MIN]
    omega
  rw [strtol, hs, scanNumber_digits fun c hc => isdigit_of_mem_decimal hc]
  simp only [Bool.false_eq_true, if_false, digitsValue_decimal, hne, false_or, hmin]
  rw [if_neg (by omega)]

/-- Every `int` from the bound on can be configured, and nothing else. -/
theorem IntOption.accepts_iff {o : IntOption} (hbound : 0 < o.bound)
    (hdefault : o.bound ≤ o.default)
    (hmax : o.default ≤ INT_MAX) (x : Int) : o.Accepts x ↔ o.bound ≤ x ∧ x ≤ INT_MAX := by
  constructor
  · rintro ⟨item, hitem⟩
    unfold parseIntOption at hitem
    split at hitem
    · rename_i v y hget
      split at hitem
      · cases hitem
      · cases hitem
        -- `parser_get_int` has checked the range
        unfold parserGetInt at hget
        split at hget
        · split at hget
          · rename_i hrange
            cases hget
            exact ⟨by omega, hrange.1⟩
          · cases hget
        · rename_i hnot
          exact absurd hget (hnot _)
    · cases hitem
    · cases hitem
      exact ⟨hdefault, hmax⟩
  · rintro ⟨hlow, hhigh⟩
    obtain ⟨n, rfl⟩ : ∃ n : ℕ, x = n := ⟨x.toNat, by omega⟩
    have hpos : 0 < n := by omega
    have hlong : (n : Int) ≤ LONG_MAX := by
      simp only [INT_MAX] at hhigh
      simp only [LONG_MAX]
      omega
    have hmin : INT_MIN ≤ (n : Int) := by
      simp only [INT_MIN]
      omega
    have hnul : 0 ∉ decimal n := fun h0 => absurd (isdigit_of_mem_decimal h0) (by decide)
    obtain ⟨item, hitem⟩ : ∃ item : Item, item = ⟨1, decimal n, hnul⟩ := ⟨_, rfl⟩
    have hget : parserGetInt (some item) = .value (n : Int) := by
      have hstrtol := strtol_decimal (s := item.expanded) hpos hlong (by rw [hitem])
      simp only [parserGetInt, parserGetLong, hstrtol, hhigh, hmin, and_self, if_true]
    refine ⟨some item, ?_⟩
    simp only [parseIntOption, hget]
    rw [if_neg (by omega)]

theorem optTimeout_accepts_iff (x : Int) : optTimeout.Accepts x ↔ 5 ≤ x ∧ x ≤ INT_MAX :=
  IntOption.accepts_iff (by decide) (by decide) (by decide) x

theorem optTunMtu_accepts_iff (x : Int) : optTunMtu.Accepts x ↔ 150 ≤ x ∧ x ≤ INT_MAX :=
  IntOption.accepts_iff (by decide) (by decide) (by decide) x

end Config
end Campagnol
