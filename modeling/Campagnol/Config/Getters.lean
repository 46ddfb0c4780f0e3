import Campagnol.Config.Expansion
import Campagnol.Config.Numbers

/-!
# Conversions of values

The functions of `common/config_parser.c` that get a value as an integer: `parser_get_int`,
`parser_get_uint`, `parser_get_short` and `parser_get_ushort`, where `long` has 64 bits.

* `Denotes`: the number at the start of a text;
* `ParserContext.getNumber`: a call, with the variable that receives the number;
* `getNumber_exact_iff`: the call gives the number of the text, or says that it is out of range.
  The unsigned conversions take a number slightly above -2⁶⁴ for a small positive one.
-/

namespace Campagnol
namespace Config

/-! ## Conversions -/

def ULONG_MAX : Int := 0xFFFFFFFFFFFFFFFF
def UINT_MAX : Int := 0xFFFFFFFF
def USHRT_MAX : Int := 0xFFFF
def SHRT_MAX : Int := 0x7FFF
def SHRT_MIN : Int := -0x8000

/-- `strtoul` to base 10, with the tests of `parser_get_ulong`: `none` when there are no digits or
the digits are out of range. A `-` negates the number in `unsigned long`. -/
def strtoul (s : CString) : Option Int :=
  let (neg, ds) := scanNumber s.bytes
  let i : Int := digitsValue ds
  if ds = [] ∨ ULONG_MAX < i then none else some (if neg then -i % 2 ^ 64 else i)

/-- `parser_get_ulong`, from what `parser_get` returns. -/
def parserGetUlong : Option Item → Conversion Int
  | none => .missing
  | some item =>
    match strtoul item.expanded with
    | none => .invalid
    | some i => .value i

/-- The end of the unsigned conversions. -/
def narrow (max : Int) : Conversion Int → Conversion Int
  | .value tmp => if tmp ≤ max then .value tmp else .invalid
  | r => r

/-- `parser_get_uint`. -/
def parserGetUint (item : Option Item) : Conversion Int := narrow UINT_MAX (parserGetUlong item)

/-- `parser_get_ushort`. -/
def parserGetUshort (item : Option Item) : Conversion Int := narrow USHRT_MAX (parserGetUlong item)

/-- `parser_get_short`. -/
def parserGetShort (item : Option Item) : Conversion Int :=
  match parserGetLong item with
  | .value tmp => if tmp ≤ SHRT_MAX ∧ SHRT_MIN ≤ tmp then .value tmp else .invalid
  | r => r

/-! ## Calls -/

/-- The type of the variable that receives the number. -/
inductive Target where
  | int | uint | short | ushort
deriving DecidableEq, Repr

namespace Target

/-- The function for a type. -/
def convert : Target → Option Item → Conversion Int
  | int => parserGetInt
  | uint => parserGetUint
  | short => parserGetShort
  | ushort => parserGetUshort

def min : Target → Int
  | int => INT_MIN
  | short => SHRT_MIN
  | uint | ushort => 0

def max : Target → Int
  | int => INT_MAX
  | uint => UINT_MAX
  | short => SHRT_MAX
  | ushort => USHRT_MAX

end Target

/-- The value that a conversion returns. -/
def Conversion.code {α : Type} : Conversion α → Int
  | .missing => -1
  | .invalid => 0
  | .value _ => 1

/-- `*value`, which was `old`, after a conversion. -/
def Conversion.store {α : Type} (old : α) : Conversion α → α
  | .value x => x
  | _ => old

/-- The value at a place of the context. -/
def ParserContext.itemAt (parser : ParserContext) (p : ℕ × ValuePtr) : Option Item :=
  (((parser.sections.item p.1).keys.item p.2.1).valuesList[p.2.2]?).map fun v =>
    ⟨v.nline, cstr v.expanded.s⟩

/-- `parser_get`, with the value expanded. -/
def ParserContext.getItem (parser : ParserContext) (sectionName key : CString) (n : Int) :
    Option (Option Item × ParserContext) :=
  (parserGet sectionName key n true parser).map fun r => (r.1.bind r.2.itemAt, r.2)

/-- What a call leaves: the value it returns, `*value`, `*item` and the context. -/
structure Got where
  result : Int
  value : Int
  item : Option Item
  parser : ParserContext

/-- `parser_get_int`, `parser_get_uint`, `parser_get_short` and `parser_get_ushort`. -/
def ParserContext.getNumber (parser : ParserContext) (target : Target) (sectionName key : CString)
    (n value : Int) : Option Got :=
  (parser.getItem sectionName key n).map fun r =>
    ⟨(target.convert r.1).code, (target.convert r.1).store value, r.1, r.2⟩

/-! ## Numbers in texts -/

/-- The text starts, after white space and a sign, with digits, and the number that they denote
is `v`. -/
def Denotes (s : Bytes) (v : Int) : Prop :=
  ∃ ws sign ds rest, s = ws ++ (sign ++ (ds ++ rest)) ∧ (∀ c ∈ ws, isspace c = true) ∧
    (sign = [] ∨ sign = [43] ∨ sign = [45]) ∧ ds ≠ [] ∧ (∀ c ∈ ds, isdigit c = true) ∧
    (∀ c ∈ rest.head?, isdigit c = false) ∧
    v = if sign = [45] then -(digitsValue ds : Int) else digitsValue ds

/-- The number that `scanNumber` finds. -/
def scanned (s : Bytes) : Option Int :=
  if (scanNumber s).2 = [] then none
  else some (if (scanNumber s).1 then -(digitsValue (scanNumber s).2 : Int)
    else digitsValue (scanNumber s).2)

section Scanning
variable {s ds rest : Bytes} {v : Int}

theorem takeWhile_digits (hds : ∀ c ∈ ds, isdigit c = true)
    (hrest : ∀ c ∈ rest.head?, isdigit c = false) : (ds ++ rest).takeWhile isdigit = ds := by
  rw [List.takeWhile_append_of_pos hds]
  cases rest with
  | nil => simp
  | cons c rest => simp [hrest c rfl]

theorem dropWhile_spaces {ws : Bytes} (hws : ∀ c ∈ ws, isspace c = true)
    (hs : ∀ c ∈ s.head?, isspace c = false) : (ws ++ s).dropWhile isspace = s := by
  rw [List.dropWhile_append_of_pos hws]
  cases s with
  | nil => rfl
  | cons c s => simp [hs c rfl]

/-- Digits after a sign are found as they are. -/
theorem scanNumber_of_split {ws sign : Bytes} (hws : ∀ c ∈ ws, isspace c = true)
    (hsign : sign = [] ∨ sign = [43] ∨ sign = [45]) (hne : ds ≠ [])
    (hds : ∀ c ∈ ds, isdigit c = true) (hrest : ∀ c ∈ rest.head?, isdigit c = false) :
    scanNumber (ws ++ (sign ++ (ds ++ rest))) = (decide (sign = [45]), ds) := by
  have htake := takeWhile_digits hds hrest
  rcases hsign with rfl | rfl | rfl
  · -- the first digit is neither white space nor a sign
    obtain ⟨d, ds, rfl⟩ := List.exists_cons_of_ne_nil hne
    have hd := hds d List.mem_cons_self
    have hdrop := dropWhile_spaces (s := d :: ds ++ rest) hws fun c hc => by
      cases hc
      exact isspace_of_isdigit hd
    rw [List.nil_append, scanNumber, hdrop]
    split
    · rename_i heq
      cases heq
      exact absurd hd (by decide)
    · rename_i heq
      cases heq
      exact absurd hd (by decide)
    · rw [htake]
      rfl
  · have hdrop := dropWhile_spaces (s := [43] ++ (ds ++ rest)) hws fun c hc => by
      cases hc
      decide
    rw [scanNumber, hdrop]
    exact congrArg (Prod.mk false) htake
  · have hdrop := dropWhile_spaces (s := [45] ++ (ds ++ rest)) hws fun c hc => by
      cases hc
      decide
    rw [scanNumber, hdrop]
    exact congrArg (Prod.mk true) htake

/-- What is found is after white space and a sign, and is the longest run of digits. -/
theorem scanNumber_split (s : Bytes) :
    ∃ ws sign rest, s = ws ++ (sign ++ ((scanNumber s).2 ++ rest)) ∧
      (∀ c ∈ ws, isspace c = true) ∧ (sign = [] ∨ sign = [43] ∨ sign = [45]) ∧
      (∀ c ∈ (scanNumber s).2, isdigit c = true) ∧ (∀ c ∈ rest.head?, isdigit c = false) ∧
      (scanNumber s).1 = decide (sign = [45]) := by
  have hdigits : ∀ t : Bytes, (∀ c ∈ t.takeWhile isdigit, isdigit c = true) ∧
      ∀ c ∈ (t.dropWhile isdigit).head?, isdigit c = false := fun t =>
    ⟨fun c hc => List.mem_takeWhile_imp hc, fun c hc => by
      have h := List.head?_dropWhile_not isdigit t
      rw [hc] at h
      simpa using h⟩
  have hws : ∀ c ∈ s.takeWhile isspace, isspace c = true := fun c hc => List.mem_takeWhile_imp hc
  have hs : s = s.takeWhile isspace ++ s.dropWhile isspace :=
    List.takeWhile_append_dropWhile.symm
  have hsplit : ∀ t : Bytes, t = t.takeWhile isdigit ++ t.dropWhile isdigit := fun t =>
    List.takeWhile_append_dropWhile.symm
  unfold scanNumber
  split
  · rename_i rest heq
    refine ⟨s.takeWhile isspace, [45], rest.dropWhile isdigit, ?_, hws, by simp, (hdigits rest).1,
      (hdigits rest).2, rfl⟩
    rw [← hsplit, List.singleton_append, ← heq, ← hs]
  · rename_i rest heq
    refine ⟨s.takeWhile isspace, [43], rest.dropWhile isdigit, ?_, hws, by simp, (hdigits rest).1,
      (hdigits rest).2, rfl⟩
    rw [← hsplit, List.singleton_append, ← heq, ← hs]
  · refine ⟨s.takeWhile isspace, [], (s.dropWhile isspace).dropWhile isdigit, ?_, hws, by simp,
      (hdigits _).1, (hdigits _).2, rfl⟩
    rw [← hsplit, List.nil_append, ← hs]

theorem denotes_iff : Denotes s v ↔ scanned s = some v := by
  constructor
  · rintro ⟨ws, sign, ds, rest, rfl, hws, hsign, hne, hds, hrest, rfl⟩
    rw [scanned, scanNumber_of_split hws hsign hne hds hrest, if_neg hne]
    simp only [decide_eq_true_eq]
  · intro h
    obtain ⟨ws, sign, rest, hs, hws, hsign, hds, hrest, hneg⟩ := scanNumber_split s
    rw [scanned] at h
    split at h
    · cases h
    · rename_i hne
      refine ⟨ws, sign, _, rest, hs, hws, hsign, hne, hds, hrest, ?_⟩
      rw [hneg] at h
      simpa only [decide_eq_true_eq] using (Option.some.inj h).symm

end Scanning

/-! ## Conversions of texts -/

theorem strtol_eq (s : CString) :
    strtol s = (scanned s.bytes).filter fun v => LONG_MIN ≤ v ∧ v ≤ LONG_MAX := by
  rw [strtol, scanned]
  split
  rename_i neg ds hscan
  simp only [hscan]
  by_cases hds : ds = []
  · simp [hds]
  · simp only [hds, false_or, if_false, Option.filter_some, decide_eq_true_eq]
    by_cases hin : LONG_MIN ≤ (if neg = true then -(digitsValue ds : Int) else digitsValue ds) ∧
        (if neg = true then -(digitsValue ds : Int) else digitsValue ds) ≤ LONG_MAX
    · rw [if_pos hin, if_neg (by omega)]
    · rw [if_neg hin, if_pos (by omega)]

theorem strtoul_eq (s : CString) :
    strtoul s = ((scanned s.bytes).filter fun v => -ULONG_MAX ≤ v ∧ v ≤ ULONG_MAX).map
      (· % 2 ^ 64) := by
  rw [strtoul, scanned]
  split
  rename_i neg ds hscan
  simp only [hscan]
  by_cases hds : ds = []
  · simp [hds]
  · obtain ⟨i, hi⟩ : ∃ i, i = (digitsValue ds : Int) := ⟨_, rfl⟩
    have hpos : 0 ≤ i := by omega
    simp only [hds, false_or, if_false, ← hi, Option.filter_some]
    by_cases hle : i ≤ ULONG_MAX
    · have hin : -ULONG_MAX ≤ (if neg = true then -i else i) ∧
          (if neg = true then -i else i) ≤ ULONG_MAX := by
        split <;> omega
      rw [if_neg (by omega), if_pos (decide_eq_true hin), Option.map_some]
      cases neg with
      | true => rfl
      | false =>
        have hmod : i % 2 ^ 64 = i := by
          simp only [ULONG_MAX] at hle
          omega
        simp only [Bool.false_eq_true, if_false, hmod]
    · have hout : ¬ (-ULONG_MAX ≤ (if neg = true then -i else i) ∧
          (if neg = true then -i else i) ≤ ULONG_MAX) := by
        split <;> omega
      rw [if_pos (by omega), if_neg (by simpa using hout)]
      rfl

section Convert
variable {target : Target} {item : Item}

/-- The signed conversions. -/
theorem convert_signed (h : target = .int ∨ target = .short) :
    target.convert (some item) =
      match scanned item.expanded.bytes with
      | none => .invalid
      | some v => if target.min ≤ v ∧ v ≤ target.max then .value v else .invalid := by
  have hconvert : target.convert (some item) =
      match strtol item.expanded with
      | none => .invalid
      | some v => if v ≤ target.max ∧ target.min ≤ v then .value v else .invalid := by
    rcases h with rfl | rfl
    · simp only [Target.convert, parserGetInt, parserGetLong]
      cases strtol item.expanded <;> rfl
    · simp only [Target.convert, parserGetShort, parserGetLong]
      cases strtol item.expanded <;> rfl
  have hlong : LONG_MIN ≤ target.min ∧ target.max ≤ LONG_MAX := by
    rcases h with rfl | rfl <;> decide
  rw [hconvert, strtol_eq]
  cases scanned item.expanded.bytes with
  | none => rfl
  | some v =>
    rw [Option.filter_some]
    -- what is out of range for `long` is out of range for the type
    by_cases hv : LONG_MIN ≤ v ∧ v ≤ LONG_MAX
    · simp only [hv, and_self, decide_true, if_true, and_comm]
    · have hout : ¬ (target.min ≤ v ∧ v ≤ target.max) := by omega
      simp only [hv, hout, decide_false, Bool.false_eq_true, if_false]

/-- The unsigned conversions. -/
theorem convert_unsigned (h : target = .uint ∨ target = .ushort) :
    target.convert (some item) =
      match scanned item.expanded.bytes with
      | none => .invalid
      | some v =>
        if (-ULONG_MAX ≤ v ∧ v ≤ ULONG_MAX) ∧ v % 2 ^ 64 ≤ target.max then .value (v % 2 ^ 64)
        else .invalid := by
  have hconvert : target.convert (some item) =
      match strtoul item.expanded with
      | none => .invalid
      | some v => if v ≤ target.max then .value v else .invalid := by
    rcases h with rfl | rfl
    · simp only [Target.convert, parserGetUint, parserGetUlong]
      cases strtoul item.expanded <;> rfl
    · simp only [Target.convert, parserGetUshort, parserGetUlong]
      cases strtoul item.expanded <;> rfl
  rw [hconvert, strtoul_eq]
  cases scanned item.expanded.bytes with
  | none => rfl
  | some v =>
    rw [Option.filter_some]
    by_cases hv : -ULONG_MAX ≤ v ∧ v ≤ ULONG_MAX
    · simp only [hv, and_self, true_and, decide_true, if_true, Option.map_some]
    · simp only [hv, false_and, decide_false, Bool.false_eq_true, if_false, Option.map_none]

end Convert

/-- The result of a conversion of the text of a value, and the variable afterwards. -/
def Target.Exact (target : Target) (text : Option CString) (old result value : Int) : Prop :=
  match text with
  | none => result = -1 ∧ value = old
  | some s =>
    (∃ v, Denotes s.bytes v ∧ (target.min ≤ v ∧ v ≤ target.max) ∧ result = 1 ∧ value = v) ∨
      (¬ ∃ v, Denotes s.bytes v ∧ target.min ≤ v ∧ v ≤ target.max) ∧ result = 0 ∧ value = old

/-- The text is a negative number that `strtoul` turns into one of an unsigned type. -/
def Target.Wraps (target : Target) (s : Bytes) : Prop :=
  (target = .uint ∨ target = .ushort) ∧
    ∃ v, Denotes s v ∧ -2 ^ 64 < v ∧ v ≤ target.max - 2 ^ 64

section Exact
variable {target : Target} {s : CString} {v old result value : Int}

theorem Target.exact_iff_of_none (h : scanned s.bytes = none) :
    target.Exact (some s) old result value ↔ result = 0 ∧ value = old := by
  simp [Target.Exact, denotes_iff, h]

theorem Target.exact_iff_of_some (h : scanned s.bytes = some v) :
    target.Exact (some s) old result value ↔
      (target.min ≤ v ∧ v ≤ target.max) ∧ result = 1 ∧ value = v ∨
        ¬ (target.min ≤ v ∧ v ≤ target.max) ∧ result = 0 ∧ value = old := by
  simp only [Target.Exact, denotes_iff, h, Option.some.injEq, exists_eq_left']

theorem Target.wraps_iff_of_some (h : scanned s.bytes = some v) :
    target.Wraps s.bytes ↔
      (target = .uint ∨ target = .ushort) ∧ -2 ^ 64 < v ∧ v ≤ target.max - 2 ^ 64 := by
  simp only [Target.Wraps, denotes_iff, h, Option.some.injEq, exists_eq_left']

theorem exact_convert_signed {item : Item} (h : target = .int ∨ target = .short)
    (hscan : scanned item.expanded.bytes = some v) :
    target.Exact (some item.expanded) old (target.convert (some item)).code
      ((target.convert (some item)).store old) := by
  rw [Target.exact_iff_of_some hscan, convert_signed h, hscan]
  by_cases hv : target.min ≤ v ∧ v ≤ target.max
  · simp [hv, Conversion.code, Conversion.store]
  · simp [hv, Conversion.code, Conversion.store]

theorem exact_convert_unsigned {item : Item} (h : target = .uint ∨ target = .ushort)
    (hscan : scanned item.expanded.bytes = some v) :
    target.Exact (some item.expanded) old (target.convert (some item)).code
        ((target.convert (some item)).store old) ↔
      ¬ (-2 ^ 64 < v ∧ v ≤ target.max - 2 ^ 64) := by
  have hrange : target.min = 0 ∧ target.max < 2 ^ 64 := by
    rcases h with rfl | rfl <;> decide
  rw [Target.exact_iff_of_some hscan, convert_unsigned h, hscan, hrange.1]
  by_cases hv : (-ULONG_MAX ≤ v ∧ v ≤ ULONG_MAX) ∧ v % 2 ^ 64 ≤ target.max
  · simp only [hv, and_self, if_true, Conversion.code, Conversion.store, true_and]
    simp only [ULONG_MAX] at hv
    -- a number below 0 has wrapped to one of the type
    rcases lt_or_ge v 0 with hneg | hpos
    · omega
    · rw [Int.emod_eq_of_lt hpos (by omega)] at hv ⊢
      omega
  · simp only [hv, if_false, Conversion.code, Conversion.store, and_true]
    simp only [ULONG_MAX] at hv
    omega

/-- The conversions are exact but for numbers that wrap. -/
theorem exact_convert_iff (target : Target) (item : Option Item) (old : Int) :
    target.Exact (item.map Item.expanded) old (target.convert item).code
        ((target.convert item).store old) ↔
      ∀ s ∈ item.map Item.expanded, ¬ target.Wraps s.bytes := by
  have htarget : (target = .int ∨ target = .short) ∨ (target = .uint ∨ target = .ushort) := by
    cases target <;> simp
  cases item with
  | none =>
    have hmissing : target.convert none = .missing := by cases target <;> rfl
    rw [hmissing]
    exact iff_of_true ⟨rfl, rfl⟩ fun s hs => by cases hs
  | some item =>
    simp only [Option.map_some, Option.mem_def, Option.some.injEq, forall_eq']
    cases hscan : scanned item.expanded.bytes with
    | none =>
      have hinvalid : target.convert (some item) = .invalid := by
        rcases htarget with h | h
        · rw [convert_signed h, hscan]
        · rw [convert_unsigned h, hscan]
      rw [hinvalid, Target.exact_iff_of_none hscan]
      refine iff_of_true ⟨rfl, rfl⟩ ?_
      rintro ⟨-, v, hv, -⟩
      rw [denotes_iff, hscan] at hv
      cases hv
    | some v =>
      rw [Target.wraps_iff_of_some hscan]
      rcases htarget with h | h
      · -- the signed conversions never wrap
        refine iff_of_true (exact_convert_signed h hscan) ?_
        rintro ⟨hno, -⟩
        rcases h with rfl | rfl <;> simp at hno
      · rw [exact_convert_unsigned h hscan]
        simp only [h, true_and]

end Exact

/-! ## Calls -/

/-- The expanded text of a value: what `parser_value_expand` returns for it. -/
def ParserContext.text (parser : ParserContext) (sectionName key : CString) (n : Int) :
    Option CString :=
  (parser.lookup sectionName key n).bind fun (p, q) =>
    let item := parser.sections.item p
    (parserValueExpand (item.values.length + 1) item q).bind Prod.fst

/-- `parser_value_expand` returns the string that it leaves in the value. -/
theorem expanded_of_parserValueExpand {d : ℕ} {item item' : ItemSection} {p : ValuePtr}
    {t : CString} (hp : p ∈ item.values) (h : parserValueExpand d item p = some (some t, item')) :
    (item'.keys.item p.1).valuesList[p.2]?.map (fun v => cstr v.expanded.s) = some t := by
  obtain ⟨r, hcall, hr⟩ := Option.map_eq_some_iff.mp h
  obtain ⟨ht, rfl⟩ := Prod.mk.inj hr
  have hlt := (mem_values.mp hp).2
  -- the value has the buffer that the call has left
  have hleft : some (cstr (r.2.value p).expanded.s) = r.1 := by
    cases d with
    | zero => cases hcall
    | succ d =>
      rw [expandCall] at hcall
      split at hcall
      · cases hcall
        cases ht
      · obtain ⟨m, -, rfl⟩ := Option.map_eq_some_iff.mp hcall
        rfl
  rw [← ht, ← hleft]
  simp [ItemSection.store, ItemKey.store, List.getElem?_mapIdx, List.getElem?_eq_getElem hlt]

section Get
variable {parser : ParserContext}

/-- The conversions get the expanded text. -/
theorem ParserContext.Holds.getItem (h : parser.Holds ItemKey.Ok) (sectionName key : CString)
    (n : Int) :
    ∃ item parser', parser.getItem sectionName key n = some (item, parser') ∧
      item.map Item.expanded = parser.text sectionName key n := by
  rw [ParserContext.getItem, ParserContext.text, parserGet_eq]
  cases hlookup : parser.lookup sectionName key n with
  | none => exact ⟨none, parser, rfl, rfl⟩
  | some x =>
    obtain ⟨p, q⟩ := x
    obtain ⟨hitem, hq⟩ := h.lookup hlookup
    obtain ⟨t, item', hcall, -, -, -⟩ := parserValueExpand_eq hitem hq (Nat.lt_succ_self _)
    have hexpanded := expanded_of_parserValueExpand hq hcall
    simp only [if_true, hcall, Option.map_some, Option.bind_some]
    refine ⟨_, _, rfl, ?_⟩
    rw [← hexpanded, ParserContext.itemAt, Option.map_map]
    simp only [Table.modify, Function.update_self]
    rfl

end Get

/-- A call gives the number of the text, or says that it is not one of its type, unless the number
wraps. -/
theorem getNumber_exact_iff (parser : ParserContext) (h : parser.Holds ItemKey.Ok) (target : Target)
    (sectionName key : CString) (n old : Int) :
    (∃ got, parser.getNumber target sectionName key n old = some got ∧
      target.Exact (parser.text sectionName key n) old got.result got.value) ↔
      ∀ s ∈ parser.text sectionName key n, ¬ target.Wraps s.bytes := by
  obtain ⟨item, parser', hget, htext⟩ := h.getItem sectionName key n
  rw [← htext, ← exact_convert_iff target item old, ParserContext.getNumber, hget]
  constructor
  · rintro ⟨got, hgot, hexact⟩
    cases hgot
    exact hexact
  · exact fun hexact => ⟨_, rfl, hexact⟩

/-- A context with the value `value` of the key `port` of the section `N`. -/
def portContext (value : Bytes) : ParserContext :=
  parserSet (cstr [78]) (cstr [112, 111, 114, 116]) (cstr value) 1 (parserInit false false)

theorem holds_portContext (value : Bytes) : (portContext value).Holds ItemKey.Ok := by
  have hset : (parserInit false false).step
      (.set (cstr [78]) (cstr [112, 111, 114, 116]) (cstr value) 1) =
        some (portContext value) := rfl
  exact (holds_parserInit false false).step_ok hset

/-- `-18446744073709551615`, which is 1 - 2⁶⁴. -/
def wrappingText : Bytes :=
  [45, 49, 56, 52, 52, 54, 55, 52, 52, 48, 55, 51, 55, 48, 57, 53, 53, 49, 54, 49, 53]

/-- The value ` +57888x` is 57888 as an `unsigned short`. -/
theorem getNumber_exact_port :
    (portContext [32, 43, 53, 55, 56, 56, 56, 120]).Holds ItemKey.Ok ∧
      ∃ got, (portContext [32, 43, 53, 55, 56, 56, 56, 120]).getNumber .ushort (cstr [78])
          (cstr [112, 111, 114, 116]) (-1) 0 = some got ∧
        Target.ushort.Exact (some (cstr [32, 43, 53, 55, 56, 56, 56, 120])) 0 got.result
          got.value := by
  have htext : (portContext [32, 43, 53, 55, 56, 56, 56, 120]).text (cstr [78])
      (cstr [112, 111, 114, 116]) (-1) = some (cstr [32, 43, 53, 55, 56, 56, 56, 120]) := by decide
  have hscan : scanned (cstr [32, 43, 53, 55, 56, 56, 56, 120]).bytes = some 57888 := by decide
  have hexact := (getNumber_exact_iff (portContext [32, 43, 53, 55, 56, 56, 56, 120])
    (holds_portContext _) .ushort (cstr [78]) (cstr [112, 111, 114, 116]) (-1) 0).mpr
  rw [htext] at hexact
  refine ⟨holds_portContext _, hexact fun s hs => ?_⟩
  cases hs
  rw [Target.wraps_iff_of_some hscan]
  decide

/-- Not every number is converted exactly: `parser_get_uint` takes 1 - 2⁶⁴ for 1. -/
theorem not_getNumber_exact :
    ¬ ∀ (parser : ParserContext), parser.Holds ItemKey.Ok → ∀ (target : Target)
      (sectionName key : CString) (n old : Int),
        ∃ got, parser.getNumber target sectionName key n old = some got ∧
          target.Exact (parser.text sectionName key n) old got.result got.value := by
  intro h
  obtain ⟨got, hgot, hexact⟩ := h (portContext wrappingText) (holds_portContext _) .uint (cstr [78])
    (cstr [112, 111, 114, 116]) (-1) 0
  have htext : (portContext wrappingText).text (cstr [78]) (cstr [112, 111, 114, 116]) (-1) =
      some (cstr wrappingText) := by decide
  have hscan : scanned (cstr wrappingText).bytes = some (1 - 2 ^ 64) := by decide
  have hresult : ((portContext wrappingText).getNumber .uint (cstr [78])
      (cstr [112, 111, 114, 116]) (-1) 0).map Got.result = some 1 := by decide
  rw [hgot] at hresult
  rw [htext, Target.exact_iff_of_some hscan] at hexact
  rcases hexact with ⟨hin, -⟩ | ⟨-, hzero, -⟩
  · exact absurd hin (by decide)
  · cases hzero.symm.trans (Option.some.inj hresult)

end Config
end Campagnol
