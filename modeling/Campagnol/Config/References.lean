import Campagnol.Config.Expand
import Campagnol.Lib.Unfold

/-!
# References in values

What the values of a section mean: a raw string is scanned from left to right, `$$` stands for `$`
and `${name}` for the expansion of the last value of a key.

* `scan`: the pieces of a raw string;
* `Expansion`: the meaning of a value, as an unfolding of the references of the section;
* `Unpaired`, `Open`: the strings that end in the middle of a sequence.
-/

namespace Campagnol
namespace Config

/-! ## Scanning -/

/-- A piece of a raw string: a character, a reference, or a `$` at the end. -/
inductive Token where
  | char (c : UInt8)
  | ref (name : Bytes)
  | lone
deriving DecidableEq, Repr

/-- In the text, after a `$`, or in a name. -/
inductive ScanMode where
  | text
  | dollar
  | name (acc : Bytes)
deriving DecidableEq, Repr

/-- The pieces of a string. A name is not empty, and ends with the first `}` after its first
character. -/
def scan : ScanMode → Bytes → List Token
  | .text, [] => []
  | .text, c :: s => if c = dollar then scan .dollar s else .char c :: scan .text s
  | .dollar, [] => [.lone]
  | .dollar, c :: s =>
    if c = leftBrace ∧ rightBrace ∈ s.tail then scan (.name []) s
    else if c = dollar then .char dollar :: scan .text s
    else .char dollar :: .char c :: scan .text s
  | .name _, [] => []
  | .name acc, c :: s =>
    if c = rightBrace ∧ acc ≠ [] then .ref acc :: scan .text s else scan (.name (acc ++ [c])) s

/-- A piece without a NUL. -/
def Token.NulFree : Token → Prop
  | .char c => c ≠ 0
  | .ref name => 0 ∉ name
  | .lone => True

/-- What has been read of a name. -/
def ScanMode.acc : ScanMode → Bytes
  | .name acc => acc
  | _ => []

section Scan
variable {c : UInt8} {s name acc : Bytes}

theorem scan_char (hc : c ≠ dollar) : scan .text (c :: s) = .char c :: scan .text s := by
  rw [scan, if_neg hc]

theorem scan_dollar : scan .text (dollar :: s) = scan .dollar s := by
  rw [scan, if_pos rfl]

theorem scan_dollar_dollar : scan .dollar (dollar :: s) = .char dollar :: scan .text s := by
  rw [scan, if_neg (fun h => absurd h.1 (by decide)), if_pos rfl]

theorem scan_dollar_char (hc : ¬ (c = leftBrace ∧ rightBrace ∈ s.tail)) (hd : c ≠ dollar) :
    scan .dollar (c :: s) = .char dollar :: .char c :: scan .text s := by
  rw [scan, if_neg hc, if_neg hd]

theorem scan_name (hname : rightBrace ∉ name) (hacc : acc ≠ []) :
    scan (.name acc) (name ++ rightBrace :: s) = .ref (acc ++ name) :: scan .text s := by
  induction name generalizing acc with
  | nil => rw [List.nil_append, scan, if_pos ⟨rfl, hacc⟩, List.append_nil]
  | cons c name ih =>
    rw [List.mem_cons, not_or] at hname
    rw [List.cons_append, scan, if_neg (fun h => hname.1 h.1.symm), ih hname.2 (by simp),
      List.append_assoc]
    rfl

/-- A reference. -/
theorem scan_dollar_ref (hname : rightBrace ∉ name) :
    scan .dollar (leftBrace :: c :: name ++ rightBrace :: s) =
      .ref (c :: name) :: scan .text s := by
  have hmem : rightBrace ∈ (c :: name ++ rightBrace :: s).tail := by simp
  rw [List.cons_append, scan, if_pos ⟨rfl, hmem⟩, List.cons_append, scan, if_neg (fun h => h.2 rfl),
    List.nil_append, scan_name hname (by simp)]
  rfl

theorem nulFree_of_mem_scan {mode : ScanMode} (hs : 0 ∉ mode.acc ++ s) {token : Token}
    (h : token ∈ scan mode s) : token.NulFree := by
  fun_induction scan mode s with
  | case1 => cases h
  | case2 s ih => exact ih (fun hm => hs (List.mem_cons_of_mem _ hm)) h
  | case3 c s hc ih =>
    rcases List.mem_cons.mp h with rfl | h
    · exact fun heq => hs (by simp [heq])
    · exact ih (fun hm => hs (List.mem_cons_of_mem _ hm)) h
  | case4 =>
    rw [List.mem_singleton.mp h]
    trivial
  | case5 c s hc ih => exact ih (fun hm => hs (List.mem_cons_of_mem _ hm)) h
  | case6 s hc ih =>
    rcases List.mem_cons.mp h with rfl | h
    · exact fun heq => absurd heq (by decide)
    · exact ih (fun hm => hs (List.mem_cons_of_mem _ hm)) h
  | case7 c s hc hd ih =>
    rcases List.mem_cons.mp h with rfl | h
    · exact fun heq => absurd heq (by decide)
    · rcases List.mem_cons.mp h with rfl | h
      · exact fun heq => hs (by simp [heq])
      · exact ih (fun hm => hs (List.mem_cons_of_mem _ hm)) h
  | case8 => cases h
  | case9 acc c s hc ih =>
    have hs' : 0 ∉ acc ∧ 0 ∉ c :: s := by
      rwa [List.mem_append, not_or] at hs
    rcases List.mem_cons.mp h with rfl | h
    · exact hs'.1
    · exact ih (fun hm => hs'.2 (List.mem_cons_of_mem _ hm)) h
  | case10 acc c s hc ih =>
    refine ih ?_ h
    rwa [ScanMode.acc, List.append_assoc]

end Scan

/-! ## Strings that end in the middle of a sequence -/

/-- The number of the `$` at the end of a string. -/
def trailing (s : Bytes) : ℕ := (s.reverse.takeWhile (· = dollar)).length

/-- The string ends in a `$` that is not the second one of `$$`. -/
def Unpaired (s : Bytes) : Prop := trailing s % 2 = 1

/-- The string ends in `${`, where the `$` is not the second one of `$$`. -/
def Open (s : Bytes) : Prop := s.getLast? = some leftBrace ∧ Unpaired s.dropLast

instance (s : Bytes) : Decidable (Unpaired s) := inferInstanceAs (Decidable (_ = _))

instance (s : Bytes) : Decidable (Open s) := inferInstanceAs (Decidable (_ ∧ _))

theorem trailing_concat (s : Bytes) (c : UInt8) :
    trailing (s ++ [c]) = if c = dollar then trailing s + 1 else 0 := by
  rw [trailing, List.reverse_append, List.reverse_singleton, List.singleton_append,
    List.takeWhile_cons]
  by_cases hc : c = dollar
  · simp [hc, trailing]
  · simp [hc]

theorem unpaired_concat_dollar {s : Bytes} : Unpaired (s ++ [dollar]) ↔ ¬ Unpaired s := by
  rw [Unpaired, Unpaired, trailing_concat, if_pos rfl]
  omega

theorem not_unpaired_concat {s : Bytes} {c : UInt8} (hc : c ≠ dollar) : ¬ Unpaired (s ++ [c]) := by
  rw [Unpaired, trailing_concat, if_neg hc]
  decide

theorem Unpaired.exists_concat {s : Bytes} (h : Unpaired s) : ∃ t, s = t ++ [dollar] := by
  rcases List.eq_nil_or_concat s with rfl | ⟨t, c, rfl⟩
  · exact absurd h (by decide)
  · rw [List.concat_eq_append] at h ⊢
    by_cases hc : c = dollar
    · exact ⟨t, by rw [hc]⟩
    · exact absurd h (not_unpaired_concat hc)

theorem open_concat {s : Bytes} {c : UInt8} : Open (s ++ [c]) ↔ c = leftBrace ∧ Unpaired s := by
  simp [Open]

/-- The mode after a string. -/
def modeAfter (s : Bytes) : ScanMode := if Unpaired s then .dollar else .text

/-! ## Meaning -/

/-- The raw string of a value. -/
def ItemSection.raw (item : ItemSection) (p : ValuePtr) : Bytes := (item.memory.value p).s

/-- A piece of a raw string: a text, or a reference to the last value of a key. An unknown reference
is a text. -/
def resolve (item : ItemSection) (lone : Bytes) : Token → Unfold.Part ValuePtr UInt8
  | .char c => .text [c]
  | .lone => .text lone
  | .ref name =>
    match lastValue (cstr name) item with
    | some q => .ref q
    | none => .text (dollar :: leftBrace :: name ++ [rightBrace])

/-- The pieces of the values of a section. -/
def parts (item : ItemSection) (lone : Bytes) (p : ValuePtr) : List (Unfold.Part ValuePtr UInt8) :=
  (scan .text (item.raw p)).map (resolve item lone)

/-- The value `p` refers to the value `q`. -/
def Refers (item : ItemSection) (p q : ValuePtr) : Prop :=
  ∃ name, .ref name ∈ scan .text (item.raw p) ∧ lastValue (cstr name) item = some q

/-- The expansion of a value: its raw string with its references replaced by the expansions of the
values that they name, and every other `$` unchanged. -/
def Expansion (item : ItemSection) : ValuePtr → Bytes → Prop := Unfold.Unfolds (parts item [dollar])

theorem refers_iff {item : ItemSection} (lone : Bytes) {p q : ValuePtr} :
    Unfold.Refers (parts item lone) p q ↔ Refers item p q := by
  rw [Unfold.Refers, parts, List.mem_map]
  constructor
  · rintro ⟨token, htoken, heq⟩
    cases token with
    | char c => cases heq
    | lone => cases heq
    | ref name =>
      rw [resolve] at heq
      split at heq
      · rename_i q' hq
        cases heq
        exact ⟨name, htoken, hq⟩
      · cases heq
  · rintro ⟨name, hname, hq⟩
    exact ⟨.ref name, hname, by rw [resolve, hq]⟩

end Config
end Campagnol
