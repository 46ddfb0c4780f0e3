import Campagnol.Config.References
import Campagnol.Config.Store

/-!
# Expansion of the values: theorems

The loop of `parser_value_expand` does what `scan` says, and its recursion unfolds the references
of the section.

* `expandReference_spec`: a reference is replaced, and the raw string restored;
* `loopSpec`: the loop appends what the pieces of the raw string stand for;
* `callSpec`: what a call returns, what it leaves as it was, and which positions it touches.
-/

namespace Campagnol
namespace Config

/-! ## `strchr` -/

theorem takeWhile_of_notMem {s : Bytes} (h : 0 ∉ s) : s.takeWhile (· ≠ 0) = s :=
  congrArg CString.bytes (cstr_of_notMem h)

theorem strchr_cases {s : Bytes} (hs : 0 ∉ s) (i : ℕ) (c : UInt8) :
    (c ∉ s.drop i ∧ strchr s i c = none ∧
        strchrReads s i c = List.range' i ((s.drop i).length + 1)) ∨
      ∃ a b, s.drop i = a ++ c :: b ∧ c ∉ a ∧ strchr s i c = some (i + a.length) ∧
        strchrReads s i c = List.range' i (a.length + 1) := by
  have htake : (s.drop i).takeWhile (· ≠ 0) = s.drop i :=
    takeWhile_of_notMem fun h => hs (List.mem_of_mem_drop h)
  rw [strchr, strchrReads, htake]
  by_cases hc : c ∈ s.drop i
  · obtain ⟨a, b, hab, ha⟩ := List.eq_append_cons_of_mem hc
    have hfind : (s.drop i).findIdx (· = c) = a.length := by
      rw [hab, List.findIdx_append, List.findIdx_cons]
      simp [ha]
    have hfind? : (s.drop i).findIdx? (· = c) = some a.length := by
      rw [List.findIdx?_eq_some_iff_findIdx_eq, hfind, hab]
      simp
    exact .inr ⟨a, b, hab, ha, by rw [hfind?]; rfl, by rw [hfind]⟩
  · have hne : ∀ x ∈ s.drop i, ¬ x = c := by
      rintro x hx rfl
      exact hc hx
    have hfind : (s.drop i).findIdx (· = c) = (s.drop i).length :=
      List.findIdx_eq_length.mpr fun x hx => by simpa using hne x hx
    have hfind? : (s.drop i).findIdx? (· = c) = none := by
      simpa using hne
    exact .inl ⟨hc, by rw [hfind?]; rfl, by rw [hfind]⟩

/-! ## Memory -/

namespace Memory
variable {m : Memory} {p q : ValuePtr}

@[simp] theorem touch_value (l : List ℕ) : (m.touch p l).value = m.value := rfl

@[simp] theorem set_value_self (v : ValueMem) : (m.set p v).value p = v := by
  simp [set]

@[simp] theorem set_value_of_ne (v : ValueMem) (h : q ≠ p) : (m.set p v).value q = m.value q := by
  simp [set, h]

@[simp] theorem append_s (t : Bytes) : ((m.append p t).value p).s = (m.value p).s := by
  rw [append, set_value_self]

@[simp] theorem write_s (i : ℕ) (c : UInt8) :
    ((m.write p i c).value p).s = (m.value p).s.set i c := by
  rw [write, set_value_self]

end Memory

/-- A position of a raw string that a call for `p` may touch. -/
structure MayTouch (item : ItemSection) (p : ValuePtr) (x : ValuePtr × ℕ) : Prop where
  reaches : Relation.ReflTransGen (Refers item) p x.1
  inside : x.2 ≤ (item.raw x.1).length ∨ Open (item.raw x.1)

/-- A position beyond the NUL that a call for `p` touches. -/
def Overrun (item : ItemSection) (busy : Finset ValuePtr) (p : ValuePtr) (x : ValuePtr × ℕ) :
    Prop :=
  Unfold.Visits (parts item []) busy p x.1 ∧ Open (item.raw x.1) ∧
    x.2 = (item.raw x.1).length + 1

/-- What a call for `p` leaves as it was: the raw strings, the flags, and the buffers of the values
`busy`. -/
structure Kept (item : ItemSection) (p : ValuePtr) (busy : Finset ValuePtr) (m m' : Memory) :
    Prop where
  s : ∀ q, (m'.value q).s = (m.value q).s
  expanding : ∀ q, (m'.value q).expanding = (m.value q).expanding
  expanded : ∀ q ∈ busy, (m'.value q).expanded = (m.value q).expanded
  touched : ∃ l, m'.touched = m.touched ++ l ∧ ∀ x ∈ l, MayTouch item p x

/-- A part of the loop of the value `p`, which appends `t` to its buffer. -/
structure Grows (item : ItemSection) (p : ValuePtr) (busy : Finset ValuePtr) (t : Bytes)
    (m m' : Memory) : Prop where
  s : ∀ q, q ≠ p → (m'.value q).s = (m.value q).s
  expanding : ∀ q, (m'.value q).expanding = (m.value q).expanding
  expanded : ∀ q ∈ busy, (m'.value q).expanded = (m.value q).expanded
  touched : ∃ l, m'.touched = m.touched ++ l ∧ ∀ x ∈ l, MayTouch item p x
  expanded_self : (m'.value p).expanded = (m.value p).expanded.append t

section Grows
variable {item : ItemSection} {p : ValuePtr} {busy : Finset ValuePtr} {t t' : Bytes}
  {m m₁ m₂ : Memory}

theorem Grows.trans (h : Grows item p busy t m m₁) (h' : Grows item p busy t' m₁ m₂) :
    Grows item p busy (t ++ t') m m₂ where
  s := fun q hq => (h'.s q hq).trans (h.s q hq)
  expanding := fun q => (h'.expanding q).trans (h.expanding q)
  expanded := fun q hq => (h'.expanded q hq).trans (h.expanded q hq)
  touched := by
    obtain ⟨l, hl, hall⟩ := h.touched
    obtain ⟨l', hl', hall'⟩ := h'.touched
    refine ⟨l ++ l', by rw [hl', hl, List.append_assoc], fun x hx => ?_⟩
    rcases List.mem_append.mp hx with hx | hx
    · exact hall x hx
    · exact hall' x hx
  expanded_self := by rw [h'.expanded_self, h.expanded_self, StrBuf.append_append]

theorem grows_touch {l : List ℕ} (hl : ∀ i ∈ l, i ≤ (item.raw p).length ∨ Open (item.raw p)) :
    Grows item p busy [] m (m.touch p l) where
  s := fun _ _ => rfl
  expanding := fun _ => rfl
  expanded := fun _ _ => rfl
  touched := by
    refine ⟨_, rfl, fun x hx => ?_⟩
    obtain ⟨i, hi, rfl⟩ := List.mem_map.mp hx
    exact ⟨.refl, hl i hi⟩
  expanded_self := by rw [StrBuf.append_nil]; rfl

/-- A change of the value itself. -/
theorem grows_set (hp : p ∉ busy) {v : ValueMem} (hv : v.expanding = (m.value p).expanding)
    (ht : v.expanded = (m.value p).expanded.append t) : Grows item p busy t m (m.set p v) where
  s := fun q hq => by rw [Memory.set_value_of_ne v hq]
  expanding := fun q => by
    by_cases hq : q = p
    · rw [hq, Memory.set_value_self, hv]
    · rw [Memory.set_value_of_ne v hq]
  expanded := fun q hq => by
    have hne : q ≠ p := by
      rintro rfl
      exact hp hq
    rw [Memory.set_value_of_ne v hne]
  touched := ⟨[], (List.append_nil _).symm, by simp⟩
  expanded_self := by rw [Memory.set_value_self, ht]

theorem grows_append (hp : p ∉ busy) (t : Bytes) : Grows item p busy t m (m.append p t) :=
  grows_set hp rfl rfl

theorem grows_write (hp : p ∉ busy) {i : ℕ} (hi : i ≤ (item.raw p).length) (c : UInt8) :
    Grows item p busy [] m (m.write p i c) := by
  have htouch : Grows item p busy [] m (m.touch p [i]) := by
    refine grows_touch fun j hj => .inl ?_
    rwa [List.mem_singleton.mp hj]
  exact htouch.trans (grows_set hp rfl (by rw [StrBuf.append_nil]; rfl))

/-- A call for a value that `p` refers to. -/
theorem Kept.grows {q : ValuePtr} (h : Kept item q (insert p busy) m m₁) (hq : Refers item p q) :
    Grows item p busy [] m m₁ where
  s := fun q _ => h.s q
  expanding := h.expanding
  expanded := fun q hq => h.expanded q (Finset.mem_insert_of_mem hq)
  touched := by
    obtain ⟨l, hl, hall⟩ := h.touched
    exact ⟨l, hl, fun x hx => ⟨.head hq (hall x hx).reaches, (hall x hx).inside⟩⟩
  expanded_self := by rw [h.expanded p (Finset.mem_insert_self _ _), StrBuf.append_nil]

/-- A text is appended, and a character written back. -/
theorem grows_append_write (hp : p ∉ busy) (t : Bytes) {i : ℕ} (hi : i ≤ (item.raw p).length)
    (c : UInt8) : Grows item p busy t m ((m.append p t).write p i c) := by
  have h := (grows_append hp t).trans (grows_write (m := m.append p t) hp hi c)
  rwa [List.append_nil] at h

theorem Grows.mem_touched (h : Grows item p busy t m m₁) {x : ValuePtr × ℕ} (hx : x ∈ m.touched) :
    x ∈ m₁.touched := by
  obtain ⟨l, hl, -⟩ := h.touched
  rw [hl]
  exact List.mem_append_left _ hx

end Grows

/-! ## A call -/

/-- The memory during the calls for the values `busy`: the other values are as they were. -/
structure During (item : ItemSection) (busy : Finset ValuePtr) (m : Memory) : Prop where
  expanding : ∀ q ∈ item.values, (m.value q).expanding = decide (q ∈ busy)
  s : ∀ q ∉ busy, (m.value q).s = item.raw q

theorem raw_nul_free (item : ItemSection) (p : ValuePtr) : 0 ∉ item.raw p := by
  rw [ItemSection.raw, ItemSection.memory]
  dsimp only
  cases (item.keys.item p.1).valuesList[p.2]? with
  | none => simp
  | some value => exact value.s.nul_free

/-- What the references of a value are replaced by, `d` calls deep. -/
def replacement (item : ItemSection) (d : ℕ) (busy : Finset ValuePtr) (q : ValuePtr) : Bytes :=
  (Unfold.expand (parts item []) errorStr d busy q).getD errorStr

/-- What a call does, `d` calls deep. -/
def CallSpec (item : ItemSection) (d : ℕ) : Prop :=
  ∀ busy m p, p ∈ item.values → (item.values.toFinset \ busy).card < d → During item busy m →
    ∃ r m', expandCall item d m p = some (r, m') ∧
      r.map CString.bytes = Unfold.expand (parts item []) errorStr d busy p ∧
      Kept item p busy m m' ∧ ∀ x, Overrun item busy p x → x ∈ m'.touched

/-- The loop of the value `p` can make its calls, `d` deep. -/
structure Ready (item : ItemSection) (d : ℕ) (busy : Finset ValuePtr) (p : ValuePtr) : Prop where
  notMem : p ∉ busy
  spec : CallSpec item d
  values : ∀ q name, lastValue name item = some q → q ∈ item.values
  card : (item.values.toFinset \ insert p busy).card < d

/-! ## References -/

/-- The string before a NUL in the buffer. -/
theorem cstr_append_zero {a : Bytes} (ha : 0 ∉ a) (b : Bytes) : cstr (a ++ 0 :: b) = cstr a := by
  refine CString.bytes_injective ?_
  have hall : ∀ c ∈ a, decide (c ≠ 0) = true := fun c hc => by
    simpa using ne_of_mem_of_not_mem hc ha
  change (a ++ 0 :: b).takeWhile (· ≠ 0) = a.takeWhile (· ≠ 0)
  rw [List.takeWhile_append_of_pos hall, takeWhile_of_notMem ha]
  simp

theorem bytes_cstr {a : Bytes} (ha : 0 ∉ a) : (cstr a).bytes = a := takeWhile_of_notMem ha

section Reference
variable {item : ItemSection} {p : ValuePtr} {busy : Finset ValuePtr} {d : ℕ} {m : Memory}
  {t a b : Bytes} {c : UInt8}

/-- The character in the place of the closing brace. -/
theorem set_closing (x y : UInt8) :
    (t ++ dollar :: leftBrace :: c :: a ++ x :: b).set (t.length + 3 + a.length) y =
      t ++ dollar :: leftBrace :: c :: a ++ y :: b := by
  have hlen : (t ++ dollar :: leftBrace :: c :: a).length = t.length + 3 + a.length := by
    simp
    omega
  rw [← hlen, List.set_append_right _ _ (Nat.le_refl _), Nat.sub_self, List.set_cons_zero]

/-- The sequence, while there is a NUL in the place of the closing brace. -/
theorem drop_sequence : (t ++ dollar :: leftBrace :: c :: a ++ 0 :: b).drop t.length =
    dollar :: leftBrace :: c :: a ++ 0 :: b := by
  rw [List.append_assoc, List.drop_left]

/-- The name in the sequence. -/
theorem drop_name : (t ++ dollar :: leftBrace :: c :: a ++ 0 :: b).drop (t.length + 2) =
    c :: a ++ 0 :: b := by
  rw [← List.drop_drop, drop_sequence]
  rfl

theorem During.of_grows {m' : Memory} (hm : During item (insert p busy) m)
    (h : Grows item p busy t m m') : During item (insert p busy) m' where
  expanding := fun q hq => (h.expanding q).trans (hm.expanding q hq)
  s := fun q hq =>
    (h.s q fun heq => hq (Finset.mem_insert.mpr (.inl heq))).trans (hm.s q hq)

/-- A reference is replaced. -/
theorem expandReference_spec (h : Ready item d busy p)
    (hraw : item.raw p = t ++ dollar :: leftBrace :: c :: a ++ rightBrace :: b)
    (hm : During item (insert p busy) m) (hs : (m.value p).s = item.raw p)
    (hrefers : ∀ q, lastValue (cstr (c :: a)) item = some q → Refers item p q) :
    ∃ m', expandReference item (expandCall item d) p (t.length + 1) (t.length + 3 + a.length) m =
        some m' ∧
      Grows item p busy (Unfold.fill (replacement item d (insert p busy))
        [resolve item [] (.ref (c :: a))]) m m' ∧ (m'.value p).s = item.raw p ∧
      ∀ q, .ref q ∈ [resolve item [] (.ref (c :: a))] →
        ∀ x, Overrun item (insert p busy) q x → x ∈ m'.touched := by
  have hp := h.notMem
  obtain ⟨stop, hstop⟩ : ∃ stop, stop = t.length + 3 + a.length := ⟨_, rfl⟩
  have hback : (t ++ dollar :: leftBrace :: c :: a ++ 0 :: b).set stop rightBrace = item.raw p := by
    rw [hstop, set_closing, hraw]
  have hsequence : 0 ∉ dollar :: leftBrace :: c :: a := fun hmem => raw_nul_free item p (by
    rw [hraw]
    exact List.mem_append_left _ (List.mem_append_right _ hmem))
  have hname : 0 ∉ c :: a := fun hmem => hsequence (.tail _ (.tail _ hmem))
  -- all positions are up to the closing brace
  have hinside : stop ≤ (item.raw p).length := by
    rw [hraw]
    simp
    omega
  have hinsides : ∀ i n, i + n ≤ stop + 1 →
      ∀ j ∈ List.range' i n, j ≤ (item.raw p).length ∨ Open (item.raw p) := by
    intro i n hin j hj
    rw [List.mem_range'_1] at hj
    exact .inl (by omega)
  obtain ⟨m₁, hm₁⟩ : ∃ m₁, m₁ = (m.write p stop 0).touch p
      (List.range' (t.length + 1 + 1) (stop - (t.length + 1))) := ⟨_, rfl⟩
  have hgrows₁ : Grows item p busy [] m m₁ := by
    rw [hm₁]
    exact (grows_write hp hinside 0).trans (grows_touch (hinsides _ _ (by omega)))
  have hs₁ : (m₁.value p).s = t ++ dollar :: leftBrace :: c :: a ++ 0 :: b := by
    rw [hm₁, Memory.touch_value, Memory.write_s, hs, hraw, hstop, set_closing]
  rw [← hstop]
  unfold expandReference
  dsimp only
  rw [← hm₁, hs₁, drop_name, cstr_append_zero hname, resolve]
  cases hq : lastValue (cstr (c :: a)) item with
  | some q =>
    obtain ⟨r, m₂, hcall, hr, hkept, hoverrun⟩ :=
      h.spec (insert p busy) m₁ q (h.values q _ hq) h.card (hm.of_grows hgrows₁)
    have hgrows₂ : Grows item p busy (replacement item d (insert p busy) q) m₂ _ :=
      grows_append_write hp _ hinside rightBrace
    dsimp only
    rw [hcall]
    refine ⟨_, rfl, ?_, ?_, ?_⟩
    · dsimp only
      rw [Unfold.fill_ref, Unfold.fill_nil, List.append_nil, hr]
      exact (hgrows₁.trans (hkept.grows (hrefers q hq))).trans hgrows₂
    · rw [Memory.write_s, Memory.append_s, hkept.s p, hs₁, hback]
    · intro q' hq' x hx
      cases List.mem_singleton.mp hq'
      dsimp only
      rw [hr]
      exact hgrows₂.mem_touched (hoverrun x hx)
  | none =>
    refine ⟨_, rfl, ?_, ?_, fun q hq => by simp at hq⟩
    · have htouch := hgrows₁.trans (grows_touch (hinsides (t.length + 1 - 1)
        (stop - (t.length + 1) + 2) (by omega)))
      rw [Unfold.fill_text, Unfold.fill_nil, List.append_nil, Memory.touch_value, hs₁,
        Nat.add_sub_cancel, drop_sequence, cstr_append_zero hsequence, bytes_cstr hsequence]
      exact htouch.trans (grows_append_write hp _ hinside rightBrace)
    · rw [Memory.write_s, Memory.append_s, Memory.touch_value, hs₁, hback]

end Reference

/-! ## The loop -/

theorem le_of_mem_strchrReads {s : Bytes} {i k : ℕ} {c : UInt8} (h : i ∈ strchrReads s k c)
    (hk : k ≤ s.length) : i ≤ s.length := by
  rw [strchrReads, List.mem_range'_1] at h
  have hfind : ((s.drop k).takeWhile (· ≠ 0)).findIdx (· = c) ≤
      ((s.drop k).takeWhile (· ≠ 0)).length := List.findIdx_le_length
  have htake := (List.takeWhile_prefix (l := s.drop k) (· ≠ 0)).length_le
  rw [List.length_drop] at htake
  omega

/-- A part of the loop of the value `p` that appends `l`. -/
structure Appends (item : ItemSection) (d : ℕ) (busy : Finset ValuePtr) (p : ValuePtr)
    (l : List (Unfold.Part ValuePtr UInt8)) (m m' : Memory) : Prop where
  grows : Grows item p busy (Unfold.fill (replacement item d (insert p busy)) l) m m'
  s : (m'.value p).s = item.raw p
  calls : ∀ q, .ref q ∈ l → ∀ x, Overrun item (insert p busy) q x → x ∈ m'.touched

/-- The position after the NUL is read, unless the string has been read before. -/
def ReadsBeyond (item : ItemSection) (p : ValuePtr) (rest : Bytes) (m : Memory) : Prop :=
  Open (item.raw p) → rest ≠ [] → (p, (item.raw p).length + 1) ∈ m.touched

/-- What the loop does, `n` times round. -/
def LoopSpec (item : ItemSection) (d : ℕ) (busy : Finset ValuePtr) (p : ValuePtr) (n : ℕ) : Prop :=
  ∀ pre rest m, item.raw p = pre ++ rest → rest.length < n → During item (insert p busy) m →
    (m.value p).s = item.raw p →
    (∀ token ∈ scan (modeAfter pre) rest, token ∈ scan .text (item.raw p)) →
    ∃ m', expandLoop item (expandCall item d) p n pre.length (decide (Unpaired pre)) m = some m' ∧
      Appends item d busy p ((scan (modeAfter pre) rest).map (resolve item [])) m m' ∧
      ReadsBeyond item p rest m'

section Loop
variable {item : ItemSection} {p : ValuePtr} {busy : Finset ValuePtr} {d n : ℕ} {m m₁ m₂ : Memory}
  {pre rest rest₀ : Bytes} {l l' : List (Unfold.Part ValuePtr UInt8)} {c : UInt8}

theorem Appends.trans (h : Appends item d busy p l m m₁) (h' : Appends item d busy p l' m₁ m₂) :
    Appends item d busy p (l ++ l') m m₂ where
  grows := by
    rw [Unfold.fill_append]
    exact h.grows.trans h'.grows
  s := h'.s
  calls := fun q hq x hx => by
    rcases List.mem_append.mp hq with hq | hq
    · exact h'.grows.mem_touched (h.calls q hq x hx)
    · exact h'.calls q hq x hx

theorem Appends.append (h : Appends item d busy p [] m m₁) (hp : p ∉ busy) (t : Bytes) :
    Appends item d busy p [.text t] m (m₁.append p t) where
  grows := by
    rw [Unfold.fill_text, Unfold.fill_nil, List.append_nil]
    exact h.grows.trans (grows_append hp t)
  s := by rw [Memory.append_s, h.s]
  calls := fun q hq => by simp at hq

theorem Appends.touch (h : Appends item d busy p [] m m₁) {r : List ℕ}
    (hr : ∀ i ∈ r, i ≤ (item.raw p).length ∨ Open (item.raw p)) :
    Appends item d busy p [] m (m₁.touch p r) where
  grows := h.grows.trans (grows_touch hr)
  s := h.s
  calls := fun q hq => by cases hq

/-- The loop reads the character after `pre`. -/
theorem appends_read (hraw : item.raw p = pre ++ rest) (hs : (m.value p).s = item.raw p) :
    Appends item d busy p [] m (m.touch p [pre.length]) where
  grows := by
    refine grows_touch fun i hi => .inl ?_
    rw [List.mem_singleton.mp hi, hraw]
    simp
  s := hs
  calls := fun q hq => by cases hq

theorem getD_of_raw (hraw : item.raw p = pre ++ c :: rest) (hs : (m.value p).s = item.raw p) :
    (m.value p).s.getD pre.length 0 = c := by
  rw [hs, hraw, List.getD_eq_getElem?_getD]
  simp

/-- The loop goes on after a part of it. -/
theorem LoopSpec.next (h : LoopSpec item d busy p n) (hraw : item.raw p = pre ++ rest)
    (hn : rest.length < n) (hm : During item (insert p busy) m)
    (happends : Appends item d busy p l m m₁)
    (hreads : Open (item.raw p) → rest = [] → (p, (item.raw p).length + 1) ∈ m₁.touched)
    (hscan : ∀ token ∈ scan (modeAfter pre) rest, token ∈ scan .text (item.raw p)) {src : ℕ}
    (hsrc : src = pre.length) {escaped : Bool} (hescaped : escaped = decide (Unpaired pre)) :
    ∃ m', expandLoop item (expandCall item d) p n src escaped m₁ = some m' ∧
      Appends item d busy p (l ++ (scan (modeAfter pre) rest).map (resolve item [])) m m' ∧
      ReadsBeyond item p rest₀ m' := by
  obtain ⟨m', hloop, happends', hreads'⟩ :=
    h pre rest m₁ hraw hn (hm.of_grows happends.grows) happends.s hscan
  refine ⟨m', by rw [hsrc, hescaped, hloop], happends.trans happends', fun hopen _ => ?_⟩
  by_cases hrest : rest = []
  · exact happends'.grows.mem_touched (hreads hopen hrest)
  · exact hreads' hopen hrest

/-- The loop goes on after a character. -/
theorem LoopSpec.next_char (h : LoopSpec item d busy p n) (hraw : item.raw p = pre ++ c :: rest)
    (hn : rest.length < n) (hm : During item (insert p busy) m)
    (happends : Appends item d busy p l m m₁)
    (hreads : Open (item.raw p) → rest = [] → (p, (item.raw p).length + 1) ∈ m₁.touched)
    (escaped : Bool) (hescaped : escaped = true ↔ Unpaired (pre ++ [c]))
    (hscan : ∀ token ∈ scan (if escaped then .dollar else .text) rest,
      token ∈ scan .text (item.raw p)) :
    ∃ m', expandLoop item (expandCall item d) p n (pre.length + 1) escaped m₁ = some m' ∧
      Appends item d busy p
        (l ++ (scan (if escaped then .dollar else .text) rest).map (resolve item [])) m m' ∧
      ReadsBeyond item p (c :: rest) m' := by
  have hraw' : item.raw p = (pre ++ [c]) ++ rest := by
    rw [hraw, List.append_assoc]
    rfl
  have hmode : modeAfter (pre ++ [c]) = if escaped then .dollar else .text := by
    simp only [modeAfter, hescaped]
  rw [← hmode] at hscan ⊢
  exact h.next hraw' hn hm happends hreads hscan (by simp) (by simp [← hescaped])

/-- Outside of a sequence. -/
theorem LoopSpec.text (h : LoopSpec item d busy p n) (hraw : item.raw p = pre ++ c :: rest)
    (hn : rest.length < n) (hp : p ∉ busy) (hm : During item (insert p busy) m)
    (hs : (m.value p).s = item.raw p) (hpre : ¬ Unpaired pre) (hc : c ≠ 0)
    (hscan : ∀ token ∈ scan .text (c :: rest), token ∈ scan .text (item.raw p)) :
    ∃ m', expandLoop item (expandCall item d) p (n + 1) pre.length false m = some m' ∧
      Appends item d busy p ((scan .text (c :: rest)).map (resolve item [])) m m' ∧
      ReadsBeyond item p (c :: rest) m' := by
  have hread : Appends item d busy p [] m (m.touch p [pre.length]) := appends_read hraw hs
  -- the string does not end here in `${`
  have hreads : Open (item.raw p) → rest ≠ [] := by
    rintro hopen rfl
    rw [hraw, open_concat] at hopen
    exact hpre hopen.2
  simp only [expandLoop, Memory.touch_value, getD_of_raw hraw hs, if_neg hc, Bool.not_false,
    if_true]
  by_cases hd : c = dollar
  · subst hd
    rw [scan_dollar] at hscan ⊢
    rw [if_pos rfl]
    exact h.next_char hraw hn hm hread (fun hopen hrest => absurd hrest (hreads hopen)) true
      (by simp [unpaired_concat_dollar, hpre]) hscan
  · rw [scan_char hd] at hscan ⊢
    rw [if_neg hd]
    exact h.next_char hraw hn hm (hread.append hp [c])
      (fun hopen hrest => absurd hrest (hreads hopen)) false (by simp [not_unpaired_concat hd])
      fun token htoken => hscan token (List.mem_cons_of_mem _ htoken)

/-- The character after a `$`, where no reference starts. -/
theorem LoopSpec.kept (h : LoopSpec item d busy p n) (hraw : item.raw p = pre ++ c :: rest)
    (hn : rest.length < n) (hp : p ∉ busy) (hm : During item (insert p busy) m)
    (hpre : Unpaired pre) (happends : Appends item d busy p [] m m₁)
    (hreads : Open (item.raw p) → rest = [] → (p, (item.raw p).length + 1) ∈ m₁.touched)
    (hc : ¬ (c = leftBrace ∧ rightBrace ∈ rest.tail))
    (hscan : ∀ token ∈ scan .dollar (c :: rest), token ∈ scan .text (item.raw p)) :
    ∃ m', expandLoop item (expandCall item d) p n (pre.length + 1) false
        (m₁.append p (if c = dollar then [c] else [dollar, c])) = some m' ∧
      Appends item d busy p ((scan .dollar (c :: rest)).map (resolve item [])) m m' ∧
      ReadsBeyond item p (c :: rest) m' := by
  by_cases hd : c = dollar
  · subst hd
    rw [scan_dollar_dollar] at hscan ⊢
    exact h.next_char hraw hn hm (happends.append hp _) hreads false
      (by simp [unpaired_concat_dollar, hpre])
      fun token htoken => hscan token (List.mem_cons_of_mem _ htoken)
  · rw [scan_dollar_char hc hd] at hscan ⊢
    rw [if_neg hd]
    -- the two characters are one text for the loop
    obtain ⟨m', hloop, happends', hreads'⟩ := h.next_char hraw hn hm
      (happends.append hp [dollar, c]) hreads false (by simp [not_unpaired_concat hd])
      fun token htoken => hscan token (List.mem_cons_of_mem _ (List.mem_cons_of_mem _ htoken))
    refine ⟨m', hloop, ⟨happends'.grows, happends'.s, fun q hq => happends'.calls q ?_⟩, hreads'⟩
    simpa [resolve] using hq

/-- A reference, and the text after it. -/
theorem LoopSpec.reference (h : LoopSpec item d busy p n) (hready : Ready item d busy p)
    {t a b : Bytes} (hraw : item.raw p = t ++ dollar :: leftBrace :: c :: a ++ rightBrace :: b)
    (hn : b.length < n) (hm : During item (insert p busy) m)
    (happends : Appends item d busy p [] m m₁)
    (hscan : ∀ token ∈ .ref (c :: a) :: scan .text b, token ∈ scan .text (item.raw p)) :
    ∃ m', (expandReference item (expandCall item d) p (t.length + 1) (t.length + 3 + a.length)
        m₁).bind (expandLoop item (expandCall item d) p n (t.length + 3 + a.length + 1) false) =
        some m' ∧
      Appends item d busy p ((.ref (c :: a) :: scan .text b).map (resolve item [])) m m' ∧
      ReadsBeyond item p rest₀ m' := by
  obtain ⟨m', hreference, hgrows, hs, hcalls⟩ :=
    expandReference_spec hready hraw (hm.of_grows happends.grows) happends.s
      fun q hq => ⟨c :: a, hscan _ List.mem_cons_self, hq⟩
  rw [hreference, Option.bind_some]
  have hsplit : item.raw p = t ++ dollar :: leftBrace :: c :: a ++ [rightBrace] ++ b := by
    rw [hraw]
    simp
  have hpre : ¬ Unpaired (t ++ dollar :: leftBrace :: c :: a ++ [rightBrace]) :=
    not_unpaired_concat (by decide)
  have hmode : modeAfter (t ++ dollar :: leftBrace :: c :: a ++ [rightBrace]) = .text :=
    if_neg hpre
  rw [List.map_cons, ← hmode]
  refine h.next hsplit hn hm (happends.trans ⟨hgrows, hs, hcalls⟩) ?_ (fun token htoken => ?_) ?_
    (decide_eq_false hpre).symm
  · rintro hopen rfl
    rw [hsplit, List.append_nil, open_concat] at hopen
    exact absurd hopen.1 (by decide)
  · rw [hmode] at htoken
    exact hscan token (List.mem_cons_of_mem _ htoken)
  · simp
    omega

/-- After a `$`. -/
theorem LoopSpec.sequence (h : LoopSpec item d busy p n) (hready : Ready item d busy p)
    (hraw : item.raw p = pre ++ c :: rest) (hn : rest.length < n)
    (hm : During item (insert p busy) m) (hs : (m.value p).s = item.raw p) (hpre : Unpaired pre)
    (hc : c ≠ 0) (hscan : ∀ token ∈ scan .dollar (c :: rest), token ∈ scan .text (item.raw p)) :
    ∃ m', expandLoop item (expandCall item d) p (n + 1) pre.length true m = some m' ∧
      Appends item d busy p ((scan .dollar (c :: rest)).map (resolve item [])) m m' ∧
      ReadsBeyond item p (c :: rest) m' := by
  have hread : Appends item d busy p [] m (m.touch p [pre.length]) := appends_read hraw hs
  have hlen : (item.raw p).length = pre.length + 1 + rest.length := by
    rw [hraw]
    simp
    omega
  simp only [expandLoop, Memory.touch_value, getD_of_raw hraw hs, if_neg hc, Bool.not_true,
    Bool.false_eq_true, if_false]
  by_cases hb : c = leftBrace
  · subst hb
    have hdrop : (item.raw p).drop (pre.length + 2) = rest.tail := by
      rw [hraw, ← List.drop_drop, List.drop_left]
      simp
    rw [if_pos rfl, hs]
    have hinside : ∀ i ∈ strchrReads (item.raw p) (pre.length + 2) rightBrace,
        i ≤ (item.raw p).length ∨ Open (item.raw p) := by
      intro i hi
      by_cases hrest : rest = []
      · rw [hrest] at hraw
        exact .inr (by rw [hraw, open_concat]; exact ⟨rfl, hpre⟩)
      · have hpos := List.length_pos_iff.mpr hrest
        exact .inl (le_of_mem_strchrReads hi (by omega))
    have hsearch := hread.touch hinside
    rcases strchr_cases (raw_nul_free item p) (pre.length + 2) rightBrace with
      ⟨hnot, hnone, hrange⟩ | ⟨a, b, hab, ha, hsome, hrange⟩
    · rw [hdrop] at hnot
      rw [hnone]
      refine h.kept hraw hn hready.notMem hm hpre hsearch ?_ (fun hc => hnot hc.2) hscan
      rintro - rfl
      refine List.mem_append_right _ (List.mem_map.mpr ⟨pre.length + 2, ?_, ?_⟩)
      · rw [hrange]
        simp
      · rw [hlen]
        rfl
    · rw [hdrop] at hab
      obtain ⟨x, rfl⟩ : ∃ x, rest = x :: (a ++ rightBrace :: b) := by
        cases rest with
        | nil => simp at hab
        | cons x rest => exact ⟨x, by rw [← hab]; rfl⟩
      obtain ⟨t, rfl⟩ := hpre.exists_concat
      have href := scan_dollar_ref (c := x) (s := b) ha
      rw [List.cons_append, List.cons_append] at href
      rw [href] at hscan ⊢
      have hraw' : item.raw p = t ++ dollar :: leftBrace :: x :: a ++ rightBrace :: b := by
        rw [hraw]
        simp
      have hlength : (t ++ [dollar]).length = t.length + 1 := by simp
      have hstop : t.length + 1 + 2 + a.length = t.length + 3 + a.length := by omega
      rw [hlength] at hsome hsearch ⊢
      rw [hsome, hstop]
      refine h.reference hready hraw' ?_ hm hsearch hscan
      simp only [List.length_cons, List.length_append] at hn
      omega
  · have hkept := h.kept hraw hn hready.notMem hm hpre hread ?_ (fun hc => hb hc.1) hscan
    · rw [if_neg hb]
      by_cases hd : c = dollar
      · rw [if_pos hd] at hkept ⊢
        exact hkept
      · rw [if_neg hd] at hkept ⊢
        exact hkept
    · rintro hopen rfl
      rw [hraw, open_concat] at hopen
      exact absurd hopen.1 hb

/-- The loop does what `scan` says. -/
theorem loopSpec (h : Ready item d busy p) (n : ℕ) : LoopSpec item d busy p n := by
  induction n with
  | zero => exact fun _ _ _ _ hn => absurd hn (Nat.not_lt_zero _)
  | succ n ih =>
    intro pre rest m hraw hn hm hs hscan
    cases rest with
    | nil =>
      have hend : (m.value p).s.getD pre.length 0 = 0 := by
        rw [hs, hraw]
        simp
      have hread : Appends item d busy p [] m (m.touch p [pre.length]) := appends_read hraw hs
      refine ⟨m.touch p [pre.length], ?_, ?_, fun _ hne => absurd rfl hne⟩
      · simp only [expandLoop, Memory.touch_value, hend, if_true]
      · rw [modeAfter]
        split
        · exact ⟨hread.grows, hread.s, fun q hq => by simp [scan, resolve] at hq⟩
        · exact hread
    | cons c rest =>
      have hc : c ≠ 0 := by
        rintro rfl
        exact raw_nul_free item p (by rw [hraw]; simp)
      have hn' : rest.length < n := Nat.lt_of_succ_lt_succ hn
      by_cases hpre : Unpaired pre
      · rw [modeAfter, if_pos hpre] at hscan ⊢
        rw [decide_eq_true hpre]
        exact ih.sequence h hraw hn' hm hs hpre hc hscan
      · rw [modeAfter, if_neg hpre] at hscan ⊢
        rw [decide_eq_false hpre]
        exact ih.text hraw hn' h.notMem hm hs hpre hc hscan

end Loop

/-! ## The recursion -/

section Call
variable {item : ItemSection} {p : ValuePtr} {busy : Finset ValuePtr} {m m' : Memory} {d : ℕ}
  {t rest : Bytes}

/-- The last value of a key. -/
theorem lastValue_eq_some_iff (h : item.Holds ItemKey.Ok) {name : CString} {k i : ℕ} :
    lastValue name item = some (k, i) ↔
      k ∈ item.keys.queue ∧ (item.keys.item k).name = name ∧
        (item.keys.item k).valuesList.length = i + 1 := by
  have hget : ∀ k ∈ item.keys.queue, ∀ i, parserValueGet (-1) (item.keys.item k) = some i ↔
      (item.keys.item k).valuesList.length = i + 1 := by
    intro k hk i
    have hle := (Table.Holds.of_mem h hk).length_le
    unfold parserValueGet
    split_ifs <;> simp <;> omega
  have hfind : parserKeyGet name item = some k ↔
      k ∈ item.keys.queue ∧ (item.keys.item k).name = name := by
    rw [parserKeyGet, Table.find, SearchTree.tfind_eq_some_iff h.inv.ordered, h.inv.mem_iff]
    rfl
  rw [lastValue, Option.bind_eq_some_iff]
  constructor
  · rintro ⟨k', hk', hi⟩
    obtain ⟨i', hi', heq⟩ := Option.map_eq_some_iff.mp hi
    cases heq
    obtain ⟨hk, hname⟩ := hfind.mp hk'
    exact ⟨hk, hname, (hget k hk i).mp hi'⟩
  · rintro ⟨hk, hname, hlen⟩
    exact ⟨k, hfind.mpr ⟨hk, hname⟩, by rw [(hget k hk i).mpr hlen]; rfl⟩

theorem mem_values {k i : ℕ} : (k, i) ∈ item.values ↔
    k ∈ item.keys.queue ∧ i < (item.keys.item k).valuesList.length := by
  simp [ItemSection.values]

theorem mem_values_of_lastValue (h : item.Holds ItemKey.Ok) (q : ValuePtr) (name : CString)
    (hq : lastValue name item = some q) : q ∈ item.values := by
  obtain ⟨hk, -, hi⟩ := (lastValue_eq_some_iff h).mp hq
  exact mem_values.mpr ⟨hk, by omega⟩

/-- The texts of a section have no NUL. -/
theorem parts_nul_free (p : ValuePtr) (t : Bytes) (ht : .text t ∈ parts item [] p) :
    ∀ c ∈ t, c ≠ 0 := by
  obtain ⟨token, htoken, heq⟩ := List.mem_map.mp ht
  have hfree : token.NulFree := nulFree_of_mem_scan (raw_nul_free item p) htoken
  cases token with
  | char c =>
    cases heq
    intro c' hc'
    rw [List.mem_singleton.mp hc']
    exact hfree
  | lone =>
    cases heq
    simp
  | ref name =>
    rw [resolve] at heq
    split at heq <;> cases heq
    intro c hc
    rcases List.mem_cons.mp hc with rfl | hc
    · decide
    · rcases List.mem_cons.mp hc with rfl | hc
      · decide
      · rcases List.mem_append.mp hc with hc | hc
        · exact ne_of_mem_of_not_mem hc hfree
        · rw [List.mem_singleton.mp hc]
          decide

theorem During.start (hm : During item busy m) :
    During item (insert p busy)
      (m.set p { m.value p with expanded := .reset, expanding := true }) where
  expanding := fun q hq => by
    by_cases hqp : q = p
    · rw [hqp, Memory.set_value_self]
      simp
    · rw [Memory.set_value_of_ne _ hqp, hm.expanding q hq]
      simp [hqp]
  s := fun q hq => by
    rw [Finset.mem_insert, not_or] at hq
    rw [Memory.set_value_of_ne _ hq.1, hm.s q hq.2]

/-- A call whose loop is done. -/
theorem Grows.kept (h : Grows item p busy t
      (m.set p { m.value p with expanded := .reset, expanding := true }) m') (hp : p ∉ busy)
    (hs : (m'.value p).s = (m.value p).s) (hexpanding : (m.value p).expanding = false) :
    Kept item p busy m (m'.set p { m'.value p with expanding := false }) where
  s := fun q => by
    by_cases hq : q = p
    · rw [hq, Memory.set_value_self, hs]
    · rw [Memory.set_value_of_ne _ hq, h.s q hq, Memory.set_value_of_ne _ hq]
  expanding := fun q => by
    by_cases hq : q = p
    · rw [hq, Memory.set_value_self, hexpanding]
    · rw [Memory.set_value_of_ne _ hq, h.expanding q, Memory.set_value_of_ne _ hq]
  expanded := fun q hq => by
    have hne : q ≠ p := by
      rintro rfl
      exact hp hq
    rw [Memory.set_value_of_ne _ hne, h.expanded q hq, Memory.set_value_of_ne _ hne]
  touched := h.touched

/-- A call unfolds the references of the section. -/
theorem callSpec (h : item.Holds ItemKey.Ok) (d : ℕ) : CallSpec item d := by
  induction d with
  | zero => exact fun _ _ _ _ hcard => absurd hcard (Nat.not_lt_zero _)
  | succ d ih =>
    intro busy m p hp hcard hm
    have hexpanding := hm.expanding p hp
    by_cases hbusy : p ∈ busy
    · rw [decide_eq_true hbusy] at hexpanding
      refine ⟨none, m, by rw [expandCall, if_pos hexpanding], ?_, ?_, ?_⟩
      · rw [Unfold.expand, if_pos hbusy]
        rfl
      · exact ⟨fun _ => rfl, fun _ => rfl, fun _ _ => rfl, [], by simp, by simp⟩
      · rintro x ⟨hvisits, -⟩
        cases hvisits <;> contradiction
    · rw [decide_eq_false hbusy] at hexpanding
      have hs : (m.value p).s = item.raw p := hm.s p hbusy
      have hlt := Unfold.card_sdiff_insert_lt (List.mem_toFinset.mpr hp) hbusy
      have hs' : ((m.set p { m.value p with expanded := .reset, expanding := true }).value p).s =
          item.raw p := by
        rw [Memory.set_value_self, hs]
      obtain ⟨m', hloop, happends, hreads⟩ :=
        loopSpec ⟨hbusy, ih, mem_values_of_lastValue h, by omega⟩ ((item.raw p).length + 1) []
          (item.raw p) _ rfl (Nat.lt_succ_self _) hm.start hs' fun _ htoken => htoken
      have hexpand : Unfold.expand (parts item []) errorStr (d + 1) busy p =
          some (Unfold.fill (replacement item d (insert p busy)) (parts item [] p)) := by
        rw [Unfold.expand, if_neg hbusy]
        rfl
      have hfree : 0 ∉ Unfold.fill (replacement item d (insert p busy)) (parts item [] p) :=
        fun hmem => Unfold.forall_expand parts_nul_free
          (fun c hc => ne_of_mem_of_not_mem hc (by decide)) hexpand 0 hmem rfl
      have hself := happends.grows.expanded_self
      rw [Memory.set_value_self] at hself
      refine ⟨some (cstr (m'.value p).expanded.s), _, ?_, ?_,
        happends.grows.kept hbusy (happends.s.trans hs.symm) hexpanding, ?_⟩
      · rw [expandCall, if_neg (by simp [hexpanding])]
        dsimp only
        rw [hs']
        change (expandLoop item (expandCall item d) p _ 0 false _) = _ at hloop
        rw [hloop, Option.map_some, Memory.set_value_self]
      · rw [hexpand, hself, Option.map_some]
        exact congrArg some (bytes_cstr hfree)
      · rintro ⟨q, i⟩ ⟨hvisits, hopen, hi⟩
        dsimp only at hvisits hopen hi
        cases hvisits with
        | self _ =>
          rw [hi]
          refine hreads hopen fun hnil => ?_
          rw [hnil] at hopen
          exact absurd hopen (by decide)
        | step _ hq hr => exact happends.calls _ hq _ ⟨hr, hopen, hi⟩

end Call
end Config
end Campagnol
