import Campagnol.Config.ExpandTheorems

/-!
# Expanded values

`parser_value_expand`, called from outside for a value of a section that is in order.

* `parserValueExpand_of_acyclic`: without cycles, the string that is returned is the expansion;
* `parserValueExpand_no_trace`: the call terminates, and changes nothing but the buffers;
* `parserValueExpand_of_plain`: what becomes of a text without references;
* `touchedPositions_le_iff`: when the call stays inside of the raw strings;
* `holds_of_events`: the sections of every context that can be reached are in order.
-/

namespace Campagnol
namespace Config

/-! ## Forgetting the expanded values -/

/-- The key without the expanded values. -/
def ItemKey.forget (key : ItemKey) : ItemKey :=
  { key with valuesList := key.valuesList.map fun v => { v with expanded := .reset } }

/-- The section without the expanded values. -/
def ItemSection.forget (item : ItemSection) : ItemSection :=
  { item with keys := { item.keys with item := fun k => (item.keys.item k).forget } }

/-- The names and the raw strings of a section. -/
def ItemSection.texts (item : ItemSection) : List (ℕ × CString × List CString) :=
  item.keys.queue.map fun k => (k, (item.keys.item k).name, (item.keys.item k).content)

section Forget
variable {item item' : ItemSection} {m : Memory}

theorem ItemKey.forget_store {key : ItemKey} {value : ℕ → ValueMem}
    (h : ∀ i v, key.valuesList[i]? = some v →
      (value i).s = v.s.bytes ∧ (value i).expanding = v.expanding) :
    (key.store value).forget = key.forget := by
  have hlist : (key.store value).forget.valuesList = key.forget.valuesList := by
    refine List.ext_getElem? fun i => ?_
    simp only [forget, store, List.getElem?_map, List.getElem?_mapIdx]
    cases hv : key.valuesList[i]? with
    | none => rfl
    | some v =>
      obtain ⟨hs, hexpanding⟩ := h i v hv
      have hcstr : cstr (value i).s = v.s := by
        rw [hs, cstr_of_notMem v.s.nul_free]
      simp [hcstr, hexpanding]
  exact congrArg (fun l => { key with valuesList := l }) hlist

theorem forget_store (hs : ∀ q, (m.value q).s = (item.memory.value q).s)
    (hexpanding : ∀ q, (m.value q).expanding = (item.memory.value q).expanding) :
    (item.store m).forget = item.forget := by
  have hkeys : (fun k => ((item.store m).keys.item k).forget) =
      fun k => (item.keys.item k).forget := by
    funext k
    refine ItemKey.forget_store fun i v hv => ?_
    rw [hs, hexpanding]
    simp [ItemSection.memory, hv, ItemValue.memory]
  rw [ItemSection.forget, hkeys]
  rfl

theorem ItemKey.ok_forget_iff {key : ItemKey} : key.forget.Ok ↔ key.Ok := by
  have hlength : key.forget.valuesList.length = key.valuesList.length := by simp [forget]
  constructor
  · intro h
    refine ⟨hlength ▸ h.length_le, fun v hv => ?_⟩
    exact h.expanding { v with expanded := .reset } (List.mem_map_of_mem hv)
  · intro h
    refine ⟨hlength ▸ h.length_le, fun v hv => ?_⟩
    obtain ⟨w, hw, rfl⟩ := List.mem_map.mp hv
    exact h.expanding w hw

theorem holds_forget_iff : item.forget.Holds ItemKey.Ok ↔ item.Holds ItemKey.Ok := by
  constructor
  · rintro ⟨⟨hordered, hmem, hnodup, hlt⟩, hsorted, hall⟩
    refine ⟨⟨hordered, hmem, hnodup, hlt⟩, hsorted, fun key hkey => ?_⟩
    obtain ⟨k, hk, rfl⟩ := List.mem_map.mp hkey
    exact ItemKey.ok_forget_iff.mp (hall _ (List.mem_map_of_mem hk))
  · rintro ⟨⟨hordered, hmem, hnodup, hlt⟩, hsorted, hall⟩
    refine ⟨⟨hordered, hmem, hnodup, hlt⟩, hsorted, fun key hkey => ?_⟩
    obtain ⟨k, hk, rfl⟩ := List.mem_map.mp hkey
    exact ItemKey.ok_forget_iff.mpr (hall _ (List.mem_map_of_mem hk))

theorem name_of_forget (h : item'.forget = item.forget) : item'.name = item.name := by
  have hname : item'.forget.name = item.forget.name := by rw [h]
  exact hname

theorem texts_forget : item.forget.texts = item.texts := by
  simp [ItemSection.texts, ItemSection.forget, ItemKey.forget, ItemKey.content]

end Forget

/-! ## A call from outside -/

section Outside
variable {item : ItemSection} {p : ValuePtr} {d : ℕ}

theorem during_memory (h : item.Holds ItemKey.Ok) : During item ∅ item.memory where
  expanding := by
    rintro ⟨k, i⟩ hq
    obtain ⟨hk, hi⟩ := mem_values.mp hq
    have hvalue := (Table.Holds.of_mem h hk).expanding _ (List.getElem_mem hi)
    simp [ItemSection.memory, List.getElem?_eq_getElem hi, ItemValue.memory, hvalue]
  s := fun _ _ => rfl

/-- References do not leave the section. -/
theorem mem_values_of_refers (h : item.Holds ItemKey.Ok) {lone : Bytes} (p q : ValuePtr)
    (hq : Unfold.Refers (parts item lone) p q) : q ∈ item.values := by
  obtain ⟨name, -, hlast⟩ := (refers_iff lone).mp hq
  exact mem_values_of_lastValue h q _ hlast

theorem card_values_lt (hd : item.values.length < d) : (item.values.toFinset \ ∅).card < d := by
  rw [Finset.sdiff_empty]
  exact Nat.lt_of_le_of_lt (List.toFinset_card_le _) hd

theorem expandCall_memory (h : item.Holds ItemKey.Ok) (hp : p ∈ item.values)
    (hd : item.values.length < d) :
    ∃ t m', expandCall item d item.memory p = some (some t, m') ∧
      Unfold.expand (parts item []) errorStr d ∅ p = some t.bytes ∧
      Kept item p ∅ item.memory m' ∧ ∀ x, Overrun item ∅ p x → x ∈ m'.touched := by
  obtain ⟨r, m', hcall, hr, hkept, hoverrun⟩ :=
    callSpec h d ∅ item.memory p hp (card_values_lt hd) (during_memory h)
  cases r with
  | some t => exact ⟨t, m', hcall, hr.symm, hkept, hoverrun⟩
  | none =>
    obtain ⟨d, rfl⟩ := Nat.exists_eq_succ_of_ne_zero (Nat.ne_zero_of_lt hd)
    rw [Unfold.expand, if_neg (Finset.notMem_empty p)] at hr
    cases hr

theorem parserValueExpand_eq (h : item.Holds ItemKey.Ok) (hp : p ∈ item.values)
    (hd : item.values.length < d) :
    ∃ t item', parserValueExpand d item p = some (some t, item') ∧
      Unfold.expand (parts item []) errorStr d ∅ p = some t.bytes ∧
      item'.forget = item.forget ∧ item'.Holds ItemKey.Ok := by
  obtain ⟨t, m', hcall, hexpand, hkept, -⟩ := expandCall_memory h hp hd
  have hforget := forget_store hkept.s hkept.expanding
  refine ⟨t, item.store m', by rw [parserValueExpand, hcall]; rfl, hexpand, hforget, ?_⟩
  rw [← holds_forget_iff, hforget, holds_forget_iff]
  exact h

end Outside

/-- The section of a list of keys and values. -/
def sectionOf (l : List (Bytes × Bytes)) : ItemSection :=
  l.foldl (fun item e => parserSetKey (cstr e.1) (cstr e.2) 0 item) default

theorem holds_sectionOf (l : List (Bytes × Bytes)) : (sectionOf l).Holds ItemKey.Ok :=
  List.foldlRecOn (motive := fun item => ItemSection.Holds ItemKey.Ok item) l _
    (Table.holds_empty _ _ _) fun _ h _ _ => h.set ok_new ItemKey.Ok.valueAdd _ _ _

/-! ## Sections without cycles -/

/-- The mode after `pre`, where a name does not matter. -/
def ScanMode.After (pre : Bytes) : ScanMode → Prop
  | .text => ¬ Unpaired pre
  | .dollar => Unpaired pre
  | .name _ => True

theorem unpaired_of_lone {mode : ScanMode} {pre rest : Bytes} (hmode : mode.After pre)
    (h : .lone ∈ scan mode rest) : Unpaired (pre ++ rest) := by
  fun_induction scan mode rest generalizing pre with
  | case1 => cases h
  | case2 s ih =>
    rw [List.append_cons]
    exact ih (unpaired_concat_dollar.mpr hmode) h
  | case3 c s hc ih =>
    rw [List.append_cons]
    exact ih (not_unpaired_concat hc) (by simpa using h)
  | case4 => rwa [List.append_nil]
  | case5 c s hc ih =>
    rw [List.append_cons]
    exact ih trivial h
  | case6 s hc ih =>
    rw [List.append_cons]
    exact ih (fun hpre => unpaired_concat_dollar.mp hpre hmode) (by simpa using h)
  | case7 c s hc hd ih =>
    rw [List.append_cons]
    exact ih (not_unpaired_concat hd) (by simpa using h)
  | case8 => cases h
  | case9 acc c s hc ih =>
    rw [List.append_cons]
    refine ih (not_unpaired_concat ?_) (by simpa using h)
    rw [hc.1]
    decide
  | case10 acc c s hc ih =>
    rw [List.append_cons]
    exact ih trivial h

/-- Where the string does not end in a `$`, it does not matter what becomes of one. -/
theorem parts_congr {item : ItemSection} {p : ValuePtr} (h : ¬ Unpaired (item.raw p))
    (lone lone' : Bytes) : parts item lone p = parts item lone' p := by
  refine List.map_congr_left fun token htoken => ?_
  cases token with
  | char c => rfl
  | ref name => rfl
  | lone =>
    have hstart : ScanMode.After [] .text := (by decide : ¬ Unpaired [])
    exact absurd (unpaired_of_lone hstart htoken) h

/-- In a section without cycles, a call returns the expansion of the value. -/
theorem parserValueExpand_of_acyclic (item : ItemSection) (h : item.Holds ItemKey.Ok)
    (hacyclic : ∀ q ∈ item.values, ¬ Relation.TransGen (Refers item) q q)
    (hpaired : ∀ q ∈ item.values, ¬ Unpaired (item.raw q) ∧ ¬ Open (item.raw q)) (p : ValuePtr)
    (hp : p ∈ item.values) (d : ℕ) (hd : item.values.length < d) :
    ∃ t item', parserValueExpand d item p = some (some t, item') ∧
      ∀ s, Expansion item p s ↔ s = t.bytes := by
  obtain ⟨t, item', hcall, hexpand, -⟩ := parserValueExpand_eq h hp hd
  have hrefers : Unfold.Refers (parts item []) = Refers item := by
    funext q r
    exact propext (refers_iff [])
  have hunfolds : ∃ s, Unfold.expand (parts item []) errorStr d ∅ p = some s ∧
      Unfold.Unfolds (parts item []) p s := by
    refine Unfold.expand_of_acyclic (V := item.values.toFinset)
      (fun q r _ hr => List.mem_toFinset.mpr (mem_values_of_refers h q r hr))
      (List.mem_toFinset.mpr hp) ?_ (by simp) (card_values_lt hd)
    rw [hrefers]
    exact fun q hq => hacyclic q (List.mem_toFinset.mp hq)
  obtain ⟨s, hs, hunfolds⟩ := hunfolds
  rw [hexpand] at hs
  cases hs
  have hexpansion : Expansion item p t.bytes :=
    hunfolds.congr (V := (· ∈ item.values)) (fun q r _ hr => mem_values_of_refers h q r hr)
      (fun q hq => parts_congr (hpaired q hq).1 _ _) hp
  refine ⟨t, item', hcall, fun s => ⟨fun hs => hs.unique hexpansion, ?_⟩⟩
  rintro rfl
  exact hexpansion

/-- The second value of the section with `a = x` and `b = ${a}$$`. -/
theorem parserValueExpand_reference :
    ∃ t item', parserValueExpand 3 (sectionOf [([97], [120]), ([98], [36, 123, 97, 125, 36, 36])])
        (1, 0) = some (some t, item') ∧
      ∀ s, Expansion (sectionOf [([97], [120]), ([98], [36, 123, 97, 125, 36, 36])]) (1, 0) s ↔
        s = t.bytes := by
  refine parserValueExpand_of_acyclic _ (holds_sectionOf _) ?_ (by decide) (1, 0) (by decide) 3
    (by decide)
  -- the second value refers to the first one, which refers to none
  have hfirst : ∀ r, ¬ Refers (sectionOf [([97], [120]), ([98], [36, 123, 97, 125, 36, 36])])
      (0, 0) r := by
    intro r hr
    have hmem : (.ref r : Unfold.Part ValuePtr UInt8) ∈ [.text [120]] := (refers_iff []).mpr hr
    simp at hmem
  have hsecond : ∀ r, Refers (sectionOf [([97], [120]), ([98], [36, 123, 97, 125, 36, 36])])
      (1, 0) r → r = (0, 0) := by
    intro r hr
    have hmem : (.ref r : Unfold.Part ValuePtr UInt8) ∈ [.ref (0, 0), .text [36]] :=
      (refers_iff []).mpr hr
    simpa using hmem
  intro q hq hcycle
  have hq' : q ∈ [(0, 0), (1, 0)] := hq
  obtain ⟨r, hr, hpath⟩ := Relation.TransGen.head'_iff.mp hcycle
  rcases List.mem_pair.mp hq' with rfl | rfl
  · exact hfirst r hr
  · rw [hsecond r hr] at hpath
    rcases Relation.ReflTransGen.cases_head hpath with heq | ⟨r', hr', -⟩
    · cases heq
    · exact hfirst r' hr'

/-! ## What a call leaves as it was -/

section Texts
variable {item item' : ItemSection}

/-- A key of the other section with the same texts. -/
theorem key_of_texts (h : item'.texts = item.texts) {k : ℕ} (hk : k ∈ item.keys.queue) :
    k ∈ item'.keys.queue ∧ (item'.keys.item k).name = (item.keys.item k).name ∧
      (item'.keys.item k).content = (item.keys.item k).content := by
  have hmem : (k, (item.keys.item k).name, (item.keys.item k).content) ∈ item'.texts := by
    rw [h]
    exact List.mem_map_of_mem hk
  obtain ⟨k', hk', heq⟩ := List.mem_map.mp hmem
  simp only [Prod.mk.injEq] at heq
  obtain ⟨rfl, hname, hcontent⟩ := heq
  exact ⟨hk', hname, hcontent⟩

theorem length_content (key : ItemKey) : key.content.length = key.valuesList.length := by
  simp [ItemKey.content]

theorem values_of_texts (h : item'.texts = item.texts) : item'.values = item.values := by
  have hvalues : ∀ item : ItemSection, item.values =
      item.texts.flatMap fun x => (List.range x.2.2.length).map fun i => (x.1, i) := by
    intro item
    simp [ItemSection.values, ItemSection.texts, List.flatMap_map, length_content]
  rw [hvalues, hvalues, h]

theorem lastValue_of_texts (hok : item.Holds ItemKey.Ok) (hok' : item'.Holds ItemKey.Ok)
    (h : item'.texts = item.texts) (name : CString) :
    lastValue name item' = lastValue name item := by
  have himp : ∀ {item item' : ItemSection}, item.Holds ItemKey.Ok → item'.Holds ItemKey.Ok →
      item'.texts = item.texts → ∀ q, lastValue name item = some q →
      lastValue name item' = some q := by
    rintro item item' hok hok' h ⟨k, i⟩ hq
    obtain ⟨hk, hname, hi⟩ := (lastValue_eq_some_iff hok).mp hq
    obtain ⟨hk', hname', hcontent⟩ := key_of_texts h hk
    refine (lastValue_eq_some_iff hok').mpr ⟨hk', hname'.trans hname, ?_⟩
    rw [← hi, ← length_content, ← length_content, hcontent]
  exact Option.ext fun q => ⟨himp hok' hok h.symm q, himp hok hok' h q⟩

theorem raw_of_texts (h : item'.texts = item.texts) {p : ValuePtr} (hp : p ∈ item.values) :
    item'.raw p = item.raw p := by
  obtain ⟨k, i⟩ := p
  have hraw : ∀ item : ItemSection, item.raw (k, i) =
      (((item.keys.item k).content[i]?).map CString.bytes).getD [] := by
    intro item
    simp only [ItemSection.raw, ItemSection.memory, ItemKey.content, List.getElem?_map]
    cases (item.keys.item k).valuesList[i]? <;> rfl
  rw [hraw, hraw, (key_of_texts h (mem_values.mp hp).1).2.2]

theorem parts_of_texts (hok : item.Holds ItemKey.Ok) (hok' : item'.Holds ItemKey.Ok)
    (h : item'.texts = item.texts) {p : ValuePtr} (hp : p ∈ item.values) :
    parts item' [] p = parts item [] p := by
  rw [parts, parts, raw_of_texts h hp]
  refine List.map_congr_left fun token _ => ?_
  cases token with
  | char c => rfl
  | lone => rfl
  | ref name => rw [resolve, resolve, lastValue_of_texts hok hok' h]

/-- The string that is returned depends only on the names and the raw strings. -/
theorem expand_of_texts (hok : item.Holds ItemKey.Ok) (hok' : item'.Holds ItemKey.Ok)
    (h : item'.texts = item.texts) {p : ValuePtr} (hp : p ∈ item.values) {d d' : ℕ}
    (hd : item.values.length < d) (hd' : item'.values.length < d') :
    Unfold.expand (parts item' []) errorStr d' ∅ p =
      Unfold.expand (parts item []) errorStr d ∅ p := by
  have hV : ∀ q r, q ∈ item.values.toFinset → Unfold.Refers (parts item []) q r →
      r ∈ item.values.toFinset := fun q r _ hr =>
    List.mem_toFinset.mpr (mem_values_of_refers hok q r hr)
  have hp' := List.mem_toFinset.mpr hp
  rw [values_of_texts h] at hd'
  rw [Unfold.expand_of_lt hV hp' (card_values_lt hd) (card_values_lt hd')]
  refine (Unfold.expand_congr hV (fun q hq => ?_) hp').symm
  rw [parts_of_texts hok hok' h (List.mem_toFinset.mp hq)]

end Texts

/-- A call terminates and returns a string that depends only on the names and the raw strings of the
section. Afterwards nothing but the expanded values has changed. -/
theorem parserValueExpand_no_trace (item : ItemSection) (h : item.Holds ItemKey.Ok) (p : ValuePtr)
    (hp : p ∈ item.values) :
    ∃ t, ∀ item₁ : ItemSection, item₁.Holds ItemKey.Ok → item₁.texts = item.texts →
      ∀ d, item₁.values.length < d →
        ∃ item₂, parserValueExpand d item₁ p = some (some t, item₂) ∧
          item₂.forget = item₁.forget ∧ item₂.Holds ItemKey.Ok ∧
          ∃ item₃, parserValueExpand d item₂ p = some (some t, item₃) := by
  obtain ⟨t, item', -, hexpand, -⟩ := parserValueExpand_eq h hp (Nat.lt_succ_self _)
  have hcall : ∀ item₁ : ItemSection, item₁.Holds ItemKey.Ok → item₁.texts = item.texts →
      ∀ d, item₁.values.length < d →
        ∃ item₂, parserValueExpand d item₁ p = some (some t, item₂) ∧
          item₂.forget = item₁.forget ∧ item₂.Holds ItemKey.Ok := by
    intro item₁ h₁ htexts d hd
    have hp₁ : p ∈ item₁.values := by rwa [values_of_texts htexts]
    obtain ⟨t', item₂, hcall, hexpand', hforget, h₂⟩ := parserValueExpand_eq h₁ hp₁ hd
    have heq := expand_of_texts h h₁ htexts hp (Nat.lt_succ_self _) hd
    rw [hexpand', hexpand] at heq
    cases CString.bytes_injective (Option.some.inj heq)
    exact ⟨item₂, hcall, hforget, h₂⟩
  refine ⟨t, fun item₁ h₁ htexts d hd => ?_⟩
  obtain ⟨item₂, hcall₁, hforget, h₂⟩ := hcall item₁ h₁ htexts d hd
  have htexts₂ : item₂.texts = item₁.texts := by
    rw [← texts_forget, hforget, texts_forget]
  have hd₂ : item₂.values.length < d := by rwa [values_of_texts htexts₂]
  obtain ⟨item₃, hcall₂, -⟩ := hcall item₂ h₂ (htexts₂.trans htexts) d hd₂
  exact ⟨item₂, hcall₁, hforget, h₂, item₃, hcall₂⟩

/-- A value that refers to itself. -/
theorem parserValueExpand_self :
    ∃ t, ∀ item₁ : ItemSection, item₁.Holds ItemKey.Ok →
      item₁.texts = (sectionOf [([97], [36, 123, 97, 125])]).texts →
      ∀ d, item₁.values.length < d →
        ∃ item₂, parserValueExpand d item₁ (0, 0) = some (some t, item₂) ∧
          item₂.forget = item₁.forget ∧ item₂.Holds ItemKey.Ok ∧
          ∃ item₃, parserValueExpand d item₂ (0, 0) = some (some t, item₃) :=
  parserValueExpand_no_trace _ (holds_sectionOf _) (0, 0) (by decide)

/-! ## Texts without references -/

/-- The string without a `$` at its end. -/
def withoutDollar (s : Bytes) : Bytes := if s.getLast? = some dollar then s.dropLast else s

/-- The string contains neither `${` nor `$$`. -/
structure NoSequence (s : Bytes) : Prop where
  brace : ¬ [dollar, leftBrace] <:+: s
  dollars : ¬ [dollar, dollar] <:+: s

theorem NoSequence.tail {c : UInt8} {s : Bytes} (h : NoSequence (c :: s)) : NoSequence s :=
  ⟨fun hs => h.brace (List.infix_cons hs), fun hs => h.dollars (List.infix_cons hs)⟩

theorem withoutDollar_cons {c : UInt8} {s : Bytes} (h : c ≠ dollar ∨ s ≠ []) :
    withoutDollar (c :: s) = c :: withoutDollar s := by
  cases s with
  | nil => simpa [withoutDollar] using h
  | cons c' s =>
    simp only [withoutDollar, List.getLast?_cons_cons, List.dropLast_cons_cons]
    split <;> rfl

theorem withoutDollar_eq_self_iff {s : Bytes} :
    withoutDollar s = s ↔ s.getLast? ≠ some dollar := by
  rw [withoutDollar]
  split
  · rename_i hlast
    refine iff_of_false (fun heq => ?_) (fun hne => hne hlast)
    have hpos : 0 < s.length := List.length_pos_iff.mpr fun hnil => by simp [hnil] at hlast
    have hlen := congrArg List.length heq
    rw [List.length_dropLast] at hlen
    omega
  · rename_i hlast
    exact iff_of_true rfl hlast

/-- Such a string is kept, up to a `$` at its end. -/
theorem fill_scan_text {item : ItemSection} {f : ValuePtr → Bytes} {s : Bytes} (h : NoSequence s) :
    Unfold.fill f ((scan .text s).map (resolve item [])) = withoutDollar s ∧
      (NoSequence (dollar :: s) →
        Unfold.fill f ((scan .dollar s).map (resolve item [])) = withoutDollar (dollar :: s)) := by
  induction s with
  | nil => exact ⟨rfl, fun _ => rfl⟩
  | cons c s ih =>
    obtain ⟨htext, hdollar⟩ := ih h.tail
    refine ⟨?_, fun h' => ?_⟩
    · by_cases hc : c = dollar
      · subst hc
        rw [scan_dollar]
        exact hdollar h
      · rw [scan_char hc, withoutDollar_cons (.inl hc), ← htext]
        rfl
    · have hc : c ≠ dollar := by
        rintro rfl
        exact h'.dollars ⟨[], s, rfl⟩
      have hbrace : c ≠ leftBrace := by
        rintro rfl
        exact h'.brace ⟨[], s, rfl⟩
      rw [scan_dollar_char (fun hb => hbrace hb.1) hc, withoutDollar_cons (.inr (by simp)),
        withoutDollar_cons (.inl hc), ← htext]
      rfl

/-- A text without references is returned as it is, unless it ends in a `$`. -/
theorem parserValueExpand_of_plain (item : ItemSection) (h : item.Holds ItemKey.Ok) (p : ValuePtr)
    (hp : p ∈ item.values) (hbrace : ¬ [dollar, leftBrace] <:+: item.raw p)
    (hdollars : ¬ [dollar, dollar] <:+: item.raw p) (d : ℕ) (hd : item.values.length < d) :
    (∃ t item', parserValueExpand d item p = some (some t, item') ∧ t.bytes = item.raw p) ↔
      (item.raw p).getLast? ≠ some dollar := by
  obtain ⟨t, item', hcall, hexpand, -⟩ := parserValueExpand_eq h hp hd
  have ht : t.bytes = withoutDollar (item.raw p) := by
    obtain ⟨d, rfl⟩ := Nat.exists_eq_succ_of_ne_zero (Nat.ne_zero_of_lt hd)
    rw [Unfold.expand, if_neg (Finset.notMem_empty p)] at hexpand
    rw [← Option.some.inj hexpand]
    exact (fill_scan_text ⟨hbrace, hdollars⟩).1
  rw [← withoutDollar_eq_self_iff, ← ht]
  constructor
  · rintro ⟨t', item'', hcall', heq⟩
    rw [hcall] at hcall'
    cases hcall'
    exact heq
  · exact fun heq => ⟨t, item', hcall, heq⟩

/-- The value `a$b`. -/
theorem parserValueExpand_dollar :
    ∃ t item', parserValueExpand 2 (sectionOf [([97], [97, 36, 98])]) (0, 0) =
      some (some t, item') ∧ t.bytes = (sectionOf [([97], [97, 36, 98])]).raw (0, 0) :=
  (parserValueExpand_of_plain _ (holds_sectionOf _) (0, 0) (by decide) (by decide) (by decide) 2
    (by decide)).mpr (by decide)

/-- Not every text without references is returned as it is: the `$` at the end of `a$` is lost. -/
theorem not_parserValueExpand_of_plain :
    ¬ ∀ (item : ItemSection), item.Holds ItemKey.Ok → ∀ p ∈ item.values,
      ¬ [dollar, leftBrace] <:+: item.raw p → ¬ [dollar, dollar] <:+: item.raw p →
      ∀ d, item.values.length < d →
        ∃ t item', parserValueExpand d item p = some (some t, item') ∧ t.bytes = item.raw p := by
  intro h
  obtain ⟨t, item', hcall, ht⟩ := h (sectionOf [([97], [97, 36])]) (holds_sectionOf _) (0, 0)
    (by decide) (by decide) (by decide) 2 (by decide)
  have hreturned : (parserValueExpand 2 (sectionOf [([97], [97, 36])]) (0, 0)).map
      (fun r => r.1.map CString.bytes) = some (some [97]) := by decide
  rw [hcall] at hreturned
  cases ht.symm.trans (Option.some.inj (Option.some.inj hreturned))

/-! ## Positions -/

/-- A call stays inside of the raw strings unless it comes to a value that ends in `${`. -/
theorem touchedPositions_le_iff (item : ItemSection) (h : item.Holds ItemKey.Ok) (p : ValuePtr)
    (hp : p ∈ item.values) (d : ℕ) (hd : item.values.length < d) :
    (∀ q i, (q, i) ∈ touchedPositions d item p → i ≤ (item.raw q).length) ↔
      ∀ q, Relation.ReflTransGen (Refers item) p q → ¬ Open (item.raw q) := by
  obtain ⟨t, m', hcall, -, hkept, hoverrun⟩ := expandCall_memory h hp hd
  have htouched : touchedPositions d item p = m'.touched := by
    rw [touchedPositions, hcall]
    rfl
  rw [htouched]
  constructor
  · intro hle q hq hopen
    have hV : ∀ q r, q ∈ item.values.toFinset → Unfold.Refers (parts item []) q r →
        r ∈ item.values.toFinset := fun q r _ hr =>
      List.mem_toFinset.mpr (mem_values_of_refers h q r hr)
    have hvisits : Unfold.Visits (parts item []) ∅ p q := by
      refine Unfold.visits_of_reflTransGen hV (List.mem_toFinset.mpr hp) (Finset.notMem_empty p) ?_
      exact Relation.ReflTransGen.mono
        (fun a b hab => ⟨(refers_iff []).mpr hab, Finset.notMem_empty b⟩) _ _ hq
    have hlt := hle q _ (hoverrun (q, (item.raw q).length + 1) ⟨hvisits, hopen, rfl⟩)
    omega
  · intro hopen q i hi
    obtain ⟨l, hl, hall⟩ := hkept.touched
    rw [hl] at hi
    obtain ⟨hreaches, hinside⟩ := hall _ hi
    exact hinside.resolve_right (hopen q hreaches)

/-- The value `$${` is read up to its NUL. -/
theorem touchedPositions_le_protected :
    ((0, 0), 3) ∈ touchedPositions 2 (sectionOf [([97], [36, 36, 123])]) (0, 0) ∧
      ∀ q i, (q, i) ∈ touchedPositions 2 (sectionOf [([97], [36, 36, 123])]) (0, 0) →
        i ≤ ((sectionOf [([97], [36, 36, 123])]).raw q).length := by
  refine ⟨by decide,
    (touchedPositions_le_iff _ (holds_sectionOf _) (0, 0) (by decide) 2 (by decide)).mpr ?_⟩
  intro q hq
  rcases Relation.ReflTransGen.cases_head hq with rfl | ⟨r, hr, -⟩
  · decide
  · have hmem : (.ref r : Unfold.Part ValuePtr UInt8) ∈ [.text [36], .text [123]] :=
      (refers_iff []).mpr hr
    simp at hmem

/-- Not every call stays inside of the raw string: for the value `${`, the search for the closing
brace starts after the NUL. -/
theorem not_touchedPositions_le :
    ¬ ∀ (item : ItemSection), item.Holds ItemKey.Ok → ∀ p ∈ item.values,
      ∀ d, item.values.length < d →
        ∀ q i, (q, i) ∈ touchedPositions d item p → i ≤ (item.raw q).length := by
  intro h
  have hle := h (sectionOf [([97], [36, 123])]) (holds_sectionOf _) (0, 0) (by decide) 2 (by decide)
    (0, 0) 3 (by decide)
  exact absurd hle (by decide)

/-! ## Contexts -/

/-- A call of a function of `config_parser.h`. -/
inductive Event where
  | call (call : Call)
  | get (sectionName key : CString) (n : Int) (expand : Bool)
  | expand (p : ℕ) (q : ValuePtr)

/-- The context after a call. -/
def ParserContext.event (parser : ParserContext) : Event → Option ParserContext
  | .call call => parser.step call
  | .get sectionName key n expand => (parserGet sectionName key n expand parser).map Prod.snd
  | .expand p q => parser.inSection p fun item =>
    if q ∈ item.values then
      (parserValueExpand (item.values.length + 1) item q).map Prod.snd
    else none

section Contexts
variable {parser : ParserContext}

theorem lt_of_parserValueGet {n : Int} {key : ItemKey} {i : ℕ} (h : parserValueGet n key = some i) :
    i < key.valuesList.length := by
  unfold parserValueGet at h
  split_ifs at h <;> cases h
  · omega
  · omega

/-- The value that `parser_get` finds, without the expansion. -/
def ParserContext.lookup (parser : ParserContext) (sectionName key : CString) (n : Int) :
    Option (ℕ × ValuePtr) :=
  (parserSectionGet sectionName parser).bind fun p =>
    (parserKeyGet key (parser.sections.item p)).bind fun k =>
      (parserValueGet n ((parser.sections.item p).keys.item k)).map fun i => (p, k, i)

theorem parserGet_eq (sectionName key : CString) (n : Int) (expand : Bool)
    (parser : ParserContext) :
    parserGet sectionName key n expand parser =
      match parser.lookup sectionName key n with
      | none => some (none, parser)
      | some (p, q) =>
        let item := parser.sections.item p
        if expand then
          (parserValueExpand (item.values.length + 1) item q).map fun r =>
            (some (p, q), { parser with sections := parser.sections.modify p fun _ => r.2 })
        else some (some (p, q), parser) := by
  rw [parserGet, ParserContext.lookup]
  cases parserSectionGet sectionName parser with
  | none => rfl
  | some p =>
    simp only [Option.bind_some]
    cases parserKeyGet key (parser.sections.item p) with
    | none => rfl
    | some k =>
      simp only [Option.bind_some]
      cases parserValueGet n ((parser.sections.item p).keys.item k) <;> rfl

/-- A value that is found is in a section of the context. -/
theorem ParserContext.Holds.lookup (h : parser.Holds ItemKey.Ok) {sectionName key : CString}
    {n : Int} {p : ℕ} {q : ValuePtr} (hlookup : parser.lookup sectionName key n = some (p, q)) :
    (parser.sections.item p).Holds ItemKey.Ok ∧ q ∈ (parser.sections.item p).values := by
  obtain ⟨p', hp, hlookup⟩ := Option.bind_eq_some_iff.mp hlookup
  obtain ⟨k, hk, hlookup⟩ := Option.bind_eq_some_iff.mp hlookup
  obtain ⟨i, hi, heq⟩ := Option.map_eq_some_iff.mp hlookup
  cases heq
  have hitem := Table.Holds.of_mem h (h.inv.mem_of_find hp).1
  exact ⟨hitem, mem_values.mpr ⟨(hitem.inv.mem_of_find hk).1, lt_of_parserValueGet hi⟩⟩

/-- `parser_get` returns, and keeps the keys and the tables in order. -/
theorem ParserContext.Holds.get (h : parser.Holds ItemKey.Ok) (sectionName key : CString) (n : Int)
    (expand : Bool) :
    ∃ r parser', parserGet sectionName key n expand parser = some (r, parser') ∧
      parser'.Holds ItemKey.Ok := by
  rw [parserGet_eq]
  cases hlookup : parser.lookup sectionName key n with
  | none => exact ⟨none, parser, rfl, h⟩
  | some x =>
    obtain ⟨p, q⟩ := x
    obtain ⟨hitem, hq⟩ := h.lookup hlookup
    cases expand with
    | false => exact ⟨_, parser, rfl, h⟩
    | true =>
      obtain ⟨t, item', hcall, -, hforget, hok⟩ :=
        parserValueExpand_eq hitem hq (Nat.lt_succ_self _)
      dsimp only
      rw [if_pos rfl, hcall]
      refine ⟨_, _, rfl, ?_⟩
      exact Table.Holds.modify (f := fun _ => item') h (name_of_forget hforget) hok

/-- In every context that can be reached, the keys and the tables are in order. -/
theorem holds_of_events (allowDefault allowEmptyValue : Bool) (parser : ParserContext)
    (h : Steps ParserContext.event (fun _ _ => True) (parserInit allowDefault allowEmptyValue)
      parser) : parser.Holds ItemKey.Ok := by
  refine h.invariant (P := ParserContext.Holds ItemKey.Ok) (holds_parserInit _ _) ?_
  intro parser event parser' hparser _ hevent
  cases event with
  | call call => exact hparser.step_ok hevent
  | get sectionName key n expand =>
    obtain ⟨r, parser'', hget, hok⟩ := hparser.get sectionName key n expand
    rw [ParserContext.event, hget] at hevent
    cases hevent
    exact hok
  | expand p q =>
    rw [ParserContext.event] at hevent
    refine hparser.inSection (fun item item' hitem hexpand => ?_) hevent
    split at hexpand
    · rename_i hq
      obtain ⟨t, item'', hcall, -, hforget, hok⟩ :=
        parserValueExpand_eq hitem hq (Nat.lt_succ_self _)
      rw [hcall] at hexpand
      cases hexpand
      exact ⟨hok, name_of_forget hforget⟩
    · cases hexpand

end Contexts
end Config
end Campagnol
