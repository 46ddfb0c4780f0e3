import Campagnol.Config.Reader

/-!
# Readers that see the same

* `ReadSim`: readers that see the same characters read the same identifiers and values;
* `BuildSim`: `parser_read` then builds contexts that are alike;
* `Reading.result_of_round_eq_some`: the bound of the loop of `parser_read` does not matter.
-/

namespace Campagnol
namespace Config

/-! ## Readers that see the same -/

/-- A relation between readers that see the same characters, whatever has been logged. -/
structure ReadSim (R : ReadBuf → ReadBuf → Prop) : Prop where
  next : ∀ {rb rb'}, R rb rb' → rb.next.1 = rb'.next.1 ∧ R rb.next.2 rb'.next.2
  peek : ∀ {rb rb'}, R rb rb' → rb.peek.filter isxdigit = rb'.peek.filter isxdigit
  log : ∀ {rb rb'} l l', R rb rb' → R { rb with log := l } { rb' with log := l' }

namespace ReadSim
variable {R : ReadBuf → ReadBuf → Prop} {rb rb' : ReadBuf}

theorem upToTwo (hR : ReadSim R) (h : R rb rb') {digit : UInt8 → Bool}
    (hdigit : ∀ c, digit c = true → isxdigit c = true) (none' : StrBuf) (one : UInt8 → StrBuf)
    (two : UInt8 → UInt8 → StrBuf) :
    (Config.upToTwo digit rb none' one two).1 = (Config.upToTwo digit rb' none' one two).1 ∧
      R (Config.upToTwo digit rb none' one two).2 (Config.upToTwo digit rb' none' one two).2 := by
  -- a digit is hexadecimal
  have hpeek : ∀ {rb rb'}, R rb rb' → rb.peek.filter digit = rb'.peek.filter digit := by
    intro rb rb' h
    have hfilter : ∀ o : Option UInt8, o.filter digit = (o.filter isxdigit).filter digit := by
      intro o
      cases o with
      | none => rfl
      | some c =>
        by_cases hc : digit c = true
        · simp [Option.filter, hc, hdigit c hc]
        · cases hx : isxdigit c <;> simp [Option.filter, hc, hx]
    rw [hfilter, hR.peek h, ← hfilter]
  have hnext := (hR.next h).2
  unfold Config.upToTwo
  rw [← hpeek h, ← hpeek hnext]
  split
  · exact ⟨rfl, h⟩
  · split
    · exact ⟨rfl, hnext⟩
    · exact ⟨rfl, (hR.next hnext).2⟩

theorem charUnescape (hR : ReadSim R) (h : R rb rb') (sb : StrBuf) (c : UInt8) :
    (Config.charUnescape sb c rb).1 = (Config.charUnescape sb c rb').1 ∧
      R (Config.charUnescape sb c rb).2 (Config.charUnescape sb c rb').2 := by
  rcases charUnescape_cases c with ⟨s, heq, -⟩ | ⟨-, heq⟩ | ⟨-, heq⟩
  · rw [heq, heq]
    exact ⟨rfl, h⟩
  · rw [heq, heq, unescapeHex_eq, unescapeHex_eq]
    exact hR.upToTwo h (fun _ => id) _ _ _
  · rw [heq, heq, unescapeOct_eq, unescapeOct_eq]
    exact hR.upToTwo h (fun _ => isxdigit_of_isoctdigit) _ _ _

/-- Identifiers that are read alike. -/
def Idts (R : ReadBuf → ReadBuf → Prop) (v w : Idt) : Prop :=
  v.state = w.state ∧ v.r = w.r ∧ v.sb = w.sb ∧ R v.rb w.rb

theorem idt_body (hR : ReadSim R) {v w : Idt} (h : Idts R v w) : Idts R v.body w.body := by
  obtain ⟨st, r, sb, rb⟩ := v
  obtain ⟨st', r', sb', rb'⟩ := w
  obtain ⟨rfl, rfl, rfl, hrb⟩ := h
  obtain ⟨hc, hnext⟩ := hR.next hrb
  simp only [Idt.body]
  rw [← hc]
  generalize rb.next.2 = rb₁ at hnext
  generalize rb'.next.2 = rb₁' at hnext
  have halike := Idt.switch_alike st r sb rb₁ rb₁' rb.next.1
  revert halike
  generalize Idt.switch ⟨st, r, sb, rb₁⟩ rb.next.1 = v'
  generalize Idt.switch ⟨st, r, sb, rb₁'⟩ rb.next.1 = w'
  intro halike
  cases halike with
  | plain st' r' sb' => exact ⟨rfl, rfl, rfl, hnext⟩
  | logged st' r' sb' text => exact ⟨rfl, rfl, rfl, hR.log _ _ hnext⟩
  | unescaped c st' hst' =>
    obtain ⟨hsb, hrb'⟩ := hR.charUnescape hnext sb c
    exact ⟨rfl, rfl, hsb, hrb'⟩

theorem idt_run (hR : ReadSim R) {v w : Idt} (h : Idts R v w) :
    Idts R (Idt.run v) (Idt.run w) := by
  refine Idt.isLoop.simulates Idt.isLoop (fun v w h => ?_) (fun v w h _ => hR.idt_body h) h
    (Nat.lt_succ_self _) (Nat.lt_succ_self _)
  rw [h.1]

theorem nparserGetNextIdt (hR : ReadSim R) (h : R rb rb') :
    ∃ r sb rb₁ rb₁', Config.nparserGetNextIdt rb = (r, sb, rb₁) ∧
      Config.nparserGetNextIdt rb' = (r, sb, rb₁') ∧ R rb₁ rb₁' := by
  obtain ⟨-, hr, hsb, hrb⟩ := hR.idt_run (v := Idt.init rb) (w := Idt.init rb') ⟨rfl, rfl, rfl, h⟩
  rw [nparserGetNextIdt_eq, nparserGetNextIdt_eq]
  dsimp only
  rw [← hr, ← hsb]
  exact ⟨_, _, _, _, rfl, rfl, hrb⟩

/-- Values that are read alike. -/
def Vals (R : ReadBuf → ReadBuf → Prop) (v w : Val) : Prop :=
  v.state = w.state ∧ v.ok = w.ok ∧ v.sb = w.sb ∧ R v.rb w.rb

theorem val_body (hR : ReadSim R) {v w : Val} (h : Vals R v w) : Vals R v.body w.body := by
  obtain ⟨st, ok, sb, rb⟩ := v
  obtain ⟨st', ok', sb', rb'⟩ := w
  obtain ⟨rfl, rfl, rfl, hrb⟩ := h
  obtain ⟨hc, hnext⟩ := hR.next hrb
  simp only [Val.body]
  rw [← hc]
  generalize rb.next.2 = rb₁ at hnext
  generalize rb'.next.2 = rb₁' at hnext
  have halike := Val.switch_alike st ok sb rb₁ rb₁' rb.next.1
  revert halike
  generalize Val.switch ⟨st, ok, sb, rb₁⟩ rb.next.1 = v'
  generalize Val.switch ⟨st, ok, sb, rb₁'⟩ rb.next.1 = w'
  intro halike
  cases halike with
  | plain st' ok' sb' => exact ⟨rfl, rfl, rfl, hnext⟩
  | unescaped c st' hst' =>
    obtain ⟨hsb, hrb'⟩ := hR.charUnescape hnext sb c
    exact ⟨rfl, rfl, hsb, hrb'⟩

theorem val_run (hR : ReadSim R) {v w : Val} (h : Vals R v w) :
    Vals R (Val.run v) (Val.run w) := by
  refine Val.isLoop.simulates Val.isLoop (fun v w h => ?_) (fun v w h _ => hR.val_body h) h
    (Nat.lt_succ_self _) (Nat.lt_succ_self _)
  rw [h.1]

theorem nparserGetNextValue (hR : ReadSim R) (h : R rb rb') :
    ∃ ok sb rb₁ rb₁', Config.nparserGetNextValue rb = (ok, sb, rb₁) ∧
      Config.nparserGetNextValue rb' = (ok, sb, rb₁') ∧ R rb₁ rb₁' := by
  obtain ⟨-, hok, hsb, hrb⟩ := hR.val_run (v := Val.init rb) (w := Val.init rb') ⟨rfl, rfl, rfl, h⟩
  rw [nparserGetNextValue_eq, nparserGetNextValue_eq]
  dsimp only
  rw [← hok, ← hsb]
  refine ⟨_, _, _, _, rfl, rfl, ?_⟩
  split
  · exact hrb
  · exact hR.log _ _ hrb

end ReadSim

/-! ## `parser_read` -/

namespace Reading

/-- One time round the loop of `parser_read`, which ends at the end of the file. -/
def round (v : Reading) : Option Reading :=
  match nparserGetNextIdt v.rb with
  | (.eof, _, _) => none
  | (.sectionName, sbIdt, rb) => some { v with rb := rb, sbSection := StrBuf.reset.append sbIdt.s }
  | (.keyName, sbIdt, rb) => some (v.readKey rb sbIdt)
  | (.error, _, rb) => some { v with rb := rb }

theorem loop_of_round_eq_none {n : ℕ} {v : Reading} (h : v.round = none) :
    (loop n v).parser = v.parser := by
  cases n with
  | zero => rfl
  | succ n =>
    obtain ⟨r, sbIdt, rb, hidt⟩ : ∃ r sbIdt rb, nparserGetNextIdt v.rb = (r, sbIdt, rb) :=
      ⟨_, _, _, rfl⟩
    rw [round, hidt] at h
    rw [loop, hidt]
    cases r with
    | eof => rfl
    | _ => cases h

theorem loop_of_round_eq_some {n : ℕ} {v w : Reading} (h : v.round = some w) :
    loop (n + 1) v = loop n w := by
  obtain ⟨r, sbIdt, rb, hidt⟩ : ∃ r sbIdt rb, nparserGetNextIdt v.rb = (r, sbIdt, rb) :=
    ⟨_, _, _, rfl⟩
  rw [round, hidt] at h
  rw [loop, hidt]
  cases r with
  | eof => cases h
  | _ =>
    cases h
    rfl

/-- What is left after a key. -/
theorem readKey_suffix (v : Reading) (rb : ReadBuf) (sbIdt : StrBuf) :
    (v.readKey rb sbIdt).rb.input <:+ rb.input := by
  have hsuffix := nparserGetNextValue_suffix rb
  unfold readKey
  dsimp only
  split_ifs <;> exact hsuffix

theorem round_length {v w : Reading} (h : v.round = some w) :
    w.rb.input.length < v.rb.input.length := by
  rw [round] at h
  split at h
  · cases h
  · rename_i heq
    cases h
    exact nparserGetNextIdt_length heq (by simp)
  · rename_i rb heq
    cases h
    exact Nat.lt_of_le_of_lt (readKey_suffix v rb _).length_le
      (nparserGetNextIdt_length heq (by simp))
  · rename_i heq
    cases h
    exact nparserGetNextIdt_length heq (by simp)

/-- What `parser_read` builds from here on. -/
def result (v : Reading) : ParserContext := (loop (v.rb.input.length + 1) v).parser

theorem result_of_round_eq_none {v : Reading} (h : v.round = none) : v.result = v.parser :=
  loop_of_round_eq_none h

end Reading

/-- Readers that see the same and contexts that are alike: with the same flags, and alike again
after a value is set in both. -/
structure BuildSim (R : ReadBuf → ReadBuf → Prop) (Q : ParserContext → ParserContext → Prop) :
    Prop where
  read : ReadSim R
  flags : ∀ {p p'}, Q p p' →
    p.allowDefault = p'.allowDefault ∧ p.allowEmptyValue = p'.allowEmptyValue
  set : ∀ {p p' rb rb'} (sectionName key value : CString), R rb rb' → Q p p' →
    Q (parserSet sectionName key value rb.pos.line p)
      (parserSet sectionName key value rb'.pos.line p')

namespace BuildSim
variable {R : ReadBuf → ReadBuf → Prop} {Q : ParserContext → ParserContext → Prop}

/-- Contexts that are built alike. -/
def Readings (R : ReadBuf → ReadBuf → Prop) (Q : ParserContext → ParserContext → Prop)
    (v w : Reading) : Prop :=
  R v.rb w.rb ∧ v.sbSection = w.sbSection ∧ Q v.parser w.parser

theorem readKey (hs : BuildSim R Q) {v w : Reading} {rb rb' : ReadBuf} (h : Readings R Q v w)
    (hrb : R rb rb') (sbIdt : StrBuf) :
    Readings R Q (v.readKey rb sbIdt) (w.readKey rb' sbIdt) := by
  obtain ⟨-, hsection, hparser⟩ := h
  obtain ⟨hdefault, hempty⟩ := hs.flags hparser
  obtain ⟨ok, sb, rb₁, rb₁', hval, hval', hrb₁⟩ := hs.read.nparserGetNextValue hrb
  simp only [Reading.readKey, hval, hval', ← hsection, ← hdefault, ← hempty]
  split
  · exact ⟨hrb₁, rfl, hparser⟩
  split
  · exact ⟨hs.read.log _ _ hrb₁, rfl, hparser⟩
  split
  · exact ⟨hs.read.log _ _ hrb₁, rfl, hparser⟩
  · exact ⟨hrb₁, rfl, hs.set _ _ _ hrb hparser⟩

theorem round (hs : BuildSim R Q) {v w : Reading} (h : Readings R Q v w) :
    (v.round = none ∧ w.round = none) ∨
      ∃ v' w', v.round = some v' ∧ w.round = some w' ∧ Readings R Q v' w' := by
  obtain ⟨r, sb, rb, rb', hidt, hidt', hrb⟩ := hs.read.nparserGetNextIdt h.1
  rw [Reading.round, Reading.round, hidt, hidt']
  cases r with
  | eof => exact .inl ⟨rfl, rfl⟩
  | error => exact .inr ⟨_, _, rfl, rfl, hrb, h.2⟩
  | sectionName => exact .inr ⟨_, _, rfl, rfl, hrb, rfl, h.2.2⟩
  | keyName => exact .inr ⟨_, _, rfl, rfl, hs.readKey h hrb sb⟩

theorem loop (hs : BuildSim R Q) {n m : ℕ} {v w : Reading} (h : Readings R Q v w)
    (hn : v.rb.input.length < n) (hm : w.rb.input.length < m) :
    Q (Reading.loop n v).parser (Reading.loop m w).parser := by
  induction n generalizing v w m with
  | zero => omega
  | succ n ih =>
    obtain ⟨m, rfl⟩ := Nat.exists_eq_succ_of_ne_zero (Nat.ne_zero_of_lt hm)
    rcases hs.round h with ⟨hv, hw⟩ | ⟨v', w', hv, hw, h'⟩
    · rw [Reading.loop_of_round_eq_none hv, Reading.loop_of_round_eq_none hw]
      exact h.2.2
    · have hlt := Reading.round_length hv
      have hlt' := Reading.round_length hw
      rw [Reading.loop_of_round_eq_some hv, Reading.loop_of_round_eq_some hw]
      exact ih h' (by omega) (by omega)

theorem result (hs : BuildSim R Q) {v w : Reading} (h : Readings R Q v w) :
    Q v.result w.result :=
  hs.loop h (Nat.lt_succ_self _) (Nat.lt_succ_self _)

end BuildSim

theorem readSim_eq : ReadSim fun rb rb' => rb.input = rb'.input ∧ rb.pos = rb'.pos where
  next := by
    rintro ⟨input, pos, l⟩ ⟨_, _, l'⟩ ⟨rfl, rfl⟩
    simp only [ReadBuf.next]
    split
    · exact ⟨rfl, rfl, rfl⟩
    · split <;> exact ⟨rfl, rfl, rfl⟩
  peek := by
    rintro rb rb' ⟨h, -⟩
    rw [ReadBuf.peek, h]
    rfl
  log := fun _ _ h => h

theorem Reading.result_of_round_eq_some {v w : Reading} (h : v.round = some w) :
    v.result = w.result := by
  have hs : BuildSim (fun rb rb' => rb.input = rb'.input ∧ rb.pos = rb'.pos) Eq := by
    refine ⟨readSim_eq, fun h => ?_, fun s k x hrb h => ?_⟩
    · rw [h]
      exact ⟨rfl, rfl⟩
    · rw [h, hrb.2]
  rw [Reading.result, Reading.loop_of_round_eq_some h]
  exact hs.loop (v := w) (w := w) ⟨⟨rfl, rfl⟩, rfl, rfl⟩ (Reading.round_length h)
    (Nat.lt_succ_self _)

end Config
end Campagnol
