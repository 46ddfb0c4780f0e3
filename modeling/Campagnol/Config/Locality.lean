import Campagnol.Config.Simulation

/-!
# Errors in a file

* `parserRead_error_line`: a line with a syntax error can be left out.

Up to the line the two files are the same, but the reader looks ahead, so that what follows could
matter: `Before` says when it does not. On the line itself `Idt.run_line` follows the reader to the
newline.
-/

namespace Campagnol
namespace Config

/-! ## What is left of the file -/

theorem pos_skips (rb : ReadBuf) (s : Bytes) : (rb.skips s).pos = s.foldl Position.inc rb.pos := by
  induction s generalizing rb with
  | nil => rfl
  | cons c s ih => exact ih (rb.skip c)

/-- Readers with the same bytes before the rests `Z` and `Z'` of their files. -/
def Before (Z Z' : Bytes) (rb rb' : ReadBuf) : Prop :=
  ∃ s, rb.input = s ++ Z ∧ rb'.input = s ++ Z' ∧ rb.pos = rb'.pos

section Before
variable {Z Z' : Bytes} {rb rb' : ReadBuf}

theorem Before.skips (ds s : Bytes) (h : rb.input = ds ++ (s ++ Z))
    (h' : rb'.input = ds ++ (s ++ Z')) (hpos : rb.pos = rb'.pos) :
    Before Z Z' (rb.skips ds) (rb'.skips ds) := by
  refine ⟨s, input_skips h, input_skips h', ?_⟩
  rw [pos_skips, pos_skips, hpos]

/-- A character before the rest of the file is the same for both. A CR just before the rest is
not, since a newline may follow it in one file only. -/
theorem Before.next (h : Before Z Z' rb rb') (hZ : Z ≠ [])
    (hlen : Z.length ≤ rb.next.2.input.length) :
    (rb.next.1 = rb'.next.1 ∧ Before Z Z' rb.next.2 rb'.next.2) ∨
      (rb.next.1 = some carriageReturn ∧ rb.next.2.input = Z) := by
  obtain ⟨s, hinput, hinput', hpos⟩ := h
  rcases next_cases rb with ⟨hnil, -⟩ | ⟨c, rest, hcons, hcr, hnext⟩ | ⟨rest, hcons, hnext⟩
  · rw [hinput, List.append_eq_nil_iff] at hnil
    exact absurd hnil.2 hZ
  · rw [hnext] at hlen ⊢
    rw [input_skip hcons] at hlen
    rw [hcons] at hinput
    cases s with
    | nil =>
      rw [List.nil_append] at hinput
      rw [← hinput, List.length_cons] at hlen
      omega
    | cons c' s =>
      rw [List.cons_append] at hinput hinput'
      obtain ⟨rfl, rfl⟩ := List.cons.inj hinput
      rcases Classical.em (c = carriageReturn ∧ s = []) with ⟨rfl, rfl⟩ | hs
      · exact .inr ⟨rfl, input_skip hcons⟩
      · have hnext' : rb'.next = (some c, rb'.skip c) := by
          by_cases hc : c = carriageReturn
          · obtain ⟨d, s', rfl⟩ := List.exists_cons_of_ne_nil fun hnil => hs ⟨hc, hnil⟩
            exact next_eq_skip hinput' hcr
          · exact next_of_cons hinput' hc
        rw [hnext']
        exact .inl ⟨rfl, Before.skips [c] s hcons hinput' hpos⟩
  · rw [hnext] at hlen ⊢
    rw [hcons] at hinput
    cases s with
    | nil =>
      rw [List.nil_append] at hinput
      rw [← hinput] at hlen
      simp only [List.length_cons] at hlen
      omega
    | cons c s =>
      rw [List.cons_append] at hinput hinput'
      obtain ⟨rfl, hrest⟩ := List.cons.inj hinput
      cases s with
      | nil =>
        rw [List.nil_append] at hrest
        rw [← hrest] at hlen
        simp only [List.length_cons] at hlen
        omega
      | cons d s =>
        rw [List.cons_append] at hrest
        obtain ⟨rfl, rfl⟩ := List.cons.inj hrest
        have hnext' : rb'.next =
            (some newline, { rb' with input := s ++ Z', pos := rb'.pos.inc newline }) := by
          simp [ReadBuf.next, hinput']
        rw [hnext']
        exact .inl ⟨rfl, s, rfl, rfl, by rw [hpos]⟩

/-- An escape before the rest of the file. -/
theorem Before.charUnescape (h : Before Z Z' rb rb') (sb : StrBuf) (c : UInt8)
    (hlen : Z.length < (charUnescape sb c rb).2.input.length) :
    (Config.charUnescape sb c rb).1 = (Config.charUnescape sb c rb').1 ∧
      Before Z Z' (Config.charUnescape sb c rb).2 (Config.charUnescape sb c rb').2 := by
  obtain ⟨s, hinput, hinput', hpos⟩ := h
  obtain ⟨t, ds, heq, ⟨rest, hrest⟩, -, hlocal, -⟩ := charUnescape_spec sb c rb
  rw [heq, input_skips hrest.symm] at hlen
  -- a byte before the rest follows the digits
  have hsuffix : Z <:+ rest := by
    refine List.suffix_of_suffix_length_le ⟨s, hinput.symm⟩ ⟨ds, hrest⟩ (Nat.le_of_lt hlen)
  obtain ⟨s', rfl⟩ := hsuffix
  obtain ⟨e, s', rfl⟩ : ∃ e s'', s' = e :: s'' := by
    refine List.exists_cons_of_ne_nil fun hnil => ?_
    rw [hnil, List.nil_append] at hlen
    exact absurd hlen (Nat.lt_irrefl _)
  have hs : s = ds ++ e :: s' := by
    have happend : s ++ Z = (ds ++ e :: s') ++ Z := by
      rw [← hinput, ← hrest, List.append_assoc]
    exact List.append_cancel_right happend
  subst hs
  have hds : rb.input = ds ++ (e :: s' ++ Z) := hrest.symm
  have hds' : rb'.input = ds ++ (e :: s' ++ Z') := by rw [hinput', List.append_assoc]
  rw [heq, hlocal e _ rb' _ hds hds']
  exact ⟨rfl, Before.skips _ _ hds hds' hpos⟩

end Before

/-! ## Locality of the loops -/

namespace Idt
variable {Z Z' : Bytes} {v w : Idt}

/-- Identifiers that are read alike before the rests of the files. -/
def Before (Z Z' : Bytes) (v w : Idt) : Prop :=
  v.state = w.state ∧ v.r = w.r ∧ v.sb = w.sb ∧ Config.Before Z Z' v.rb w.rb

/-- The loop has not read beyond `Z`, and need not when only `Z` is left. -/
def Above (Z : Bytes) (v : Idt) : Prop :=
  Z.length < v.rb.input.length ∨
    (Z.length = v.rb.input.length ∧ (v.state = .start ∨ v.state = .stop))

theorem Above.le (h : Above Z v) : Z.length ≤ v.rb.input.length := by
  rcases h with h | h
  · exact Nat.le_of_lt h
  · exact Nat.le_of_eq h.1

theorem Above.of_body (hZ : Z ≠ []) (h : Above Z v.body) : Above Z v :=
  .inl (lt_of_next (f := fun c rb => ({ v with rb := rb }.switch c).rb)
    (fun _ _ => switch_suffix _ _) (List.length_pos_of_ne_nil hZ) h.le)

/-- A CR does not end a line. -/
theorem switch_carriageReturn (h : v.state ≠ .stop) :
    (v.switch (some carriageReturn)).state ≠ .start ∧
      (v.switch (some carriageReturn)).state ≠ .stop := by
  obtain ⟨st, r, sb, rb⟩ := v
  cases st <;> first
    | exact absurd rfl h
    | exact ⟨(fun hst => by cases hst), fun hst => by cases hst⟩

theorem Before.body (h : Before Z Z' v w) (hZ : Z ≠ []) (hv : v.state ≠ .stop)
    (hlen : Above Z v.body) : Before Z Z' v.body w.body := by
  obtain ⟨st, r, sb, rb⟩ := v
  obtain ⟨st', r', sb', rb'⟩ := w
  obtain ⟨rfl, rfl, rfl, hrb⟩ := h
  have hle : Z.length ≤ rb.next.2.input.length :=
    Nat.le_trans hlen.le (switch_suffix ⟨st, r, sb, rb.next.2⟩ rb.next.1).length_le
  rcases hrb.next hZ hle with ⟨hc, hnext⟩ | ⟨hcr, hinput⟩
  · simp only [Idt.body] at hlen ⊢
    rw [← hc]
    generalize rb.next.2 = rb₁ at hnext hlen
    generalize rb'.next.2 = rb₁' at hnext
    have halike := switch_alike st r sb rb₁ rb₁' rb.next.1
    revert halike hlen
    generalize switch ⟨st, r, sb, rb₁⟩ rb.next.1 = v'
    generalize switch ⟨st, r, sb, rb₁'⟩ rb.next.1 = w'
    intro hlen halike
    cases halike with
    | plain st' r' sb' => exact ⟨rfl, rfl, rfl, hnext⟩
    | logged st' r' sb' text => exact ⟨rfl, rfl, rfl, hnext⟩
    | unescaped c st' hst' =>
      -- the name goes on, so that a byte before the rest is left
      have hlt : Z.length < (Config.charUnescape sb c rb₁).2.input.length := by
        refine hlen.resolve_right fun hend => ?_
        rcases hst' with rfl | rfl <;> rcases hend.2 with hst | hst <;> cases hst
      obtain ⟨hsb, hrb₂⟩ := hnext.charUnescape sb c hlt
      exact ⟨rfl, rfl, hsb, hrb₂⟩
  · -- after a CR the loop goes on
    obtain ⟨hstart, hstop⟩ := switch_carriageReturn (v := ⟨st, r, sb, rb.next.2⟩) hv
    have hsuffix := (switch_suffix ⟨st, r, sb, rb.next.2⟩ (some carriageReturn)).length_le
    rw [Idt.body, hcr] at hlen
    rcases hlen with hlt | ⟨-, hst | hst⟩
    · dsimp only at hsuffix hlt
      rw [hinput] at hsuffix
      omega
    · exact absurd hst hstart
    · exact absurd hst hstop

theorem Before.loop {n : ℕ} (h : Before Z Z' v w) (hZ : Z ≠ []) (hlen : Above Z (loop n v)) :
    Before Z Z' (Idt.loop n v) (Idt.loop n w) := by
  refine isLoop.simulates_while isLoop (fun v w h => ?_) (fun v _ => Above.of_body hZ)
    (fun v w h hv => h.body hZ hv) h hlen
  rw [h.1]

end Idt

theorem Before.nparserGetNextIdt {Z Z' : Bytes} {rb rb' rb₁ : ReadBuf} {r : IdtResult}
    {sb : StrBuf} (h : Before Z Z' rb rb') (hZ : Z ≠ [])
    (hidt : nparserGetNextIdt rb = (r, sb, rb₁)) (hlen : Z.length ≤ rb₁.input.length) :
    ∃ rb₁', Config.nparserGetNextIdt rb' = (r, sb, rb₁') ∧ Before Z Z' rb₁ rb₁' := by
  let n := max rb.input.length rb'.input.length + 1
  have hn : (Idt.init rb).rb.input.length < n := by
    exact Nat.lt_succ_of_le (Nat.le_max_left _ _)
  have hn' : (Idt.init rb').rb.input.length < n := by
    exact Nat.lt_succ_of_le (Nat.le_max_right _ _)
  have hstop := Idt.run_stops (Idt.init rb)
  rw [nparserGetNextIdt_eq] at hidt ⊢
  rw [Idt.run_eq_loop hn] at hidt hstop
  rw [Idt.run_eq_loop hn']
  simp only [Prod.mk.injEq] at hidt
  obtain ⟨rfl, rfl, rfl⟩ := hidt
  have habove : Idt.Above Z (Idt.loop n (Idt.init rb)) := by
    rcases Nat.lt_or_eq_of_le hlen with hlt | heq
    · exact .inl hlt
    · exact .inr ⟨heq, .inr hstop⟩
  obtain ⟨-, hr, hsb, hrb⟩ :=
    Idt.Before.loop (v := Idt.init rb) (w := Idt.init rb') ⟨rfl, rfl, rfl, h⟩ hZ habove
  dsimp only
  rw [hr, hsb]
  exact ⟨_, rfl, hrb⟩

namespace Val
variable {Z Z' : Bytes} {v w : Val}

/-- Values that are read alike before the rests of the files. -/
def Before (Z Z' : Bytes) (v w : Val) : Prop :=
  v.state = w.state ∧ v.ok = w.ok ∧ v.sb = w.sb ∧ Config.Before Z Z' v.rb w.rb

/-- The loop has not read beyond `Z`, and need not when only `Z` is left. -/
def Above (Z : Bytes) (v : Val) : Prop :=
  Z.length < v.rb.input.length ∨ (Z.length = v.rb.input.length ∧ v.state = .stop)

theorem Above.le (h : Above Z v) : Z.length ≤ v.rb.input.length := by
  rcases h with h | h
  · exact Nat.le_of_lt h
  · exact Nat.le_of_eq h.1

theorem Above.of_body (hZ : Z ≠ []) (h : Above Z v.body) : Above Z v :=
  .inl (lt_of_next (f := fun c rb => ({ v with rb := rb }.switch c).rb)
    (fun _ _ => switch_suffix _ _) (List.length_pos_of_ne_nil hZ) h.le)

/-- A CR does not end a line. -/
theorem switch_carriageReturn (h : v.state ≠ .stop) :
    (v.switch (some carriageReturn)).state ≠ .stop := by
  obtain ⟨st, ok, sb, rb⟩ := v
  cases st <;> first
    | exact absurd rfl h
    | exact fun hst => by cases hst

theorem Before.body (h : Before Z Z' v w) (hZ : Z ≠ []) (hv : v.state ≠ .stop)
    (hlen : Above Z v.body) : Before Z Z' v.body w.body := by
  obtain ⟨st, ok, sb, rb⟩ := v
  obtain ⟨st', ok', sb', rb'⟩ := w
  obtain ⟨rfl, rfl, rfl, hrb⟩ := h
  have hle : Z.length ≤ rb.next.2.input.length :=
    Nat.le_trans hlen.le (switch_suffix ⟨st, ok, sb, rb.next.2⟩ rb.next.1).length_le
  rcases hrb.next hZ hle with ⟨hc, hnext⟩ | ⟨hcr, hinput⟩
  · simp only [Val.body] at hlen ⊢
    rw [← hc]
    generalize rb.next.2 = rb₁ at hnext hlen
    generalize rb'.next.2 = rb₁' at hnext
    have halike := switch_alike st ok sb rb₁ rb₁' rb.next.1
    revert halike hlen
    generalize switch ⟨st, ok, sb, rb₁⟩ rb.next.1 = v'
    generalize switch ⟨st, ok, sb, rb₁'⟩ rb.next.1 = w'
    intro hlen halike
    cases halike with
    | plain st' ok' sb' => exact ⟨rfl, rfl, rfl, hnext⟩
    | unescaped c st' hst' =>
      -- the value goes on, so that a byte before the rest is left
      have hlt : Z.length < (Config.charUnescape sb c rb₁).2.input.length := by
        refine hlen.resolve_right fun hend => ?_
        rcases hst' with rfl | rfl <;> cases hend.2
      obtain ⟨hsb, hrb₂⟩ := hnext.charUnescape sb c hlt
      exact ⟨rfl, rfl, hsb, hrb₂⟩
  · -- after a CR the loop goes on
    have hstop := switch_carriageReturn (v := ⟨st, ok, sb, rb.next.2⟩) hv
    have hsuffix := (switch_suffix ⟨st, ok, sb, rb.next.2⟩ (some carriageReturn)).length_le
    rw [Val.body, hcr] at hlen
    rcases hlen with hlt | ⟨-, hst⟩
    · dsimp only at hsuffix hlt
      rw [hinput] at hsuffix
      omega
    · exact absurd hst hstop

theorem Before.loop {n : ℕ} (h : Before Z Z' v w) (hZ : Z ≠ []) (hlen : Above Z (loop n v)) :
    Before Z Z' (Val.loop n v) (Val.loop n w) := by
  refine isLoop.simulates_while isLoop (fun v w h => ?_) (fun v _ => Above.of_body hZ)
    (fun v w h hv => h.body hZ hv) h hlen
  rw [h.1]

end Val

theorem Before.nparserGetNextValue {Z Z' : Bytes} {rb rb' rb₁ : ReadBuf} {ok : Bool}
    {sb : StrBuf} (h : Before Z Z' rb rb') (hZ : Z ≠ [])
    (hval : nparserGetNextValue rb = (ok, sb, rb₁)) (hlen : Z.length ≤ rb₁.input.length) :
    ∃ rb₁', Config.nparserGetNextValue rb' = (ok, sb, rb₁') ∧ Before Z Z' rb₁ rb₁' := by
  let n := max rb.input.length rb'.input.length + 1
  have hn : (Val.init rb).rb.input.length < n := by
    exact Nat.lt_succ_of_le (Nat.le_max_left _ _)
  have hn' : (Val.init rb').rb.input.length < n := by
    exact Nat.lt_succ_of_le (Nat.le_max_right _ _)
  have hstop := Val.run_stops (Val.init rb)
  rw [nparserGetNextValue_eq] at hval ⊢
  rw [Val.run_eq_loop hn] at hval hstop
  rw [Val.run_eq_loop hn']
  simp only [Prod.mk.injEq] at hval
  obtain ⟨rfl, rfl, rfl⟩ := hval
  have habove : Val.Above Z (Val.loop n (Val.init rb)) := by
    have hle : Z.length ≤ (Val.loop n (Val.init rb)).rb.input.length := by
      split at hlen <;> exact hlen
    rcases Nat.lt_or_eq_of_le hle with hlt | heq
    · exact .inl hlt
    · exact .inr ⟨heq, hstop⟩
  obtain ⟨-, hok, hsb, hrb⟩ :=
    Val.Before.loop (v := Val.init rb) (w := Val.init rb') ⟨rfl, rfl, rfl, h⟩ hZ habove
  dsimp only
  rw [hok, hsb]
  refine ⟨_, rfl, ?_⟩
  split <;> exact hrb

/-! ## Locality of `parser_read` -/

namespace Reading
variable {Z Z' : Bytes} {v v' w : Reading}

/-- Readings of two files that have built the same before the rests of the files. -/
def Before (Z Z' : Bytes) (v w : Reading) : Prop :=
  Config.Before Z Z' v.rb w.rb ∧ v.sbSection = w.sbSection ∧ v.parser = w.parser

theorem Before.readKey {rb rb' : ReadBuf} (h : Before Z Z' v w) (hrb : Config.Before Z Z' rb rb')
    (hZ : Z ≠ []) (sbIdt : StrBuf) (hlen : Z.length ≤ (v.readKey rb sbIdt).rb.input.length) :
    Before Z Z' (v.readKey rb sbIdt) (w.readKey rb' sbIdt) := by
  obtain ⟨-, hsection, hparser⟩ := h
  cases hval : nparserGetNextValue rb with
  | mk ok q =>
    obtain ⟨sb, rb₁⟩ := q
    have hle : Z.length ≤ rb₁.input.length := by
      simp only [Reading.readKey, hval] at hlen
      split_ifs at hlen <;> exact hlen
    obtain ⟨rb₁', hval', hrb₁⟩ := hrb.nparserGetNextValue hZ hval hle
    have hpos : rb.pos = rb'.pos := by
      obtain ⟨s, -, -, hpos⟩ := hrb
      exact hpos
    simp only [Reading.readKey, hval, hval', ← hsection, ← hparser, hpos]
    split
    · exact ⟨hrb₁, rfl, rfl⟩
    split
    · exact ⟨hrb₁, rfl, rfl⟩
    split
    · exact ⟨hrb₁, rfl, rfl⟩
    · exact ⟨hrb₁, rfl, rfl⟩

theorem Before.round (h : Before Z Z' v w) (hZ : Z ≠ []) (hround : v.round = some v')
    (hlen : Z.length ≤ v'.rb.input.length) : ∃ w', w.round = some w' ∧ Before Z Z' v' w' := by
  cases hidt : nparserGetNextIdt v.rb with
  | mk r q =>
    obtain ⟨sb, rb⟩ := q
    rw [Reading.round, hidt] at hround
    have hle : Z.length ≤ rb.input.length := by
      cases r <;> cases hround
      · exact hlen
      · exact hlen
      · exact Nat.le_trans hlen (readKey_suffix v rb sb).length_le
    obtain ⟨rb', hidt', hrb⟩ := h.1.nparserGetNextIdt hZ hidt hle
    rw [Reading.round, hidt']
    cases r with
    | eof => cases hround
    | error =>
      cases hround
      exact ⟨_, rfl, hrb, h.2⟩
    | sectionName =>
      cases hround
      exact ⟨_, rfl, hrb, rfl, h.2.2⟩
    | keyName =>
      cases hround
      exact ⟨_, rfl, h.readKey hrb hZ sb hlen⟩

end Reading

/-! ## A line with an error -/

/-- The next character of a line. -/
theorem next_line {s : Bytes} (hs : newline ∉ s) :
    (∀ (rb : ReadBuf) (Z : Bytes), rb.input = s ++ newline :: Z →
        rb.next.1 = some newline ∧ rb.next.2.input = Z) ∨
      ∃ c s', c ≠ newline ∧ newline ∉ s' ∧ s'.length < s.length ∧
        ∀ (rb : ReadBuf) (Z : Bytes), rb.input = s ++ newline :: Z →
          rb.next.1 = some c ∧ rb.next.2.input = s' ++ newline :: Z := by
  cases s with
  | nil =>
    refine .inl fun rb Z h => ?_
    rw [next_of_cons h (by decide)]
    exact ⟨rfl, input_skip h⟩
  | cons c s =>
    rw [List.mem_cons, not_or] at hs
    by_cases hcr : c = carriageReturn ∧ s = []
    · obtain ⟨rfl, rfl⟩ := hcr
      refine .inl fun rb Z h => ?_
      simp [ReadBuf.next, h]
    · refine .inr ⟨c, s, Ne.symm hs.1, hs.2, Nat.lt_succ_self _, fun rb Z h => ?_⟩
      have hhead : ¬ (c = carriageReturn ∧ (s ++ newline :: Z).head? = some newline) := by
        rintro ⟨hc, hhead⟩
        cases s with
        | nil => exact hcr ⟨hc, rfl⟩
        | cons d s =>
          cases hhead
          exact hs.2 List.mem_cons_self
      rw [next_eq_skip h hhead]
      exact ⟨rfl, input_skip h⟩

/-- An escape does not leave the line. -/
theorem charUnescape_line {s : Bytes} (hs : newline ∉ s) (sb : StrBuf) (c : UInt8) :
    ∃ sb' s', newline ∉ s' ∧ s'.length ≤ s.length ∧
      ∀ (rb : ReadBuf) (Z : Bytes), rb.input = s ++ newline :: Z →
        (charUnescape sb c rb).1 = sb' ∧ (charUnescape sb c rb).2.input = s' ++ newline :: Z := by
  obtain ⟨t, ds, -, ⟨rest, hrest⟩, hdigits, hlocal, -⟩ :=
    charUnescape_spec sb c (.init (s ++ [newline]))
  -- the newline is not a digit
  have hds : ds <+: s := by
    rcases List.prefix_concat_iff.mp ⟨rest, hrest⟩ with heq | hds
    · have hx := hdigits newline (by rw [heq]; simp)
      cases hx
    · exact hds
  obtain ⟨s', rfl⟩ := hds
  refine ⟨sb.append t, s', fun hm => hs (List.mem_append_right _ hm), ?_, fun rb Z h => ?_⟩
  · rw [List.length_append]
    exact Nat.le_add_left _ _
  · rw [List.append_assoc] at h
    obtain ⟨e, r, r', he, he'⟩ :
        ∃ e r r', s' ++ [newline] = e :: r ∧ s' ++ newline :: Z = e :: r' := by
      cases s' with
      | nil => exact ⟨newline, [], Z, rfl, rfl⟩
      | cons e s' => exact ⟨e, _, _, rfl, rfl⟩
    have hrb : ReadBuf.input (.init (ds ++ s' ++ [newline])) = ds ++ e :: r := by
      rw [← he, ← List.append_assoc]
      rfl
    rw [hlocal e r rb r' hrb (h.trans (by rw [he']))]
    exact ⟨rfl, input_skips h⟩

namespace Idt
variable {v w : Idt} {c : UInt8} {s Z : Bytes}

/-- Nothing has been found as long as the loop can find another line. -/
structure Quiet (v : Idt) : Prop where
  ne_stop : v.state ≠ .stop
  eof : v.state = .start ∨ v.state = .comment → v.r = .eof

theorem Quiet.of_state (h : v.state ≠ .stop) (hstart : v.state ≠ .start)
    (hcomment : v.state ≠ .comment) : Quiet v :=
  ⟨h, fun hst => absurd hst (not_or.mpr ⟨hstart, hcomment⟩)⟩

theorem Quiet.switch (h : Quiet v) (hc : c ≠ newline) :
    Quiet (v.switch (some c)) ∨
      ((v.switch (some c)).state = .stop ∧ (v.switch (some c)).r = .keyName) := by
  obtain ⟨st, r, sb, rb⟩ := v
  obtain ⟨hne, heof⟩ := h
  have hquiet : ∀ sb rb, Quiet ⟨st, r, sb, rb⟩ := fun _ _ => ⟨hne, heof⟩
  cases st <;> simp only [Idt.switch, if_neg hc]
  -- the same state, the end of a key, a comment or another state
  all_goals first
    | exact absurd rfl hne
    | exact .inl (hquiet _ _)
    | split_ifs
      all_goals first
        | exact .inl (hquiet _ _)
        | exact .inr ⟨rfl, rfl⟩
        | exact .inl ⟨(fun h => by cases h), fun _ => heof (.inl rfl)⟩
        | exact .inl (.of_state (fun h => by cases h) (fun h => by cases h) (fun h => by cases h))
    | exact .inl (.of_state (fun h => by cases h) (fun h => by cases h) (fun h => by cases h))

theorem Quiet.switch_newline (h : Quiet v) :
    (v.switch (some newline)).rb.input = v.rb.input ∧
      ((v.switch (some newline)).state = .stop ∨
        ((v.switch (some newline)).state = .start ∧ (v.switch (some newline)).r = .eof)) := by
  obtain ⟨st, r, sb, rb⟩ := v
  obtain ⟨hne, heof⟩ := h
  cases st <;> first
    | exact absurd rfl hne
    | exact ⟨rfl, .inl rfl⟩
    | exact ⟨rfl, .inr ⟨rfl, heof (by simp)⟩⟩

/-- An error is found in its line. -/
theorem run_line (hs : newline ∉ s) (hv : v.rb.input = s ++ [newline])
    (hw : w.rb.input = s ++ newline :: Z) (hst : v.state = w.state) (hr : v.r = w.r)
    (hsb : v.sb = w.sb) (hquiet : Quiet v) (herror : (run v).r = .error) :
    (run w).r = .error ∧ (run w).rb.input = Z := by
  induction hlen : s.length using Nat.strong_induction_on generalizing s v w with
  | _ n ih =>
    obtain ⟨st, r, sb, rb⟩ := v
    obtain ⟨st', r', sb', rb'⟩ := w
    obtain rfl : st = st' := hst
    obtain rfl : r = r' := hr
    obtain rfl : sb = sb' := hsb
    have hne := hquiet.ne_stop
    have hne' : (⟨st, r, sb, rb'⟩ : Idt).state ≠ .stop := hquiet.ne_stop
    rw [run_body hne] at herror
    rw [run_body hne']
    simp only [body] at herror ⊢
    rcases next_line hs with hnext | ⟨c, s', hc, hs', hlt, hnext⟩
    · -- the end of the line
      obtain ⟨h₁, h₂⟩ := hnext rb [] hv
      obtain ⟨h₁', h₂'⟩ := hnext rb' Z hw
      rw [h₁] at herror
      rw [h₁']
      generalize rb.next.2 = rb₁ at *
      generalize rb'.next.2 = rb₁' at *
      have hquiet₁ : Quiet ⟨st, r, sb, rb₁⟩ := ⟨hquiet.ne_stop, hquiet.eof⟩
      obtain ⟨hrest, hend⟩ := hquiet₁.switch_newline
      obtain ⟨hrest', -⟩ := Quiet.switch_newline (v := ⟨st, r, sb, rb₁'⟩) ⟨hne', hquiet.eof⟩
      have halike := switch_alike st r sb rb₁ rb₁' (some newline)
      revert halike hrest hrest' hend herror
      generalize switch ⟨st, r, sb, rb₁⟩ (some newline) = v'
      generalize switch ⟨st, r, sb, rb₁'⟩ (some newline) = w'
      intro herror hrest hend hrest' halike
      obtain ⟨hst', hr'⟩ : v'.state = w'.state ∧ v'.r = w'.r := by
        cases halike <;> exact ⟨rfl, rfl⟩
      rcases hend with hstop | ⟨hstart, heof⟩
      · rw [run_stop hstop] at herror
        rw [run_stop (hst'.symm.trans hstop), hrest']
        exact ⟨hr'.symm.trans herror, h₂'⟩
      · -- nothing was found in the line
        rw [run_start_of_nil hstart (hrest.trans h₂), heof] at herror
        cases herror
    · -- a character of the line
      obtain ⟨h₁, h₂⟩ := hnext rb [] hv
      obtain ⟨h₁', h₂'⟩ := hnext rb' Z hw
      rw [h₁] at herror
      rw [h₁']
      generalize rb.next.2 = rb₁ at *
      generalize rb'.next.2 = rb₁' at *
      have hquiet₁ : Quiet ⟨st, r, sb, rb₁⟩ := ⟨hquiet.ne_stop, hquiet.eof⟩
      rcases hquiet₁.switch hc with hquiet₂ | ⟨hstop, hkey⟩
      · have halike := switch_alike st r sb rb₁ rb₁' (some c)
        revert halike hquiet₂ herror
        generalize switch ⟨st, r, sb, rb₁⟩ (some c) = v'
        generalize switch ⟨st, r, sb, rb₁'⟩ (some c) = w'
        intro herror hquiet₂ halike
        cases halike with
        | plain st' r' sb' =>
          exact ih s'.length (hlen ▸ hlt) (v := ⟨st', r', sb', rb₁⟩) hs' h₂ h₂' rfl rfl rfl hquiet₂
            herror rfl
        | logged st' r' sb' text =>
          exact ih s'.length (hlen ▸ hlt) (v := ⟨st', r', sb', rb₁.logMessage text⟩) hs' h₂ h₂' rfl
            rfl rfl hquiet₂ herror rfl
        | unescaped c st' hst' =>
          obtain ⟨sb', s'', hs'', hle, hsb⟩ := charUnescape_line hs' sb c
          obtain ⟨h₃, h₄⟩ := hsb rb₁ [] h₂
          obtain ⟨h₃', h₄'⟩ := hsb rb₁' Z h₂'
          exact ih s''.length (by omega) (v := unescape ⟨st, r, sb, rb₁⟩ c st') hs'' h₄ h₄' rfl rfl
            (h₃.trans h₃'.symm) hquiet₂ herror rfl
      · rw [run_stop hstop, hkey] at herror
        cases herror

end Idt

/-- A line with an error is read up to its end, whatever follows. -/
theorem nparserGetNextIdt_line {rb : ReadBuf} {L Z : Bytes} (hL : newline ∉ L)
    (herror : (nparserGetNextIdt (.init (L ++ [newline]))).1 = .error)
    (h : rb.input = L ++ newline :: Z) :
    ∃ sb rb', nparserGetNextIdt rb = (.error, sb, rb') ∧ rb'.input = Z := by
  have hquiet : Idt.Quiet (Idt.init (.init (L ++ [newline]))) := ⟨by simp [Idt.init], fun _ => rfl⟩
  obtain ⟨hr, hrest⟩ := Idt.run_line (v := Idt.init (.init (L ++ [newline])))
    (w := Idt.init rb) hL rfl h rfl rfl rfl hquiet herror
  refine ⟨(Idt.run (Idt.init rb)).sb, _, ?_, hrest⟩
  simp [nparserGetNextIdt_eq, hr]

/-! ## Identifiers of a file -/

/-- Where `parser_read` can stand, at the start of a new identifier: at the start of the file, after
a declaration, or after blanks and comments that `nparser_get_next_idt` has skipped. -/
inductive AtIdentifier (file : Bytes) (parser : ParserContext) : Reading → Prop where
  | init : AtIdentifier file parser ⟨.init file, .reset, parser⟩
  | round {v w : Reading} : AtIdentifier file parser v → v.round = some w →
      AtIdentifier file parser w
  | skip {v : Reading} {k : ℕ} {rb : ReadBuf} : AtIdentifier file parser v →
      Idt.loop k (Idt.init v.rb) = Idt.init rb → AtIdentifier file parser { v with rb := rb }

section AtIdentifier
variable {file : Bytes} {parser : ParserContext} {v w : Reading}

/-- A part of the loop does not matter for the identifier. -/
theorem nparserGetNextIdt_of_loop {k : ℕ} {rb rb' : ReadBuf}
    (h : Idt.loop k (Idt.init rb) = Idt.init rb') :
    nparserGetNextIdt rb' = nparserGetNextIdt rb := by
  rw [nparserGetNextIdt_eq, nparserGetNextIdt_eq, ← h, Idt.run_loop]

theorem Reading.result_of_round_eq (hround : v.round = w.round) (hparser : v.parser = w.parser) :
    v.result = w.result := by
  cases h : w.round with
  | none =>
    rw [result_of_round_eq_none h, result_of_round_eq_none (hround.trans h), hparser]
  | some w' =>
    rw [result_of_round_eq_some h, result_of_round_eq_some (hround.trans h)]

/-- The result of `parser_read` does not depend on where one looks. -/
theorem AtIdentifier.result_eq (h : AtIdentifier file parser v) :
    v.result = parserRead file parser := by
  induction h with
  | init => rfl
  | round _ hround ih =>
    rw [← Reading.result_of_round_eq_some hround]
    exact ih
  | @skip v k rb _ hskip ih =>
    rw [← ih]
    refine Reading.result_of_round_eq ?_ rfl
    simp only [Reading.round, nparserGetNextIdt_of_loop hskip, Reading.readKey]

theorem Reading.round_inv (hinv : v.parser.Inv) (h : v.round = some w) : w.parser.Inv := by
  rw [round] at h
  split at h <;> cases h
  · exact hinv
  · unfold readKey
    dsimp only
    split_ifs
    all_goals first
      | exact hinv
      | exact hinv.set _ _ _ _
  · exact hinv

theorem AtIdentifier.inv (h : AtIdentifier file parser v) (hparser : parser.Inv) :
    v.parser.Inv := by
  induction h with
  | init => exact hparser
  | round _ hround ih => exact Reading.round_inv ih hround
  | skip _ _ ih => exact ih

/-- A reading of another file with the same start. -/
theorem AtIdentifier.before {F Z : Bytes} (h : AtIdentifier (F ++ Z) parser v) (Z' : Bytes)
    (hZ : Z ≠ []) (hlen : Z.length ≤ v.rb.input.length) :
    ∃ w, AtIdentifier (F ++ Z') parser w ∧ v.Before Z Z' w := by
  induction h with
  | init => exact ⟨_, .init, ⟨F, rfl, rfl, rfl⟩, rfl, rfl⟩
  | @round v v' _ hround ih =>
    have hlt := Reading.round_length hround
    obtain ⟨w, hw, hbefore⟩ := ih (Nat.le_trans hlen (Nat.le_of_lt hlt))
    obtain ⟨w', hround', hbefore'⟩ := hbefore.round hZ hround hlen
    exact ⟨w', hw.round hround', hbefore'⟩
  | @skip v k rb _ hskip ih =>
    have hsuffix := (Idt.loop_suffix k (Idt.init v.rb)).length_le
    rw [hskip] at hsuffix
    obtain ⟨w, hw, hrb, hbefore⟩ := ih (Nat.le_trans hlen hsuffix)
    have habove : Idt.Above Z (Idt.loop k (Idt.init v.rb)) := by
      rw [hskip]
      rcases Nat.lt_or_eq_of_le hlen with hlt | heq
      · exact .inl hlt
      · exact .inr ⟨heq, .inl rfl⟩
    obtain ⟨hst, hr, hsb, hrb'⟩ :=
      Idt.Before.loop (v := Idt.init v.rb) (w := Idt.init w.rb) ⟨rfl, rfl, rfl, hrb⟩ hZ habove
    rw [hskip] at hst hr hsb hrb'
    have hskip' : Idt.loop k (Idt.init w.rb) =
        Idt.init (Idt.loop k (Idt.init w.rb)).rb := by
      revert hst hr hsb
      generalize Idt.loop k (Idt.init w.rb) = u
      obtain ⟨st, r, sb, rb'⟩ := u
      rintro rfl rfl rfl
      rfl
    exact ⟨_, hw.skip hskip', hrb', hbefore⟩

/-- Contexts with the same contents. -/
structure SameContent (p p' : ParserContext) : Prop where
  inv : p.Inv
  inv' : p'.Inv
  content_eq : p.content = p'.content
  allowDefault_eq : p.allowDefault = p'.allowDefault
  allowEmptyValue_eq : p.allowEmptyValue = p'.allowEmptyValue

theorem buildSim_sameContent :
    BuildSim (fun rb rb' => rb.input = rb'.input) SameContent where
  read := by
    refine ⟨fun {rb rb'} h => ?_, fun {rb rb'} h => ?_, fun _ _ h => h⟩
    · simp only [ReadBuf.next, h]
      split
      · exact ⟨rfl, h⟩
      · split <;> exact ⟨rfl, rfl⟩
    · rw [ReadBuf.peek, h]
      rfl
  flags := fun h => ⟨h.allowDefault_eq, h.allowEmptyValue_eq⟩
  set := by
    intro p p' rb rb' sectionName key value _ h
    refine ⟨h.inv.set _ _ _ _, h.inv'.set _ _ _ _, ?_, h.allowDefault_eq, h.allowEmptyValue_eq⟩
    rw [h.inv.content_set, h.inv'.content_set, h.content_eq]

/-- A line on which `nparser_get_next_idt` finds an error can be left out: it takes the line away
and nothing else, and `parser_read` stores the same sections, keys and values without it. -/
theorem parserRead_error_line (F₁ L F₂ : Bytes) (hL : newline ∉ L)
    (herror : (nparserGetNextIdt (.init (L ++ [newline]))).1 = .error)
    (parser : ParserContext) (hparser : parser.Inv) (v : Reading)
    (hv : AtIdentifier (F₁ ++ (L ++ newline :: F₂)) parser v)
    (hinput : v.rb.input = L ++ newline :: F₂) :
    (∃ rb, v.round = some { v with rb := rb } ∧ rb.input = F₂) ∧
      (parserRead (F₁ ++ (L ++ newline :: F₂)) parser).content =
        (parserRead (F₁ ++ F₂) parser).content := by
  obtain ⟨sb, rb, hidt, hrb⟩ := nparserGetNextIdt_line hL herror hinput
  have hround : v.round = some { v with rb := rb } := by
    rw [Reading.round, hidt]
  refine ⟨⟨rb, hround, hrb⟩, ?_⟩
  -- both readings go on with the same bytes and the same contents
  obtain ⟨w, hw, ⟨s, hs, hs', -⟩, hsection, hbuilt⟩ :=
    hv.before F₂ (by simp) (by rw [hinput])
  have hnil : s = [] := by
    rw [hinput] at hs
    exact List.self_eq_append_left.mp hs
  have hrb' : rb.input = w.rb.input := by
    rw [hrb, hs', hnil, List.nil_append]
  have hinv := hv.inv hparser
  have hsame : SameContent v.parser w.parser := by
    rw [← hbuilt]
    exact ⟨hinv, hinv, rfl, rfl, rfl⟩
  rw [← hv.result_eq, ← hw.result_eq, Reading.result_of_round_eq_some hround]
  exact (buildSim_sameContent.result (v := { v with rb := rb }) ⟨hrb', hsection, hsame⟩).content_eq

/-- The line `]b` between `[a]` and `c=d`. -/
theorem parserRead_error_line_short :
    (parserRead [91, 97, 93, 10, 93, 98, 10, 99, 61, 100, 10] (parserInit false false)).content =
      (parserRead [91, 97, 93, 10, 99, 61, 100, 10] (parserInit false false)).content :=
  (parserRead_error_line [91, 97, 93, 10] [93, 98] [99, 61, 100, 10] (by decide) (by decide) _
    (inv_parserInit _ _) _ (.round .init rfl) rfl).2

end AtIdentifier

end Config
end Campagnol
