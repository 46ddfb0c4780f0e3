import Campagnol.Config.Escapes
import Mathlib.Data.List.Chain

/-!
# Values

The grammar of the values in a file: quoted and unquoted segments, with blanks and continuation
lines between them.

* `nparserGetNextValue_render`: the texts of the segments are read one after the other;
* `not_commentIgnored`: a comment after an unquoted value becomes a part of the value.
-/

namespace Campagnol
namespace Config

/-! ## Segments -/

/-- A part of a quoted segment: a character, a newline as it is, or a backslash at the end of a
line. -/
inductive QuotedPart where
  | char (c : UInt8)
  | newline
  | continuation
deriving DecidableEq, Repr

/-- The part as it stands between the quotes. -/
def QuotedPart.render : QuotedPart → Bytes
  | .char c => escaped c
  | .newline => [Config.newline]
  | .continuation => [backslash, Config.newline]

/-- What the part stands for. -/
def QuotedPart.text : QuotedPart → Bytes
  | .char c => [c]
  | .newline => [Config.newline]
  | .continuation => []

/-- A text that is not quoted: it neither starts nor ends with a blank and has no character that
would end it. -/
structure UnquotedText (w : Bytes) : Prop where
  ne_nil : w ≠ []
  first : ∀ c ∈ w.head?, isblank c = false
  last : ∀ c ∈ w.getLast?, isblank c = false
  free : ∀ c ∈ w, c ≠ quote ∧ c ≠ backslash ∧ c ≠ newline ∧ isComment c = false

instance (w : Bytes) : Decidable (UnquotedText w) :=
  decidable_of_iff (w ≠ [] ∧ w.head?.all (!isblank ·) ∧ w.getLast?.all (!isblank ·) ∧
      w.all fun c => c ≠ quote ∧ c ≠ backslash ∧ c ≠ newline ∧ isComment c = false) <| by
    simp only [Option.all_eq_true, List.all_eq_true, Bool.not_eq_true', decide_eq_true_eq]
    exact ⟨fun h => ⟨h.1, h.2.1, h.2.2.1, h.2.2.2⟩, fun h => ⟨h.ne_nil, h.first, h.last, h.free⟩⟩

/-- A segment of a value. -/
inductive Segment where
  | quoted (parts : List QuotedPart)
  | unquoted (w : Bytes) (h : UnquotedText w) (hcr : carriageReturn ∉ w)

/-- The segment in the file. -/
def Segment.render : Segment → Bytes
  | .quoted parts => quote :: parts.flatMap QuotedPart.render ++ [quote]
  | .unquoted w _ _ => w

/-- What the segment stands for. -/
def Segment.text : Segment → Bytes
  | .quoted parts => parts.flatMap QuotedPart.text
  | .unquoted w _ _ => w

/-- The segment is not quoted. -/
def Segment.isUnquoted : Segment → Bool
  | .quoted _ => false
  | .unquoted _ _ _ => true

/-- What can stand between segments. -/
inductive GapPart where
  | space
  | tab
  | continuation
deriving DecidableEq, Repr

def GapPart.render : GapPart → Bytes
  | .space => [Config.space]
  | .tab => [Config.tab]
  | .continuation => [backslash, newline]

/-- Blanks and continuation lines. -/
abbrev Gap := List GapPart

def Gap.render (g : Gap) : Bytes := g.flatMap GapPart.render

/-- The segments of a value, each after a gap, and the gap before the end of the line. Two
segments that are not quoted stand on different lines. -/
structure ValueText where
  segments : List (Gap × Segment)
  last : Gap
  separated : segments.IsChain fun x y =>
    x.2.isUnquoted = true → y.2.isUnquoted = true → GapPart.continuation ∈ y.1

/-- The value in the file. -/
def ValueText.render (t : ValueText) : Bytes :=
  t.segments.flatMap (fun x => x.1.render ++ x.2.render) ++ t.last.render ++ [newline]

/-- What the value stands for. -/
def ValueText.text (t : ValueText) : Bytes := t.segments.flatMap fun x => x.2.text

/-! ## Reading a segment -/

namespace Val
variable {ok : Bool} {sb : StrBuf} {rb : ReadBuf} {c : UInt8} {s w rest : Bytes}

/-- The text between quotes. -/
theorem run_quotedParts {parts : List QuotedPart}
    (h : rb.input = parts.flatMap QuotedPart.render ++ rest) :
    ∃ rb', run ⟨.inQuote, ok, sb, rb⟩ =
      run ⟨.inQuote, ok, sb.append (parts.flatMap QuotedPart.text), rb'⟩ ∧ rb'.input = rest := by
  induction parts generalizing sb rb with
  | nil => exact ⟨rb, by simp, h⟩
  | cons part parts ih =>
    rw [List.flatMap_cons, List.append_assoc] at h
    rw [List.flatMap_cons, ← StrBuf.append_append]
    cases part with
    | char c =>
      have hc : rb.input = escapedText [c] ++ (parts.flatMap QuotedPart.render ++ rest) := by
        simpa [escapedText, QuotedPart.render] using h
      obtain ⟨rb', hrun, hrest⟩ := @ih (sb.append [c]) _ (input_skips hc)
      exact ⟨rb', (readBack hc).trans hrun, hrest⟩
    | newline =>
      obtain ⟨rb', hrun, hrest⟩ := @ih (sb.append [newline]) _ (input_skip h)
      exact ⟨rb', (run_step _ (by simp) h (by decide) rfl).trans hrun, hrest⟩
    | continuation =>
      obtain ⟨rb', hrun, hrest⟩ := @ih (sb.append []) _ (input_skip (input_skip h))
      refine ⟨rb', ?_, hrest⟩
      rw [run_step ⟨.inQuoteEsc, _, _, _⟩ (by simp) h (by decide) rfl,
        run_step ⟨.inQuote, _, _, _⟩ (by simp) (input_skip h) (by decide) rfl]
      exact (congrArg (fun sb => run ⟨_, _, sb, _⟩) (StrBuf.append_nil sb).symm).trans hrun

/-- A character outside of quotes. It is not the CR of CR LF. -/
theorem next_of_text (h : rb.input = c :: s ++ rest)
    (hs : ∀ d ∈ c :: s, d ≠ newline ∧ d ≠ backslash ∧ d ≠ quote)
    (hcr : carriageReturn ∉ c :: s ∨ rest.head? ≠ some newline) :
    rb.next = (some c, rb.skip c) := by
  refine next_eq_skip h ?_
  rintro ⟨rfl, hhead⟩
  rcases hcr with hnot | hrest
  · exact hnot List.mem_cons_self
  · cases s with
    | nil => exact hrest hhead
    | cons d s =>
      cases hhead
      exact (hs newline (by simp)).1 rfl

/-- Characters outside of quotes, up to a newline, a quote or a backslash. -/
theorem run_inUnquoted (h : rb.input = s ++ rest)
    (hs : ∀ c ∈ s, c ≠ newline ∧ c ≠ backslash ∧ c ≠ quote)
    (hcr : carriageReturn ∉ s ∨ rest.head? ≠ some newline) :
    run ⟨.inUnquoted, ok, sb, rb⟩ = run ⟨.inUnquoted, ok, sb.append s, rb.skips s⟩ := by
  induction s generalizing sb rb with
  | nil => rw [StrBuf.append_nil]; rfl
  | cons c s ih =>
    obtain ⟨hnewline, hbackslash, hquote⟩ := hs c List.mem_cons_self
    have hswitch : switch ⟨.inUnquoted, ok, sb, rb.skip c⟩ (some c) =
        ⟨.inUnquoted, ok, sb.push c, rb.skip c⟩ := by
      simp [switch, push, hnewline, hbackslash, hquote]
    rw [run_body (by simp), body, next_of_text h hs hcr, hswitch,
      ih (input_skip h) (fun d hd => hs d (List.mem_cons_of_mem _ hd)) ?_, StrBuf.push_append]
    · rfl
    · exact hcr.imp_left fun hnot hm => hnot (List.mem_cons_of_mem _ hm)

/-- A text that is not quoted, from its first character on. -/
theorem run_unquoted (h : rb.input = w ++ rest) (hw : UnquotedText w)
    (hcr : carriageReturn ∉ w ∨ rest.head? ≠ some newline) :
    run ⟨.start, ok, sb, rb⟩ = run ⟨.inUnquoted, ok, sb.append w, rb.skips w⟩ := by
  obtain ⟨c, s, rfl⟩ := List.exists_cons_of_ne_nil hw.ne_nil
  obtain ⟨hquote, hbackslash, hnewline, hcomment⟩ := hw.free c List.mem_cons_self
  have hblank := hw.first c rfl
  have hs : ∀ d ∈ c :: s, d ≠ newline ∧ d ≠ backslash ∧ d ≠ quote := by
    intro d hd
    obtain ⟨hquote, hbackslash, hnewline, -⟩ := hw.free d hd
    exact ⟨hnewline, hbackslash, hquote⟩
  have hswitch : switch ⟨.start, ok, sb, rb.skip c⟩ (some c) =
      ⟨.inUnquoted, ok, sb.push c, rb.skip c⟩ := by
    simp [switch, push, hquote, hbackslash, hnewline, hcomment, hblank]
  rw [run_body (by simp), body, next_of_text h hs hcr, hswitch,
    run_inUnquoted (input_skip h) (fun d hd => hs d (List.mem_cons_of_mem _ hd)) ?_,
    StrBuf.push_append]
  · rfl
  · exact hcr.imp_left fun hnot hm => hnot (List.mem_cons_of_mem _ hm)

/-- A backslash at the end of a line, outside of quotes. -/
theorem run_continuation {st : ValState} (hst : st = .start ∨ st = .inUnquoted)
    (h : rb.input = backslash :: newline :: rest) :
    run ⟨st, ok, sb, rb⟩ = run ⟨.start, ok, sb.rstrip, (rb.skip backslash).skip newline⟩ := by
  have hesc : run ⟨st, ok, sb, rb⟩ = run ⟨.inUnquotedEsc, ok, sb, rb.skip backslash⟩ := by
    rcases hst with rfl | rfl <;> exact run_step _ (by simp) h (by decide) rfl
  exact hesc.trans (run_step _ (by simp) (input_skip h) (by decide) rfl)

/-- Between two segments: after a quoted one, or after one that is not quoted, with the blanks that
have been read since. -/
inductive Between (text : Bytes) : Bool → Val → Prop where
  | start {sb : StrBuf} (rb : ReadBuf) (h : sb.Stripped) (htext : sb.s = text) :
      Between text false ⟨.start, true, sb, rb⟩
  | inUnquoted {sb : StrBuf} {b : Bytes} (rb : ReadBuf) (h : sb.Stripped) (htext : sb.s = text)
      (hb : ∀ c ∈ b, isblank c = true) : Between text true ⟨.inUnquoted, true, sb.append b, rb⟩

section Between
variable {text : Bytes} {unquoted : Bool} {v : Val}

theorem Between.gapPart {part : GapPart} (h : Between text unquoted v)
    (hinput : v.rb.input = part.render ++ rest) :
    ∃ v', run v = run v' ∧ v'.rb.input = rest ∧
      Between text (unquoted && part ≠ .continuation) v' := by
  cases h with
  | start rb hsb htext =>
    cases part with
    | continuation =>
      refine ⟨_, run_continuation (.inl rfl) hinput, input_skip (input_skip hinput), ?_⟩
      rw [hsb.rstrip_self]
      exact .start _ hsb htext
    | _ =>
      exact ⟨_, run_step ⟨.start, _, _, _⟩ (by simp) hinput (by decide) rfl, input_skip hinput,
        .start _ hsb htext⟩
  | @inUnquoted sb b rb hsb htext hb =>
    -- a blank may still be in the middle of the text
    have hblank : ∀ c, isblank c = true → rb.input = c :: rest → ∃ v',
        run ⟨.inUnquoted, true, sb.append b, rb⟩ = run v' ∧ v'.rb.input = rest ∧
          Between text true v' := by
      intro c hc hinput
      have hpush : (sb.append b).push c = sb.append (b ++ [c]) := by
        simp [StrBuf.push, StrBuf.append]
      refine ⟨⟨.inUnquoted, true, (sb.append b).push c, rb.skip c⟩, ?_, input_skip hinput, ?_⟩
      · simp only [isblank, Bool.or_eq_true, decide_eq_true_eq] at hc
        rcases hc with rfl | rfl <;> exact run_step _ (by simp) hinput (by decide) rfl
      · rw [hpush]
        refine .inUnquoted _ hsb htext fun d hd => ?_
        rcases List.mem_append.mp hd with hd | hd
        · exact hb d hd
        · rw [List.mem_singleton.mp hd]
          exact hc
    cases part with
    | continuation =>
      refine ⟨_, run_continuation (.inr rfl) hinput, input_skip (input_skip hinput), ?_⟩
      rw [hsb.rstrip_append hb]
      exact .start _ hsb htext
    | space => exact hblank space rfl hinput
    | tab => exact hblank tab rfl hinput

/-- The gap before a segment. -/
theorem Between.gap {g : Gap} (h : Between text unquoted v)
    (hinput : v.rb.input = g.render ++ rest) :
    ∃ v', run v = run v' ∧ v'.rb.input = rest ∧
      Between text (unquoted && GapPart.continuation ∉ g) v' := by
  induction g generalizing v unquoted with
  | nil => exact ⟨v, rfl, hinput, by simpa using h⟩
  | cons part g ih =>
    rw [Gap.render, List.flatMap_cons, List.append_assoc] at hinput
    obtain ⟨v₁, hrun₁, hinput₁, h₁⟩ := h.gapPart hinput
    obtain ⟨v₂, hrun₂, hinput₂, h₂⟩ := ih h₁ hinput₁
    refine ⟨v₂, hrun₁.trans hrun₂, hinput₂, ?_⟩
    have hunquoted : (unquoted && decide (GapPart.continuation ∉ part :: g)) =
        (unquoted && decide (part ≠ .continuation) && decide (GapPart.continuation ∉ g)) := by
      cases part <;> simp
    rw [hunquoted]
    exact h₂

/-- A segment. Where it is not quoted, the one before is quoted or on another line. -/
theorem Between.segment {x : Segment} (h : Between text unquoted v)
    (hinput : v.rb.input = x.render ++ rest) (hx : x.isUnquoted = true → unquoted = false) :
    ∃ v', run v = run v' ∧ v'.rb.input = rest ∧ Between (text ++ x.text) x.isUnquoted v' := by
  cases x with
  | quoted parts =>
    -- the blanks before the quote are taken away
    have hquote : ∃ sb rb₁, run v = run ⟨.inQuote, true, sb, rb₁⟩ ∧ sb.s = text ∧
        rb₁.input = parts.flatMap QuotedPart.render ++ (quote :: rest) := by
      rw [Segment.render, List.append_assoc] at hinput
      cases h with
      | start rb hsb htext =>
        exact ⟨_, _, run_step ⟨.inQuote, _, _, _⟩ (by simp) hinput (by decide) rfl, htext,
          input_skip hinput⟩
      | inUnquoted rb hsb htext hb =>
        refine ⟨_, _, run_step ⟨.inQuote, _, _, _⟩ (by simp) hinput (by decide) rfl, ?_,
          input_skip hinput⟩
        rw [hsb.rstrip_append hb]
        exact htext
    obtain ⟨sb, rb₁, hrun₁, htext, hinput₁⟩ := hquote
    obtain ⟨rb₂, hrun₂, hinput₂⟩ := run_quotedParts hinput₁
    refine ⟨_, hrun₁.trans (hrun₂.trans (run_step ⟨.start, _, _, _⟩ (by simp) hinput₂ (by decide)
      rfl)), input_skip hinput₂, .start _ ⟨Nat.le_refl _, .inl rfl⟩ ?_⟩
    rw [← htext]
    rfl
  | unquoted w hw hcr =>
    obtain rfl := hx rfl
    cases h with
    | @start sb rb hsb htext =>
      have hinput : rb.input = w ++ rest := hinput
      refine ⟨_, run_unquoted hinput hw (.inl hcr), input_skips hinput, ?_⟩
      have hstripped : (sb.append w).Stripped := by
        refine ⟨Nat.le_trans hsb.mark_le (by simp [StrBuf.append]), .inr fun c hc => ?_⟩
        refine hw.last c ?_
        rw [StrBuf.append, List.getLast?_append_of_ne_nil _ hw.ne_nil] at hc
        exact hc
      rw [← StrBuf.append_nil (sb.append w)]
      exact .inUnquoted _ hstripped (by rw [StrBuf.append, htext]; rfl) (by simp)

/-- The end of the line. -/
theorem Between.newline (h : Between text unquoted v) (hinput : v.rb.input = newline :: rest) :
    ∃ sb rb', run v = ⟨.stop, true, sb, rb'⟩ ∧ sb.s = text ∧ rb'.input = rest := by
  cases h with
  | start rb hsb htext =>
    refine ⟨_, _, ?_, htext, input_skip hinput⟩
    rw [run_step ⟨.stop, _, _, _⟩ (by simp) hinput (by decide) rfl, run_stop rfl]
  | @inUnquoted sb b rb hsb htext hb =>
    refine ⟨(sb.append b).rstrip, _, ?_, ?_, input_skip hinput⟩
    · rw [run_step ⟨.stop, _, _, _⟩ (by simp) hinput (by decide) rfl, run_stop rfl]
    · rw [hsb.rstrip_append hb]
      exact htext

theorem Between.segments {l : List (Gap × Segment)} (h : Between text unquoted v)
    (hinput : v.rb.input = l.flatMap (fun x => x.1.render ++ x.2.render) ++ rest)
    (hfirst : ∀ x ∈ l.head?, unquoted = true → x.2.isUnquoted = true →
      GapPart.continuation ∈ x.1)
    (hl : l.IsChain fun x y =>
      x.2.isUnquoted = true → y.2.isUnquoted = true → GapPart.continuation ∈ y.1) :
    ∃ unquoted' v', run v = run v' ∧ v'.rb.input = rest ∧
      Between (text ++ l.flatMap fun x => x.2.text) unquoted' v' := by
  induction l generalizing v text unquoted with
  | nil => exact ⟨unquoted, v, rfl, hinput, by simpa using h⟩
  | cons x l ih =>
    simp only [List.flatMap_cons, List.append_assoc] at hinput
    obtain ⟨v₁, hrun₁, hinput₁, h₁⟩ := h.gap hinput
    have hx : x.2.isUnquoted = true →
        (unquoted && decide (GapPart.continuation ∉ x.1)) = false := by
      intro hx
      cases unquoted with
      | false => rfl
      | true => simpa using hfirst x rfl rfl hx
    obtain ⟨v₂, hrun₂, hinput₂, h₂⟩ := h₁.segment hinput₁ hx
    obtain ⟨unquoted', v₃, hrun₃, hinput₃, h₃⟩ := ih h₂ hinput₂
      (fun y hy => hl.rel_head? hy) hl.tail
    refine ⟨unquoted', v₃, hrun₁.trans (hrun₂.trans hrun₃), hinput₃, ?_⟩
    rw [List.flatMap_cons, ← List.append_assoc]
    exact h₃

end Between
end Val

/-- `nparser_get_next_value` reads the texts of the segments one after the other, up to the
newline. -/
theorem nparserGetNextValue_render (t : ValueText) (rb : ReadBuf) (rest : Bytes)
    (h : rb.input = t.render ++ rest) :
    ∃ sb rb', nparserGetNextValue rb = (true, sb, rb') ∧ sb.s = t.text ∧ rb'.input = rest := by
  simp only [ValueText.render, List.append_assoc] at h
  have hinit : Val.Between [] false (Val.init rb) :=
    .start rb ⟨Nat.le_refl _, .inl rfl⟩ rfl
  obtain ⟨unquoted, v, hrun, hinput, hv⟩ := hinit.segments h (by simp) t.separated
  obtain ⟨v', hrun', hinput', hv'⟩ := hv.gap hinput
  obtain ⟨sb, rb', hstop, htext, hrest⟩ := hv'.newline hinput'
  refine ⟨sb, rb', ?_, htext, hrest⟩
  rw [nparserGetNextValue_eq, hrun, hrun', hstop]
  rfl

/-- `aze`, `" rty "` and `uio` on three lines. -/
def threeLines : ValueText where
  segments :=
    [([.space], .unquoted [97, 122, 101] (by decide) (by decide)),
      ([.continuation, .space, .space],
        .quoted [.char 32, .char 114, .char 116, .char 121, .char 32]),
      ([.continuation, .tab], .unquoted [117, 105, 111] (by decide) (by decide))]
  last := []
  separated := by simp [Segment.isUnquoted]

theorem nparserGetNextValue_threeLines :
    ∃ sb rb', nparserGetNextValue (.init (threeLines.render ++ [120])) = (true, sb, rb') ∧
      sb.s = [97, 122, 101, 32, 114, 116, 121, 32, 117, 105, 111] ∧ rb'.input = [120] :=
  nparserGetNextValue_render threeLines _ [120] rfl

/-! ## Comments after a value -/

namespace Val
variable {v : Val} {P : Bytes}

/-- What a value starts with stays when it does not end with a blank. -/
theorem prefix_switch (h : P <+: v.sb.s) (hlast : ∀ c ∈ P.getLast?, isblank c = false)
    (c : Option UInt8) : P <+: (v.switch c).sb.s := by
  obtain ⟨st, ok, sb, rb⟩ := v
  have hpush : ∀ c, P <+: (sb.push c).s := fun c => h.trans (List.prefix_append _ _)
  have hunescape : ∀ c, P <+: (charUnescape sb c rb).1.s := by
    intro c
    obtain ⟨s, ds, heq, -⟩ := charUnescape_spec sb c rb
    rw [heq]
    exact h.trans (List.prefix_append _ _)
  have hrstrip := StrBuf.prefix_rstrip h hlast
  cases st <;> cases c <;> simp only [switch]
  all_goals first
    | exact h
    | exact hrstrip
    | split_ifs
      all_goals first
        | exact h
        | exact hrstrip
        | exact hpush _
        | exact hunescape _

theorem prefix_run (h : P <+: v.sb.s) (hlast : ∀ c ∈ P.getLast?, isblank c = false) :
    P <+: (run v).sb.s :=
  isLoop.invariant (P := fun v => P <+: v.sb.s) h fun v _ hv =>
    prefix_switch (v := { v with rb := v.rb.next.2 }) hv hlast _

end Val

/-- A value `w` with a comment after it is read as `w`, up to the end of the line. -/
def CommentIgnored (w b : Bytes) (c : UInt8) (t rest : Bytes) : Prop :=
  ∃ sb rb', nparserGetNextValue (.init (w ++ (b ++ c :: (t ++ newline :: rest)))) =
    (true, sb, rb') ∧ sb.s = w ∧ rb'.input = rest

theorem ne_of_isComment {c : UInt8} (h : isComment c = true) :
    (c ≠ newline ∧ c ≠ backslash ∧ c ≠ quote) ∧ isblank c = false := by
  simp only [isComment, Bool.or_eq_true, decide_eq_true_eq] at h
  rcases h with rfl | rfl <;> decide

theorem ne_of_isblank {c : UInt8} (h : isblank c = true) :
    c ≠ newline ∧ c ≠ backslash ∧ c ≠ quote := by
  simp only [isblank, Bool.or_eq_true, decide_eq_true_eq] at h
  rcases h with rfl | rfl <;> decide

/-- A comment after a value that is not quoted is never ignored: in `ST_VAL_IN_UNQUOTED`
`nparser_get_next_value` pushes the character that starts it. -/
theorem not_commentIgnored (w b : Bytes) (c : UInt8) (t rest : Bytes) (hw : UnquotedText w)
    (hb : ∀ x ∈ b, isblank x = true) (hc : isComment c = true) : ¬ CommentIgnored w b c t rest := by
  rintro ⟨sb, rb', hval, hsb, -⟩
  have hcomment := ne_of_isComment hc
  let rb : ReadBuf := .init (w ++ (b ++ c :: (t ++ newline :: rest)))
  have hfree : ∀ x ∈ b ++ [c], x ≠ newline ∧ x ≠ backslash ∧ x ≠ quote := by
    intro x hx
    rcases List.mem_append.mp hx with hx | hx
    · exact ne_of_isblank (hb x hx)
    · rw [List.mem_singleton.mp hx]
      exact hcomment.1
  have hhead : (b ++ c :: (t ++ newline :: rest)).head? ≠ some newline := by
    cases b with
    | nil => exact fun h => hcomment.1.1 (Option.some.inj h)
    | cons x b => exact fun h => (hfree x (by simp)).1 (Option.some.inj h)
  have hnot : carriageReturn ∉ b ++ [c] := by
    intro hm
    rcases List.mem_append.mp hm with hm | hm
    · cases hb _ hm
    · rw [← List.mem_singleton.mp hm] at hc
      cases hc
  -- the comment character has been pushed, and stays
  have hinput : (rb.skips w).input = (b ++ [c]) ++ (t ++ newline :: rest) := by
    have hrb : rb.input = w ++ (b ++ c :: (t ++ newline :: rest)) := rfl
    rw [input_skips hrb]
    simp
  have hrun : Val.run (Val.init rb) =
      Val.run ⟨.inUnquoted, true, (StrBuf.reset.append w).append (b ++ [c]),
        (rb.skips w).skips (b ++ [c])⟩ := by
    rw [Val.init, Val.run_unquoted rfl hw (.inr hhead), Val.run_inUnquoted hinput hfree (.inl hnot)]
  have hprefix : w ++ (b ++ [c]) <+: (Val.run (Val.init rb)).sb.s := by
    rw [hrun]
    refine Val.prefix_run (List.prefix_refl _) fun x hx => ?_
    rw [← List.append_assoc, List.getLast?_concat] at hx
    cases hx
    exact hcomment.2
  have hsb' : sb = (Val.run (Val.init rb)).sb := by
    rw [nparserGetNextValue_eq] at hval
    exact (congrArg (fun r => r.2.1) hval).symm
  rw [← hsb', hsb] at hprefix
  have hlen := hprefix.length_le
  simp only [List.length_append, List.length_singleton] at hlen
  omega

theorem not_commentIgnored_semicolon : ¬ CommentIgnored [118] [tab] semicolon [34] [] :=
  not_commentIgnored _ _ _ _ _ (by decide) (by simp [isblank]) (by decide)

/-- The example of the manual, `value        # comment`. -/
theorem exists_not_commentIgnored :
    ¬ ∀ (w b : Bytes) (c : UInt8) (t rest : Bytes), UnquotedText w →
      (∀ x ∈ b, isblank x = true) → isComment c = true → newline ∉ t →
        CommentIgnored w b c t rest := by
  intro h
  let w : Bytes := [118, 97, 108, 117, 101]
  let b : Bytes := List.replicate 8 space
  let t : Bytes := [32, 99, 111, 109, 109, 101, 110, 116]
  have hb : ∀ x ∈ b, isblank x = true := fun x hx => by
    rw [List.eq_of_mem_replicate hx]
    rfl
  obtain ⟨sb, rb', hval, hsb, -⟩ := h w b hash t [] (by decide) hb rfl (by decide)
  have hread : (nparserGetNextValue (.init (w ++ (b ++ hash :: (t ++ [newline]))))).2.1.s =
      w ++ b ++ hash :: t := by decide
  rw [hval, hsb] at hread
  exact absurd hread (by decide)

end Config
end Campagnol
