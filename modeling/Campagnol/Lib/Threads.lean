import Mathlib.Data.List.Basic
import Mathlib.Logic.Function.Basic
import Mathlib.Logic.Relation
import Mathlib.Tactic.Common

/-!
# Threads with mutexes

A thread runs a program over shared data whose calls are the locks and unlocks of mutexes. One
step of the system is one call of one thread, with its code up to the next call.

* `Respects`: what a program locks, given what it holds. It is checked on the text of a program.
* `Sound.run`: every thread holds what the text of its program says.
* `no_cycle`: threads that wait only for mutexes of a higher rank than those they hold do not wait
  for each other in a circle.
-/

namespace Campagnol
namespace Threads

variable {τ σ L : Type}

/-! ## Programs -/

/-- The rest of the code of a thread. -/
inductive Prog (σ L : Type) where
  | done
  | lock (l : L) (k : Prog σ L)
  | unlock (l : L) (k : Prog σ L)
  /-- Other threads may run here. -/
  | pause (k : Prog σ L)
  | effect (f : σ → σ) (k : Prog σ L)
  | read (k : σ → Prog σ L)

/-- Run the code up to the next call. -/
def Prog.settle : Prog σ L → σ → σ × Prog σ L
  | .effect f k, s => k.settle (f s)
  | .read k, s => (k s).settle s
  | prog, s => (s, prog)

/-- The mutex that the next call of a program locks. -/
def Prog.wants : Prog σ L → Option L
  | .lock l _ => some l
  | _ => none

/-! ## Systems -/

/-- The shared data and the threads. `held t` are the mutexes of `t`, as often as it has locked
them, and `blocked t` says that it sleeps in its call. -/
structure System (τ σ L : Type) where
  data : σ
  prog : τ → Prog σ L
  held : τ → List L
  owner : L → Option τ
  blocked : τ → Bool

/-- No thread has begun. -/
def System.init (s : σ) : System τ σ L where
  data := s
  prog := fun _ => .done
  held := fun _ => []
  owner := fun _ => none
  blocked := fun _ => false

namespace System
variable [DecidableEq τ] [DecidableEq L] (recursive : L → Bool)

/-- The thread `t` runs the code `k` up to its next call. -/
def goOn (sys : System τ σ L) (t : τ) (k : Prog σ L) : System τ σ L :=
  { sys with
    data := (k.settle sys.data).1
    prog := Function.update sys.prog t (k.settle sys.data).2 }

/-- The thread `t` gets the mutex `l` without waiting. -/
def available (sys : System τ σ L) (t : τ) (l : L) : Bool :=
  match sys.owner l with
  | none => true
  | some u => u = t && recursive l

/-- The thread `t` locks the mutex `l`. -/
def take (sys : System τ σ L) (t : τ) (l : L) : System τ σ L :=
  { sys with
    held := Function.update sys.held t (l :: sys.held t)
    owner := Function.update sys.owner l (some t)
    blocked := Function.update sys.blocked t false }

/-- The thread `t` unlocks the mutex `l`. -/
def release (sys : System τ σ L) (t : τ) (l : L) : System τ σ L :=
  let rest := (sys.held t).erase l
  { sys with
    held := Function.update sys.held t rest
    owner := Function.update sys.owner l (if l ∈ rest then some t else none) }

/-- The next call of the thread `t`. -/
def run (sys : System τ σ L) (t : τ) : Option (System τ σ L) :=
  match sys.prog t with
  | .lock l k =>
    if sys.available recursive t l then some ((sys.take t l).goOn t k)
    else if sys.blocked t then none
    else some { sys with blocked := Function.update sys.blocked t true }
  | .unlock l k => some ((sys.release t l).goOn t k)
  | .pause k => some (sys.goOn t k)
  | _ => none

/-- The thread `t` begins a program, after the end of the last one. -/
def start (sys : System τ σ L) (t : τ) (code : Prog σ L) : Option (System τ σ L) :=
  match sys.prog t with
  | .done => some (sys.goOn t code)
  | _ => none

/-- The thread `t` sleeps until `u` unlocks a mutex. -/
def WaitsFor (sys : System τ σ L) (t u : τ) : Prop :=
  ∃ l k, sys.prog t = .lock l k ∧ sys.blocked t = true ∧ sys.available recursive t l = false ∧
    sys.owner l = some u

end System

/-! ## The locks of a program -/

section Respects
variable [DecidableEq L] {allowed : List L → L → Prop} {held : List L}

/-- The program locks a mutex only if `allowed`, unlocks what it holds, and holds nothing at its
end. -/
def Prog.Respects (allowed : List L → L → Prop) : Prog σ L → List L → Prop
  | .done, held => held = []
  | .lock l k, held => allowed held l ∧ k.Respects allowed (l :: held)
  | .unlock l k, held => l ∈ held ∧ k.Respects allowed (held.erase l)
  | .pause k, held => k.Respects allowed held
  | .effect _ k, held => k.Respects allowed held
  | .read k, held => ∀ s, (k s).Respects allowed held

theorem Prog.Respects.settle {prog : Prog σ L} (h : prog.Respects allowed held) (s : σ) :
    (prog.settle s).2.Respects allowed held := by
  induction prog generalizing s with
  | effect f k ih => exact ih h (f s)
  | read k ih => exact ih s (h s) s
  | _ => exact h

end Respects

/-! ## Invariants -/

section Invariants
variable [DecidableEq τ] [DecidableEq L] {allowed : τ → List L → L → Prop} {recursive : L → Bool}
  {rank : L → ℕ} {sys sys' : System τ σ L} {t : τ}

/-- Every thread holds what the text of its program says. -/
structure System.Sound (allowed : τ → List L → L → Prop) (sys : System τ σ L) : Prop where
  owner_iff : ∀ l t, sys.owner l = some t ↔ l ∈ sys.held t
  respects : ∀ t, (sys.prog t).Respects (allowed t) (sys.held t)

omit [DecidableEq τ] in
theorem sound_init (s : σ) : (System.init s : System τ σ L).Sound allowed where
  owner_iff := fun l t => ⟨(fun h => by cases h), fun h => by cases h⟩
  respects := fun t => rfl

namespace System

omit [DecidableEq τ] in
theorem Sound.data (h : sys.Sound allowed) (s : σ) : { sys with data := s }.Sound allowed :=
  ⟨h.owner_iff, h.respects⟩

theorem Sound.goOn (howner : ∀ l t, sys.owner l = some t ↔ l ∈ sys.held t) {k : Prog σ L}
    (hk : k.Respects (allowed t) (sys.held t))
    (hother : ∀ u, u ≠ t → (sys.prog u).Respects (allowed u) (sys.held u)) :
    (sys.goOn t k).Sound allowed where
  owner_iff := howner
  respects := by
    intro u
    by_cases hu : u = t
    · subst hu
      simpa [System.goOn] using hk.settle sys.data
    · simpa [System.goOn, hu] using hother u hu

theorem Sound.start (h : sys.Sound allowed) {code : Prog σ L}
    (hcode : code.Respects (allowed t) []) (hs : sys.start t code = some sys') :
    sys'.Sound allowed := by
  unfold System.start at hs
  split at hs
  · rename_i hdone
    cases hs
    have hheld : sys.held t = [] := by
      have hr := h.respects t
      rw [hdone] at hr
      exact hr
    exact Sound.goOn h.owner_iff (hheld ▸ hcode) fun u _ => h.respects u
  · cases hs

/-- A mutex that `t` can get belongs to nobody else. -/
theorem Sound.owner_of_available (h : sys.Sound allowed) {l : L} {u : τ}
    (ha : sys.available recursive t l = true) (hu : l ∈ sys.held u) : u = t := by
  have howner := (h.owner_iff l u).mpr hu
  simp only [System.available, howner, Bool.and_eq_true, decide_eq_true_eq] at ha
  exact ha.1

theorem Sound.take_owner (h : sys.Sound allowed) {l : L}
    (ha : sys.available recursive t l = true) (l' : L) (u : τ) :
    (sys.take t l).owner l' = some u ↔ l' ∈ (sys.take t l).held u := by
  by_cases hl : l' = l
  · subst hl
    by_cases hu : u = t
    · subst hu
      simp [System.take]
    · have hne : l' ∉ sys.held u := fun hm => hu (h.owner_of_available ha hm)
      simp [System.take, hu, hne, Ne.symm hu]
  · by_cases hu : u = t
    · subst hu
      simp [System.take, hl, h.owner_iff]
    · simp [System.take, hl, hu, h.owner_iff]

theorem Sound.release_owner (h : sys.Sound allowed) {l : L} (hl : l ∈ sys.held t) (l' : L) (u : τ) :
    (sys.release t l).owner l' = some u ↔ l' ∈ (sys.release t l).held u := by
  by_cases hl' : l' = l
  · subst hl'
    by_cases hu : u = t
    · subst hu
      simp [System.release]
    · -- the mutex belonged to `t`
      have hne : l' ∉ sys.held u := fun hm => by
        have hown := ((h.owner_iff l' u).mpr hm).symm.trans ((h.owner_iff l' t).mpr hl)
        exact hu (Option.some.inj hown)
      simp [System.release, hu, hne, Ne.symm hu]
  · by_cases hu : u = t
    · subst hu
      simp [System.release, hl', List.mem_erase_of_ne hl', h.owner_iff]
    · simp [System.release, hl', hu, h.owner_iff]

/-- One call of a thread. -/
theorem Sound.run (h : sys.Sound allowed) (hs : sys.run recursive t = some sys') :
    sys'.Sound allowed := by
  have hr := h.respects t
  unfold System.run at hs
  split at hs
  · rename_i l k hpc
    rw [hpc] at hr
    split at hs
    · rename_i ha
      cases hs
      refine Sound.goOn (h.take_owner ha) ?_ fun u hu => ?_
      · simpa [System.take] using hr.2
      · simpa [System.take, hu] using h.respects u
    · split at hs
      · cases hs
      · cases hs
        exact ⟨h.owner_iff, h.respects⟩
  · rename_i l k hpc
    rw [hpc] at hr
    cases hs
    refine Sound.goOn (h.release_owner hr.1) ?_ fun u hu => ?_
    · simpa [System.release] using hr.2
    · simpa [System.release, hu] using h.respects u
  · rename_i k hpc
    rw [hpc] at hr
    cases hs
    exact Sound.goOn h.owner_iff hr fun u _ => h.respects u
  · cases hs

end System

/-! ## The order of the mutexes -/

/-- The mutex `l` comes after those that are held, or is held and recursive. -/
def Ordered (rank : L → ℕ) (recursive : L → Bool) (held : List L) (l : L) : Prop :=
  ∀ l' ∈ held, rank l' < rank l ∨ l' = l ∧ recursive l = true

/-- A thread that sleeps in a call waits for a mutex of a higher rank than all it holds. -/
def System.Ranked (rank : L → ℕ) (sys : System τ σ L) : Prop :=
  ∀ t, sys.blocked t = true → ∃ l k, sys.prog t = .lock l k ∧ ∀ l' ∈ sys.held t, rank l' < rank l

omit [DecidableEq τ] [DecidableEq L] in
theorem ranked_init (s : σ) : (System.init s : System τ σ L).Ranked rank :=
  fun _ hb => by cases hb

namespace System

omit [DecidableEq L] in
/-- A thread that does not sleep goes on. -/
theorem Ranked.goOn (hother : ∀ u, u ≠ t → sys.blocked u = true →
      ∃ l k, sys.prog u = .lock l k ∧ ∀ l' ∈ sys.held u, rank l' < rank l)
    (ht : sys.blocked t = false) (k : Prog σ L) : (sys.goOn t k).Ranked rank := by
  intro u hb
  by_cases hu : u = t
  · subst hu
    exact absurd hb (by simp [System.goOn, ht])
  · obtain ⟨l, k', hpc, hlt⟩ := hother u hu hb
    exact ⟨l, k', by simp [System.goOn, hu, hpc], hlt⟩

omit [DecidableEq L] in
theorem Ranked.start (h : sys.Ranked rank) {code : Prog σ L}
    (hs : sys.start t code = some sys') : sys'.Ranked rank := by
  unfold System.start at hs
  split at hs
  · rename_i hdone
    cases hs
    refine Ranked.goOn (fun u _ => h u) ?_ code
    by_contra hb
    obtain ⟨l, k, hpc, -⟩ := h t (Bool.not_eq_false _ ▸ hb)
    rw [hdone] at hpc
    cases hpc
  · cases hs

omit [DecidableEq τ] [DecidableEq L] in
/-- A thread that is not in a call of `lock` does not sleep. -/
theorem Ranked.awake (h : sys.Ranked rank) (hpc : ∀ l k, sys.prog t ≠ .lock l k) :
    sys.blocked t = false := by
  by_contra hb
  obtain ⟨l, k, hlock, -⟩ := h t (Bool.not_eq_false _ ▸ hb)
  exact hpc l k hlock

/-- One call of a thread that locks in the order of the ranks, or does not have to wait. -/
theorem Ranked.run (h : sys.Ranked rank) (hsound : sys.Sound allowed)
    (hcall : ∀ l k, sys.prog t = .lock l k →
      Ordered rank recursive (sys.held t) l ∨ sys.available recursive t l = true)
    (hs : sys.run recursive t = some sys') : sys'.Ranked rank := by
  unfold System.run at hs
  split at hs
  · rename_i l k hpc
    split at hs
    · cases hs
      refine Ranked.goOn (fun u hu hb => ?_) (by simp [System.take]) k
      obtain ⟨l', k', hpc', hlt⟩ := h u (by simpa [System.take, hu] using hb)
      exact ⟨l', k', hpc', by simpa [System.take, hu] using hlt⟩
    · rename_i ha
      split at hs
      · cases hs
      · cases hs
        intro u hb
        by_cases hu : u = t
        · subst hu
          refine ⟨l, k, hpc, fun l' hl' => ?_⟩
          rcases hcall l k hpc with hordered | hfree
          · rcases hordered l' hl' with hlt | ⟨rfl, hrec⟩
            · exact hlt
            · -- a recursive mutex is available to its owner
              have howner := (hsound.owner_iff l' u).mpr hl'
              exact absurd (by simp [System.available, howner, hrec]) ha
          · exact absurd hfree ha
        · exact h u (by simpa [hu] using hb)
  · rename_i l k hpc
    cases hs
    have hawake : (sys.release t l).blocked t = false := h.awake (by simp [hpc])
    refine Ranked.goOn (fun u hu hb => ?_) hawake k
    obtain ⟨l', k', hpc', hlt⟩ := h u hb
    exact ⟨l', k', hpc', by simpa [System.release, hu] using hlt⟩
  · rename_i k hpc
    cases hs
    exact Ranked.goOn (fun u _ => h u) (h.awake (t := t) (by simp [hpc])) k
  · cases hs

/-- Along a chain of waiting threads the ranks go up. -/
theorem Ranked.chain (h : sys.Ranked rank) (hsound : sys.Sound allowed) {u : τ}
    (hc : Relation.TransGen (sys.WaitsFor recursive) t u) :
    ∃ l k, sys.prog t = .lock l k ∧ sys.blocked t = true ∧
      ∃ l' ∈ sys.held u, rank l ≤ rank l' := by
  induction hc with
  | single hw =>
    obtain ⟨l, k, hpc, hb, -, howner⟩ := hw
    exact ⟨l, k, hpc, hb, l, (hsound.owner_iff l _).mp howner, Nat.le_refl _⟩
  | tail _ hw ih =>
    obtain ⟨l, k, hpc, hb, l', hl', hle⟩ := ih
    obtain ⟨m, k', hpc', hb', -, howner⟩ := hw
    obtain ⟨m', k'', hpc'', hlt⟩ := h _ hb'
    obtain ⟨rfl, -⟩ : m = m' ∧ k' = k'' := by
      rw [hpc'] at hpc''
      cases hpc''
      exact ⟨rfl, rfl⟩
    have hlt' := hlt l' hl'
    exact ⟨l, k, hpc, hb, m, (hsound.owner_iff m _).mp howner, by omega⟩

theorem Ranked.no_cycle (h : sys.Ranked rank) (hsound : sys.Sound allowed) (t : τ) :
    ¬ Relation.TransGen (sys.WaitsFor recursive) t t := by
  intro hc
  obtain ⟨l, k, hpc, hb, l', hl', hle⟩ := h.chain hsound hc
  obtain ⟨m, k', hpc', hlt⟩ := h t hb
  rw [hpc] at hpc'
  cases hpc'
  have hlt' := hlt l' hl'
  omega

end System
end Invariants

end Threads
end Campagnol
